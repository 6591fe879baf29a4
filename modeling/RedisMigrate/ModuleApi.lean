import Mathlib.Data.Rat.Defs

/-! # The Redis module API, as far as the module uses it

Strings are byte lists.  A `RedisModuleString` has an identity, since the module keeps
pointers into the buffers of such strings; a `CharPtr` is a pointer of that kind together with the
bytes that it pointed to when it was taken.  How long they stay there is a matter of the lifetimes
of the strings (`StringLifetimes`).  What Redis answers to the calls that a command
makes through its context (is this a keys-position request, does an argument parse as a number,
what does `CONFIG GET logfile` return) is data of the context, so that every theorem covers
every answer. -/

namespace RedisMigrate

abbrev Bytes := List UInt8

/-- The bytes of a string literal of the source. -/
def ascii (s : String) : Bytes := s.toList.map (fun c => UInt8.ofNat c.toNat)

/-- `RedisModuleString *`. -/
structure RedisModuleString where
  id : ℕ
  bytes : Bytes
deriving DecidableEq, Repr

/-- `const char *` into the buffer of the string `id`, and the bytes there when it was taken. -/
structure CharPtr where
  id : ℕ
  bytes : Bytes
deriving DecidableEq, Repr

/-- `RedisModule_StringPtrLen`: the buffer and its length. -/
def stringPtrLen (s : RedisModuleString) : CharPtr × ℕ := (⟨s.id, s.bytes⟩, s.bytes.length)

/-- `std::string(p, n)`: a copy of the first `n` bytes, embedded NULs included. -/
def stdString (p : CharPtr) (n : ℕ) : Bytes := p.bytes.take n

/-- What `%s` prints of a pointer: the bytes before the first NUL. -/
def CharPtr.cString (p : CharPtr) : Bytes := p.bytes.takeWhile (· ≠ 0)

theorem stdString_stringPtrLen (s : RedisModuleString) :
    stdString (stringPtrLen s).1 (stringPtrLen s).2 = s.bytes := by
  simp [stdString, stringPtrLen]

@[simp] theorem stringPtrLen_snd (s : RedisModuleString) :
    (stringPtrLen s).2 = s.bytes.length := rfl

/-- The values that `RedisModule_StringToDouble` can produce; a finite value is taken as the
rational number that it is. -/
inductive Double where
  | finite (q : ℚ)
  | posInf
  | negInf
deriving DecidableEq

/-- The value without its fraction; infinities have none. -/
def Double.trunc : Double → Option ℤ
  | finite q => some (q.num.tdiv q.den)
  | posInf => none
  | negInf => none

/-- The values of a 32-bit `int`. -/
def InInt (i : ℤ) : Prop := -2147483648 ≤ i ∧ i ≤ 2147483647

instance (i : ℤ) : Decidable (InInt i) :=
  inferInstanceAs (Decidable (-2147483648 ≤ i ∧ i ≤ 2147483647))

/-- `(int)d`.  Outside the range of `int` the conversion is undefined; `undef` is what it leaves
there. -/
def intOfDouble (undef : Double → BitVec 32) (d : Double) : BitVec 32 :=
  match d.trunc with
  | some i => if InInt i then BitVec.ofInt 32 i else undef d
  | none => undef d

/-- `int` to `size_t`. -/
def sizeOfInt (i : BitVec 32) : BitVec 64 := i.signExtend 64

/-- What a command sends to the client. -/
inductive Reply where
  | error (msg : String)
  | simpleString (msg : String)
deriving DecidableEq, Repr

def Reply.IsError : Reply → Prop
  | error _ => True
  | simpleString _ => False

instance (r : Reply) : Decidable r.IsError := by cases r <;> unfold Reply.IsError <;> infer_instance

/-- A call of `RedisModule_Log`. -/
structure ServerLog where
  level : String
  fmt : String
  args : List Bytes
deriving DecidableEq, Repr

/-- `RedisModuleCtx *`: the answers that Redis gives while a command runs.  `call` is
`RedisModule_Call`; its reply is an array, given by the strings that
`RedisModule_CreateStringFromCallReply` makes of its elements. -/
structure RedisModuleCtx where
  isKeysPositionRequest : Bool
  stringToDouble : RedisModuleString → Option Double
  castUndefined : Double → BitVec 32
  call : String → List String → List RedisModuleString

end RedisMigrate
