import RedisMigrate.LongLong
import RedisMigrate.Loop

/-! # The reply reader of hiredis

`redisReader` of `hiredis/read.c` with the reply functions of `hiredis/hiredis.c`.  A reply is
built from the root: an array object is linked into its parent before it has elements, and
`RedisReadTask.obj` is the path from the root to the object of a task.  The stack of tasks holds
`task[ridx]` first, so the parent of a task is the next one.

A function returns `none` where the code fails an assertion, which are enabled, or leaves an array;
the outcomes `REDIS_OK` and `REDIS_ERR` are `Status`.  Allocations succeed, and `strtod` is a
parameter.  A signed overflow is taken to wrap: of `len + 2` for the two largest lengths of a bulk,
and of `elements * 2` for a map when the reader has no limit. -/

namespace RedisMigrate

/-- `REDIS_REPLY_*`. -/
inductive ReplyType where
  | string | array | integer | nil | status | error | double | bool | map | set | attr | push
  | bignum | verb
deriving DecidableEq, Repr

/-- `redisReply`, with the fields that the reply functions set for each type. -/
inductive RedisReply where
  | string (type : ReplyType) (str : Bytes)
  | verb (vtype str : Bytes)
  | integer (integer : ℤ)
  | double (dval : Double) (str : Bytes)
  | nil
  | bool (integer : Bool)
  | array (type : ReplyType) (element : List (Option RedisReply))

structure RedisReadTask where
  type : Option ReplyType
  elements : ℤ
  idx : ℤ
  obj : Option (List ℕ)
deriving DecidableEq, Repr

/-- `REDIS_ERR_PROTOCOL`, `REDIS_ERR_OOM`. -/
inductive ReaderErr where
  | protocol
  | oom
deriving DecidableEq, Repr

structure RedisReader where
  err : Option (ReaderErr × Bytes)
  buf : Bytes
  pos : ℕ
  len : ℕ
  maxelements : ℤ
  tasks : ℕ
  stack : List RedisReadTask
  reply : Option RedisReply

/-- `REDIS_OK`, `REDIS_ERR`. -/
inductive Status where
  | ok
  | err
deriving DecidableEq, Repr

/-- `REDIS_READER_STACK_SIZE`, `REDIS_READER_MAX_ARRAY_ELEMENTS`. -/
def readerStackSize : ℕ := 9

def readerMaxArrayElements : ℤ := 4294967295

/-- What `strtod` makes of a text: its value, unless it is not a number, and where it stops. -/
abbrev Strtod := Bytes → Option Double × ℕ

def redisReaderCreate : RedisReader :=
  ⟨none, [], 0, 0, readerMaxArrayElements, readerStackSize, [], none⟩

/-! ### Errors -/

/-- `errstr` has 128 bytes. -/
def redisReaderSetError (r : RedisReader) (type : ReaderErr) (str : Bytes) : RedisReader :=
  { r with
    reply := none, buf := [], pos := 0, len := 0, stack := [], err := some (type, str.take 127) }

def hexDigit (n : ℕ) : UInt8 := if n < 10 then UInt8.ofNat (48 + n) else UInt8.ofNat (87 + n)

/-- `isprint` of a `char` in the C locale. -/
def isprint (c : UInt8) : Bool := 32 ≤ c.toNat && c.toNat ≤ 126

/-- The escapes that `chrtos` and `sdscatrepr` share. -/
def escaped (byte : UInt8) : Bytes :=
  if byte = 92 ∨ byte = 34 then [92, byte]
  else if byte = 10 then ascii "\\n"
  else if byte = 13 then ascii "\\r"
  else if byte = 9 then ascii "\\t"
  else if byte = 7 then ascii "\\a"
  else if byte = 8 then ascii "\\b"
  else if isprint byte then [byte]
  else [92, 120, hexDigit (byte.toNat / 16), hexDigit (byte.toNat % 16)]

def chrtos (byte : UInt8) : Bytes := [34] ++ escaped byte ++ [34]

def redisReaderSetErrorProtocolByte (r : RedisReader) (byte : UInt8) : RedisReader :=
  redisReaderSetError r .protocol
    (ascii "Protocol error, got " ++ chrtos byte ++ ascii " as reply type byte")

def redisReaderSetErrorOOM (r : RedisReader) : RedisReader :=
  redisReaderSetError r .oom (ascii "Out of memory")

/-! ### Reply objects -/

/-- `parent->element[idx] = obj`, where the type of the parent at `path` is one of `types`. -/
def setElement (types : List ReplyType) (obj : RedisReply) (idx : ℤ) :
    RedisReply → List ℕ → Option RedisReply
  | .array type element, [] =>
      if type ∈ types ∧ 0 ≤ idx ∧ idx < element.length then
        some (.array type (element.set idx.toNat (some obj)))
      else none
  | .array type element, i :: path =>
      match element[i]? with
      | some (some child) =>
          (setElement types obj idx child path).map fun child =>
            .array type (element.set i (some child))
      | _ => none
  | _, _ => none

/-- The end of a reply function: the object is linked into the parent of the task, if it has one. -/
def linkObject (types : List ReplyType) (obj : RedisReply) (r : RedisReader) :
    Option (RedisReply × RedisReader) :=
  match r.stack with
  | task :: parent :: _ =>
      match r.reply, parent.obj with
      | some root, some path =>
          (setElement types obj task.idx root path).map fun root =>
            (obj, { r with reply := some root })
      | _, _ => none
  | _ => some (obj, r)

def aggregateTypes : List ReplyType := [.array, .map, .set, .push]

def createStringObject (type : ReplyType) (str : Bytes) (r : RedisReader) :
    Option (RedisReply × RedisReader) :=
  if type ∈ [ReplyType.error, .status, .string, .verb] then
    if type = .verb then linkObject aggregateTypes (.verb (str.take 3) (str.drop 4)) r
    else linkObject aggregateTypes (.string type str) r
  else none

def createIntegerObject (value : ℤ) (r : RedisReader) : Option (RedisReply × RedisReader) :=
  linkObject aggregateTypes (.integer value) r

/-- The assertions of the next three do not have `REDIS_REPLY_PUSH`. -/
def createDoubleObject (value : Double) (str : Bytes) (r : RedisReader) :
    Option (RedisReply × RedisReader) :=
  linkObject [.array, .map, .set] (.double value str) r

def createNilObject (r : RedisReader) : Option (RedisReply × RedisReader) :=
  linkObject [.array, .map, .set] .nil r

def createBoolObject (bval : Bool) (r : RedisReader) : Option (RedisReply × RedisReader) :=
  linkObject [.array, .map, .set] (.bool bval) r

/-- `calloc` leaves every element `NULL`. -/
def createArrayObject (type : ReplyType) (elements : ℕ) (r : RedisReader) :
    Option (RedisReply × RedisReader) :=
  linkObject aggregateTypes (.array type (List.replicate elements none)) r

/-! ### The parts of the buffer -/

/-- `size_t` to `int`. -/
def intOfSize (n : BitVec 64) : ℤ := (n.setWidth 32).toInt

/-- Both loops of `seekNewline` go forward one byte at a time, up to `_len`. -/
def seekNewlineFrom (_len : ℤ) : ℕ → Bytes → Option ℕ
  | _, [] => none
  | pos, c :: s =>
      if (pos : ℤ) < _len then
        if c = 13 ∧ s.head? = some 10 then some pos else seekNewlineFrom _len (pos + 1) s
      else none

/-- The offset of the first `"\r\n"`.  `len - 1` is a `size_t` and is kept in an `int`. -/
def seekNewline (s : Bytes) (len : ℕ) : Option ℕ :=
  seekNewlineFrom (intOfSize (BitVec.ofNat 64 len - 1)) 0 s

/-- `r->buf + r->pos`. -/
def RedisReader.cursor (r : RedisReader) : Bytes := r.buf.drop r.pos

def readBytes (r : RedisReader) (bytes : ℕ) : Option (Bytes × RedisReader) :=
  if r.len - r.pos ≥ bytes then some (r.cursor, { r with pos := r.pos + bytes }) else none

def readLine (r : RedisReader) : Option (Bytes × RedisReader) :=
  (seekNewline r.cursor (r.len - r.pos)).map fun len =>
    (r.cursor.take len, { r with pos := r.pos + (len + 2) })

/-! ### Items -/

/-- `None` is a failed assertion. -/
def moveToNextTask : List RedisReadTask → Option (List RedisReadTask)
  | [] => some []
  | [_] => some []
  | cur :: prv :: rest =>
      if prv.type ∈ aggregateTypes.map some then
        if cur.idx = prv.elements - 1 then moveToNextTask (prv :: rest)
        else if cur.idx < prv.elements then
          some ({ cur with type := none, elements := -1, idx := cur.idx + 1 } :: prv :: rest)
        else none
      else none

/-- Set the reply if `obj` is the root object, and go to the next task. -/
def finishItem (c : Option (RedisReply × RedisReader)) : Option (RedisReader × Status) :=
  match c with
  | none => none
  | some (obj, r) =>
      let r := if r.stack.length = 1 then { r with reply := some obj } else r
      (moveToNextTask r.stack).map fun stack => ({ r with stack }, .ok)

def failItem (r : RedisReader) (str : String) : Option (RedisReader × Status) :=
  some (redisReaderSetError r .protocol (ascii str), .err)

/-- `tolower` of a byte in the C locale. -/
def tolower (c : UInt8) : UInt8 := if 65 ≤ c.toNat ∧ c.toNat ≤ 90 then c + 32 else c

/-- The double that `processLineItem` reads in `p`; an error text otherwise. -/
def readDouble (strtod : Strtod) (p : Bytes) : Double ⊕ String :=
  if p.length ≥ 326 then .inr "Double value is too large"
  else
    let buf := p.takeWhile (· ≠ 0)
    if buf.map tolower = ascii ",inf" then .inl .posInf
    else if buf.map tolower = ascii ",-inf" then .inl .negInf
    else
      match strtod buf with
      | (some d, eptr) => if buf = [] ∨ eptr < buf.length then .inr "Bad double value" else .inl d
      | (none, _) => .inr "Bad double value"

def processLineItem (strtod : Strtod) (cur : RedisReadTask) (r : RedisReader) :
    Option (RedisReader × Status) :=
  match readLine r with
  | none => some (r, .err)
  | some (p, r) =>
      match cur.type with
      | some .integer =>
          match string2ll p with
          | none => failItem r "Bad integer value"
          | some v => finishItem (createIntegerObject v r)
      | some .double =>
          match readDouble strtod p with
          | .inr str => failItem r str
          | .inl d => finishItem (createDoubleObject d p r)
      | some .nil => finishItem (createNilObject r)
      | some .bool =>
          finishItem (createBoolObject (p.head? = some 116 ∨ p.head? = some 84 : Bool) r)
      | some type => finishItem (createStringObject type p r)
      | none => none

/-- A bulk string of `len` bytes whose length line ends at `off`. -/
def bulkString (cur : RedisReadTask) (off len : ℕ) (r : RedisReader) :
    Option (RedisReader × Status) :=
  let s := r.cursor
  -- `len + 2` overflows a `long long` for the two largest lengths; wrapped and added as an
  -- `unsigned long` it is still this sum, which stays below 2^64
  let bytelen := off + 2 + (len + 2)
  if r.pos + bytelen ≤ r.len then
    if cur.type = some .verb ∧ (len < 4 ∨ s[off + 5]? ≠ some 58) then
      failItem r "Verbatim string 4 bytes of content type are missing or incorrectly encoded."
    else
      match cur.type with
      | none => none
      | some type =>
          finishItem (createStringObject type ((s.drop (off + 2)).take len)
            { r with pos := r.pos + bytelen })
  else some (r, .err)

def processBulkItem (cur : RedisReadTask) (r : RedisReader) : Option (RedisReader × Status) :=
  match seekNewline r.cursor (r.len - r.pos) with
  | none => some (r, .err)
  | some off =>
      match string2ll (r.cursor.take off) with
      | none => failItem r "Bad bulk string length"
      | some len =>
          if len < -1 then failItem r "Bulk string length out of range"
          else if len = -1 then finishItem (createNilObject { r with pos := r.pos + (off + 2) })
          else bulkString cur off len.toNat r

def redisReaderGrow (r : RedisReader) : RedisReader := { r with tasks := r.tasks + readerStackSize }

/-- The task of the first element of an aggregate. -/
def elementTask : RedisReadTask := ⟨none, -1, 0, none⟩

/-- `&task->obj`: where the object of the task `cur` is linked. -/
def objectPath (cur : RedisReadTask) : List RedisReadTask → Option (List ℕ)
  | [] => some []
  | parent :: _ => parent.obj.map fun path => path ++ [cur.idx.toNat]

/-- The object of an aggregate is created; when it has elements, the first one is next. -/
def openAggregate (type : ReplyType) (elements : ℤ) (cur : RedisReadTask)
    (rest : List RedisReadTask) (r : RedisReader) : Option (RedisReader × Status) :=
  -- `createArrayObject` refuses a vector whose size would overflow
  if 2305843009213693951 < elements then some (redisReaderSetErrorOOM r, .err)
  else if elements > 0 then
    match createArrayObject type elements.toNat r with
    | none => none
    | some (obj, r) =>
        if rest.length + 1 < r.tasks then
          some ({ r with
            stack := elementTask :: { cur with elements, obj := objectPath cur rest } :: rest
            reply := if rest = [] then some obj else r.reply }, .ok)
        else none
  else finishItem (createArrayObject type 0 r)

def processAggregateItem (cur : RedisReadTask) (rest : List RedisReadTask) (r : RedisReader) :
    Option (RedisReader × Status) :=
  let r := if rest.length = r.tasks - 1 then redisReaderGrow r else r
  match readLine r with
  | none => some (r, .err)
  | some (p, r) =>
      match string2ll p with
      | none => failItem r "Bad multi-bulk length"
      | some elements =>
          if elements < -1 ∨ (r.maxelements > 0 ∧ elements > r.maxelements) then
            failItem r "Multi-bulk length out of range"
          else if elements = -1 then finishItem (createNilObject r)
          else
            match cur.type with
            | none => none
            | some type =>
                openAggregate type (if type = .map then elements * 2 else elements) cur rest r

def typeOfByte (c : UInt8) : Option ReplyType :=
  if c = 45 then some .error
  else if c = 43 then some .status
  else if c = 58 then some .integer
  else if c = 44 then some .double
  else if c = 95 then some .nil
  else if c = 36 then some .string
  else if c = 42 then some .array
  else if c = 37 then some .map
  else if c = 126 then some .set
  else if c = 35 then some .bool
  else if c = 61 then some .verb
  else if c = 62 then some .push
  else none

/-- The second `switch` of `processItem`. -/
def processTyped (strtod : Strtod) (cur : RedisReadTask) (rest : List RedisReadTask)
    (r : RedisReader) : Option (RedisReader × Status) :=
  match cur.type with
  | some .error | some .status | some .integer | some .double | some .nil | some .bool =>
      processLineItem strtod cur r
  | some .string | some .verb => processBulkItem cur r
  | some .array | some .map | some .set | some .push => processAggregateItem cur rest r
  | _ => none

def processItem (strtod : Strtod) (r : RedisReader) : Option (RedisReader × Status) :=
  match r.stack with
  | [] => none
  | cur :: rest =>
      if cur.type = none then
        match readBytes r 1 with
        | none => some (r, .err)
        | some (p, r) =>
            match p with
            | [] => none
            | c :: _ =>
                match typeOfByte c with
                | none => some (redisReaderSetErrorProtocolByte r c, .err)
                | some type =>
                    let cur := { cur with type := some type }
                    processTyped strtod cur rest { r with stack := cur :: rest }
      else processTyped strtod cur rest r

/-! ### The interface -/

/-- `redisReaderFeed`; `large` says whether `sdsavail(r->buf) > r->maxbuf` with `maxbuf` set. -/
def redisReaderFeed (r : RedisReader) (buf : Bytes) (large : Bool) : RedisReader × Status :=
  if r.err ≠ none then (r, .err)
  else if buf.length ≥ 1 then
    let r := if r.len = 0 ∧ large then { r with buf := [], pos := 0 } else r
    let newbuf := r.buf ++ buf
    ({ r with buf := newbuf, len := newbuf.length }, .ok)
  else (r, .ok)

/-- `sdsrange`; `none` is the error of a string that is too long. -/
def sdsrange (s : Bytes) (start stop : ℤ) : Option Bytes :=
  let len : ℤ := s.length
  if len > 9223372036854775807 then none
  else if len = 0 then some s
  else
    let start := if start < 0 then (if len + start < 0 then 0 else len + start) else start
    let stop := if stop < 0 then (if len + stop < 0 then 0 else len + stop) else stop
    let newlen := if start > stop then 0 else stop - start + 1
    if newlen ≠ 0 then
      if start ≥ len then some []
      else if stop ≥ len then
        some ((s.drop start.toNat).take (if start > len - 1 then 0 else len - 1 - start + 1).toNat)
      else some ((s.drop start.toNat).take newlen.toNat)
    else some []

/-- The root task. -/
def rootTask : RedisReadTask := ⟨none, -1, -1, none⟩

/-- One turn of `while (r->ridx >= 0) if (processItem(r) != REDIS_OK) break`. -/
def getReplyTurn (strtod : Strtod) : RedisReader × Status → Turn (RedisReader × Status)
  | (_, .err) => .leave
  | (r, .ok) =>
      if r.stack = [] then .leave
      else
        match processItem strtod r with
        | none => .undefined
        | some c => .again c

/-! ### The loop terminates

Every item that is processed consumes a part of the buffer. -/

theorem seekNewlineFrom_lt {n : ℤ} {k m : ℕ} {s : Bytes} (h : seekNewlineFrom n k s = some m) :
    (m : ℤ) < n := by
  induction s generalizing k with
  | nil => simp [seekNewlineFrom] at h
  | cons c s ih =>
      rw [seekNewlineFrom] at h
      split_ifs at h with h1 h2
      · obtain rfl : k = m := by simpa using h
        exact h1
      · exact ih h

theorem intOfSize_le (len : ℕ) : intOfSize (BitVec.ofNat 64 len - 1) ≤ (len : ℤ) - 1 := by
  rw [intOfSize, BitVec.toInt_eq_toNat_cond, BitVec.toNat_setWidth, BitVec.toNat_sub,
    BitVec.toNat_ofNat]
  by_cases h : len = 0
  · subst h
    decide
  · have hone : (1 : BitVec 64).toNat = 1 := rfl
    rw [hone]
    split_ifs <;> omega

theorem seekNewline_add_two_le {s : Bytes} {len off : ℕ} (h : seekNewline s len = some off) :
    off + 2 ≤ len := by
  have h1 := seekNewlineFrom_lt h
  have h2 := intOfSize_le len
  omega

/-- `r->len - r->pos`. -/
def RedisReader.unread (r : RedisReader) : ℕ := r.len - r.pos

theorem readLine_unread {r r' : RedisReader} {p : Bytes} (h : readLine r = some (p, r')) :
    r'.unread < r.unread := by
  obtain ⟨off, hoff, heq⟩ := Option.map_eq_some_iff.mp h
  have hle := seekNewline_add_two_le hoff
  obtain rfl := (Prod.mk.inj heq).2
  unfold RedisReader.unread at *
  dsimp only
  omega

theorem linkObject_unread {types : List ReplyType} {obj obj' : RedisReply} {r r' : RedisReader}
    (h : linkObject types obj r = some (obj', r')) : r'.unread = r.unread := by
  unfold linkObject at h
  split at h
  · split at h
    · obtain ⟨root, -, heq⟩ := Option.map_eq_some_iff.mp h
      obtain rfl := (Prod.mk.inj heq).2
      rfl
    · cases h
  · cases h
    rfl

theorem createStringObject_unread {type : ReplyType} {str : Bytes} {obj : RedisReply}
    {r r' : RedisReader} (h : createStringObject type str r = some (obj, r')) :
    r'.unread = r.unread := by
  unfold createStringObject at h
  split_ifs at h
  · exact linkObject_unread h
  · exact linkObject_unread h

/-- Storing an object reads nothing. -/
theorem finishItem_unread {c : Option (RedisReply × RedisReader)} {r r' : RedisReader} {st : Status}
    (hc : ∀ obj r₁, c = some (obj, r₁) → r₁.unread = r.unread) (h : finishItem c = some (r', st)) :
    r'.unread = r.unread := by
  unfold finishItem at h
  split at h
  · cases h
  · next obj r₁ =>
      obtain ⟨stack, -, heq⟩ := Option.map_eq_some_iff.mp h
      obtain rfl := (Prod.mk.inj heq).1
      rw [← hc obj r₁ rfl]
      unfold RedisReader.unread
      dsimp only
      split_ifs <;> rfl

theorem failItem_ne_ok {r r' : RedisReader} {str : String} :
    failItem r str ≠ some (r', .ok) := by simp [failItem]

theorem processLineItem_unread {strtod : Strtod} {cur : RedisReadTask} {r r' : RedisReader}
    (h : processLineItem strtod cur r = some (r', .ok)) : r'.unread < r.unread := by
  unfold processLineItem at h
  split at h
  · simp at h
  · next p r₁ hline =>
      have hlt := readLine_unread hline
      suffices hsame : r'.unread = r₁.unread by omega
      split at h
      · split at h
        · exact absurd h failItem_ne_ok
        · exact finishItem_unread (fun _ _ => linkObject_unread) h
      · split at h
        · exact absurd h failItem_ne_ok
        · exact finishItem_unread (fun _ _ => linkObject_unread) h
      · exact finishItem_unread (fun _ _ => linkObject_unread) h
      · exact finishItem_unread (fun _ _ => linkObject_unread) h
      · exact finishItem_unread (fun _ _ => createStringObject_unread) h
      · cases h

theorem bulkString_unread {cur : RedisReadTask} {off len : ℕ} {r r' : RedisReader}
    (h : bulkString cur off len r = some (r', .ok)) : r'.unread < r.unread := by
  unfold bulkString at h
  dsimp only at h
  split_ifs at h with hfits
  · exact absurd h failItem_ne_ok
  · split at h
    · cases h
    · have hsame := finishItem_unread (fun _ _ => createStringObject_unread) h
      unfold RedisReader.unread at *
      dsimp only at hsame
      omega
  · simp at h

theorem processBulkItem_unread {cur : RedisReadTask} {r r' : RedisReader}
    (h : processBulkItem cur r = some (r', .ok)) : r'.unread < r.unread := by
  unfold processBulkItem at h
  split at h
  · simp at h
  · next off hoff =>
      have hle := seekNewline_add_two_le hoff
      split at h
      · exact absurd h failItem_ne_ok
      · split_ifs at h
        · exact absurd h failItem_ne_ok
        · have hsame := finishItem_unread (fun _ _ => linkObject_unread) h
          unfold RedisReader.unread at *
          dsimp only at hsame
          omega
        · exact bulkString_unread h

theorem openAggregate_unread {type : ReplyType} {elements : ℤ} {cur : RedisReadTask}
    {rest : List RedisReadTask} {r r' : RedisReader}
    (h : openAggregate type elements cur rest r = some (r', .ok)) : r'.unread = r.unread := by
  unfold openAggregate at h
  by_cases hbig : 2305843009213693951 < elements
  · simp [hbig] at h
  rw [if_neg hbig] at h
  by_cases hpos : elements > 0
  · rw [if_pos hpos] at h
    split at h
    · cases h
    · next obj r₁ hobj =>
        have hsame : r₁.unread = r.unread := linkObject_unread hobj
        by_cases hroom : rest.length + 1 < r₁.tasks
        · rw [if_pos hroom] at h
          cases h
          exact hsame
        · simp [hroom] at h
  · rw [if_neg hpos] at h
    exact finishItem_unread (fun _ _ => linkObject_unread) h

theorem processAggregateItem_unread {cur : RedisReadTask} {rest : List RedisReadTask}
    {r r' : RedisReader} (h : processAggregateItem cur rest r = some (r', .ok)) :
    r'.unread < r.unread := by
  unfold processAggregateItem at h
  dsimp only at h
  have hgrow : (if rest.length = r.tasks - 1 then redisReaderGrow r else r).unread = r.unread := by
    split_ifs <;> rfl
  rw [← hgrow]
  generalize (if rest.length = r.tasks - 1 then redisReaderGrow r else r) = r₀ at h
  cases hline : readLine r₀ with
  | none => simp [hline] at h
  | some pr =>
      obtain ⟨p, r₁⟩ := pr
      have hlt := readLine_unread hline
      suffices hsame : r'.unread = r₁.unread by omega
      rw [hline] at h
      dsimp only at h
      split at h
      · exact absurd h failItem_ne_ok
      · split_ifs at h
        · exact absurd h failItem_ne_ok
        · exact finishItem_unread (fun _ _ => linkObject_unread) h
        · split at h
          · cases h
          · exact openAggregate_unread h

theorem processTyped_unread {strtod : Strtod} {cur : RedisReadTask} {rest : List RedisReadTask}
    {r r' : RedisReader} (h : processTyped strtod cur rest r = some (r', .ok)) :
    r'.unread < r.unread := by
  unfold processTyped at h
  split at h
  all_goals first
    | exact processLineItem_unread h
    | exact processBulkItem_unread h
    | exact processAggregateItem_unread h
    | cases h

theorem processItem_unread {strtod : Strtod} {r r' : RedisReader}
    (h : processItem strtod r = some (r', .ok)) : r'.unread < r.unread := by
  unfold processItem at h
  split at h
  · cases h
  · next cur rest hstack =>
      split_ifs at h
      · unfold readBytes at h
        split_ifs at h with hroom
        · dsimp only at h
          split at h
          · cases h
          · split at h
            · simp at h
            · have hlt := processTyped_unread h
              unfold RedisReader.unread at *
              dsimp only at hlt
              omega
        · simp at h
      · exact processTyped_unread h

/-- The loop of `redisReaderGetReply`. -/
def getReplyLoop (strtod : Strtod) : Loop (RedisReader × Status) where
  turn := getReplyTurn strtod
  variant
    | (r, .ok) => r.unread + 1
    | (_, .err) => 0
  decreases := by
    intro s s' h
    obtain ⟨r, st⟩ := s
    obtain ⟨r', st'⟩ := s'
    cases st with
    | err => simp [getReplyTurn] at h
    | ok =>
        unfold getReplyTurn at h
        dsimp only at h
        split_ifs at h
        split at h
        · cases h
        · next c hc =>
            obtain rfl := Turn.again.inj h
            cases st' with
            | err => dsimp only; omega
            | ok => exact Nat.succ_lt_succ (processItem_unread hc)

/-- From 1k on the consumed part of the buffer is discarded. -/
def discardConsumed (r : RedisReader) : Option RedisReader :=
  if r.pos ≥ 1024 then
    (sdsrange r.buf r.pos (-1)).map fun buf => { r with buf, pos := 0, len := buf.length }
  else some r

/-- After the loop: a reply is emitted when there is one. -/
def emitReply (r : RedisReader) : RedisReader × Status × Option RedisReply :=
  match discardConsumed r with
  | none => (r, .err, none)
  | some r => if r.stack = [] then ({ r with reply := none }, .ok, r.reply) else (r, .ok, none)

/-- `redisReaderGetReply` after its loop. -/
def endGetReply : Option (RedisReader × Status) → Option (RedisReader × Status × Option RedisReply)
  | none => none
  | some (r, _) => if r.err ≠ none then some (r, .err, none) else some (emitReply r)

def redisReaderGetReply (strtod : Strtod) (r : RedisReader) :
    Option (RedisReader × Status × Option RedisReply) :=
  if r.err ≠ none then some (r, .err, none)
  else if r.len = 0 then some (r, .ok, none)
  else
    let r := if r.stack = [] then { r with stack := [rootTask] } else r
    endGetReply ((getReplyLoop strtod).run (r, .ok))

end RedisMigrate
