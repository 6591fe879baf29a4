import RedisMigrate.Region
import RedisMigrate.ReplyGrammar

/-! # Formatting a command

`redisFormatCommandArgv` of `hiredis/hiredis.c`: it computes the size of the command in an `int`
that wraps, and then writes the command into a block of that size.  A function returns `none` where
the code writes outside of a block, overflows an `int` or fails an assertion.

`format_command_argv`: when the function is safe, and that its command is then `commandText`. -/

namespace RedisMigrate

/-! ### Sizes -/

def countDigitsLoop : ℕ → ℕ → ℕ → ℕ
  | 0, _, result => result
  | fuel + 1, v, result =>
      if v < 10 then result
      else if v < 100 then result + 1
      else if v < 1000 then result + 2
      else if v < 10000 then result + 3
      else countDigitsLoop fuel (v / 10000) (result + 4)

def countDigits (v : ℕ) : ℕ := countDigitsLoop (v + 1) v 1

def bulklen (len : ℕ) : ℕ := 1 + countDigits len + 2 + len + 2

/-- `i += n` for an `int` and a `size_t`. -/
def intAddSize (i : ℤ) (n : ℕ) : ℤ := intOfSize (BitVec.ofInt 64 i + BitVec.ofNat 64 n)

theorem length_digits_div {n : ℕ} (h : 10 ≤ n) :
    (digits n).length = (digits (n / 10)).length + 1 := by
  have hn : n = 10 * (n / 10) + n % 10 := by omega
  conv_lhs => rw [hn]
  rw [digits_append (show 0 < n / 10 by omega) (show n % 10 < 10 by omega)]
  simp

theorem length_digits_of_lt_ten {n : ℕ} (h : n < 10) : (digits n).length = 1 := by
  rw [digits_of_lt_ten h]
  rfl

theorem countDigitsLoop_eq {fuel v : ℕ} (h : v < fuel) (result : ℕ) :
    countDigitsLoop fuel v result + 1 = (digits v).length + result := by
  induction fuel generalizing v result with
  | zero => omega
  | succ fuel ih =>
      rw [countDigitsLoop]
      by_cases h1 : v < 10
      · rw [if_pos h1, length_digits_of_lt_ten h1]
        omega
      rw [if_neg h1, length_digits_div (show 10 ≤ v by omega)]
      by_cases h2 : v < 100
      · rw [if_pos h2, length_digits_of_lt_ten (show v / 10 < 10 by omega)]
        omega
      rw [if_neg h2, length_digits_div (show 10 ≤ v / 10 by omega)]
      by_cases h3 : v < 1000
      · rw [if_pos h3, length_digits_of_lt_ten (show v / 10 / 10 < 10 by omega)]
        omega
      rw [if_neg h3, length_digits_div (show 10 ≤ v / 10 / 10 by omega)]
      by_cases h4 : v < 10000
      · rw [if_pos h4, length_digits_of_lt_ten (show v / 10 / 10 / 10 < 10 by omega)]
        omega
      have hdiv : v / 10 / 10 / 10 / 10 = v / 10000 := by omega
      rw [if_neg h4, length_digits_div (show 10 ≤ v / 10 / 10 / 10 by omega), hdiv,
        ih (show v / 10000 < fuel by omega)]
      omega

@[simp] theorem countDigits_eq (v : ℕ) : countDigits v = (digits v).length := by
  have h := countDigitsLoop_eq (show v < v + 1 by omega) 1
  rw [countDigits]
  omega

theorem intOfSize_eq_wrapInt (n : BitVec 64) : intOfSize n = wrapInt n.toNat := by
  have h := n.isLt
  rw [intOfSize, wrapInt, BitVec.toInt_eq_toNat_cond, BitVec.toNat_setWidth]
  split_ifs <;> omega

/-- The sum in an `int` is the sum in the integers, modulo 2³². -/
theorem intAddSize_wrapInt (t : ℤ) (n : ℕ) : intAddSize (wrapInt t) n = wrapInt (t + n) := by
  rw [intAddSize, intOfSize_eq_wrapInt, BitVec.toNat_add, BitVec.toNat_ofInt, BitVec.toNat_ofNat]
  unfold wrapInt
  omega

theorem intAddSize_of_nonneg {i : ℤ} (h0 : 0 ≤ i) (hi : i ≤ intMax) (n : ℕ) :
    intAddSize i n = wrapInt (i + n) := by
  rw [← intAddSize_wrapInt, wrapInt_of_le h0 hi]

/-! ### The text of a command -/

def bulkHeader (arg : Bytes) : Bytes := 36 :: digits arg.length ++ crlf

def bulkText (arg : Bytes) : Bytes := bulkHeader arg ++ (arg ++ crlf)

def commandHeader (argc : ℕ) : Bytes := 42 :: decimal argc ++ crlf

/-- A command as the array of its arguments. -/
def commandText (args : List Bytes) : Bytes := commandHeader args.length ++ args.flatMap bulkText

theorem length_bulkText (arg : Bytes) : (bulkText arg).length = bulklen arg.length := by
  simp only [bulkText, bulkHeader, bulklen, crlf, countDigits_eq, List.length_append,
    List.length_cons, List.length_nil]
  omega

theorem length_commandHeader (argc : ℕ) :
    (commandHeader argc).length = 1 + countDigits argc + 2 := by
  simp only [commandHeader, crlf, decimal_of_nonneg, countDigits_eq, List.length_append,
    List.length_cons, List.length_nil]
  omega

/-- `totlen` over the arguments is the length of their texts, modulo 2³². -/
theorem foldl_intAddSize (args : List Bytes) (t : ℤ) :
    args.foldl (fun totlen arg => intAddSize totlen (bulklen arg.length)) (wrapInt t) =
      wrapInt (t + (args.flatMap bulkText).length) := by
  induction args generalizing t with
  | nil => simp
  | cons arg args ih =>
      rw [List.foldl_cons, intAddSize_wrapInt, ih, List.flatMap_cons, List.length_append,
        length_bulkText]
      congr 1
      push_cast
      omega

theorem length_lt_intMax_of_short {args : List Bytes}
    (h : ((commandText args).length : ℤ) < intMax) : ∀ arg ∈ args, (arg.length : ℤ) < intMax := by
  intro arg harg
  have hle : (bulkText arg).length ≤ (args.map bulkText).flatten.length :=
    (List.sublist_flatten_of_mem (List.mem_map_of_mem harg)).length_le
  rw [length_bulkText, bulklen, ← List.flatMap_def] at hle
  rw [commandText, List.length_append] at h
  omega

theorem length_lt_of_short {args : List Bytes} (h : ((commandText args).length : ℤ) < intMax) :
    ∀ arg ∈ args, arg.length < 4294967296 := by
  intro arg harg
  have hlt := length_lt_intMax_of_short h arg harg
  unfold intMax at hlt
  omega

/-! ### The block of a command -/

/-- `hiredisAllocFns.mallocFn`; no block is larger than `PTRDIFF_MAX`. -/
structure Allocator where
  malloc : ℕ → Option Bytes
  length_malloc : ∀ {size : ℕ} {b : Bytes}, malloc size = some b → b.length = size
  size_le : ∀ {size : ℕ} {b : Bytes}, malloc size = some b → size ≤ 9223372036854775807

/-- `cmd` and `pos`. -/
structure Cmd where
  mem : Bytes
  pos : ℤ

/-- A sum of two `int`s. -/
def intAdd (a b : ℤ) : Option ℤ := if a + b ≤ intMax then some (a + b) else none

/-- `pos += sprintf(cmd+pos, …)`; a NUL ends the text. -/
def Cmd.sprintf (s : Bytes) (w : Cmd) : Option Cmd := do
  let mem ← Region.store w.mem w.pos (s ++ [0])
  let pos ← intAdd w.pos s.length
  some ⟨mem, pos⟩

/-- `memcpy(cmd+pos, s, len); pos += len`. -/
def Cmd.memcpy (s : Bytes) (w : Cmd) : Option Cmd := do
  let mem ← Region.store w.mem w.pos s
  some ⟨mem, intAddSize w.pos s.length⟩

/-- `cmd[pos++] = c`. -/
def Cmd.put (c : UInt8) (w : Cmd) : Option Cmd := do
  let mem ← Region.store w.mem w.pos [c]
  let pos ← intAdd w.pos 1
  some ⟨mem, pos⟩

/-- One turn of the loop over the arguments. -/
def Cmd.bulk (w : Cmd) (arg : Bytes) : Option Cmd :=
  ((w.sprintf (bulkHeader arg)).bind (Cmd.memcpy arg)).bind fun w => (w.put 13).bind (Cmd.put 10)

/-- The results `-1` and `-2`. -/
inductive FormatErr where
  | memory
  | format
deriving DecidableEq, Repr

/-- The command at protocol level. -/
def writeCommand (args : List Bytes) (w : Cmd) : Option Cmd :=
  (w.sprintf (commandHeader args.length)).bind fun w => args.foldlM Cmd.bulk w

/-- `assert(pos == totlen); cmd[pos] = '\0'`. -/
def sealCommand (totlen : ℤ) (w : Cmd) : Option (Except FormatErr (Bytes × ℤ)) :=
  if w.pos = totlen then (Region.store w.mem w.pos [0]).map fun mem => .ok (mem, totlen) else none

/-- The part of the formatting functions after `totlen` is known: the command and its length. -/
def buildCommand (alloc : Allocator) (totlen : ℤ) (args : List Bytes) :
    Option (Except FormatErr (Bytes × ℤ)) :=
  (intAdd totlen 1).bind fun size =>
    match alloc.malloc (BitVec.ofInt 64 size).toNat with
    | none => some (.error .memory)
    | some mem => (writeCommand args ⟨mem, 0⟩).bind (sealCommand totlen)

/-- The block has `n` cells, and `t` was written. -/
structure Cmd.At (w : Cmd) (n : ℕ) (t : Bytes) : Prop where
  length_eq : w.mem.length = n
  filled : Region.Filled w.mem w.pos t

/-- `f` writes `s` after what was written and touches `r` cells for it. -/
def Cmd.Writes (f : Cmd → Option Cmd) (s : Bytes) (r : ℕ) : Prop :=
  ∀ (w : Cmd) (n : ℕ) (t : Bytes), (n : ℤ) ≤ intMax → w.At n t →
    (t.length + r ≤ n → ∃ w', f w = some w' ∧ w'.At n (t ++ s)) ∧
      (¬ t.length + r ≤ n → f w = none)

namespace Cmd

theorem writes_pure : Writes some [] 0 := by
  intro w n t _ h
  refine ⟨fun _ => ⟨w, rfl, by simpa using h⟩, fun hn => ?_⟩
  have := h.filled.le_length
  rw [h.length_eq] at this
  omega

theorem Writes.bind {f g : Cmd → Option Cmd} {s s' : Bytes} {r r' q : ℕ} (hf : Writes f s r)
    (hg : Writes g s' r') (hq : q = max r (s.length + r')) :
    Writes (fun w => (f w).bind g) (s ++ s') q := by
  intro w n t hn h
  have hf' := hf w n t hn h
  by_cases hr : t.length + r ≤ n
  · obtain ⟨w', hw', h'⟩ := hf'.1 hr
    have hg' := hg w' n (t ++ s) hn h'
    rw [List.length_append] at hg'
    dsimp only
    rw [hw', Option.bind_some, ← List.append_assoc]
    exact ⟨fun hle => hg'.1 (by omega), fun hle => hg'.2 (by omega)⟩
  · dsimp only
    rw [hf'.2 hr, Option.bind_none]
    exact ⟨fun hle => absurd hle (by omega), fun _ => rfl⟩

theorem At.of_store {w : Cmd} {n : ℕ} {t s : Bytes} {mem : Bytes} {pos : ℤ} (h : w.At n t)
    (hlen : mem.length = w.mem.length) (hbegins : t ++ s <+: mem) (hpos : pos = w.pos + s.length) :
    (Cmd.mk mem pos).At n (t ++ s) := by
  refine ⟨hlen.trans h.length_eq, hbegins, ?_⟩
  rw [hpos, h.filled.pos_eq, List.length_append]
  push_cast
  rfl

theorem intAdd_pos {w : Cmd} {n : ℕ} {t : Bytes} (hn : (n : ℤ) ≤ intMax) (h : w.At n t) {k : ℕ}
    (hk : t.length + k ≤ n) : intAdd w.pos k = some (w.pos + k) := by
  have hpos := h.filled.pos_eq
  rw [intAdd, if_pos (by omega)]

theorem writes_sprintf (s : Bytes) : Writes (sprintf s) s (s.length + 1) := by
  intro w n t hn h
  refine ⟨fun hr => ?_, fun hr => ?_⟩
  · obtain ⟨mem, hmem, hlen, hbegins⟩ := Region.store_filled (s := s ++ [0]) h.filled
      (by rw [h.length_eq, List.length_append]; exact hr)
    refine ⟨⟨mem, w.pos + s.length⟩, ?_, h.of_store hlen ?_ rfl⟩
    · simp [sprintf, hmem, intAdd_pos hn h (show t.length + s.length ≤ n by omega)]
    · rw [← List.append_assoc] at hbegins
      exact (List.prefix_append _ _).trans hbegins
  · have hmem := Region.store_past (s := s ++ [0]) h.filled
      (by rw [h.length_eq, List.length_append]; exact hr)
    simp [sprintf, hmem]

theorem writes_memcpy (s : Bytes) : Writes (memcpy s) s s.length := by
  intro w n t hn h
  refine ⟨fun hr => ?_, fun hr => ?_⟩
  · obtain ⟨mem, hmem, hlen, hbegins⟩ := Region.store_filled (s := s) h.filled
      (by rw [h.length_eq]; exact hr)
    refine ⟨⟨mem, intAddSize w.pos s.length⟩, by simp [memcpy, hmem], h.of_store hlen hbegins ?_⟩
    have hpos := h.filled.pos_eq
    rw [intAddSize_of_nonneg (by omega) (by omega)]
    exact wrapInt_of_le (by omega) (by omega)
  · have hmem := Region.store_past (s := s) h.filled (by rw [h.length_eq]; exact hr)
    simp [memcpy, hmem]

theorem writes_put (c : UInt8) : Writes (put c) [c] 1 := by
  intro w n t hn h
  refine ⟨fun hr => ?_, fun hr => ?_⟩
  · obtain ⟨mem, hmem, hlen, hbegins⟩ := Region.store_filled (s := [c]) h.filled
      (by rw [h.length_eq]; exact hr)
    refine ⟨⟨mem, w.pos + 1⟩, ?_, h.of_store hlen hbegins rfl⟩
    have hpos := intAdd_pos hn h hr
    rw [Nat.cast_one] at hpos
    simp [put, hmem, hpos]
  · have hmem := Region.store_past (s := [c]) h.filled (by rw [h.length_eq]; exact hr)
    simp [put, hmem]

theorem writes_bulk (arg : Bytes) :
    Writes (fun w => w.bulk arg) (bulkText arg) (bulkText arg).length := by
  have hcrlf : Writes (fun w => (w.put 13).bind (put 10)) crlf 2 :=
    (writes_put 13).bind (writes_put 10) rfl
  have hheader := (writes_sprintf (bulkHeader arg)).bind (writes_memcpy arg) rfl
  have hq : (bulkText arg).length = max (max ((bulkHeader arg).length + 1)
      ((bulkHeader arg).length + arg.length)) ((bulkHeader arg ++ arg).length + 2) := by
    simp only [bulkText, List.length_append, crlf, List.length_cons, List.length_nil]
    omega
  have h := hheader.bind hcrlf hq
  rw [List.append_assoc] at h
  exact h

theorem writes_bulks (args : List Bytes) : Writes (fun w => args.foldlM bulk w)
    (args.flatMap bulkText) (args.flatMap bulkText).length := by
  induction args with
  | nil => exact writes_pure
  | cons arg args ih =>
      rw [List.flatMap_cons]
      exact (writes_bulk arg).bind ih (by rw [List.length_append]; omega)

end Cmd

section build

variable {alloc : Allocator} {args : List Bytes}

theorem writes_command (args : List Bytes) : Cmd.Writes (writeCommand args) (commandText args)
    (max ((commandHeader args.length).length + 1) (commandText args).length) := by
  apply (Cmd.writes_sprintf (commandHeader args.length)).bind (Cmd.writes_bulks args)
  rw [commandText, List.length_append]

theorem commandHeader_le (args : List Bytes) :
    (commandHeader args.length).length ≤ (commandText args).length := by
  rw [commandText, List.length_append]
  omega

theorem sealCommand_at {w : Cmd} {n : ℕ} {t : Bytes} (h : w.At n t) (totlen : ℤ) :
    (totlen = t.length → n = t.length + 1 →
      sealCommand totlen w = some (.ok (t ++ [0], totlen))) ∧
    (n ≤ t.length → sealCommand totlen w = none) := by
  refine ⟨fun htot hn => ?_, fun hn => ?_⟩
  · obtain ⟨mem, hstore, hlen, hbegins⟩ := Region.store_filled (s := [0]) h.filled
      (by rw [h.length_eq, hn]; rfl)
    have hmem : t ++ [0] = mem := by
      apply hbegins.eq_of_length
      rw [hlen, h.length_eq, hn, List.length_append]
      rfl
    rw [sealCommand, if_pos (h.filled.pos_eq.trans htot.symm), hstore, hmem]
    rfl
  · have hstore := Region.store_past (s := [0]) h.filled
      (by rw [h.length_eq, List.length_singleton]; omega)
    rw [sealCommand, hstore]
    exact ite_self none

/-- The command fits its block exactly when the block has a byte more than the command. -/
theorem buildCommand_of_malloc {totlen size : ℤ} {mem : Bytes} (hsize : intAdd totlen 1 = some size)
    (hmem : alloc.malloc (BitVec.ofInt 64 size).toNat = some mem)
    (hint : (mem.length : ℤ) ≤ intMax) :
    (totlen = (commandText args).length → mem.length = (commandText args).length + 1 →
      buildCommand alloc totlen args = some (.ok (commandText args ++ [0], totlen))) ∧
    (mem.length ≤ (commandText args).length → buildCommand alloc totlen args = none) := by
  have hdef : buildCommand alloc totlen args =
      (writeCommand args ⟨mem, 0⟩).bind (sealCommand totlen) := by
    rw [buildCommand, hsize, Option.bind_some, hmem]
  have hw := writes_command args ⟨mem, 0⟩ mem.length [] hint ⟨rfl, .start mem⟩
  have hheader := commandHeader_le args
  rw [List.nil_append, List.length_nil] at hw
  rw [hdef]
  refine ⟨fun htot hlen => ?_, fun hlen => ?_⟩
  · obtain ⟨w, hrun, hat⟩ := hw.1 (by omega)
    rw [hrun]
    exact (sealCommand_at hat totlen).1 htot hlen
  · by_cases hr :
        max ((commandHeader args.length).length + 1) (commandText args).length ≤ mem.length
    · obtain ⟨w, hrun, hat⟩ := hw.1 (by omega)
      rw [hrun]
      exact (sealCommand_at hat totlen).2 hlen
    · rw [hw.2 (by omega)]
      rfl

theorem toNat_ofInt_of_nonneg {size : ℤ} (h : 0 ≤ size) (hmax : size ≤ intMax) :
    (BitVec.ofInt 64 size).toNat = size.toNat := by
  unfold intMax at hmax
  rw [BitVec.toNat_ofInt]
  omega

/-- A command whose length and the NUL fit an `int`. -/
theorem buildCommand_short (h : ((commandText args).length : ℤ) < intMax) :
    buildCommand alloc (commandText args).length args =
      some ((alloc.malloc ((commandText args).length + 1)).elim (.error .memory)
        fun _ => .ok (commandText args ++ [0], (commandText args).length)) := by
  have hsize : intAdd (commandText args).length 1 = some (((commandText args).length : ℤ) + 1) := by
    rw [intAdd, if_pos (by omega)]
  have hnat : (BitVec.ofInt 64 ((commandText args).length + 1 : ℤ)).toNat =
      (commandText args).length + 1 := by
    rw [toNat_ofInt_of_nonneg (by omega) (by omega)]
    omega
  cases hmem : alloc.malloc ((commandText args).length + 1) with
  | none => rw [buildCommand, hsize, Option.bind_some, hnat, hmem]; rfl
  | some mem =>
      have hlen := alloc.length_malloc hmem
      rw [← hnat] at hmem
      exact (buildCommand_of_malloc hsize hmem (by omega)).1 rfl hlen

/-- A command that does not fit: the block would be too large, or it is too small. -/
theorem buildCommand_long (h : intMax ≤ ((commandText args).length : ℤ)) :
    buildCommand alloc (wrapInt (commandText args).length) args =
      if wrapInt (commandText args).length < -1 ∨
        wrapInt (commandText args).length ≠ intMax ∧
          alloc.malloc (wrapInt (commandText args).length + 1).toNat = none
      then some (.error .memory) else none := by
  have hrange : -2147483648 ≤ wrapInt (commandText args).length ∧
      wrapInt (commandText args).length ≤ intMax := by
    unfold wrapInt intMax
    omega
  generalize wrapInt (commandText args).length = t at hrange ⊢
  by_cases hmax : t = intMax
  · subst hmax
    rw [if_neg (by simp [intMax])]
    rfl
  have hsize : intAdd t 1 = some (t + 1) := by
    rw [intAdd, if_pos (by omega)]
  by_cases hneg : t < -1
  · have hnone : alloc.malloc (BitVec.ofInt 64 (t + 1)).toNat = none := by
      cases hmem : alloc.malloc (BitVec.ofInt 64 (t + 1)).toNat with
      | none => rfl
      | some mem =>
          have hle := alloc.size_le hmem
          rw [BitVec.toNat_ofInt] at hle
          omega
    rw [if_pos (.inl hneg), buildCommand, hsize, Option.bind_some, hnone]
  have hnat := toNat_ofInt_of_nonneg (show 0 ≤ t + 1 by omega) (show t + 1 ≤ intMax by omega)
  cases hmem : alloc.malloc (t + 1).toNat with
  | none =>
      rw [if_pos (.inr ⟨hmax, rfl⟩), buildCommand, hsize, Option.bind_some, hnat, hmem]
  | some mem =>
      have hlen := alloc.length_malloc hmem
      rw [← hnat] at hmem
      rw [if_neg (by simp [hneg])]
      exact (buildCommand_of_malloc hsize hmem (by omega)).2 (by omega)

theorem wrapInt_of_lt {n : ℕ} (h : (n : ℤ) < intMax) : wrapInt n = n :=
  wrapInt_of_le (by omega) h.le

/-- When there is a command, and which one. -/
theorem buildCommand_eq_ok_iff {cmd : Bytes} {len : ℤ} :
    buildCommand alloc (wrapInt (commandText args).length) args = some (.ok (cmd, len)) ↔
      ((commandText args).length : ℤ) < intMax ∧
        (alloc.malloc ((commandText args).length + 1)).isSome ∧
        cmd = commandText args ++ [0] ∧ len = (commandText args).length := by
  by_cases hshort : ((commandText args).length : ℤ) < intMax
  · rw [wrapInt_of_lt hshort, buildCommand_short hshort]
    cases alloc.malloc ((commandText args).length + 1) with
    | none => simp
    | some mem => simp [hshort, eq_comm]
  · rw [buildCommand_long (by omega)]
    split_ifs <;> simp [hshort]

end build

/-! ### Arguments -/

/-- The bytes before the first NUL of an object; `strlen` is undefined where there is none. -/
def cString (s : Bytes) : Option Bytes := if 0 ∈ s then some (s.takeWhile (· ≠ 0)) else none

/-- The first `len` bytes of an object. -/
def sizedString (s : Bytes) (len : ℕ) : Option Bytes :=
  if len ≤ s.length then some (s.take len) else none

/-- The bytes that are read of the objects `argv`: `argvlen ? argvlen[j] : strlen(argv[j])`
of each. -/
def argTexts (argv : List Bytes) : Option (List ℕ) → Option (List Bytes)
  | none => argv.mapM cString
  | some argvlen =>
      if argv.length ≤ argvlen.length then (argv.zip argvlen).mapM fun a => sizedString a.1 a.2
      else none

/-! ### `redisFormatCommandArgv` -/

def redisFormatCommandArgv (alloc : Allocator) (argv : List Bytes) (argvlen : Option (List ℕ)) :
    Option (Except FormatErr (Bytes × ℤ)) :=
  (argTexts argv argvlen).bind fun args =>
    buildCommand alloc (args.foldl (fun totlen arg => intAddSize totlen (bulklen arg.length))
      (intAddSize 0 (1 + countDigits args.length + 2))) args

theorem redisFormatCommandArgv_eq {alloc : Allocator} {argv : List Bytes}
    {argvlen : Option (List ℕ)} {args : List Bytes} (h : argTexts argv argvlen = some args) :
    redisFormatCommandArgv alloc argv argvlen =
      buildCommand alloc (wrapInt (commandText args).length) args := by
  have hstart : intAddSize 0 (1 + countDigits args.length + 2) =
      wrapInt (commandHeader args.length).length := by
    have h0 : (0 : ℤ) = wrapInt 0 := rfl
    rw [h0, intAddSize_wrapInt, length_commandHeader, zero_add]
  rw [redisFormatCommandArgv, h, Option.bind_some, hstart, foldl_intAddSize, commandText,
    List.length_append, Nat.cast_add]

/-- An allocator that has memory for every block of a possible size. -/
def Allocator.plenty : Allocator where
  malloc size := if size ≤ 9223372036854775807 then some (List.replicate size 0) else none
  length_malloc {size b} h := by
    obtain ⟨-, h⟩ := Option.ite_none_right_eq_some.mp h
    obtain rfl := Option.some.inj h
    exact List.length_replicate
  size_le {size b} h := (Option.ite_none_right_eq_some.mp h).1

/-- **`redisFormatCommandArgv` is safe with every allocator exactly when** the command with its
NUL fits an `int`, or the wrapped length is so far below zero that no block is large enough.
Where it returns a command, this is the array of the arguments. -/
theorem format_command_argv {argv : List Bytes} {argvlen : Option (List ℕ)} {args : List Bytes}
    (h : argTexts argv argvlen = some args) :
    ((∀ alloc, (redisFormatCommandArgv alloc argv argvlen).isSome) ↔
      ((commandText args).length : ℤ) < intMax ∨ wrapInt (commandText args).length < -1) ∧
    ∀ alloc cmd len, redisFormatCommandArgv alloc argv argvlen = some (.ok (cmd, len)) ↔
      ((commandText args).length : ℤ) < intMax ∧
        (alloc.malloc ((commandText args).length + 1)).isSome ∧
        cmd = commandText args ++ [0] ∧ len = (commandText args).length := by
  have heq : ∀ alloc, redisFormatCommandArgv alloc argv argvlen =
      buildCommand alloc (wrapInt (commandText args).length) args :=
    fun _ => redisFormatCommandArgv_eq h
  constructor
  · constructor
    · intro hsafe
      by_contra hlong
      rw [not_or, not_lt, not_lt] at hlong
      have hplenty := hsafe .plenty
      rw [heq, buildCommand_long hlong.1] at hplenty
      split_ifs at hplenty with hc
      · obtain hc | ⟨hc, hnone⟩ := hc
        · omega
        · have hle : (wrapInt (commandText args).length + 1).toNat ≤ 9223372036854775807 := by
            unfold wrapInt
            omega
          simp [Allocator.plenty, hle] at hnone
      · cases hplenty
    · intro hs alloc
      rw [heq]
      by_cases hshort : ((commandText args).length : ℤ) < intMax
      · rw [wrapInt_of_lt hshort, buildCommand_short hshort]
        rfl
      · rw [buildCommand_long (by omega), if_pos (.inl (hs.resolve_left hshort))]
        rfl
  · intro alloc cmd len
    rw [heq]
    exact buildCommand_eq_ok_iff

theorem format_command_argv_get :
    redisFormatCommandArgv .plenty [ascii "GET", ascii "k\x00"] (some [3, 2]) =
      some (.ok (commandText [ascii "GET", ascii "k\x00"] ++ [0], 21)) :=
  ((format_command_argv rfl).2 _ _ _).mpr ⟨by decide, by decide, rfl, by decide⟩

end RedisMigrate
