import RedisMigrate.CommandFormat

/-! # Formatting a command into an sds string

`sdscatfmt` of `hiredis/sds.c` and `redisFormatSdsCommandArgv` of `hiredis/hiredis.c`.  A string is
the list of its cells, the one of its NUL included; a cell is empty until something is written to
it.  `sdscatfmt` keeps the position of the next byte in an `int`, and the length of a string from
2³¹ on does not fit it.  The position is then below zero, which is outside of the string, or it is
one in the middle of the text, and the cells at the new end stay empty.  A text with an empty cell
is no result.

* `redisFormatSdsCommandArgv_eq`: the command is written as long as the headers end at positions
  that fit an `int`.
* `format_sds_agrees`: when the two formatting functions give the same command. -/

namespace RedisMigrate

/-! ### Strings -/

/-- The cells of a string up to the one of its NUL, with room behind them. -/
abbrev SdsCells := List (Option UInt8)

def sdsempty : SdsCells := [some 0]

def sdslen (s : SdsCells) : ℕ := s.length - 1

/-- The bytes of the text. -/
def sdsText (s : SdsCells) : Option Bytes := s.dropLast.mapM id

/-- `memcpy(s+curlen, t, len)`, then the new length and the NUL. -/
def sdscatlen (s : SdsCells) (t : Bytes) : Option SdsCells :=
  Region.store (s ++ List.replicate t.length none) (sdslen s) ((t ++ [0]).map some)

/-! ### `sdscatfmt` -/

/-- The arguments of `sdscatfmt`; a `size_t` that is taken as `unsigned int` keeps its low bits. -/
inductive FmtArg where
  | cstr (s : Bytes)
  | sds (s : Bytes)
  | int (i : ℤ)
  | longLong (i : ℤ)
  | uint (n : ℕ)
  | ulongLong (n : ℕ)

/-- The text of an argument under its letter. -/
def FmtArg.text : FmtArg → UInt8 → Option Bytes
  | .cstr s, c => if c = 115 then some s else none
  | .sds s, c => if c = 83 then some s else none
  | .int i, c => if c = 105 then some (sdsll2str i) else none
  | .longLong i, c => if c = 73 then some (sdsll2str i) else none
  | .uint n, c => if c = 117 then some (sdsull2str n) else none
  | .ulongLong n, c => if c = 85 then some (sdsull2str n) else none

def fmtLetters : List UInt8 := [115, 83, 105, 73, 117, 85]

/-- `s` and `i`. -/
structure SdsWriter where
  cells : SdsCells
  i : ℤ

/-- `memcpy(s+i, t, l); sdsinclen(s, l); i += l`. -/
def SdsWriter.memcpy (t : Bytes) (w : SdsWriter) : Option SdsWriter := do
  let cells ← Region.store (w.cells ++ List.replicate t.length none) w.i (t.map some)
  some ⟨cells, intAddSize w.i t.length⟩

/-- `s[i++] = c; sdsinclen(s, 1)`. -/
def SdsWriter.put (c : UInt8) (w : SdsWriter) : Option SdsWriter := do
  let cells ← Region.store (w.cells ++ [none]) w.i [some c]
  let i ← intAdd w.i 1
  some ⟨cells, i⟩

/-- `s[i] = '\0'`. -/
def SdsWriter.terminate (w : SdsWriter) : Option SdsCells := Region.store w.cells w.i [some 0]

/-- The loop of `sdscatfmt`; after a `%` at the end of the format it goes on behind the format. -/
def sdscatfmtLoop (w : SdsWriter) : Bytes → List FmtArg → Option SdsWriter
  | [], _ => some w
  | [37], _ => none
  | 37 :: next :: f, args =>
      if next ∈ fmtLetters then
        match args with
        | [] => none
        | arg :: args =>
            (arg.text next).bind fun t => (w.memcpy t).bind fun w => sdscatfmtLoop w f args
      else (w.put next).bind fun w => sdscatfmtLoop w f args
  | c :: f, args => (w.put c).bind fun w => sdscatfmtLoop w f args

def sdscatfmt (s : SdsCells) (fmt : Bytes) (args : List FmtArg) : Option SdsCells :=
  (sdscatfmtLoop ⟨s, wrapInt (sdslen s)⟩ fmt args).bind SdsWriter.terminate

/-! ### `redisFormatSdsCommandArgv` -/

/-- One turn of the loop over the arguments. -/
def sdsBulk (cmd : SdsCells) (arg : Bytes) : Option SdsCells :=
  (sdscatfmt cmd (ascii "$%u\x0d\n") [.uint (arg.length % 4294967296)]).bind fun cmd =>
    (sdscatlen cmd arg).bind fun cmd => sdscatlen cmd crlf

/-- `room`: `sdsMakeRoomFor` has the memory. -/
def redisFormatSdsCommandArgv (room : Bool) (argv : List Bytes) (argvlen : Option (List ℕ)) :
    Option (Except FormatErr (Bytes × ℤ)) :=
  (argTexts argv argvlen).bind fun args =>
    let totlen := args.foldl (fun totlen arg => totlen + BitVec.ofNat 64 (bulklen arg.length))
      (BitVec.ofNat 64 (1 + countDigits args.length + 2))
    if room then
      (sdscatfmt sdsempty (ascii "*%i\x0d\n") [.int args.length]).bind fun cmd =>
        (args.foldlM sdsBulk cmd).bind fun cmd =>
          if sdslen cmd = totlen.toNat then
            (sdsText cmd).map fun text => .ok (text, intOfSize totlen)
          else none
    else some (.error .memory)

/-! ### Writing at the end of the text -/

/-- The string of a text. -/
def sdsOf (text : Bytes) : SdsCells := (text ++ [0]).map some

theorem length_sdsOf (text : Bytes) : (sdsOf text).length = text.length + 1 := by
  rw [sdsOf, List.length_map, List.length_append, List.length_singleton]

@[simp] theorem sdslen_sdsOf (text : Bytes) : sdslen (sdsOf text) = text.length := by
  rw [sdslen, length_sdsOf, Nat.add_sub_cancel]

theorem sdsText_sdsOf (text : Bytes) : sdsText (sdsOf text) = some text := by
  rw [sdsText, sdsOf, List.map_append, List.map_singleton, List.dropLast_concat]
  induction text with
  | nil => rfl
  | cons c text ih => simp [List.mapM_cons, ih]

theorem filled_sdsOf (text : Bytes) (room : SdsCells) :
    Region.Filled (sdsOf text ++ room) text.length (text.map some) := by
  refine ⟨⟨[some 0] ++ room, ?_⟩, by rw [List.length_map]⟩
  rw [sdsOf, List.map_append, List.map_singleton, List.append_assoc]

theorem sdscatlen_sdsOf (text t : Bytes) : sdscatlen (sdsOf text) t = some (sdsOf (text ++ t)) := by
  obtain ⟨cells, hstore, hlen, hbegins⟩ := Region.store_filled (s := (t ++ [0]).map some)
    (filled_sdsOf text (List.replicate t.length none)) (by simp [length_sdsOf]; omega)
  have hcells : sdsOf (text ++ t) = cells := by
    rw [← List.map_append, ← List.append_assoc] at hbegins
    apply hbegins.eq_of_length
    rw [hlen]
    simp only [length_sdsOf, List.length_map, List.length_append, List.length_replicate,
      List.length_singleton]
    omega
  rw [sdscatlen, sdslen_sdsOf, hstore, hcells]

/-- The text was written, and the position is its end. -/
structure SdsWriter.At (w : SdsWriter) (text : Bytes) : Prop where
  length_eq : w.cells.length = text.length + 1
  filled : Region.Filled w.cells w.i (text.map some)
  le : (text.length : ℤ) ≤ intMax

/-- `f` writes `t` behind the text.  Where the end does not fit an `int` it is undefined or wraps
below zero. -/
structure SdsWriter.Writes (f : SdsWriter → Option SdsWriter) (t : Bytes) : Prop where
  fits : ∀ {w : SdsWriter} {text : Bytes}, w.At text → ((text ++ t).length : ℤ) ≤ intMax →
    ∃ w', f w = some w' ∧ w'.At (text ++ t)
  past : ∀ {w w' : SdsWriter} {text : Bytes}, w.At text → intMax < ((text ++ t).length : ℤ) →
    f w = some w' → w'.i < 0
  outside : ∀ {w : SdsWriter}, w.i < 0 → f w = none

namespace SdsWriter

theorem At.i_eq {w : SdsWriter} {text : Bytes} (h : w.At text) : w.i = text.length := by
  rw [h.filled.pos_eq, List.length_map]

theorem at_sdsOf {text : Bytes} (h : (text.length : ℤ) ≤ intMax) :
    (SdsWriter.mk (sdsOf text) text.length).At text where
  length_eq := length_sdsOf text
  filled := by simpa using filled_sdsOf text []
  le := h

/-- A write at the end of the text stays within the room. -/
theorem At.store {w : SdsWriter} {text : Bytes} (h : w.At text) (t : Bytes) :
    ∃ cells, Region.store (w.cells ++ List.replicate t.length none) w.i (t.map some) = some cells ∧
      ∀ i : ℤ, i = w.i + t.length → ((text ++ t).length : ℤ) ≤ intMax →
        (SdsWriter.mk cells i).At (text ++ t) := by
  have hfilled : Region.Filled (w.cells ++ List.replicate t.length none) w.i (text.map some) :=
    ⟨h.filled.begins.trans (List.prefix_append _ _), h.filled.pos_eq⟩
  obtain ⟨cells, hstore, hlen, hbegins⟩ := Region.store_filled (s := t.map some) hfilled
    (by simp [h.length_eq])
  refine ⟨cells, hstore, fun i hi hle => ⟨?_, ⟨?_, ?_⟩, hle⟩⟩
  · rw [hlen, List.length_append, List.length_replicate, h.length_eq, List.length_append]
    omega
  · rw [List.map_append]
    exact hbegins
  · rw [hi, h.i_eq, List.length_map, List.length_append, Nat.cast_add]

theorem writes_put (c : UInt8) : Writes (put c) [c] where
  fits {w text} h hle := by
    obtain ⟨cells, hstore, hat⟩ := h.store [c]
    have hi : intAdd w.i 1 = some (w.i + 1) := by
      rw [List.length_append, List.length_singleton] at hle
      rw [intAdd, h.i_eq, if_pos (by omega)]
    refine ⟨⟨cells, w.i + 1⟩, ?_, hat _ rfl hle⟩
    simp only [List.length_singleton, List.replicate_one, List.map_singleton] at hstore
    simp [put, hstore, hi]
  past {w w' text} h hgt hput := by
    have hi : intAdd w.i 1 = none := by
      rw [List.length_append, List.length_singleton] at hgt
      rw [intAdd, h.i_eq, if_neg (by omega)]
    obtain ⟨cells, -, hput⟩ := Option.bind_eq_some_iff.mp hput
    simp [hi] at hput
  outside {w} h := by
    rw [put, Region.store_neg h]
    rfl

theorem writes_memcpy {t : Bytes} (ht : (t.length : ℤ) ≤ intMax) : Writes (memcpy t) t where
  fits {w text} h hle := by
    obtain ⟨cells, hstore, hat⟩ := h.store t
    refine ⟨⟨cells, intAddSize w.i t.length⟩, by simp [memcpy, hstore], hat _ ?_ hle⟩
    rw [List.length_append] at hle
    rw [h.i_eq, intAddSize_of_nonneg (by omega) h.le]
    exact wrapInt_of_le (by omega) (by omega)
  past {w w' text} h hgt hcopy := by
    obtain ⟨cells, -, hcopy⟩ := Option.bind_eq_some_iff.mp hcopy
    obtain rfl := Option.some.inj hcopy
    have hle := h.le
    rw [List.length_append] at hgt
    dsimp only
    rw [h.i_eq, intAddSize_of_nonneg (by omega) hle]
    unfold intMax at *
    unfold wrapInt
    omega
  outside {w} h := by
    rw [memcpy, Region.store_neg h]
    rfl

theorem Writes.bind {f g : SdsWriter → Option SdsWriter} {t t' : Bytes} (hf : Writes f t)
    (hg : Writes g t') : Writes (fun w => (f w).bind g) (t ++ t') where
  fits {w text} h hle := by
    rw [← List.append_assoc] at hle ⊢
    obtain ⟨w₁, hw₁, h₁⟩ := hf.fits h (by rw [List.length_append] at hle; omega)
    obtain ⟨w', hw', h'⟩ := hg.fits h₁ hle
    exact ⟨w', by rw [hw₁, Option.bind_some, hw'], h'⟩
  past {w w' text} h hgt hrun := by
    rw [← List.append_assoc] at hgt
    obtain ⟨w₁, hw₁, hw'⟩ := Option.bind_eq_some_iff.mp hrun
    by_cases hle : ((text ++ t).length : ℤ) ≤ intMax
    · obtain ⟨w₂, hw₂, h₂⟩ := hf.fits h hle
      obtain rfl := Option.some.inj (hw₁.symm.trans hw₂)
      exact hg.past h₂ hgt hw'
    · have hnone := hg.outside (hf.past h (by omega) hw₁)
      rw [hw'] at hnone
      cases hnone
  outside {w} h := by rw [hf.outside h, Option.bind_none]

theorem terminate_at {w : SdsWriter} {text : Bytes} (h : w.At text) :
    w.terminate = some (sdsOf text) := by
  obtain ⟨cells, hstore, hlen, hbegins⟩ := Region.store_filled (s := [some 0]) h.filled
    (by simp [h.length_eq])
  have hcells : sdsOf text = cells := by
    rw [← List.map_singleton, ← List.map_append] at hbegins
    apply hbegins.eq_of_length
    rw [hlen, h.length_eq, ← length_sdsOf text]
    rfl
  rw [terminate, hstore, hcells]

end SdsWriter

/-! ### Headers -/

/-- A header of the protocol: a letter, the text of a number and `"\r\n"`. -/
def sdsHeader (c : UInt8) (t : Bytes) : Bytes := c :: t ++ crlf

/-- The header as the loop of `sdscatfmt` writes it. -/
def SdsWriter.header (c : UInt8) (t : Bytes) (w : SdsWriter) : Option SdsWriter :=
  ((w.put c).bind (memcpy t)).bind fun w => (w.put 13).bind (put 10)

theorem sdscatfmt_bulkHeader (s : SdsCells) (n : ℕ) :
    sdscatfmt s (ascii "$%u\x0d\n") [.uint n] =
      (SdsWriter.header 36 (digits n) ⟨s, wrapInt (sdslen s)⟩).bind SdsWriter.terminate := by
  have hfmt : ascii "$%u\x0d\n" = [36, 37, 117, 13, 10] := by decide
  simp [hfmt, sdscatfmt, sdscatfmtLoop, fmtLetters, FmtArg.text, sdsull2str_eq_digits,
    SdsWriter.header, Option.bind_assoc]

theorem sdscatfmt_commandHeader (s : SdsCells) (n : ℕ) :
    sdscatfmt s (ascii "*%i\x0d\n") [.int n] =
      (SdsWriter.header 42 (digits n) ⟨s, wrapInt (sdslen s)⟩).bind SdsWriter.terminate := by
  have hfmt : ascii "*%i\x0d\n" = [42, 37, 105, 13, 10] := by decide
  simp [hfmt, sdscatfmt, sdscatfmtLoop, fmtLetters, FmtArg.text, sdsll2str_eq_decimal,
    decimal_of_nonneg, SdsWriter.header, Option.bind_assoc]

namespace SdsWriter

theorem writes_header (c : UInt8) {t : Bytes} (ht : (t.length : ℤ) ≤ intMax) :
    Writes (header c t) (sdsHeader c t) := by
  have hline := (writes_put c).bind (writes_memcpy ht)
  exact hline.bind ((writes_put 13).bind (writes_put 10))

/-- A header whose end fits an `int` is appended, and one that begins within that range and does
not fit is undefined. -/
theorem header_sdsOf {c : UInt8} {t text : Bytes} (ht : (t.length : ℤ) ≤ intMax)
    (htext : (text.length : ℤ) ≤ intMax) :
    (header c t ⟨sdsOf text, wrapInt text.length⟩).bind terminate =
      if ((text ++ sdsHeader c t).length : ℤ) ≤ intMax
      then some (sdsOf (text ++ sdsHeader c t)) else none := by
  have hi : wrapInt text.length = text.length := wrapInt_of_le (by omega) htext
  have hwrites := writes_header c ht
  rw [hi]
  by_cases hle : ((text ++ sdsHeader c t).length : ℤ) ≤ intMax
  · obtain ⟨w, hw, hat⟩ := hwrites.fits (at_sdsOf htext) hle
    rw [if_pos hle, hw, Option.bind_some, terminate_at hat]
  · rw [if_neg hle, Option.bind_eq_none_iff]
    intro w hw
    have hneg := hwrites.past (at_sdsOf htext) (by omega) hw
    rw [terminate, Region.store_neg hneg]

end SdsWriter

/-! ### Writing in the middle of the text

From 2³² bytes on the position may be one of the text.  A cell that lies beyond all positions and is
empty stays so. -/

/-- The cell `k` is empty, and no position reaches it. -/
structure LostCell (s : SdsCells) (k : ℕ) : Prop where
  far : 4294967296 ≤ k
  empty : s[k]? = some none

/-- A byte of the text was never written. -/
def Holed (s : SdsCells) : Prop := ∃ k, LostCell s k ∧ k + 1 < s.length

namespace LostCell

variable {s s' : SdsCells} {k : ℕ}

theorem append (h : LostCell s k) (room : SdsCells) : LostCell (s ++ room) k := by
  obtain ⟨hk, -⟩ := List.getElem?_eq_some_iff.mp h.empty
  exact ⟨h.far, by rw [List.getElem?_append_left hk, h.empty]⟩

/-- The end of a string that is grown. -/
theorem grown (h : 4294967296 ≤ s.length) : LostCell (s ++ [none]) s.length :=
  ⟨h, by rw [List.getElem?_append_right le_rfl, Nat.sub_self]; rfl⟩

theorem store (h : LostCell s k) {pos : ℤ} {t : SdsCells} (hpos : pos + t.length ≤ 4294967296)
    (hstore : Region.store s pos t = some s') : LostCell s' k := by
  have := h.far
  refine ⟨h.far, ?_⟩
  rw [Region.store_frame hstore (.inr (by omega)), h.empty]

end LostCell

namespace SdsWriter

variable {w w' : SdsWriter} {k : ℕ}

theorem put_cells {c : UInt8} (h : w.put c = some w') :
    Region.store (w.cells ++ [none]) w.i [some c] = some w'.cells ∧ w'.i ≤ intMax ∧
      w'.i = w.i + 1 ∧ w'.cells.length = w.cells.length + 1 := by
  obtain ⟨cells, hstore, h⟩ := Option.bind_eq_some_iff.mp h
  obtain ⟨i, hi, h⟩ := Option.bind_eq_some_iff.mp h
  obtain rfl := Option.some.inj h
  obtain ⟨hle, hi⟩ := Option.ite_none_right_eq_some.mp hi
  obtain rfl := Option.some.inj hi
  refine ⟨hstore, hle, rfl, ?_⟩
  rw [Region.length_store hstore, List.length_append, List.length_singleton]

theorem put_lost {c : UInt8} (h : w.put c = some w') (hk : LostCell (w.cells ++ [none]) k) :
    LostCell w'.cells k := by
  obtain ⟨hstore, hle, hi, -⟩ := put_cells h
  unfold intMax at hle
  refine hk.store ?_ hstore
  rw [List.length_singleton]
  omega

theorem memcpy_cells {t : Bytes} (h : w.memcpy t = some w') :
    Region.store (w.cells ++ List.replicate t.length none) w.i (t.map some) = some w'.cells ∧
      w'.cells.length = w.cells.length + t.length := by
  obtain ⟨cells, hstore, h⟩ := Option.bind_eq_some_iff.mp h
  obtain rfl := Option.some.inj h
  refine ⟨hstore, ?_⟩
  rw [Region.length_store hstore, List.length_append, List.length_replicate]

theorem memcpy_lost {t : Bytes} (ht : (t.length : ℤ) ≤ intMax) (hi : w.i ≤ intMax)
    (h : w.memcpy t = some w') (hk : LostCell w.cells k) : LostCell w'.cells k := by
  unfold intMax at ht hi
  refine (hk.append _).store ?_ (memcpy_cells h).1
  rw [List.length_map]
  omega

/-- The first byte of a header leaves the new end of a long string empty, and so do the
next ones. -/
theorem header_holed {c : UInt8} {t : Bytes} (ht : (t.length : ℤ) ≤ intMax)
    (hlong : 4294967296 ≤ w.cells.length) {s : SdsCells}
    (h : (w.header c t).bind terminate = some s) : Holed s := by
  obtain ⟨w₄, h, hs⟩ := Option.bind_eq_some_iff.mp h
  obtain ⟨w₂, h, hend⟩ := Option.bind_eq_some_iff.mp h
  obtain ⟨w₁, h₁, h₂⟩ := Option.bind_eq_some_iff.mp h
  obtain ⟨w₃, h₃, h₄⟩ := Option.bind_eq_some_iff.mp hend
  have hk₁ := put_lost h₁ (.grown hlong)
  have hk₂ := memcpy_lost ht (put_cells h₁).2.1 h₂ hk₁
  have hk₃ := put_lost h₃ (hk₂.append _)
  have hk₄ := put_lost h₄ (hk₃.append _)
  have hi₄ := (put_cells h₄).2.1
  unfold intMax at hi₄
  refine ⟨_, hk₄.store ?_ hs, ?_⟩
  · rw [List.length_singleton]
    omega
  · rw [Region.length_store hs, (put_cells h₄).2.2.2, (put_cells h₃).2.2.2, (memcpy_cells h₂).2,
      (put_cells h₁).2.2.2]
    omega

end SdsWriter

theorem Holed.sdscatlen {s s' : SdsCells} (hs : Holed s) {t : Bytes}
    (h : RedisMigrate.sdscatlen s t = some s') : Holed s' := by
  obtain ⟨k, hk, hlt⟩ := hs
  have hpos : (k : ℤ) < (sdslen s : ℤ) := by
    unfold sdslen
    omega
  refine ⟨k, ⟨hk.far, ?_⟩, ?_⟩
  · rw [Region.store_frame h (.inl hpos), (hk.append _).empty]
  · rw [Region.length_store h, List.length_append]
    omega

theorem Holed.long {s : SdsCells} (hs : Holed s) : 4294967296 ≤ s.length := by
  obtain ⟨k, hk, hlt⟩ := hs
  have := hk.far
  omega

theorem mapM_id_eq_none {l : SdsCells} (h : none ∈ l) : l.mapM id = none := by
  induction l with
  | nil => simp at h
  | cons x l ih =>
      cases x with
      | none => rfl
      | some c =>
          have hl : none ∈ l := by simpa using h
          simp [List.mapM_cons, ih hl]

theorem Holed.sdsText_eq_none {s : SdsCells} (hs : Holed s) : sdsText s = none := by
  obtain ⟨k, hk, hlt⟩ := hs
  apply mapM_id_eq_none
  apply List.mem_of_getElem? (i := k)
  rw [List.getElem?_dropLast, if_pos (by omega), hk.empty]

/-! ### The loop over the arguments -/

/-- The header that `"%u"` writes for an argument. -/
def sdsBulkHeader (arg : Bytes) : Bytes := sdsHeader 36 (digits (arg.length % 4294967296))

def sdsBulkText (arg : Bytes) : Bytes := sdsBulkHeader arg ++ (arg ++ crlf)

/-- The texts of the arguments under the given headers, from position `n` on: the end of each
header fits an `int`. -/
def HeadersFit (header : Bytes → Bytes) : ℕ → List Bytes → Prop
  | _, [] => True
  | n, arg :: args =>
      ((n + (header arg).length : ℕ) : ℤ) ≤ intMax ∧
        HeadersFit header (n + (header arg ++ (arg ++ crlf)).length) args

instance decidableHeadersFit (header : Bytes → Bytes) :
    ∀ (n : ℕ) (args : List Bytes), Decidable (HeadersFit header n args)
  | _, [] => .isTrue trivial
  | _, _ :: args => @instDecidableAnd _ _ _ (decidableHeadersFit header _ args)

theorem HeadersFit.congr {header header' : Bytes → Bytes} {args : List Bytes}
    (h : ∀ arg ∈ args, header arg = header' arg) {n : ℕ} :
    HeadersFit header n args ↔ HeadersFit header' n args := by
  induction args generalizing n with
  | nil => exact Iff.rfl
  | cons arg args ih =>
      rw [List.forall_mem_cons] at h
      rw [HeadersFit, HeadersFit, h.1, ih h.2]

theorem HeadersFit.of_le {header : Bytes → Bytes} {args : List Bytes} {n : ℕ}
    (h : ((n + (args.flatMap fun arg => header arg ++ (arg ++ crlf)).length : ℕ) : ℤ) ≤ intMax) :
    HeadersFit header n args := by
  induction args generalizing n with
  | nil => trivial
  | cons arg args ih =>
      rw [List.flatMap_cons, List.length_append, ← Nat.add_assoc] at h
      refine ⟨?_, ih h⟩
      rw [List.length_append] at h
      omega

theorem length_digits_mod (n : ℕ) : ((digits (n % 4294967296)).length : ℤ) ≤ intMax := by
  have hle := length_digits_le (k := 10) (n := n % 4294967296) (by omega) (by omega)
  unfold intMax
  omega

theorem sdsBulk_fits {text arg : Bytes}
    (h : ((text ++ sdsBulkHeader arg).length : ℤ) ≤ intMax) :
    sdsBulk (sdsOf text) arg = some (sdsOf (text ++ sdsBulkText arg)) := by
  have htext : (text.length : ℤ) ≤ intMax := by
    rw [List.length_append] at h
    omega
  rw [sdsBulk, sdscatfmt_bulkHeader, sdslen_sdsOf,
    SdsWriter.header_sdsOf (length_digits_mod _) htext, ← sdsBulkHeader, if_pos h,
    Option.bind_some, sdscatlen_sdsOf, Option.bind_some, sdscatlen_sdsOf, sdsBulkText]
  simp only [List.append_assoc]

/-- An argument after the first 2³² bytes leaves empty cells in the text. -/
theorem sdsBulk_long {s s' : SdsCells} {arg : Bytes} (hlong : 4294967296 ≤ s.length)
    (h : sdsBulk s arg = some s') : Holed s' := by
  obtain ⟨s₁, h₁, h⟩ := Option.bind_eq_some_iff.mp h
  obtain ⟨s₂, h₂, h₃⟩ := Option.bind_eq_some_iff.mp h
  rw [sdscatfmt_bulkHeader] at h₁
  exact ((SdsWriter.header_holed (length_digits_mod _) hlong h₁).sdscatlen h₂).sdscatlen h₃

/-- A header that does not end within the range of an `int` is undefined or leaves empty cells. -/
theorem sdsBulk_past {text arg : Bytes} {s : SdsCells}
    (h : ¬ ((text ++ sdsBulkHeader arg).length : ℤ) ≤ intMax)
    (hs : sdsBulk (sdsOf text) arg = some s) : Holed s := by
  by_cases htext : (text.length : ℤ) ≤ intMax
  · rw [sdsBulk, sdscatfmt_bulkHeader, sdslen_sdsOf,
      SdsWriter.header_sdsOf (length_digits_mod _) htext, ← sdsBulkHeader, if_neg h] at hs
    cases hs
  by_cases hlong : 4294967296 ≤ (sdsOf text).length
  · exact sdsBulk_long hlong hs
  -- The length wraps to a position below zero, where the first byte cannot be written.
  have hneg : wrapInt text.length < 0 := by
    rw [length_sdsOf] at hlong
    unfold intMax at htext
    unfold wrapInt
    omega
  have hnone := (SdsWriter.writes_header 36 (length_digits_mod arg.length)).outside
    (w := ⟨sdsOf text, wrapInt text.length⟩) hneg
  rw [sdsBulk, sdscatfmt_bulkHeader, sdslen_sdsOf, hnone] at hs
  cases hs

theorem foldlM_holed {args : List Bytes} {s s' : SdsCells} (hs : Holed s)
    (h : args.foldlM sdsBulk s = some s') : Holed s' := by
  induction args generalizing s with
  | nil =>
      obtain rfl := Option.some.inj h
      exact hs
  | cons arg args ih =>
      rw [List.foldlM_cons] at h
      obtain ⟨s₁, h₁, h⟩ := Option.bind_eq_some_iff.mp h
      exact ih (sdsBulk_long hs.long h₁) h

/-- The loop over the arguments, behind a text. -/
theorem foldlM_sdsBulk (args : List Bytes) (text : Bytes) :
    (HeadersFit sdsBulkHeader text.length args →
      args.foldlM sdsBulk (sdsOf text) = some (sdsOf (text ++ args.flatMap sdsBulkText))) ∧
    (¬ HeadersFit sdsBulkHeader text.length args →
      ∀ s, args.foldlM sdsBulk (sdsOf text) = some s → Holed s) := by
  induction args generalizing text with
  | nil => exact ⟨fun _ => by simp, fun h => absurd trivial h⟩
  | cons arg args ih =>
      have ih := ih (text ++ sdsBulkText arg)
      rw [List.length_append] at ih
      rw [HeadersFit, ← List.length_append, List.foldlM_cons, List.flatMap_cons,
        ← List.append_assoc text]
      constructor
      · rintro ⟨hfits, hrest⟩
        rw [sdsBulk_fits hfits]
        exact ih.1 hrest
      · intro hnot s hs
        obtain ⟨s₁, h₁, hs⟩ := Option.bind_eq_some_iff.mp hs
        by_cases hfits : ((text ++ sdsBulkHeader arg).length : ℤ) ≤ intMax
        · rw [sdsBulk_fits hfits] at h₁
          obtain rfl := Option.some.inj h₁
          exact ih.2 (fun hrest => hnot ⟨hfits, hrest⟩) s hs
        · exact foldlM_holed (sdsBulk_past hfits h₁) hs

/-! ### The whole function -/

theorem length_le_flatMap_bulkText (args : List Bytes) :
    args.length ≤ (args.flatMap bulkText).length := by
  induction args with
  | nil => simp
  | cons arg args ih =>
      rw [List.flatMap_cons, List.length_append, List.length_cons, length_bulkText, bulklen]
      omega

theorem sdscatfmt_command {args : List Bytes}
    (hsize : (commandText args).length < 18446744073709551616) :
    sdscatfmt sdsempty (ascii "*%i\x0d\n") [.int args.length] =
      some (sdsOf (commandHeader args.length)) := by
  have hcount := length_le_flatMap_bulkText args
  rw [commandText, List.length_append] at hsize
  have hdigits := length_digits_le (k := 20) (n := args.length) (by omega) (by omega)
  have hheader : sdsHeader 42 (digits args.length) = commandHeader args.length := by
    rw [sdsHeader, commandHeader, decimal_of_nonneg]
  have hlen : ((commandHeader args.length).length : ℤ) ≤ intMax := by
    rw [length_commandHeader, countDigits_eq]
    unfold intMax
    omega
  have hstart : sdsempty = sdsOf [] := rfl
  rw [sdscatfmt_commandHeader, hstart, sdslen_sdsOf,
    SdsWriter.header_sdsOf (by unfold intMax; omega) (by decide), List.nil_append, hheader,
    if_pos hlen]

theorem foldl_totlen (args : List Bytes) (t : ℕ) :
    args.foldl (fun totlen arg => totlen + BitVec.ofNat 64 (bulklen arg.length))
        (BitVec.ofNat 64 t) =
      BitVec.ofNat 64 (t + (args.flatMap bulkText).length) := by
  induction args generalizing t with
  | nil => simp
  | cons arg args ih =>
      rw [List.foldl_cons, ← BitVec.ofNat_add, ih, List.flatMap_cons, List.length_append,
        length_bulkText, Nat.add_assoc]

/-- `redisFormatSdsCommandArgv` without a lack of memory. -/
theorem redisFormatSdsCommandArgv_eq {argv : List Bytes} {argvlen : Option (List ℕ)}
    {args : List Bytes} (h : argTexts argv argvlen = some args)
    (hsize : (commandText args).length < 18446744073709551616) :
    redisFormatSdsCommandArgv true argv argvlen =
      if HeadersFit sdsBulkHeader (commandHeader args.length).length args ∧
        (args.flatMap sdsBulkText).length = (args.flatMap bulkText).length
      then some (.ok (commandHeader args.length ++ args.flatMap sdsBulkText,
        wrapInt (commandText args).length)) else none := by
  have htot : 1 + countDigits args.length + 2 + (args.flatMap bulkText).length =
      (commandText args).length := by
    rw [commandText, List.length_append, length_commandHeader]
  have hnat : (BitVec.ofNat 64 (commandText args).length).toNat = (commandText args).length := by
    rw [BitVec.toNat_ofNat]
    omega
  obtain ⟨hfold, hholed⟩ := foldlM_sdsBulk args (commandHeader args.length)
  rw [redisFormatSdsCommandArgv, h, Option.bind_some, foldl_totlen, htot, sdscatfmt_command hsize]
  simp only [if_true, Option.bind_some, hnat, intOfSize_eq_wrapInt]
  by_cases hfits : HeadersFit sdsBulkHeader (commandHeader args.length).length args
  · rw [hfold hfits, Option.bind_some, sdslen_sdsOf, sdsText_sdsOf, Option.map_some, commandText,
      List.length_append, List.length_append]
    simp only [hfits, true_and, Nat.add_left_cancel_iff]
  · rw [if_neg (fun hboth => hfits hboth.1), Option.bind_eq_none_iff]
    intro s hs
    rw [(hholed hfits s hs).sdsText_eq_none, Option.map_none, ite_self]

theorem isLine_digits (n : ℕ) : IsLine (digits n) := by
  rw [← decimal_of_nonneg]
  exact isLine_decimal n

theorem sdsBulkHeader_eq {arg : Bytes} (h : arg.length < 4294967296) :
    sdsBulkHeader arg = bulkHeader arg := by
  rw [sdsBulkHeader, sdsHeader, Nat.mod_eq_of_lt h, bulkHeader]

theorem flatMap_sdsBulkText_eq_iff {args : List Bytes} :
    args.flatMap sdsBulkText = args.flatMap bulkText ↔ ∀ arg ∈ args, arg.length < 4294967296 := by
  induction args with
  | nil => simp
  | cons arg args ih =>
      rw [List.flatMap_cons, List.flatMap_cons, List.forall_mem_cons, ← ih]
      have hsds : ∀ x, sdsBulkText arg ++ x =
          36 :: (digits (arg.length % 4294967296) ++ crlf ++ (arg ++ (crlf ++ x))) := by
        simp [sdsBulkText, sdsBulkHeader, sdsHeader]
      have hbulk : ∀ x, bulkText arg ++ x =
          36 :: (digits arg.length ++ crlf ++ (arg ++ (crlf ++ x))) := by
        simp [bulkText, bulkHeader]
      rw [hsds, hbulk, List.cons.injEq, eq_self, true_and]
      constructor
      · intro h
        have hsplit := congrArg splitLine h
        rw [splitLine_line (isLine_digits _), splitLine_line (isLine_digits _)] at hsplit
        obtain ⟨hdigits, hrest⟩ := Prod.mk.inj (Option.some.inj hsplit)
        have hmod := digits_inj hdigits
        refine ⟨by omega, ?_⟩
        simpa using hrest
      · rintro ⟨hlt, hrest⟩
        rw [Nat.mod_eq_of_lt hlt, hrest]

theorem redisFormatSdsCommandArgv_short {argv : List Bytes} {argvlen : Option (List ℕ)}
    {args : List Bytes} (h : argTexts argv argvlen = some args)
    (hshort : ((commandText args).length : ℤ) < intMax) :
    redisFormatSdsCommandArgv true argv argvlen =
      some (.ok (commandText args, (commandText args).length)) := by
  have hsize : (commandText args).length < 18446744073709551616 := by
    unfold intMax at hshort
    omega
  have heq := flatMap_sdsBulkText_eq_iff.mpr (length_lt_of_short hshort)
  have hfits : HeadersFit sdsBulkHeader (commandHeader args.length).length args := by
    apply HeadersFit.of_le
    change (((commandHeader args.length).length + (args.flatMap sdsBulkText).length : ℕ) : ℤ) ≤ _
    rw [heq, ← List.length_append]
    exact hshort.le
  rw [redisFormatSdsCommandArgv_eq h hsize, if_pos ⟨hfits, congrArg List.length heq⟩, heq,
    wrapInt_of_lt hshort]
  rfl

/-- **The two formatting functions agree** as long as the header of each argument ends at a position
that fits an `int`, where `sdscatfmt` keeps it, and no argument has 2³² bytes: `"$%u"` cuts a longer
length off.  In particular they agree wherever `redisFormatCommandArgv` has a command. -/
theorem format_sds_agrees {argv : List Bytes} {argvlen : Option (List ℕ)} {args : List Bytes}
    (h : argTexts argv argvlen = some args)
    (hsize : (commandText args).length < 18446744073709551616) :
    (redisFormatSdsCommandArgv true argv argvlen =
        some (.ok (commandText args, wrapInt (commandText args).length)) ↔
      HeadersFit bulkHeader (commandHeader args.length).length args ∧
        ∀ arg ∈ args, arg.length < 4294967296) ∧
    ∀ alloc text len, redisFormatCommandArgv alloc argv argvlen = some (.ok (text ++ [0], len)) →
      redisFormatSdsCommandArgv true argv argvlen = some (.ok (text, len)) := by
  have hheaders : (∀ arg ∈ args, arg.length < 4294967296) → ∀ n,
      HeadersFit sdsBulkHeader n args ↔ HeadersFit bulkHeader n args :=
    fun hlt _ => HeadersFit.congr fun arg harg => sdsBulkHeader_eq (hlt arg harg)
  constructor
  · rw [redisFormatSdsCommandArgv_eq h hsize]
    constructor
    · intro heq
      obtain ⟨⟨hfits, -⟩, heq⟩ := Option.ite_none_right_eq_some.mp heq
      have htext := (Prod.mk.inj (Except.ok.inj (Option.some.inj heq))).1
      rw [commandText] at htext
      have hlt := flatMap_sdsBulkText_eq_iff.mp (List.append_cancel_left htext)
      exact ⟨(hheaders hlt _).mp hfits, hlt⟩
    · rintro ⟨hfits, hlt⟩
      have heq := flatMap_sdsBulkText_eq_iff.mpr hlt
      rw [if_pos ⟨(hheaders hlt _).mpr hfits, congrArg List.length heq⟩, heq]
      rfl
  · intro alloc text len hformat
    rw [redisFormatCommandArgv_eq h, buildCommand_eq_ok_iff] at hformat
    obtain ⟨hshort, -, htext, hlen⟩ := hformat
    rw [List.append_cancel_right htext, hlen]
    exact redisFormatSdsCommandArgv_short h hshort

theorem format_sds_agrees_get :
    redisFormatSdsCommandArgv true [ascii "GET", ascii "k\x00"] (some [3, 2]) =
      some (.ok (commandText [ascii "GET", ascii "k\x00"],
        wrapInt (commandText [ascii "GET", ascii "k\x00"]).length)) :=
  (@format_sds_agrees _ _ [ascii "GET", ascii "k\x00"] rfl (by decide)).1.mpr (by decide)

end RedisMigrate
