import RedisMigrate.Decoder
import RedisMigrate.Reader

/-! # The reply stream as a decoder

What the reader is for, without its buffer, cursor and task array: `nextItem` says what the next
item of a stream is, and `replyDecoder` assembles items to replies with a stack of open
aggregates.  It is a `Decoder`, so what it makes of a stream does not depend on how the stream is
cut.  `fill` closes every aggregate that a reply completes.

The decoder has a failure of its own, `Fault.abort`, for the stream on which an assertion of the
reply functions fails. -/

namespace RedisMigrate

/-- An item of the stream: a whole reply, or the head of an aggregate that has elements. -/
inductive Item where
  | leaf (reply : RedisReply)
  | aggregate (type : ReplyType) (missing : ℕ)

/-- What a stream begins with. -/
inductive Scan where
  | wait
  | fail (type : ReaderErr) (str : Bytes)
  | item (i : Item) (rest : Bytes)

def Scan.bad (str : String) : Scan := .fail .protocol (ascii str)

/-! ### Lines -/

/-- The bytes before the first `"\r\n"` and the bytes after it. -/
def splitLine : Bytes → Option (Bytes × Bytes)
  | [] => none
  | c :: s =>
      if c = 13 ∧ s.head? = some 10 then some ([], s.tail)
      else (splitLine s).map fun lr => (c :: lr.1, lr.2)

theorem splitLine_eq {s l rest : Bytes} (h : splitLine s = some (l, rest)) :
    s = l ++ [13, 10] ++ rest := by
  induction s generalizing l with
  | nil => simp [splitLine] at h
  | cons c s ih =>
      rw [splitLine] at h
      split_ifs at h with hc
      · obtain ⟨rfl, hs⟩ := hc
        cases s with
        | nil => simp at hs
        | cons d s =>
            obtain rfl : d = 10 := by simpa using hs
            obtain ⟨rfl, rfl⟩ : [] = l ∧ s = rest := by simpa using h
            rfl
      · obtain ⟨lr, hlr, heq⟩ := Option.map_eq_some_iff.mp h
        obtain ⟨rfl, rfl⟩ : c :: lr.1 = l ∧ lr.2 = rest := by simpa using heq
        have := ih hlr
        rw [this]
        simp

theorem splitLine_append {s l rest : Bytes} (h : splitLine s = some (l, rest)) (x : Bytes) :
    splitLine (s ++ x) = some (l, rest ++ x) := by
  induction s generalizing l with
  | nil => simp [splitLine] at h
  | cons c s ih =>
      rw [splitLine] at h
      rw [List.cons_append, splitLine]
      split_ifs at h with hc
      · obtain ⟨rfl, hs⟩ := hc
        cases s with
        | nil => simp at hs
        | cons d s =>
            obtain ⟨rfl, rfl⟩ : [] = l ∧ s = rest := by simpa using h
            obtain rfl : d = 10 := by simpa using hs
            simp
      · obtain ⟨lr, hlr, heq⟩ := Option.map_eq_some_iff.mp h
        obtain ⟨rfl, rfl⟩ : c :: lr.1 = l ∧ lr.2 = rest := by simpa using heq
        have hne : ¬ (c = 13 ∧ (s ++ x).head? = some 10) := by
          rintro ⟨rfl, hx⟩
          apply hc
          cases s with
          | nil => simp [splitLine] at hlr
          | cons d s => exact ⟨rfl, by simpa using hx⟩
        rw [if_neg hne, ih hlr]
        rfl

theorem splitLine_length {s l rest : Bytes} (h : splitLine s = some (l, rest)) :
    s.length = l.length + 2 + rest.length := by
  rw [splitLine_eq h]
  simp only [List.length_append, List.length_cons, List.length_nil]

/-! ### Items -/

/-- The reply in a line; an error text otherwise. -/
def lineReply (strtod : Strtod) (type : ReplyType) (p : Bytes) : RedisReply ⊕ String :=
  match type with
  | .integer =>
      match string2ll p with
      | none => .inr "Bad integer value"
      | some v => .inl (.integer v)
  | .double =>
      match readDouble strtod p with
      | .inr str => .inr str
      | .inl d => .inl (.double d p)
  | .nil => .inl .nil
  | .bool => .inl (.bool (p.head? = some 116 ∨ p.head? = some 84 : Bool))
  | type => .inl (.string type p)

def scanLine (strtod : Strtod) (type : ReplyType) (s : Bytes) : Scan :=
  match splitLine s with
  | none => .wait
  | some (p, rest) =>
      match lineReply strtod type p with
      | .inr str => .bad str
      | .inl v => .item (.leaf v) rest

/-- The reply of a bulk string. -/
def bulkReply (type : ReplyType) (str : Bytes) : RedisReply :=
  if type = .verb then .verb (str.take 3) (str.drop 4) else .string type str

/-- The bulk string of `len` bytes at the beginning of `s`; its two last bytes can be any. -/
def scanString (type : ReplyType) (len : ℕ) (s : Bytes) : Scan :=
  if len + 2 ≤ s.length then
    if type = .verb ∧ (len < 4 ∨ s[3]? ≠ some 58) then
      .bad "Verbatim string 4 bytes of content type are missing or incorrectly encoded."
    else .item (.leaf (bulkReply type (s.take len))) (s.drop (len + 2))
  else .wait

def scanBulk (type : ReplyType) (s : Bytes) : Scan :=
  match splitLine s with
  | none => .wait
  | some (p, rest) =>
      match string2ll p with
      | none => .bad "Bad bulk string length"
      | some len =>
          if len < -1 then .bad "Bulk string length out of range"
          else if len = -1 then .item (.leaf .nil) rest
          else scanString type len.toNat rest

/-- The number of replies in an aggregate of the announced length. -/
def elementCount (type : ReplyType) (elements : ℤ) : ℤ :=
  if type = .map then elements * 2 else elements

def scanAggregate (maxelements : ℤ) (type : ReplyType) (s : Bytes) : Scan :=
  match splitLine s with
  | none => .wait
  | some (p, rest) =>
      match string2ll p with
      | none => .bad "Bad multi-bulk length"
      | some elements =>
          if elements < -1 ∨ (maxelements > 0 ∧ elements > maxelements) then
            .bad "Multi-bulk length out of range"
          else if elements = -1 then .item (.leaf .nil) rest
          else if 2305843009213693951 < elementCount type elements then
            .fail .oom (ascii "Out of memory")
          else if elementCount type elements > 0 then
            .item (.aggregate type ((elementCount type elements).toNat - 1)) rest
          else .item (.leaf (.array type [])) rest

/-- The three ways in which items are written; two types have none. -/
inductive ItemKind where
  | line
  | bulk
  | aggregate
  | unknown

def ReplyType.kind : ReplyType → ItemKind
  | error | status | integer | double | nil | bool => .line
  | string | verb => .bulk
  | array | map | set | push => .aggregate
  | attr | bignum => .unknown

def scanTyped (strtod : Strtod) (maxelements : ℤ) (type : ReplyType) (s : Bytes) : Scan :=
  match type.kind with
  | .line => scanLine strtod type s
  | .bulk => scanBulk type s
  | .aggregate => scanAggregate maxelements type s
  | .unknown => .wait

theorem kind_of_ite {p : Prop} [Decidable p] {t : ReplyType} {o : Option ReplyType}
    (ht : t.kind ≠ .unknown) (ho : ∀ type, o = some type → type.kind ≠ .unknown) :
    ∀ type, (if p then some t else o) = some type → type.kind ≠ .unknown := by
  intro type h
  split_ifs at h
  · exact Option.some.inj h ▸ ht
  · exact ho type h

/-- No byte stands for a type that is not written. -/
theorem kind_of_typeOfByte (c : UInt8) :
    ∀ type, typeOfByte c = some type → type.kind ≠ .unknown := by
  unfold typeOfByte
  repeat' refine kind_of_ite (by simp [ReplyType.kind]) ?_
  simp

/-- The text of the error for a byte that is no type. -/
def protocolByteText (c : UInt8) : Bytes :=
  ascii "Protocol error, got " ++ chrtos c ++ ascii " as reply type byte"

def nextItem (strtod : Strtod) (maxelements : ℤ) : Bytes → Scan
  | [] => .wait
  | c :: s =>
      match typeOfByte c with
      | none => .fail .protocol (protocolByteText c)
      | some type => scanTyped strtod maxelements type s

/-! ### More input changes no decision -/

/-- The decision `a` of a scan stays when `x` is appended to its input, unless it was to wait. -/
def Scan.Stable (a b : Scan) (x : Bytes) : Prop :=
  match a with
  | .wait => True
  | .fail type str => b = .fail type str
  | .item i rest => b = .item i (rest ++ x)

theorem scanLine_stable (strtod : Strtod) (type : ReplyType) (s x : Bytes) :
    (scanLine strtod type s).Stable (scanLine strtod type (s ++ x)) x := by
  unfold scanLine
  cases h : splitLine s with
  | none => trivial
  | some pr =>
      obtain ⟨p, rest⟩ := pr
      rw [splitLine_append h]
      dsimp only
      cases lineReply strtod type p <;> rfl

theorem scanString_stable (type : ReplyType) (len : ℕ) (s x : Bytes) :
    (scanString type len s).Stable (scanString type len (s ++ x)) x := by
  unfold scanString
  by_cases hlen : len + 2 ≤ s.length
  · have hlen' : len + 2 ≤ (s ++ x).length := by rw [List.length_append]; omega
    rw [if_pos hlen, if_pos hlen', List.take_append_of_le_length (by omega),
      List.drop_append_of_le_length hlen]
    by_cases h4 : len < 4
    · simp only [h4, true_or, and_true]
      split_ifs <;> rfl
    · rw [List.getElem?_append_left (by omega)]
      split_ifs <;> rfl
  · rw [if_neg hlen]
    trivial

theorem scanBulk_stable (type : ReplyType) (s x : Bytes) :
    (scanBulk type s).Stable (scanBulk type (s ++ x)) x := by
  unfold scanBulk
  cases h : splitLine s with
  | none => trivial
  | some pr =>
      obtain ⟨p, rest⟩ := pr
      rw [splitLine_append h]
      dsimp only
      cases string2ll p with
      | none => rfl
      | some len =>
          dsimp only
          split_ifs
          · rfl
          · rfl
          · exact scanString_stable type len.toNat rest x

theorem scanAggregate_stable (maxelements : ℤ) (type : ReplyType) (s x : Bytes) :
    (scanAggregate maxelements type s).Stable (scanAggregate maxelements type (s ++ x)) x := by
  unfold scanAggregate
  cases h : splitLine s with
  | none => trivial
  | some pr =>
      obtain ⟨p, rest⟩ := pr
      rw [splitLine_append h]
      dsimp only
      cases string2ll p with
      | none => rfl
      | some elements =>
          dsimp only
          split_ifs <;> rfl

theorem scanTyped_stable (strtod : Strtod) (maxelements : ℤ) (type : ReplyType) (s x : Bytes) :
    (scanTyped strtod maxelements type s).Stable (scanTyped strtod maxelements type (s ++ x))
      x := by
  unfold scanTyped
  cases type.kind with
  | line => exact scanLine_stable strtod type s x
  | bulk => exact scanBulk_stable type s x
  | aggregate => exact scanAggregate_stable maxelements type s x
  | unknown => trivial

theorem nextItem_stable (strtod : Strtod) (maxelements : ℤ) (b x : Bytes) :
    (nextItem strtod maxelements b).Stable (nextItem strtod maxelements (b ++ x)) x := by
  cases b with
  | nil => trivial
  | cons c s =>
      rw [List.cons_append, nextItem, nextItem]
      cases typeOfByte c with
      | none => rfl
      | some type => exact scanTyped_stable strtod maxelements type s x

/-! ### An item has bytes -/

/-- A scan of `s` that finds an item leaves a part of `s`. -/
def Scan.Within (a : Scan) (s : Bytes) : Prop :=
  ∀ i rest, a = .item i rest → rest.length ≤ s.length

theorem Scan.within_of_rest {a : Scan} {p rest s : Bytes} (hs : splitLine s = some (p, rest))
    (h : a.Within rest) : a.Within s := by
  intro i rest' ha
  have hle := h i rest' ha
  have := splitLine_length hs
  omega

theorem Scan.within_item (i : Item) (s : Bytes) : (Scan.item i s).Within s := by
  intro i' rest h
  obtain rfl := (Scan.item.inj h).2
  rfl

theorem Scan.within_bad (str : String) (s : Bytes) : (Scan.bad str).Within s := by
  intro i rest h
  cases h

theorem scanLine_within (strtod : Strtod) (type : ReplyType) (s : Bytes) :
    (scanLine strtod type s).Within s := by
  unfold scanLine
  cases h : splitLine s with
  | none => rintro _ _ ⟨⟩
  | some pr =>
      obtain ⟨p, rest⟩ := pr
      apply Scan.within_of_rest h
      dsimp only
      cases lineReply strtod type p with
      | inl v => exact Scan.within_item _ _
      | inr str => exact Scan.within_bad _ _

theorem scanString_within (type : ReplyType) (len : ℕ) (s : Bytes) :
    (scanString type len s).Within s := by
  unfold scanString
  split_ifs
  · exact Scan.within_bad _ _
  · intro i rest h
    obtain rfl := (Scan.item.inj h).2
    rw [List.length_drop]
    omega
  · rintro _ _ ⟨⟩

theorem scanBulk_within (type : ReplyType) (s : Bytes) : (scanBulk type s).Within s := by
  unfold scanBulk
  cases h : splitLine s with
  | none => rintro _ _ ⟨⟩
  | some pr =>
      obtain ⟨p, rest⟩ := pr
      apply Scan.within_of_rest h
      dsimp only
      cases string2ll p with
      | none => exact Scan.within_bad _ _
      | some len =>
          dsimp only
          split_ifs
          · exact Scan.within_bad _ _
          · exact Scan.within_item _ _
          · exact scanString_within _ _ _

theorem scanAggregate_within (maxelements : ℤ) (type : ReplyType) (s : Bytes) :
    (scanAggregate maxelements type s).Within s := by
  unfold scanAggregate
  cases h : splitLine s with
  | none => rintro _ _ ⟨⟩
  | some pr =>
      obtain ⟨p, rest⟩ := pr
      apply Scan.within_of_rest h
      dsimp only
      cases string2ll p with
      | none => exact Scan.within_bad _ _
      | some elements =>
          dsimp only
          split_ifs
          · exact Scan.within_bad _ _
          · exact Scan.within_item _ _
          · rintro _ _ ⟨⟩
          · exact Scan.within_item _ _
          · exact Scan.within_item _ _

theorem scanTyped_within (strtod : Strtod) (maxelements : ℤ) (type : ReplyType) (s : Bytes) :
    (scanTyped strtod maxelements type s).Within s := by
  unfold scanTyped
  cases type.kind with
  | line => exact scanLine_within strtod type s
  | bulk => exact scanBulk_within type s
  | aggregate => exact scanAggregate_within maxelements type s
  | unknown => rintro _ _ ⟨⟩

theorem nextItem_within {strtod : Strtod} {maxelements : ℤ} {b : Bytes} {i : Item} {rest : Bytes}
    (h : nextItem strtod maxelements b = .item i rest) : rest.length < b.length := by
  cases b with
  | nil => cases h
  | cons c s =>
      rw [nextItem] at h
      cases htype : typeOfByte c with
      | none => rw [htype] at h; cases h
      | some type =>
          rw [htype] at h
          exact Nat.lt_succ_of_le (scanTyped_within strtod maxelements type s i rest h)

/-! ### Assembling replies -/

/-- An aggregate that is being read: its elements so far, and how many follow the next one. -/
structure Frame where
  type : ReplyType
  done : List RedisReply
  missing : ℕ

/-- The number of elements of the aggregate. -/
def Frame.total (f : Frame) : ℕ := f.done.length + 1 + f.missing

/-- Put a reply into the innermost open aggregate, and close the aggregates that this completes;
a reply outside of them is the result. -/
def fill : List Frame → RedisReply → List Frame × Option RedisReply
  | [], v => ([], some v)
  | f :: fs, v =>
      match f.missing with
      | 0 => fill fs (.array f.type ((f.done ++ [v]).map some))
      | m + 1 => (⟨f.type, f.done ++ [v], m⟩ :: fs, none)

/-- A result is a reply outside of all aggregates. -/
theorem fill_some {frames frames' : List Frame} {v w : RedisReply}
    (h : fill frames v = (frames', some w)) : frames' = [] := by
  induction frames generalizing v with
  | nil =>
      rw [fill] at h
      exact (Prod.mk.inj h).1.symm
  | cons f fs ih =>
      rw [fill] at h
      cases hm : f.missing with
      | zero => rw [hm] at h; exact ih h
      | succ m => rw [hm] at h; cases (Prod.mk.inj h).2

/-- A reply for which an assertion of its reply function fails when its parent is a push. -/
def RedisReply.Unpushable : RedisReply → Prop
  | double _ _ => True
  | nil => True
  | bool _ => True
  | _ => False

instance (v : RedisReply) : Decidable v.Unpushable := by
  cases v <;> unfold RedisReply.Unpushable <;> infer_instance

/-- The reply is read as an element of a push. -/
def InPush (frames : List Frame) : Prop := ∃ f fs, frames = f :: fs ∧ f.type = .push

instance (frames : List Frame) : Decidable (InPush frames) :=
  match frames with
  | [] => isFalse (by rintro ⟨f, fs, h, -⟩; cases h)
  | f :: fs => decidable_of_iff (f.type = .push)
      ⟨fun h => ⟨f, fs, rfl, h⟩, by rintro ⟨_, _, h, ht⟩; cases h; exact ht⟩

inductive Fault where
  | error (type : ReaderErr) (str : Bytes)
  | abort
deriving DecidableEq

/-- What an item does to the open aggregates. -/
def place (frames : List Frame) (i : Item) (rest : Bytes) :
    Decoder.Next (List Frame) UInt8 RedisReply Fault :=
  match i with
  | .aggregate type missing => .advance (⟨type, [], missing⟩ :: frames) none rest
  | .leaf v =>
      if InPush frames ∧ v.Unpushable then .fail .abort
      else .advance (fill frames v).1 (fill frames v).2 rest

def placeScan (frames : List Frame) : Scan → Decoder.Next (List Frame) UInt8 RedisReply Fault
  | .wait => .wait
  | .fail type str => .fail (.error type str)
  | .item i rest => place frames i rest

def decodeNext (strtod : Strtod) (maxelements : ℤ) (frames : List Frame) (b : Bytes) :
    Decoder.Next (List Frame) UInt8 RedisReply Fault :=
  placeScan frames (nextItem strtod maxelements b)

theorem place_advance {frames frames' : List Frame} {i : Item} {rest rest' : Bytes}
    {o : Option RedisReply} (h : place frames i rest = .advance frames' o rest') :
    rest' = rest ∧ ∀ x, place frames i x = .advance frames' o x := by
  cases i with
  | aggregate type missing =>
      cases h
      exact ⟨rfl, fun x => rfl⟩
  | leaf v =>
      unfold place at h ⊢
      dsimp only at h ⊢
      split_ifs at h ⊢
      cases h
      exact ⟨rfl, fun x => rfl⟩

/-- A reply comes out when no aggregate is open. -/
theorem place_some {frames frames' : List Frame} {i : Item} {rest rest' : Bytes} {v : RedisReply}
    (h : place frames i rest = .advance frames' (some v) rest') : frames' = [] := by
  cases i with
  | aggregate type missing => cases h
  | leaf w =>
      unfold place at h
      dsimp only at h
      split_ifs at h
      obtain ⟨h1, h2, -⟩ := Decoder.Next.advance.inj h
      exact fill_some (Prod.ext h1 h2)

theorem place_fail {frames : List Frame} {i : Item} {rest : Bytes} {e : Fault}
    (h : place frames i rest = .fail e) (x : Bytes) : place frames i x = .fail e := by
  cases i with
  | aggregate type missing => cases h
  | leaf v =>
      unfold place at h ⊢
      dsimp only at h ⊢
      split_ifs at h ⊢
      exact h

theorem placeScan_advance {frames frames' : List Frame} {a : Scan} {rest : Bytes}
    {o : Option RedisReply} (h : placeScan frames a = .advance frames' o rest) :
    ∃ i, a = .item i rest ∧ ∀ x, place frames i x = .advance frames' o x := by
  cases a with
  | wait => cases h
  | fail type str => cases h
  | item i rest' =>
      obtain ⟨rfl, hplace⟩ := place_advance h
      exact ⟨i, rfl, hplace⟩

/-- The reader as a decoder of its stream. -/
def replyDecoder (strtod : Strtod) (maxelements : ℤ) :
    Decoder (List Frame) UInt8 RedisReply Fault where
  next := decodeNext strtod maxelements
  consumes := by
    intro frames b frames' o rest h
    obtain ⟨i, hitem, -⟩ := placeScan_advance h
    exact nextItem_within hitem
  advance_append := by
    intro frames b frames' o rest h x
    obtain ⟨i, hitem, hplace⟩ := placeScan_advance h
    have hstable := nextItem_stable strtod maxelements b x
    rw [hitem] at hstable
    rw [decodeNext, show nextItem strtod maxelements (b ++ x) = _ from hstable]
    exact hplace _
  fail_append := by
    intro frames b e h x
    have hstable := nextItem_stable strtod maxelements b x
    unfold decodeNext at h ⊢
    cases hscan : nextItem strtod maxelements b with
    | wait => rw [hscan] at h; cases h
    | fail type str =>
        rw [hscan] at h hstable
        rw [show nextItem strtod maxelements (b ++ x) = _ from hstable]
        exact h
    | item i rest =>
        rw [hscan] at h hstable
        rw [show nextItem strtod maxelements (b ++ x) = _ from hstable]
        exact place_fail h _

end RedisMigrate
