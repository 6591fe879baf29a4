import RedisMigrate.ReaderRuns

/-! # The grammar of replies

`Encodes v t` says that `t` is a text of the reply `v`, in the form in which the reader takes it: it
takes any two bytes after a bulk string, a null in four ways, and numbers only as `string2ll`
does.  `nextItem_eq_item_iff` connects the items with the scanner.

* `delivered_iff`: what a session has delivered at its end are the replies whose texts make up the
  stream, up to a rest that begins with no text of a reply.
* `getReply_aborts_iff`: the streams on which an assertion of the reply functions fails. -/

namespace RedisMigrate

/-! ### Items -/

def crlf : Bytes := [13, 10]

/-- A text without `"\r\n"`. -/
def IsLine (p : Bytes) : Prop := ¬ crlf <:+: p

/-- The texts of an item. -/
inductive ItemText (strtod : Strtod) (m : ℤ) : Item → Bytes → Prop
  | line {c : UInt8} {type : ReplyType} {p : Bytes} {v : RedisReply} :
      typeOfByte c = some type → type.kind = .line → IsLine p → lineReply strtod type p = .inl v →
      ItemText strtod m (.leaf v) (c :: p ++ crlf)
  | bulk {c : UInt8} {type : ReplyType} {str : Bytes} {x y : UInt8} :
      typeOfByte c = some type → type.kind = .bulk → InLongLong str.length →
      (type = .verb → 4 ≤ str.length ∧ str[3]? = some 58) →
      ItemText strtod m (.leaf (bulkReply type str))
        (c :: decimal str.length ++ crlf ++ str ++ [x, y])
  | nil {c : UInt8} {type : ReplyType} :
      typeOfByte c = some type → type.kind = .bulk ∨ type.kind = .aggregate →
      ItemText strtod m (.leaf .nil) (c :: decimal (-1) ++ crlf)
  | empty {c : UInt8} {type : ReplyType} :
      typeOfByte c = some type → type.kind = .aggregate →
      ItemText strtod m (.leaf (.array type [])) (c :: decimal 0 ++ crlf)
  | aggregate {c : UInt8} {type : ReplyType} {elements missing : ℕ} :
      typeOfByte c = some type → type.kind = .aggregate → InLongLong elements →
      (m > 0 → elements ≤ m) → elementCount type elements = missing + 1 →
      missing < 2305843009213693951 →
      ItemText strtod m (.aggregate type missing) (c :: decimal elements ++ crlf)

theorem isLine_cons {c : UInt8} {p : Bytes} (h : IsLine (c :: p)) : IsLine p :=
  fun hp => h (hp.trans (List.suffix_cons c p).isInfix)

theorem splitLine_line {p : Bytes} (h : IsLine p) (rest : Bytes) :
    splitLine (p ++ crlf ++ rest) = some (p, rest) := by
  induction p with
  | nil => rfl
  | cons c p ih =>
      have hne : ¬ (c = 13 ∧ (p ++ crlf ++ rest).head? = some 10) := by
        rintro ⟨rfl, hhead⟩
        cases p with
        | nil => simp [crlf] at hhead
        | cons d p =>
            obtain rfl : d = 10 := by simpa using hhead
            exact h ⟨[], p, rfl⟩
      rw [List.cons_append, List.cons_append, splitLine, if_neg hne, ih (isLine_cons h)]
      rfl

theorem isLine_of_splitLine {s p rest : Bytes} (h : splitLine s = some (p, rest)) : IsLine p := by
  induction s generalizing p with
  | nil => cases h
  | cons c s ih =>
      rw [splitLine] at h
      split_ifs at h with hc
      · obtain rfl : [] = p := (Prod.mk.inj (Option.some.inj h)).1
        rintro ⟨a, b, hab⟩
        simp [crlf] at hab
      · obtain ⟨lr, hlr, heq⟩ := Option.map_eq_some_iff.mp h
        obtain ⟨rfl, rfl⟩ : c :: lr.1 = p ∧ lr.2 = rest := by simpa using heq
        have hline := ih (p := lr.1) hlr
        have hs := splitLine_eq (l := lr.1) hlr
        rintro ⟨a, b, hab⟩
        cases a with
        | nil =>
            -- The line would begin with the line end that was looked for.
            apply hc
            rw [List.nil_append] at hab
            obtain ⟨rfl, hb⟩ := List.cons.inj hab
            refine ⟨rfl, ?_⟩
            rw [hs, ← hb]
            rfl
        | cons d a => exact hline ⟨a, b, (List.cons.inj hab).2⟩

theorem isLine_decimal (v : ℤ) : IsLine (decimal v) := by
  intro h
  have hmem : 13 ∈ decimal v := by
    obtain ⟨a, b, hab⟩ := h
    rw [← hab]
    simp [crlf]
  unfold decimal at hmem
  have hdigits : 13 ∉ digits v.natAbs := by
    intro hd
    have := (isDecDigit_of_mem_digits hd).1
    simp at this
  split_ifs at hmem
  · cases List.mem_cons.mp hmem with
    | inl h0 => simp at h0
    | inr hd => exact hdigits hd
  · exact hdigits hmem

/-- A scan that splits off a line. -/
theorem splitLine_iff {s p rest : Bytes} :
    splitLine s = some (p, rest) ↔ IsLine p ∧ s = p ++ crlf ++ rest := by
  constructor
  · intro h
    exact ⟨isLine_of_splitLine h, splitLine_eq h⟩
  · rintro ⟨h, rfl⟩
    exact splitLine_line h rest

theorem string2ll_decimal {v : ℤ} (h : InLongLong v) : string2ll (decimal v) = some v :=
  string2ll_eq_some_iff.mpr ⟨rfl, h⟩

section items

variable {strtod : Strtod} {m : ℤ} {i : Item} {type : ReplyType} {c : UInt8} {s t rest : Bytes}

theorem scanLine_item (hc : typeOfByte c = some type) (hkind : type.kind = .line)
    (h : scanLine strtod type s = .item i rest) :
    ∃ t, ItemText strtod m i t ∧ c :: s = t ++ rest := by
  unfold scanLine at h
  cases hs : splitLine s with
  | none => rw [hs] at h; cases h
  | some pr =>
      obtain ⟨p, rest'⟩ := pr
      obtain ⟨hline, rfl⟩ := splitLine_iff.mp hs
      rw [hs] at h
      dsimp only at h
      cases hv : lineReply strtod type p with
      | inr str => rw [hv] at h; cases h
      | inl v =>
          rw [hv] at h
          obtain ⟨rfl, rfl⟩ := Scan.item.inj h
          exact ⟨_, .line hc hkind hline hv, by simp⟩

theorem scanString_item {len : ℕ} (hc : typeOfByte c = some type) (hkind : type.kind = .bulk)
    (hlen : InLongLong len) (h : scanString type len s = .item i rest) :
    ∃ t, ItemText strtod m i t ∧ c :: (decimal len ++ crlf ++ s) = t ++ rest := by
  unfold scanString at h
  by_cases hfits : len + 2 ≤ s.length
  · rw [if_pos hfits] at h
    by_cases hverb : type = .verb ∧ (len < 4 ∨ s[3]? ≠ some 58)
    · rw [if_pos hverb] at h
      cases h
    · rw [if_neg hverb] at h
      obtain ⟨rfl, rfl⟩ := Scan.item.inj h
      have htake : (s.take len).length = len := List.length_take_of_le (by omega)
      -- The two bytes after the string are not looked at.
      obtain ⟨x, y, hxy⟩ : ∃ x y, s = s.take len ++ [x, y] ++ s.drop (len + 2) := by
        have h1 : len < s.length := by omega
        have h2 : len + 1 < s.length := by omega
        refine ⟨s[len], s[len + 1], ?_⟩
        rw [List.append_assoc, List.cons_append, List.singleton_append, List.getElem_cons_drop h2,
          List.getElem_cons_drop h1, List.take_append_drop]
      have htext : ItemText strtod m (.leaf (bulkReply type (s.take len)))
          (c :: decimal (s.take len).length ++ crlf ++ s.take len ++ [x, y]) := by
        refine .bulk hc hkind (by rwa [htake]) ?_
        intro hv
        rw [not_and_or, not_or, not_lt, not_not] at hverb
        obtain ⟨h4, h58⟩ := hverb.resolve_left (fun hn => hn hv)
        refine ⟨by omega, ?_⟩
        rw [List.getElem?_take_of_lt (by omega)]
        exact h58
      refine ⟨_, htext, ?_⟩
      rw [htake]
      conv_lhs => rw [hxy]
      simp
  · rw [if_neg hfits] at h
    cases h

theorem scanBulk_item (hc : typeOfByte c = some type) (hkind : type.kind = .bulk)
    (h : scanBulk type s = .item i rest) :
    ∃ t, ItemText strtod m i t ∧ c :: s = t ++ rest := by
  unfold scanBulk at h
  cases hs : splitLine s with
  | none => rw [hs] at h; cases h
  | some pr =>
      obtain ⟨p, rest'⟩ := pr
      obtain ⟨hline, rfl⟩ := splitLine_iff.mp hs
      rw [hs] at h
      dsimp only at h
      cases hp : string2ll p with
      | none => rw [hp] at h; cases h
      | some len =>
          obtain ⟨rfl, hlen⟩ := string2ll_eq_some_iff.mp hp
          rw [hp] at h
          dsimp only at h
          split_ifs at h with hneg hnil
          · cases h
          · obtain ⟨rfl, rfl⟩ := Scan.item.inj h
            subst hnil
            exact ⟨_, .nil hc (.inl hkind), by simp⟩
          · obtain ⟨n, rfl⟩ : ∃ n : ℕ, len = n := ⟨len.toNat, by omega⟩
            exact scanString_item hc hkind hlen h

theorem scanAggregate_item (hc : typeOfByte c = some type) (hkind : type.kind = .aggregate)
    (h : scanAggregate m type s = .item i rest) :
    ∃ t, ItemText strtod m i t ∧ c :: s = t ++ rest := by
  unfold scanAggregate at h
  cases hs : splitLine s with
  | none => rw [hs] at h; cases h
  | some pr =>
      obtain ⟨p, rest'⟩ := pr
      obtain ⟨hline, rfl⟩ := splitLine_iff.mp hs
      rw [hs] at h
      dsimp only at h
      cases hp : string2ll p with
      | none => rw [hp] at h; cases h
      | some elements =>
          obtain ⟨rfl, hll⟩ := string2ll_eq_some_iff.mp hp
          rw [hp] at h
          dsimp only at h
          split_ifs at h with hrange hnil hbig hpos
          · cases h
          · obtain ⟨rfl, rfl⟩ := Scan.item.inj h
            subst hnil
            exact ⟨_, .nil hc (.inr hkind), by simp⟩
          · obtain ⟨rfl, rfl⟩ := Scan.item.inj h
            obtain ⟨n, rfl⟩ : ∃ n : ℕ, elements = n := ⟨elements.toNat, by omega⟩
            refine ⟨_, .aggregate hc hkind hll ?_ ?_ ?_, by simp⟩
            all_goals omega
          · obtain ⟨rfl, rfl⟩ := Scan.item.inj h
            obtain rfl : elements = 0 := by
              unfold elementCount at hpos
              split_ifs at hpos <;> omega
            exact ⟨_, .empty hc hkind, by simp⟩

theorem scanTyped_item (hc : typeOfByte c = some type)
    (h : scanTyped strtod m type s = .item i rest) :
    ∃ t, ItemText strtod m i t ∧ c :: s = t ++ rest := by
  unfold scanTyped at h
  cases hkind : type.kind with
  | line => rw [hkind] at h; exact scanLine_item hc hkind h
  | bulk => rw [hkind] at h; exact scanBulk_item hc hkind h
  | aggregate => rw [hkind] at h; exact scanAggregate_item hc hkind h
  | unknown => rw [hkind] at h; cases h

/-- A text of an item is read as that item, whatever follows it. -/
theorem ItemText.nextItem_append (h : ItemText strtod m i t) (rest : Bytes) :
    nextItem strtod m (t ++ rest) = .item i rest := by
  have hnil (rest : Bytes) : splitLine (decimal (-1) ++ crlf ++ rest) = some (decimal (-1), rest) :=
    splitLine_line (isLine_decimal _) rest
  cases h with
  | @line c type p v hc hkind hline hv =>
      rw [List.cons_append, List.cons_append, nextItem, hc]
      dsimp only
      rw [scanTyped, hkind]
      dsimp only
      rw [scanLine, splitLine_line hline]
      dsimp only
      rw [hv]
  | @bulk c type str x y hc hkind hlen hverb =>
      have hassoc : c :: decimal str.length ++ crlf ++ str ++ [x, y] ++ rest =
          c :: (decimal str.length ++ crlf ++ (str ++ [x, y] ++ rest)) := by simp
      have hneg : ¬ (str.length : ℤ) < -1 := by omega
      have hne : ¬ (str.length : ℤ) = -1 := by omega
      have hfits : str.length + 2 ≤ (str ++ [x, y] ++ rest).length := by
        simp only [List.length_append, List.length_cons, List.length_nil]
        omega
      have hok : ¬ (type = .verb ∧ (str.length < 4 ∨ (str ++ [x, y] ++ rest)[3]? ≠ some 58)) := by
        rintro ⟨hv, hbad⟩
        obtain ⟨h4, h58⟩ := hverb hv
        rw [List.append_assoc, List.getElem?_append_left (by omega)] at hbad
        cases hbad with
        | inl hlt => omega
        | inr h58' => exact h58' h58
      have htake : (str ++ [x, y] ++ rest).take str.length = str := by
        rw [List.append_assoc, List.take_left']
        rfl
      have hdrop : (str ++ [x, y] ++ rest).drop (str.length + 2) = rest := by
        rw [List.drop_left']
        simp
      rw [hassoc, nextItem, hc]
      dsimp only
      rw [scanTyped, hkind]
      dsimp only
      rw [scanBulk, splitLine_line (isLine_decimal _)]
      dsimp only
      rw [string2ll_decimal hlen]
      dsimp only
      rw [if_neg hneg, if_neg hne, Int.toNat_natCast, scanString, if_pos hfits, if_neg hok, htake,
        hdrop]
  | @nil c type hc hkind =>
      rw [List.cons_append, List.cons_append, nextItem, hc]
      dsimp only
      rw [scanTyped]
      cases hkind with
      | inl hkind =>
          rw [hkind]
          dsimp only
          rw [scanBulk, hnil]
          rfl
      | inr hkind =>
          rw [hkind]
          dsimp only
          rw [scanAggregate, hnil]
          dsimp only
          rw [string2ll_decimal (by decide)]
          dsimp only
          rw [if_neg (by omega), if_pos rfl]
  | @empty c type hc hkind =>
      rw [List.cons_append, List.cons_append, nextItem, hc]
      dsimp only
      rw [scanTyped, hkind]
      dsimp only
      rw [scanAggregate, splitLine_line (isLine_decimal _)]
      dsimp only
      rw [string2ll_decimal (by decide)]
      dsimp only
      have hcount : elementCount type 0 = 0 := by unfold elementCount; split_ifs <;> rfl
      rw [if_neg (by omega), if_neg (by omega), hcount, if_neg (by omega), if_neg (by omega)]
  | @aggregate c type elements missing hc hkind hll hlimit hcount hbig =>
      rw [List.cons_append, List.cons_append, nextItem, hc]
      dsimp only
      rw [scanTyped, hkind]
      dsimp only
      rw [scanAggregate, splitLine_line (isLine_decimal _)]
      dsimp only
      rw [string2ll_decimal hll]
      dsimp only
      have hrange : ¬ ((elements : ℤ) < -1 ∨ (m > 0 ∧ (elements : ℤ) > m)) := by
        rintro (h | ⟨h1, h2⟩)
        · omega
        · have := hlimit h1
          omega
      have hmissing : ((missing : ℤ) + 1).toNat - 1 = missing := by omega
      rw [if_neg hrange, if_neg (by omega), hcount, if_neg (by omega), if_pos (by omega), hmissing]

/-- **The scanner finds exactly the texts of items.** -/
theorem nextItem_eq_item_iff {b : Bytes} :
    nextItem strtod m b = .item i rest ↔ ∃ t, ItemText strtod m i t ∧ b = t ++ rest := by
  constructor
  · intro h
    cases b with
    | nil => cases h
    | cons c s =>
        rw [nextItem] at h
        cases hc : typeOfByte c with
        | none => rw [hc] at h; cases h
        | some type => rw [hc] at h; exact scanTyped_item hc h
  · rintro ⟨t, ht, rfl⟩
    exact ht.nextItem_append rest

end items

/-! ### Replies -/

/-- `Texts ctx vs t`: the replies `vs`, one after the other, have the text `t`.  They are elements
of an aggregate of the type `ctx`, if there is one; a push takes no null, no double and
no boolean. -/
inductive Texts (strtod : Strtod) (m : ℤ) : Option ReplyType → List RedisReply → Bytes → Prop
  | nil {ctx : Option ReplyType} : Texts strtod m ctx [] []
  | leaf {ctx : Option ReplyType} {v : RedisReply} {vs : List RedisReply} {t ts : Bytes} :
      ItemText strtod m (.leaf v) t → ¬ (ctx = some .push ∧ v.Unpushable) →
      Texts strtod m ctx vs ts → Texts strtod m ctx (v :: vs) (t ++ ts)
  | aggregate {ctx : Option ReplyType} {type : ReplyType} {missing : ℕ} {ws vs : List RedisReply}
      {t us ts : Bytes} :
      ItemText strtod m (.aggregate type missing) t → ws.length = missing + 1 →
      Texts strtod m (some type) ws us → Texts strtod m ctx vs ts →
      Texts strtod m ctx (.array type (ws.map some) :: vs) (t ++ us ++ ts)

/-- `t` is a text of `v`. -/
abbrev Encodes (strtod : Strtod) (m : ℤ) (v : RedisReply) (t : Bytes) : Prop :=
  Texts strtod m none [v] t

/-- The texts of the open aggregates, with the elements that they have. -/
inductive Opened (strtod : Strtod) (m : ℤ) : List Frame → Bytes → Prop
  | nil : Opened strtod m [] []
  | cons {f : Frame} {fs : List Frame} {t u ts : Bytes} : Opened strtod m fs t →
      ItemText strtod m (.aggregate f.type (f.done.length + f.missing)) u →
      Texts strtod m (some f.type) f.done ts → Opened strtod m (f :: fs) (t ++ u ++ ts)

/-- The type of the innermost open aggregate. -/
def context : List Frame → Option ReplyType
  | [] => none
  | f :: _ => some f.type

theorem inPush_iff {frames : List Frame} : InPush frames ↔ context frames = some .push := by
  cases frames with
  | nil =>
      constructor
      · rintro ⟨_, _, h, -⟩
        cases h
      · intro h
        cases h
  | cons f fs =>
      rw [context, Option.some.injEq]
      constructor
      · rintro ⟨_, _, h, ht⟩
        cases h
        exact ht
      · intro h
        exact ⟨f, fs, rfl, h⟩

section grammar

variable {strtod : Strtod} {m : ℤ}

theorem Texts.append {ctx : Option ReplyType} {vs ws : List RedisReply} {t u : Bytes}
    (h : Texts strtod m ctx vs t) (h' : Texts strtod m ctx ws u) :
    Texts strtod m ctx (vs ++ ws) (t ++ u) := by
  induction h with
  | nil => exact h'
  | leaf ht hpush _ ih =>
      rw [List.append_assoc]
      exact .leaf ht hpush (ih h')
  | aggregate ht hlen hus _ _ ih =>
      rw [List.append_assoc]
      exact .aggregate ht hlen hus (ih h')

/-! ### The decoder reads the grammar -/

/-- What the decoder makes of the input `b` when `v` was read inside `frames`. -/
def drainAfter (strtod : Strtod) (m : ℤ) (frames : List Frame) (v : RedisReply) (b : Bytes) :
    List RedisReply × Decoder.State (List Frame) UInt8 Fault :=
  ((fill frames v).2.toList ++ ((replyDecoder strtod m).drain (fill frames v).1 b).1,
    ((replyDecoder strtod m).drain (fill frames v).1 b).2)

/-- What it makes of `b` when all of `vs` were read inside `frames`, which has room for them. -/
def drainAll (strtod : Strtod) (m : ℤ) : List Frame → List RedisReply → Bytes →
    List RedisReply × Decoder.State (List Frame) UInt8 Fault
  | [], vs, b =>
      (vs ++ ((replyDecoder strtod m).drain [] b).1, ((replyDecoder strtod m).drain [] b).2)
  | f :: fs, vs, b =>
      if vs.length ≤ f.missing then
        (replyDecoder strtod m).drain (⟨f.type, f.done ++ vs, f.missing - vs.length⟩ :: fs) b
      else drainAfter strtod m fs (.array f.type ((f.done ++ vs).map some)) b

/-- The frames have room for `n` more elements, or no aggregate is open. -/
def Room (n : ℕ) : List Frame → Prop
  | [] => True
  | f :: _ => n ≤ f.missing + 1

theorem drain_leaf {frames : List Frame} {v : RedisReply} {t : Bytes}
    (ht : ItemText strtod m (.leaf v) t) (hpush : ¬ (InPush frames ∧ v.Unpushable)) (b : Bytes) :
    (replyDecoder strtod m).drain frames (t ++ b) = drainAfter strtod m frames v b := by
  apply Decoder.drain_advance
  show placeScan frames (nextItem strtod m (t ++ b)) = _
  rw [ht.nextItem_append b, placeScan, place, if_neg hpush]

theorem drain_aggregate {type : ReplyType} {missing : ℕ} {t : Bytes}
    (ht : ItemText strtod m (.aggregate type missing) t) (frames : List Frame) (b : Bytes) :
    (replyDecoder strtod m).drain frames (t ++ b) =
      (replyDecoder strtod m).drain (⟨type, [], missing⟩ :: frames) b := by
  have hn : (replyDecoder strtod m).next frames (t ++ b) =
      .advance (⟨type, [], missing⟩ :: frames) none b := by
    show placeScan frames (nextItem strtod m (t ++ b)) = _
    rw [ht.nextItem_append b]
    rfl
  rw [Decoder.drain_advance hn]
  rfl

theorem Texts.eq_nil {ctx : Option ReplyType} {t : Bytes} (h : Texts strtod m ctx [] t) :
    t = [] := by
  cases h
  rfl

/-- The decoder goes on with the replies after `v`. -/
theorem drainAfter_append {ctx : Option ReplyType} {v : RedisReply} {vs : List RedisReply}
    {ts : Bytes} (hts : Texts strtod m ctx vs ts)
    (ih : ∀ frames, context frames = ctx → Room vs.length frames → ∀ b,
      (replyDecoder strtod m).drain frames (ts ++ b) = drainAll strtod m frames vs b)
    {frames : List Frame} (hctx : context frames = ctx) (hroom : Room (vs.length + 1) frames)
    (b : Bytes) :
    drainAfter strtod m frames v (ts ++ b) = drainAll strtod m frames (v :: vs) b := by
  cases frames with
  | nil =>
      have hrest := ih [] hctx trivial b
      rw [drainAfter, fill]
      dsimp only
      rw [hrest]
      rfl
  | cons f fs =>
      have hle : vs.length + 1 ≤ f.missing + 1 := hroom
      rw [drainAfter, fill]
      cases hm : f.missing with
      | zero =>
          obtain rfl : vs = [] := List.eq_nil_of_length_eq_zero (by omega)
          rw [hts.eq_nil, List.nil_append, drainAll, hm]
          rfl
      | succ k =>
          have hrest := ih (⟨f.type, f.done ++ [v], k⟩ :: fs) hctx
            (show vs.length ≤ k + 1 by omega) b
          dsimp only
          rw [hrest, drainAll, drainAll, hm, List.length_cons]
          simp only [Nat.add_le_add_iff_right, Nat.add_sub_add_right, List.append_assoc,
            List.singleton_append, Option.toList_none, List.nil_append]

/-- The decoder reads a text as the replies that it is a text of. -/
theorem Texts.drain {ctx : Option ReplyType} {vs : List RedisReply} {t : Bytes}
    (h : Texts strtod m ctx vs t) (frames : List Frame) (hctx : context frames = ctx)
    (hroom : Room vs.length frames) (b : Bytes) :
    (replyDecoder strtod m).drain frames (t ++ b) = drainAll strtod m frames vs b := by
  induction h generalizing frames b with
  | nil =>
      cases frames with
      | nil => rfl
      | cons f fs => simp [drainAll]
  | leaf ht hpush hts ih =>
      rw [List.append_assoc, drain_leaf ht (by rwa [inPush_iff, hctx])]
      exact drainAfter_append hts ih hctx hroom b
  | @aggregate ctx type missing ws vs t us ts ht hlen hus hts ihs ih =>
      rw [List.append_assoc, List.append_assoc, drain_aggregate ht]
      rw [ihs (⟨type, [], missing⟩ :: frames) rfl (show ws.length ≤ missing + 1 from hlen.le)]
      rw [drainAll, if_neg (show ¬ ws.length ≤ missing by omega)]
      exact drainAfter_append hts ih hctx hroom b

/-- The texts of the open aggregates put the decoder into them. -/
theorem Opened.drain {frames : List Frame} {t : Bytes} (h : Opened strtod m frames t) (b : Bytes) :
    (replyDecoder strtod m).drain [] (t ++ b) = (replyDecoder strtod m).drain frames b := by
  induction h generalizing b with
  | nil => rfl
  | @cons f fs t u ts _ hu hts ih =>
      rw [List.append_assoc, List.append_assoc, ih, drain_aggregate hu,
        hts.drain (⟨f.type, [], f.done.length + f.missing⟩ :: fs) rfl
          (show f.done.length ≤ f.done.length + f.missing + 1 by omega)]
      rw [drainAll, if_pos (show f.done.length ≤ f.done.length + f.missing by omega)]
      simp

/-! ### What the decoder reads is in the grammar -/

/-- A reply inside the open aggregates is a text of the aggregates that it leaves open, or of the
reply that it completes. -/
theorem Opened.fill {frames : List Frame} {t : Bytes} (h : Opened strtod m frames t)
    {v : RedisReply} {tv : Bytes} (hv : Texts strtod m (context frames) [v] tv) :
    (∃ frames', RedisMigrate.fill frames v = (frames', none) ∧ Opened strtod m frames' (t ++ tv)) ∨
      ∃ w, RedisMigrate.fill frames v = ([], some w) ∧ Encodes strtod m w (t ++ tv) := by
  induction h generalizing v tv with
  | nil => exact .inr ⟨v, rfl, hv⟩
  | @cons f fs t u ts hfs hu hts ih =>
      rw [RedisMigrate.fill]
      have hall := hts.append hv
      cases hm : f.missing with
      | succ k =>
          refine .inl ⟨_, rfl, ?_⟩
          rw [List.append_assoc]
          refine .cons hfs ?_ hall
          have hcount : (f.done ++ [v]).length + k = f.done.length + f.missing := by
            simp only [List.length_append, List.length_singleton, hm]
            omega
          rwa [hcount]
      | zero =>
          have hcount : (f.done ++ [v]).length = f.done.length + f.missing + 1 := by
            simp [hm]
          have harray : Texts strtod m (context fs) [.array f.type ((f.done ++ [v]).map some)]
              (u ++ (ts ++ tv) ++ []) := .aggregate hu hcount hall .nil
          have hstep := ih harray
          simp only [List.append_nil, List.append_assoc] at hstep ⊢
          exact hstep

/-- The replies `vs` have been read of the stream `b`, then `frames` were opened, and `rest` is
left. -/
def Parsed (strtod : Strtod) (m : ℤ) (b : Bytes) (vs : List RedisReply) (frames : List Frame)
    (rest : Bytes) : Prop :=
  ∃ t u, Texts strtod m none vs t ∧ Opened strtod m frames u ∧ b = t ++ u ++ rest

theorem Parsed.step {b rest rest' : Bytes} {vs : List RedisReply} {frames frames' : List Frame}
    {o : Option RedisReply} (h : Parsed strtod m b vs frames rest)
    (hn : (replyDecoder strtod m).next frames rest = .advance frames' o rest') :
    Parsed strtod m b (vs ++ o.toList) frames' rest' := by
  obtain ⟨t, u, ht, hu, rfl⟩ := h
  obtain ⟨i, hi, hplace⟩ := placeScan_advance hn
  obtain ⟨ti, hti, rfl⟩ := nextItem_eq_item_iff.mp hi
  have hplace' := hplace []
  cases i with
  | aggregate type missing =>
      obtain ⟨rfl, rfl, -⟩ := Decoder.Next.advance.inj hplace'
      refine ⟨t, u ++ ti ++ [], by simpa using ht, .cons hu ?_ .nil, by simp⟩
      simpa using hti
  | leaf v =>
      unfold place at hplace'
      dsimp only at hplace'
      split_ifs at hplace' with hpush
      obtain ⟨rfl, rfl, -⟩ := Decoder.Next.advance.inj hplace'
      have hv : Texts strtod m (context frames) [v] (ti ++ []) :=
        .leaf hti (by rwa [← inPush_iff]) .nil
      rw [List.append_nil] at hv
      cases hu.fill hv with
      | inl h =>
          obtain ⟨frames', hfill, ho⟩ := h
          rw [hfill]
          exact ⟨t, u ++ ti, by simpa using ht, ho, by simp⟩
      | inr h =>
          obtain ⟨w, hfill, hw⟩ := h
          rw [hfill]
          exact ⟨t ++ (u ++ ti), [], ht.append hw, .nil, by simp⟩

/-- Where the decoder stops in a stream. -/
inductive StopsAt (strtod : Strtod) (m : ℤ) (frames : List Frame) (rest : Bytes) :
    Decoder.State (List Frame) UInt8 Fault → Prop
  | wait : (replyDecoder strtod m).next frames rest = .wait →
      StopsAt strtod m frames rest (.ready frames rest)
  | fail {e : Fault} : (replyDecoder strtod m).next frames rest = .fail e →
      StopsAt strtod m frames rest (.failed e)

theorem Parsed.drain {b rest : Bytes} {vs : List RedisReply} {frames : List Frame}
    (h : Parsed strtod m b vs frames rest) :
    ∃ frames' rest', Parsed strtod m b (vs ++ ((replyDecoder strtod m).drain frames rest).1) frames'
        rest' ∧
      StopsAt strtod m frames' rest' ((replyDecoder strtod m).drain frames rest).2 := by
  induction frames, rest using (replyDecoder strtod m).drain_induct generalizing vs with
  | hwait frames rest hn =>
      rw [Decoder.drain_wait hn, List.append_nil]
      exact ⟨frames, rest, h, .wait hn⟩
  | hfail frames rest e hn =>
      rw [Decoder.drain_fail hn, List.append_nil]
      exact ⟨frames, rest, h, .fail hn⟩
  | hadvance frames rest frames' o rest' hn ih =>
      rw [Decoder.drain_advance hn, ← List.append_assoc]
      exact ih (h.step hn)

/-- The decoder reads replies, then the heads and elements of open aggregates, and stops. -/
theorem drain_parsed (strtod : Strtod) (m : ℤ) (b : Bytes) :
    ∃ frames rest, Parsed strtod m b ((replyDecoder strtod m).drain [] b).1 frames rest ∧
      StopsAt strtod m frames rest ((replyDecoder strtod m).drain [] b).2 := by
  have hstart : Parsed strtod m b [] [] b := ⟨[], [], .nil, .nil, rfl⟩
  exact hstart.drain

/-- The texts of the first of some replies. -/
theorem Texts.head {ctx : Option ReplyType} {v : RedisReply} {vs : List RedisReply} {t : Bytes}
    (h : Texts strtod m ctx (v :: vs) t) : ∃ u us, Texts strtod m ctx [v] u ∧ t = u ++ us := by
  cases h with
  | @leaf _ _ _ u us ht hpush _ => exact ⟨u ++ [], us, .leaf ht hpush .nil, by simp⟩
  | @aggregate _ _ _ _ _ u us ts ht hlen hus _ =>
      exact ⟨u ++ us ++ [], ts, .aggregate ht hlen hus .nil, by simp⟩

/-- The decoder on a stream that begins with texts of `vs`. -/
theorem Texts.drain_start {vs : List RedisReply} {t : Bytes} (h : Texts strtod m none vs t)
    (b : Bytes) : (replyDecoder strtod m).drain [] (t ++ b) =
      (vs ++ ((replyDecoder strtod m).drain [] b).1, ((replyDecoder strtod m).drain [] b).2) :=
  h.drain [] rfl trivial b

/-- **What a session has delivered at its end** are the replies whose texts make up the stream, up
to a rest that does not begin with a text of a reply. -/
theorem delivered_iff {s : Session} (hs : (sessionLts strtod m).Reachable s)
    (hsize : s.fed.length ≤ 2147483648) {c : RedisReader × Status × Option RedisReply}
    (hc : Settled strtod s c) {vs : List RedisReply} :
    s.delivered = vs ↔ ∃ t rest, Texts strtod m none vs t ∧ s.fed = t ++ rest ∧
      ∀ v u, Encodes strtod m v u → ¬ u <+: rest := by
  obtain ⟨final, hdrain, -⟩ := hc.drain hs hsize
  constructor
  · rintro rfl
    obtain ⟨frames, rest, ⟨t, u, ht, -, hfed⟩, -⟩ := drain_parsed strtod m s.fed
    rw [hdrain] at ht
    rw [List.append_assoc] at hfed
    refine ⟨t, u ++ rest, ht, hfed, ?_⟩
    rintro v w hw ⟨x, hx⟩
    rw [hfed, ht.drain_start, ← hx, hw.drain_start] at hdrain
    have hlen := congrArg List.length (Prod.mk.inj hdrain).1
    simp at hlen
  · rintro ⟨t, rest, ht, hfed, hrest⟩
    have hnone : ((replyDecoder strtod m).drain [] rest).1 = [] := by
      obtain ⟨frames, rest', ⟨t', u, ht', -, heq⟩, -⟩ := drain_parsed strtod m rest
      cases hv : ((replyDecoder strtod m).drain [] rest).1 with
      | nil => rfl
      | cons v ws =>
          rw [hv] at ht'
          obtain ⟨w, ws', hw, rfl⟩ := ht'.head
          exact absurd ⟨ws' ++ u ++ rest', by rw [heq]; simp⟩ (hrest v w hw)
    rw [hfed, ht.drain_start, hnone, List.append_nil] at hdrain
    exact (Prod.mk.inj hdrain).1.symm

/-- The decoder fails an assertion exactly at a null, double or boolean inside a push. -/
theorem next_abort_iff {frames : List Frame} {b : Bytes} :
    (replyDecoder strtod m).next frames b = .fail .abort ↔
      ∃ v w x, ItemText strtod m (.leaf v) w ∧ v.Unpushable ∧ InPush frames ∧ b = w ++ x := by
  show placeScan frames (nextItem strtod m b) = .fail .abort ↔ _
  constructor
  · intro h
    cases hi : nextItem strtod m b with
    | wait => rw [hi] at h; cases h
    | fail type str => rw [hi] at h; cases h
    | item i rest =>
        rw [hi] at h
        cases i with
        | aggregate type missing => cases h
        | leaf v =>
            obtain ⟨w, hw, hb⟩ := nextItem_eq_item_iff.mp hi
            by_cases hpush : InPush frames ∧ v.Unpushable
            · exact ⟨v, w, rest, hw, hpush.2, hpush.1, hb⟩
            · rw [placeScan, place, if_neg hpush] at h
              cases h
  · rintro ⟨v, w, x, hw, hv, hpush, rfl⟩
    rw [hw.nextItem_append, placeScan, place, if_pos ⟨hpush, hv⟩]

/-- **When an assertion of the reply functions fails**: exactly when the stream goes on, after the
replies that were delivered, with the heads of aggregates and their first elements, the innermost
of them a push, and the next element is a null, a double or a boolean. -/
theorem getReply_aborts_iff {s : Session} (hs : (sessionLts strtod m).Reachable s)
    (hsize : s.fed.length ≤ 2147483648) :
    redisReaderGetReply strtod s.reader = none ↔
      ∃ t u w x frames v, Texts strtod m none s.delivered t ∧ Opened strtod m frames u ∧
        InPush frames ∧ ItemText strtod m (.leaf v) w ∧ v.Unpushable ∧
        s.fed = t ++ u ++ w ++ x := by
  have hend := getReply_end (session_explained hs hsize) hsize
  constructor
  · intro hnone
    rw [hnone] at hend
    cases hend with
    | abort he =>
        obtain ⟨frames, rest, ⟨t, u, ht, hu, hfed⟩, hstop⟩ := drain_parsed strtod m s.fed
        rw [he.settled rfl] at ht hstop
        cases hstop with
        | fail hn =>
            obtain ⟨v, w, x, hw, hv, hpush, rfl⟩ := next_abort_iff.mp hn
            exact ⟨t, u, w, x, frames, v, ht, hu, hpush, hw, hv, by rw [hfed]; simp⟩
  · rintro ⟨t, u, w, x, frames, v, ht, hu, hpush, hw, hv, hfed⟩
    have hn : (replyDecoder strtod m).next frames (w ++ x) = .fail .abort :=
      next_abort_iff.mpr ⟨v, w, x, hw, hv, hpush, rfl⟩
    have hdrain : (replyDecoder strtod m).drain [] s.fed = (s.delivered, .failed .abort) := by
      rw [hfed, List.append_assoc, List.append_assoc, ht.drain_start, hu.drain,
        Decoder.drain_fail hn,
        List.append_nil]
    cases hres : redisReaderGetReply strtod s.reader with
    | none => rfl
    | some c =>
        rw [hres] at hend
        cases hend with
        | failed hf he =>
            rw [he.settled rfl] at hdrain
            cases (Prod.mk.inj hdrain).2
        | waiting _ _ hw he =>
            rw [he.settled (Decoder.settle_wait hw)] at hdrain
            cases (Prod.mk.inj hdrain).2
        | @reply r v' _ hex =>
            have hle : s.delivered ++ [v'] <+: ((replyDecoder strtod m).drain [] s.fed).1 := by
              cases hex with
              | idle _ _ he => exact he.outputs_begin
              | reading _ _ he => exact he.outputs_begin
              | failed _ he => exact he.outputs_begin
            rw [hdrain] at hle
            have := hle.length_le
            simp at this

end grammar

theorem delivered_iff_pieces :
    ∃ t rest, Texts noDoubles readerMaxArrayElements none [.string .status (ascii "OK")] t ∧
      (sessionAfter threePieces).fed = t ++ rest ∧
      ∀ v u, Encodes noDoubles readerMaxArrayElements v u → ¬ u <+: rest :=
  (delivered_iff (sessionAfter_reachable rfl) (by decide) ⟨rfl, rfl⟩).mp rfl

/-- The invalidation message that a server pushes after `FLUSHALL`. -/
def pushedNull : List ReaderCall := [.feed (ascii ">2\x0d\n$10\x0d\ninvalidate\x0d\n_\x0d\n") false]

theorem getReply_aborts_iff_pushed_null :
    ∃ t u w x frames v,
      Texts noDoubles readerMaxArrayElements none (sessionAfter pushedNull).delivered t ∧
      Opened noDoubles readerMaxArrayElements frames u ∧ InPush frames ∧
      ItemText noDoubles readerMaxArrayElements (.leaf v) w ∧ v.Unpushable ∧
      (sessionAfter pushedNull).fed = t ++ u ++ w ++ x :=
  (getReply_aborts_iff (sessionAfter_reachable rfl) (by decide)).mp rfl

end RedisMigrate
