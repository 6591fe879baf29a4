import RedisMigrate.LogText
import Mathlib.Tactic.IntervalCases

/-! # Decimal numbers on the wire

`string2ll` of `hiredis/read.c` reads a decimal number with explicit overflow checks, and
`sdsll2str`, `sdsull2str` of `hiredis/sds.c` print one into a buffer from its last digit on.

* `string2ll_eq_some_iff`: `string2ll` accepts exactly the canonical decimal texts of the values of
  a `long long`, so its value determines its text.
* `sdsll2str_eq_decimal`: what the printers write is canonical, hence
  `string2ll_sdsll2str`. -/

namespace RedisMigrate

/-! ### Decimal digits -/

/-- `'0' <= c && c <= '9'`. -/
def IsDecDigit (c : UInt8) : Prop := 48 ≤ c.toNat ∧ c.toNat ≤ 57

instance (c : UInt8) : Decidable (IsDecDigit c) :=
  inferInstanceAs (Decidable (48 ≤ c.toNat ∧ c.toNat ≤ 57))

/-- The byte of a digit. -/
def decDigit (d : ℕ) : UInt8 := UInt8.ofNat (48 + d)

theorem decDigit_toNat {d : ℕ} (h : d < 10) : (decDigit d).toNat = 48 + d := by
  rw [decDigit, UInt8.toNat_ofNat']
  omega

theorem IsDecDigit.eq_decDigit {c : UInt8} (h : IsDecDigit c) : c = decDigit (c.toNat - 48) := by
  rw [decDigit, Nat.add_sub_cancel' h.1, UInt8.ofNat_toNat]

theorem isDecDigit_decDigit {d : ℕ} (h : d < 10) : IsDecDigit (decDigit d) := by
  unfold IsDecDigit
  rw [decDigit_toNat h]
  omega

theorem digits_of_lt_ten {n : ℕ} (h : n < 10) : digits n = [decDigit n] := by
  rw [digits, Nat.toDigits_of_lt_base h]
  interval_cases n <;> rfl

/-- The last digit comes off the end. -/
theorem digits_append {n d : ℕ} (hn : 0 < n) (hd : d < 10) :
    digits (10 * n + d) = digits n ++ [decDigit d] := by
  have hlast : digits d = [decDigit d] := digits_of_lt_ten hd
  rw [digits] at hlast ⊢
  rw [← Nat.toDigits_append_toDigits (by omega) hn hd, List.map_append, hlast, digits]

/-- Induction on the decimal digits of a number. -/
theorem digits_induct {P : ℕ → Prop} (hlt : ∀ n, n < 10 → P n)
    (happend : ∀ n d, 0 < n → d < 10 → P n → P (10 * n + d)) (n : ℕ) : P n := by
  induction n using Nat.strongRecOn with
  | ind n ih =>
      by_cases h : n < 10
      · exact hlt n h
      · have := happend (n / 10) (n % 10) (by omega) (by omega) (ih _ (by omega))
        rwa [Nat.div_add_mod] at this

theorem isDecDigit_of_mem_digits {n : ℕ} {c : UInt8} (h : c ∈ digits n) : IsDecDigit c := by
  induction n using digits_induct with
  | hlt n hn =>
      rw [digits_of_lt_ten hn, List.mem_singleton] at h
      exact h ▸ isDecDigit_decDigit hn
  | happend n d hn hd ih =>
      rw [digits_append hn hd, List.mem_append, List.mem_singleton] at h
      cases h with
      | inl h => exact ih h
      | inr h => exact h ▸ isDecDigit_decDigit hd

/-- The number that the digits `ds` continue after `v`. -/
def ofDigitBytes (v : ℕ) (ds : Bytes) : ℕ := ds.foldl (fun v c => 10 * v + (c.toNat - 48)) v

@[simp] theorem ofDigitBytes_nil (v : ℕ) : ofDigitBytes v [] = v := rfl

@[simp] theorem ofDigitBytes_cons (v : ℕ) (c : UInt8) (ds : Bytes) :
    ofDigitBytes v (c :: ds) = ofDigitBytes (10 * v + (c.toNat - 48)) ds := by
  rw [ofDigitBytes, List.foldl_cons, ofDigitBytes]

theorem le_ofDigitBytes (v : ℕ) (ds : Bytes) : v ≤ ofDigitBytes v ds := by
  induction ds generalizing v with
  | nil => simp
  | cons c ds ih =>
      have := ih (10 * v + (c.toNat - 48))
      rw [ofDigitBytes_cons]
      omega

theorem ofDigitBytes_digits (n : ℕ) : ofDigitBytes 0 (digits n) = n := by
  induction n using digits_induct with
  | hlt n hn => rw [digits_of_lt_ten hn, ofDigitBytes_cons, decDigit_toNat hn]; simp
  | happend n d hn hd ih =>
      rw [ofDigitBytes] at ih
      rw [digits_append hn hd, ofDigitBytes, List.foldl_append, ih, List.foldl_cons, List.foldl_nil,
        decDigit_toNat hd, Nat.add_sub_cancel_left]

theorem digits_ofDigitBytes {v : ℕ} (hv : 0 < v) {ds : Bytes} (hds : ∀ c ∈ ds, IsDecDigit c) :
    digits (ofDigitBytes v ds) = digits v ++ ds := by
  induction ds generalizing v with
  | nil => simp
  | cons c ds ih =>
      have hc : IsDecDigit c := hds c (by simp)
      have hc' : c.toNat - 48 < 10 := by have := hc.2; omega
      rw [ofDigitBytes_cons, ih (by omega) (fun c' h => hds c' (by simp [h])),
        digits_append hv hc', ← hc.eq_decDigit]
      simp

theorem digits_inj {m n : ℕ} (h : digits m = digits n) : m = n := by
  rw [← ofDigitBytes_digits m, h, ofDigitBytes_digits]

theorem digits_ne_nil (n : ℕ) : digits n ≠ [] := by
  rw [digits, Ne, List.map_eq_nil_iff]
  exact Nat.toDigits_ne_nil

/-- A positive number begins with a digit that is not `0`. -/
theorem exists_digits_eq_cons {n : ℕ} (hn : 0 < n) :
    ∃ d ds, 0 < d ∧ d < 10 ∧ digits n = decDigit d :: ds := by
  induction n using digits_induct with
  | hlt n h => exact ⟨n, [], hn, h, digits_of_lt_ten h⟩
  | happend n d hn' hd ih =>
      obtain ⟨e, ds, he0, he, heq⟩ := ih hn'
      exact ⟨e, ds ++ [decDigit d], he0, he, by rw [digits_append hn' hd, heq]; rfl⟩

theorem digits_eq_iff {v : ℕ} (hv : 0 < v) {ds : Bytes} {w : ℕ} :
    digits w = digits v ++ ds ↔ (∀ c ∈ ds, IsDecDigit c) ∧ w = ofDigitBytes v ds := by
  constructor
  · intro h
    have hds : ∀ c ∈ ds, IsDecDigit c := by
      intro c hc
      exact isDecDigit_of_mem_digits (n := w) (h ▸ List.mem_append_right _ hc)
    exact ⟨hds, digits_inj (by rw [h, digits_ofDigitBytes hv hds])⟩
  · rintro ⟨hds, rfl⟩
    exact digits_ofDigitBytes hv hds

/-! ### Reading: `string2ll` -/

/-- `ULLONG_MAX`, `LLONG_MAX`. -/
def ullongMax : ℕ := 18446744073709551615

def llongMax : ℕ := 9223372036854775807

/-- The values of a `long long`. -/
def InLongLong (v : ℤ) : Prop := -9223372036854775808 ≤ v ∧ v ≤ 9223372036854775807

instance (v : ℤ) : Decidable (InLongLong v) :=
  inferInstanceAs (Decidable (-9223372036854775808 ≤ v ∧ v ≤ 9223372036854775807))

/-- The loop of `string2ll` from its second digit on; `none` is `REDIS_ERR`. -/
def string2llDigits : ℕ → Bytes → Option ℕ
  | v, [] => some v
  | v, c :: p =>
      if IsDecDigit c then
        if v > ullongMax / 10 then none
        else if v * 10 > ullongMax - (c.toNat - 48) then none
        else string2llDigits (v * 10 + (c.toNat - 48)) p
      else none

/-- `string2ll` after the sign. -/
def string2llUnsigned (slen : ℕ) : Bytes → Option ℕ
  | [] => none
  | c :: p =>
      if 49 ≤ c.toNat ∧ c.toNat ≤ 57 then string2llDigits (c.toNat - 48) p
      else if c = 48 ∧ slen = 1 then some 0
      else none

def string2ll (s : Bytes) : Option ℤ :=
  if s.length = 0 then none
  else if s = [48] then some 0
  else
    let negative : Bool := s.head? = some 45
    match string2llUnsigned s.length (if negative then s.tail else s) with
    | none => none
    | some v =>
        if negative then
          if v > llongMax + 1 then none else some (-v)
        else
          if v > llongMax then none else some v

theorem string2llDigits_eq_some_iff {v w : ℕ} (hv : v ≤ ullongMax) {p : Bytes} :
    string2llDigits v p = some w ↔
      (∀ c ∈ p, IsDecDigit c) ∧ w = ofDigitBytes v p ∧ w ≤ ullongMax := by
  induction p generalizing v with
  | nil =>
      simp only [string2llDigits, Option.some.injEq, List.not_mem_nil, false_imp_iff, implies_true,
        true_and, ofDigitBytes_nil]
      omega
  | cons c p ih =>
      by_cases hc : IsDecDigit c
      · have hlo := hc.1
        have hhi := hc.2
        have hle := le_ofDigitBytes (10 * v + (c.toNat - 48)) p
        rw [string2llDigits, if_pos hc, mul_comm v 10, List.forall_mem_cons, ofDigitBytes_cons]
        unfold ullongMax at *
        split_ifs with h1 h2
        · constructor
          · intro h; cases h
          · rintro ⟨-, rfl, h⟩; omega
        · constructor
          · intro h; cases h
          · rintro ⟨-, rfl, h⟩; omega
        · rw [ih (by omega)]
          simp [hc]
      · simp [string2llDigits, hc]

theorem string2llUnsigned_eq_some_iff {slen : ℕ} {p : Bytes} (hslen : p.head? = some 48 → slen ≠ 1)
    {w : ℕ} : string2llUnsigned slen p = some w ↔ 0 < w ∧ p = digits w ∧ w ≤ ullongMax := by
  cases p with
  | nil =>
      simp only [string2llUnsigned, reduceCtorEq, false_iff, not_and]
      intro _ h
      exact absurd h.symm (digits_ne_nil w)
  | cons c p =>
      by_cases hc : 49 ≤ c.toNat ∧ c.toNat ≤ 57
      · have hdigit : IsDecDigit c := ⟨by omega, hc.2⟩
        have hpos : 0 < c.toNat - 48 := by omega
        have hone : digits (c.toNat - 48) = [c] := by
          rw [digits_of_lt_ten (by omega), ← hdigit.eq_decDigit]
        rw [string2llUnsigned, if_pos hc, string2llDigits_eq_some_iff (by unfold ullongMax; omega),
          ← and_assoc, ← digits_eq_iff hpos, hone]
        constructor
        · rintro ⟨h, hw⟩
          refine ⟨Nat.pos_of_ne_zero ?_, h.symm, hw⟩
          rintro rfl
          have hd : digits 0 = [48] := rfl
          rw [hd] at h
          obtain rfl : 48 = c := (List.cons.inj h).1
          simp at hpos
        · rintro ⟨-, h, hw⟩
          exact ⟨h.symm, hw⟩
      · rw [string2llUnsigned, if_neg hc, if_neg (fun h => hslen (by simp [h.1]) h.2)]
        simp only [reduceCtorEq, false_iff, not_and]
        intro hw heq
        obtain ⟨d, ds, hd0, hd, hds⟩ := exists_digits_eq_cons hw
        rw [hds] at heq
        obtain rfl := (List.cons.inj heq).1
        rw [decDigit_toNat hd] at hc
        omega

theorem decimal_of_nonneg (n : ℕ) : decimal n = digits n := by simp [decimal]

theorem decimal_neg {n : ℕ} (h : 0 < n) : decimal (-n) = 45 :: digits n := by
  have hneg : -(n : ℤ) < 0 := by omega
  rw [decimal, if_pos hneg, Int.natAbs_neg, Int.natAbs_natCast]

theorem head?_digits_ne (n : ℕ) : (digits n).head? ≠ some 45 := by
  intro h
  have hmem : 45 ∈ digits n := List.mem_of_head? h
  have := (isDecDigit_of_mem_digits hmem).1
  simp at this

/-- Every value is a number with its sign or without one. -/
theorem sign_cases (v : ℤ) : (∃ n : ℕ, 0 < n ∧ v = -n) ∨ ∃ n : ℕ, v = n := by
  by_cases h : v < 0
  · exact .inl ⟨v.natAbs, by omega, by omega⟩
  · exact .inr ⟨v.natAbs, by omega⟩

theorem decimal_eq_cons_minus {v : ℤ} {p : Bytes} :
    45 :: p = decimal v ↔ ∃ n : ℕ, 0 < n ∧ v = -n ∧ p = digits n := by
  constructor
  · intro h
    cases sign_cases v with
    | inl hv =>
        obtain ⟨n, hn, rfl⟩ := hv
        rw [decimal_neg hn] at h
        exact ⟨n, hn, rfl, (List.cons.inj h).2⟩
    | inr hv =>
        obtain ⟨n, rfl⟩ := hv
        rw [decimal_of_nonneg] at h
        exact absurd (by rw [← h]; rfl) (head?_digits_ne n)
  · rintro ⟨n, hn, rfl, rfl⟩
    exact (decimal_neg hn).symm

theorem decimal_eq_of_head?_ne {s : Bytes} (hs : s.head? ≠ some 45) {v : ℤ} :
    s = decimal v ↔ ∃ n : ℕ, v = n ∧ s = digits n := by
  constructor
  · rintro rfl
    cases sign_cases v with
    | inl hv =>
        obtain ⟨n, hn, rfl⟩ := hv
        exact absurd (by rw [decimal_neg hn]; rfl) hs
    | inr hv =>
        obtain ⟨n, rfl⟩ := hv
        exact ⟨n, rfl, decimal_of_nonneg n⟩
  · rintro ⟨n, rfl, rfl⟩
    exact (decimal_of_nonneg n).symm

/-- A text with a minus sign. -/
theorem string2ll_minus {p : Bytes} {v : ℤ} :
    string2ll (45 :: p) = some v ↔ 45 :: p = decimal v ∧ InLongLong v := by
  have hu (w : ℕ) : string2llUnsigned (p.length + 1) p = some w ↔
      0 < w ∧ p = digits w ∧ w ≤ ullongMax := by
    apply string2llUnsigned_eq_some_iff
    intro h hlen
    obtain rfl : p = [] := List.length_eq_zero_iff.mp (by omega)
    simp at h
  rw [decimal_eq_cons_minus]
  have hstep : string2ll (45 :: p) = match string2llUnsigned (p.length + 1) p with
      | none => none
      | some v => if v > llongMax + 1 then none else some (-(v : ℤ)) := by
    simp [string2ll]
  rw [hstep]
  unfold InLongLong llongMax ullongMax at *
  cases h : string2llUnsigned (p.length + 1) p with
  | none =>
      simp only [reduceCtorEq, false_iff]
      rintro ⟨⟨n, hn, rfl, hp⟩, hlo, -⟩
      rw [(hu n).mpr ⟨hn, hp, by omega⟩] at h
      cases h
  | some w =>
      obtain ⟨hw, rfl, -⟩ := (hu w).mp h
      dsimp only
      split_ifs with hbig
      · simp only [false_iff]
        rintro ⟨⟨n, hn, rfl, hp⟩, hlo, -⟩
        obtain rfl := digits_inj hp
        omega
      · rw [Option.some.injEq]
        constructor
        · rintro rfl
          exact ⟨⟨w, hw, rfl, rfl⟩, by omega, by omega⟩
        · rintro ⟨⟨n, hn, rfl, hp⟩, -, -⟩
          rw [digits_inj hp]

/-- A text without a sign. -/
theorem string2ll_plain {s : Bytes} (hs : s.head? ≠ some 45) {v : ℤ} :
    string2ll s = some v ↔ s = decimal v ∧ InLongLong v := by
  rw [decimal_eq_of_head?_ne hs]
  by_cases hzero : s = [48]
  · subst hzero
    simp only [string2ll, List.length_singleton, one_ne_zero, if_false, if_true, Option.some.injEq]
    constructor
    · rintro rfl
      exact ⟨⟨0, rfl, rfl⟩, by decide⟩
    · rintro ⟨⟨n, rfl, hn⟩, -⟩
      rw [← digits_inj (m := 0) hn]
      rfl
  have hu (w : ℕ) : string2llUnsigned s.length s = some w ↔
      0 < w ∧ s = digits w ∧ w ≤ ullongMax := by
    apply string2llUnsigned_eq_some_iff
    intro h hlen
    obtain ⟨c, rfl⟩ := List.length_eq_one_iff.mp hlen
    obtain rfl : c = 48 := by simpa using h
    exact hzero rfl
  by_cases hnil : s = []
  · subst hnil
    simp only [string2ll, List.length_nil, if_true, reduceCtorEq, false_iff]
    rintro ⟨⟨n, rfl, hn⟩, -⟩
    exact digits_ne_nil n hn.symm
  have hlen : s.length ≠ 0 := by simpa using hnil
  have hstep : string2ll s = match string2llUnsigned s.length s with
      | none => none
      | some v => if v > llongMax then none else some (v : ℤ) := by
    simp [string2ll, hzero, hlen, hs]
  rw [hstep]
  unfold InLongLong llongMax ullongMax at *
  cases h : string2llUnsigned s.length s with
  | none =>
      simp only [reduceCtorEq, false_iff]
      rintro ⟨⟨n, rfl, hn⟩, -, hhi⟩
      have hpos : 0 < n := Nat.pos_of_ne_zero (by rintro rfl; exact hzero hn)
      rw [(hu n).mpr ⟨hpos, hn, by omega⟩] at h
      cases h
  | some w =>
      obtain ⟨hw, rfl, -⟩ := (hu w).mp h
      dsimp only
      split_ifs with hbig
      · simp only [false_iff]
        rintro ⟨⟨n, rfl, hp⟩, -, hhi⟩
        obtain rfl := digits_inj hp
        omega
      · rw [Option.some.injEq]
        constructor
        · rintro rfl
          exact ⟨⟨w, rfl, rfl⟩, by omega, by omega⟩
        · rintro ⟨⟨n, rfl, hp⟩, -, -⟩
          rw [digits_inj hp]

/-- **`string2ll` accepts exactly the canonical decimal texts of the values of a `long long`.** -/
theorem string2ll_eq_some_iff {s : Bytes} {v : ℤ} :
    string2ll s = some v ↔ s = decimal v ∧ InLongLong v := by
  by_cases hs : s.head? = some 45
  · obtain ⟨p, rfl⟩ : ∃ p, s = 45 :: p := by
      cases s with
      | nil => simp at hs
      | cons c p => exact ⟨p, by simpa using hs⟩
    exact string2ll_minus
  · exact string2ll_plain hs

/-! ### Printing: `sdsll2str` and `sdsull2str` -/

/-- `SDS_LLSTR_SIZE`: the room for a number and its NUL. -/
def sdsLlstrSize : ℕ := 21

/-- The `do` loop of both printers: the digits of `v`, the last one first. -/
def printLoop : ℕ → ℕ → Bytes
  | 0, _ => []
  | fuel + 1, v => decDigit (v % 10) :: if v / 10 = 0 then [] else printLoop fuel (v / 10)

/-- The digits of `v` as the loop leaves them in the buffer. -/
def printReversed (v : ℕ) : Bytes := printLoop (v + 1) v

/-- The second loop swaps bytes from both ends. -/
def swapEnds (p : Bytes) : Bytes := p.toArray.reverse.toList

/-- `-value` is taken to wrap for the least `long long`: as an `unsigned long long` it is then the
absolute value. -/
def sdsll2str (value : ℤ) : Bytes :=
  let v := if value < 0 then (-value).toNat else value.toNat
  let p := printReversed v
  let p := if value < 0 then p ++ [45] else p
  swapEnds p

def sdsull2str (v : ℕ) : Bytes := swapEnds (printReversed v)

theorem swapEnds_eq (p : Bytes) : swapEnds p = p.reverse := by simp [swapEnds]

theorem printLoop_eq {fuel v : ℕ} (h : v < fuel) : printLoop fuel v = (digits v).reverse := by
  induction fuel generalizing v with
  | zero => omega
  | succ fuel ih =>
      rw [printLoop]
      split_ifs with hv
      · have hlt : v < 10 := by omega
        rw [Nat.mod_eq_of_lt hlt, digits_of_lt_ten hlt, List.reverse_singleton]
      · have happ := digits_append (n := v / 10) (d := v % 10) (by omega) (by omega)
        rw [Nat.div_add_mod] at happ
        rw [ih (by omega), happ, List.reverse_append, List.reverse_singleton, List.singleton_append]

theorem sdsull2str_eq_digits (v : ℕ) : sdsull2str v = digits v := by
  rw [sdsull2str, swapEnds_eq, printReversed, printLoop_eq (Nat.lt_succ_self v),
    List.reverse_reverse]

theorem sdsll2str_eq_decimal (value : ℤ) : sdsll2str value = decimal value := by
  rw [sdsll2str, swapEnds_eq, printReversed, printLoop_eq (Nat.lt_succ_self _)]
  by_cases h : value < 0
  · have habs : (-value).toNat = value.natAbs := by omega
    simp [decimal, h, habs]
  · have habs : value.toNat = value.natAbs := by omega
    simp [decimal, h, habs]

theorem length_digits_le {k n : ℕ} (hk : 1 ≤ k) (h : n < 10 ^ k) : (digits n).length ≤ k := by
  induction k generalizing n with
  | zero => omega
  | succ k ih =>
      by_cases hn : n < 10
      · rw [digits_of_lt_ten hn, List.length_singleton]
        omega
      · have happ := digits_append (n := n / 10) (d := n % 10) (by omega) (by omega)
        rw [Nat.div_add_mod] at happ
        have hk' : 1 ≤ k := by
          cases k with
          | zero => simp at h; omega
          | succ k => omega
        have hlt : n / 10 < 10 ^ k := by rw [Nat.pow_succ] at h; omega
        rw [happ, List.length_append, List.length_singleton]
        have := ih hk' hlt
        omega

/-- The printers stay inside their buffer, whatever they print. -/
theorem length_sdsull2str_lt {v : ℕ} (h : v ≤ ullongMax) :
    (sdsull2str v).length < sdsLlstrSize := by
  rw [sdsull2str_eq_digits]
  have := length_digits_le (k := 20) (n := v) (by omega) (by unfold ullongMax at h; omega)
  unfold sdsLlstrSize
  omega

theorem length_sdsll2str_lt {value : ℤ} (h : InLongLong value) :
    (sdsll2str value).length < sdsLlstrSize := by
  have hle := length_digits_le (k := 19) (n := value.natAbs) (by omega)
    (by unfold InLongLong at h; omega)
  rw [sdsll2str_eq_decimal]
  unfold decimal sdsLlstrSize
  split_ifs with hneg
  · rw [List.length_cons]
    omega
  · omega

/-- **What `sdsll2str` prints, `string2ll` reads back**, and it reads nothing else: the two are
inverse to each other between the values of a `long long` and the texts that `string2ll`
accepts. -/
theorem string2ll_sdsll2str {s : Bytes} {value : ℤ} :
    string2ll s = some value ↔ s = sdsll2str value ∧ InLongLong value := by
  rw [sdsll2str_eq_decimal]
  exact string2ll_eq_some_iff

example : string2ll (ascii "-9223372036854775808") = some (-9223372036854775808) := by decide

end RedisMigrate
