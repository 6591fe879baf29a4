import Mathlib.Data.Int.Notation
import Mathlib.Data.List.Basic

/-! # Writing into a region of memory

A region is the list of its cells.  `store` writes at an offset and is undefined outside of the
region; it changes no other cell (`store_frame`).  A writer that goes on where it stopped keeps
`Filled`: the region begins with what was written so far (`store_filled`), and it leaves the region
exactly when that does not fit (`store_past`). -/

namespace Region

variable {β : Type*}

/-- The region `m` with `s` in the cells from `pos` on. -/
def store (m : List β) (pos : ℤ) (s : List β) : Option (List β) :=
  if 0 ≤ pos ∧ pos + s.length ≤ m.length then
    some (m.take pos.toNat ++ s ++ m.drop (pos.toNat + s.length))
  else none

theorem store_eq_some {m m' s : List β} {pos : ℤ} (h : store m pos s = some m') :
    (0 ≤ pos ∧ pos + s.length ≤ m.length) ∧
      m' = m.take pos.toNat ++ s ++ m.drop (pos.toNat + s.length) := by
  obtain ⟨hpos, h⟩ := Option.ite_none_right_eq_some.mp h
  exact ⟨hpos, (Option.some.inj h).symm⟩

theorem store_neg {m s : List β} {pos : ℤ} (h : pos < 0) : store m pos s = none := by
  rw [store, if_neg (by omega)]

theorem length_store {m m' s : List β} {pos : ℤ} (h : store m pos s = some m') :
    m'.length = m.length := by
  obtain ⟨hpos, rfl⟩ := store_eq_some h
  rw [List.length_append, List.length_append, List.length_take, List.length_drop]
  omega

/-- The cells before and after what is written stay as they are. -/
theorem store_frame {m m' s : List β} {pos : ℤ} (h : store m pos s = some m') {k : ℕ}
    (hk : (k : ℤ) < pos ∨ pos + s.length ≤ k) : m'[k]? = m[k]? := by
  obtain ⟨hpos, rfl⟩ := store_eq_some h
  have htake : (m.take pos.toNat).length = pos.toNat := by
    rw [List.length_take]
    omega
  rcases hk with hk | hk
  · rw [List.append_assoc, List.getElem?_append_left (by omega),
      List.getElem?_take_of_lt (by omega)]
  · rw [List.getElem?_append_right (by rw [List.length_append]; omega), List.getElem?_drop,
      List.length_append, htake]
    congr 1
    omega

/-- The first cells of `m` hold `w`, and `pos` is the first one after them. -/
structure Filled (m : List β) (pos : ℤ) (w : List β) : Prop where
  begins : w <+: m
  pos_eq : pos = w.length

theorem Filled.start (m : List β) : Filled m 0 [] := ⟨List.nil_prefix, rfl⟩

theorem Filled.le_length {m w : List β} {pos : ℤ} (h : Filled m pos w) : w.length ≤ m.length :=
  h.begins.length_le

/-- What fits is written after what was written before. -/
theorem store_filled {m w : List β} {pos : ℤ} (h : Filled m pos w) {s : List β}
    (hs : w.length + s.length ≤ m.length) :
    ∃ m', store m pos s = some m' ∧ m'.length = m.length ∧ w ++ s <+: m' := by
  obtain ⟨x, rfl⟩ := h.begins
  have hpos := h.pos_eq
  rw [List.length_append] at hs
  refine ⟨w ++ s ++ x.drop s.length, ?_, ?_, List.prefix_append _ _⟩
  · rw [store, if_pos (by rw [hpos, List.length_append]; omega), hpos, Int.toNat_natCast,
      List.take_left', List.drop_append, List.drop_of_length_le (by omega)]
    · simp
    · rfl
  · simp only [List.length_append, List.length_drop]
    omega

/-- What does not fit is not written. -/
theorem store_past {m w : List β} {pos : ℤ} (h : Filled m pos w) {s : List β}
    (hs : ¬ w.length + s.length ≤ m.length) : store m pos s = none := by
  have hpos := h.pos_eq
  rw [store, if_neg (by omega)]

end Region
