import Mathlib.Logic.Function.Basic
import Mathlib.Data.List.Nodup

/-! # Tables of reference-counted values

A `RefTable` maps handles to values with a reference count.  A handle is issued once, with
one reference, and its value is dropped from the table with the last one; a table cannot hold
a value without references, or under a handle that was never issued.

* `Extends`: what was issued before is as it was, whatever was added since.
* `releaseAll_of_allocAll`: values that are added together and not retained are dropped
  together, whatever was added in between, and nothing else changes. -/

structure RefTable (ι α : Type*) where
  cell : ι → Option (α × ℕ)
  issued : List ι
  issued_of_live : ∀ i, (cell i).isSome → i ∈ issued
  refs_pos : ∀ i a n, cell i = some (a, n) → 0 < n

namespace RefTable

variable {ι α : Type*}

def empty : RefTable ι α where
  cell _ := none
  issued := []
  issued_of_live _ h := by cases h
  refs_pos _ _ _ h := by cases h

/-- The value behind a handle. -/
def value? (t : RefTable ι α) (i : ι) : Option α := (t.cell i).map Prod.fst

/-- The handle was issued and its value has been dropped. -/
def Dropped (t : RefTable ι α) (i : ι) : Prop := i ∈ t.issued ∧ t.cell i = none

/-- The handles of `t` are in `t'` with the cells that they have in `t`. -/
def Extends (t t' : RefTable ι α) : Prop :=
  ∀ i ∈ t.issued, i ∈ t'.issued ∧ t'.cell i = t.cell i

section
variable [DecidableEq ι]

/-- Change the cell of a handle that is issued with this. -/
def put (t : RefTable ι α) (i : ι) (c : Option (α × ℕ)) (hc : ∀ a n, c = some (a, n) → 0 < n) :
    RefTable ι α where
  cell := Function.update t.cell i c
  issued := if i ∈ t.issued then t.issued else i :: t.issued
  issued_of_live j h := by
    by_cases hj : j = i
    · subst hj
      split_ifs with hi
      · exact hi
      · exact List.mem_cons_self
    · rw [Function.update_of_ne hj] at h
      have hmem := t.issued_of_live j h
      split_ifs
      · exact hmem
      · exact List.mem_cons_of_mem _ hmem
  refs_pos j a n h := by
    by_cases hj : j = i
    · subst hj
      rw [Function.update_self] at h
      exact hc a n h
    · rw [Function.update_of_ne hj] at h
      exact t.refs_pos j a n h

/-- Issue the handle `i` for the value `a`; `none` when it was issued before. -/
def alloc (t : RefTable ι α) (i : ι) (a : α) : Option (RefTable ι α) :=
  if i ∈ t.issued then none
  else some (t.put i (some (a, 1)) (by rintro _ _ ⟨⟩; exact Nat.one_pos))

/-- One reference more; `none` when the value has been dropped. -/
def retain (t : RefTable ι α) (i : ι) : Option (RefTable ι α) :=
  (t.cell i).map fun c =>
    t.put i (some (c.1, c.2 + 1)) (by rintro _ _ ⟨⟩; exact Nat.succ_pos _)

/-- One reference less, and no value without references; `none` when it has been dropped. -/
def release (t : RefTable ι α) (i : ι) : Option (RefTable ι α) :=
  (t.cell i).map fun c =>
    t.put i (if c.2 ≤ 1 then none else some (c.1, c.2 - 1)) (by
      intro a n h
      split_ifs at h with hle
      obtain ⟨rfl, rfl⟩ := Prod.mk.inj (Option.some.inj h)
      omega)

def allocAll (t : RefTable ι α) : List (ι × α) → Option (RefTable ι α)
  | [] => some t
  | (i, a) :: xs => (t.alloc i a).bind fun t' => t'.allocAll xs

def releaseAll (t : RefTable ι α) : List ι → Option (RefTable ι α)
  | [] => some t
  | i :: is => (t.release i).bind fun t' => t'.releaseAll is

end

/-! ### Extension -/

theorem Extends.refl (t : RefTable ι α) : t.Extends t := fun _ hi => ⟨hi, rfl⟩

theorem Extends.trans {t t' t'' : RefTable ι α} (h : t.Extends t') (h' : t'.Extends t'') :
    t.Extends t'' := by
  intro i hi
  obtain ⟨hi', hcell⟩ := h i hi
  obtain ⟨hi'', hcell'⟩ := h' i hi'
  exact ⟨hi'', hcell'.trans hcell⟩

theorem Extends.dropped {t t' : RefTable ι α} (h : t.Extends t') {i : ι} (hd : t.Dropped i) :
    t'.Dropped i := by
  obtain ⟨hi, hcell⟩ := h i hd.1
  exact ⟨hi, hcell.trans hd.2⟩

theorem mem_issued_of_value {t : RefTable ι α} {i : ι} {a : α} (h : t.value? i = some a) :
    i ∈ t.issued := by
  apply t.issued_of_live
  obtain ⟨c, hc, -⟩ := Option.map_eq_some_iff.mp h
  rw [hc]
  rfl

theorem Extends.value {t t' : RefTable ι α} (h : t.Extends t') {i : ι} {a : α}
    (hv : t.value? i = some a) : t'.value? i = some a := by
  rw [value?, (h i (mem_issued_of_value hv)).2]
  exact hv

theorem Dropped.value {t : RefTable ι α} {i : ι} (h : t.Dropped i) : t.value? i = none := by
  rw [value?, h.2, Option.map_none]

/-! ### Adding -/

section
variable [DecidableEq ι] {t t' : RefTable ι α}

theorem alloc_eq_some {i : ι} {a : α} (h : t.alloc i a = some t') :
    i ∉ t.issued ∧ t'.issued = i :: t.issued ∧
      t'.cell = Function.update t.cell i (some (a, 1)) := by
  unfold alloc at h
  split_ifs at h with hi
  obtain rfl := Option.some.inj h
  exact ⟨hi, if_neg hi, rfl⟩

theorem alloc_extends {i : ι} {a : α} (h : t.alloc i a = some t') : t.Extends t' := by
  obtain ⟨hi, hissued, hcell⟩ := alloc_eq_some h
  intro j hj
  have hne : j ≠ i := by
    rintro rfl
    exact hi hj
  rw [hissued, hcell, Function.update_of_ne hne]
  exact ⟨List.mem_cons_of_mem _ hj, rfl⟩

theorem alloc_cell {i : ι} {a : α} (h : t.alloc i a = some t') :
    i ∈ t'.issued ∧ t'.cell i = some (a, 1) := by
  obtain ⟨-, hissued, hcell⟩ := alloc_eq_some h
  rw [hissued, hcell, Function.update_self]
  exact ⟨List.mem_cons_self, rfl⟩

/-- Values that are added together have handles of their own, with one reference each. -/
theorem allocAll_spec {xs : List (ι × α)} (h : t.allocAll xs = some t') :
    t.Extends t' ∧ (xs.map Prod.fst).Nodup ∧
      ∀ x ∈ xs, x.1 ∉ t.issued ∧ x.1 ∈ t'.issued ∧ t'.cell x.1 = some (x.2, 1) := by
  induction xs generalizing t with
  | nil =>
      obtain rfl := Option.some.inj h
      exact ⟨.refl t, List.nodup_nil, by simp⟩
  | cons x xs ih =>
      obtain ⟨t₁, h1, h2⟩ := Option.bind_eq_some_iff.mp h
      obtain ⟨hext, hnodup, hmem⟩ := ih h2
      have hext₁ := alloc_extends h1
      obtain ⟨hi, hcell⟩ := alloc_cell h1
      refine ⟨hext₁.trans hext, ?_, ?_⟩
      · rw [List.map_cons, List.nodup_cons]
        refine ⟨?_, hnodup⟩
        intro hx
        obtain ⟨y, hy, heq⟩ := List.mem_map.mp hx
        exact (hmem y hy).1 (heq ▸ hi)
      · intro y hy
        rcases List.mem_cons.mp hy with rfl | hy
        · obtain ⟨hi', hcell'⟩ := hext y.1 hi
          exact ⟨(alloc_eq_some h1).1, hi', hcell'.trans hcell⟩
        · obtain ⟨hfresh, hi', hcell'⟩ := hmem y hy
          exact ⟨fun hn => hfresh (hext₁ y.1 hn).1, hi', hcell'⟩

/-- The handles of values that were added together are new, and have one reference. -/
theorem allocAll_handle {xs : List (ι × α)} (h : t.allocAll xs = some t') {i : ι}
    (hi : i ∈ xs.map Prod.fst) :
    i ∉ t.issued ∧ i ∈ t'.issued ∧ ∃ a, t'.cell i = some (a, 1) := by
  obtain ⟨x, hx, rfl⟩ := List.mem_map.mp hi
  obtain ⟨hfresh, hissued, hcell⟩ := (allocAll_spec h).2.2 x hx
  exact ⟨hfresh, hissued, x.2, hcell⟩

/-! ### Dropping -/

theorem release_of_one {i : ι} {a : α} (h : t.cell i = some (a, 1)) :
    ∃ t', t.release i = some t' ∧ t'.issued = t.issued ∧
      t'.cell = Function.update t.cell i none := by
  have hi : i ∈ t.issued := t.issued_of_live i (by rw [h]; rfl)
  rw [release, h, Option.map_some]
  exact ⟨_, rfl, if_pos hi, rfl⟩

/-- Values with one reference are dropped together, and no other cell changes. -/
theorem releaseAll_of_one {is : List ι} (hnodup : is.Nodup)
    (hone : ∀ i ∈ is, ∃ a, t.cell i = some (a, 1)) :
    ∃ t', t.releaseAll is = some t' ∧ t'.issued = t.issued ∧
      ∀ j, t'.cell j = if j ∈ is then none else t.cell j := by
  induction is generalizing t with
  | nil => exact ⟨t, rfl, rfl, by simp⟩
  | cons i is ih =>
      rw [List.nodup_cons] at hnodup
      obtain ⟨a, ha⟩ := hone i List.mem_cons_self
      obtain ⟨t₁, h1, hissued₁, hcell₁⟩ := release_of_one ha
      have hone₁ : ∀ j ∈ is, ∃ a, t₁.cell j = some (a, 1) := by
        intro j hj
        have hne : j ≠ i := by
          rintro rfl
          exact hnodup.1 hj
        rw [hcell₁, Function.update_of_ne hne]
        exact hone j (List.mem_cons_of_mem _ hj)
      obtain ⟨t', h', hissued, hcell⟩ := ih hnodup.2 hone₁
      refine ⟨t', by rw [releaseAll, h1, Option.bind_some, h'], hissued.trans hissued₁, ?_⟩
      intro j
      rw [hcell j, hcell₁]
      by_cases hj : j = i
      · subst hj
        simp
      · rw [Function.update_of_ne hj]
        simp [hj]

/-- The values of one call: after whatever the call adds, they are dropped, and the rest stays. -/
theorem releaseAll_of_allocAll {xs : List (ι × α)} {t₁ t₂ : RefTable ι α}
    (h : t.allocAll xs = some t₁) (hext : t₁.Extends t₂) :
    ∃ t', t₂.releaseAll (xs.map Prod.fst) = some t' ∧ t.Extends t' ∧
      (∀ x ∈ xs, t'.Dropped x.1) ∧
      ∀ j ∈ t₂.issued, j ∉ t₁.issued → j ∈ t'.issued ∧ t'.cell j = t₂.cell j := by
  obtain ⟨hext₁, hnodup, -⟩ := allocAll_spec h
  have hone : ∀ i ∈ xs.map Prod.fst, ∃ a, t₂.cell i = some (a, 1) := by
    intro i hi
    obtain ⟨-, hissued, a, hcell⟩ := allocAll_handle h hi
    exact ⟨a, (hext _ hissued).2.trans hcell⟩
  obtain ⟨t', h', hissued, hcell⟩ := releaseAll_of_one hnodup hone
  refine ⟨t', h', ?_, ?_, ?_⟩
  · intro j hj
    obtain ⟨hj₂, hcell₂⟩ := hext₁.trans hext j hj
    rw [hissued, hcell j, if_neg (fun hx => (allocAll_handle h hx).1 hj)]
    exact ⟨hj₂, hcell₂⟩
  · intro x hx
    have hmem := List.mem_map_of_mem (f := Prod.fst) hx
    constructor
    · rw [hissued]
      exact (hext _ (allocAll_handle h hmem).2.1).1
    · rw [hcell x.1, if_pos hmem]
  · intro j hj hj₁
    rw [hissued, hcell j, if_neg (fun hx => hj₁ (allocAll_handle h hx).2.1)]
    exact ⟨hj, rfl⟩

end
end RefTable
