import Mathlib.Data.Finset.Insert
import Mathlib.Data.Finset.Erase

/-! # A mutex with a condition variable

The mutex is not recursive: it can be locked when nobody owns it, and unlocked by its owner.
A thread that waits on the condition gives the mutex up and is parked; a notification, or a
spurious wake-up, takes it out of the parked threads, and it returns from the wait by
taking the mutex again.  Every operation is `none` where the thread is blocked.

A program has an ownership discipline when its control locations say who owns the mutex;
`OwnerMove` is what one atomic action may do to the owner, and `OwnerMove.owned` says that
actions of that kind keep the discipline. -/

structure Monitor (ι : Type*) where
  owner : Option ι
  parked : Finset ι

namespace Monitor

variable {ι : Type*} [DecidableEq ι]

/-- Nobody owns the mutex and nobody waits. -/
def free : Monitor ι := ⟨none, ∅⟩

def lock (m : Monitor ι) (i : ι) : Option (Monitor ι) :=
  if m.owner = none then some { m with owner := some i } else none

def unlock (m : Monitor ι) (i : ι) : Option (Monitor ι) :=
  if m.owner = some i then some { m with owner := none } else none

/-- The first half of a wait: give the mutex up and park. -/
def park (m : Monitor ι) (i : ι) : Option (Monitor ι) :=
  if m.owner = some i then some ⟨none, insert i m.parked⟩ else none

/-- The second half of a wait: woken up, take the mutex again. -/
def reacquire (m : Monitor ι) (i : ι) : Option (Monitor ι) :=
  if i ∈ m.parked then none else m.lock i

/-- Wake the parked thread `pick`; with nobody parked the notification is lost. -/
def notifyOne (m : Monitor ι) (pick : Option ι) : Option (Monitor ι) :=
  match pick with
  | none => if m.parked = ∅ then some m else none
  | some k => if k ∈ m.parked then some { m with parked := m.parked.erase k } else none

def notifyAll (m : Monitor ι) : Monitor ι := { m with parked := ∅ }

/-- A wake-up without a notification. -/
def spuriousWake (m : Monitor ι) (i : ι) : Option (Monitor ι) :=
  if i ∈ m.parked then some { m with parked := m.parked.erase i } else none

section ops
variable {m m' : Monitor ι} {i : ι}

omit [DecidableEq ι] in
theorem lock_eq_some : m.lock i = some m' ↔ m.owner = none ∧ m' = ⟨some i, m.parked⟩ := by
  unfold lock
  split_ifs with h <;> simp [h, eq_comm]

theorem unlock_eq_some : m.unlock i = some m' ↔ m.owner = some i ∧ m' = ⟨none, m.parked⟩ := by
  unfold unlock
  split_ifs with h <;> simp [h, eq_comm]

theorem park_eq_some :
    m.park i = some m' ↔ m.owner = some i ∧ m' = ⟨none, insert i m.parked⟩ := by
  unfold park
  split_ifs with h <;> simp [h, eq_comm]

theorem reacquire_eq_some :
    m.reacquire i = some m' ↔ i ∉ m.parked ∧ m.owner = none ∧ m' = ⟨some i, m.parked⟩ := by
  unfold reacquire
  split_ifs with h <;> simp [h, lock_eq_some]

theorem spuriousWake_eq_some :
    m.spuriousWake i = some m' ↔ i ∈ m.parked ∧ m' = ⟨m.owner, m.parked.erase i⟩ := by
  unfold spuriousWake
  split_ifs with h <;> simp [h, eq_comm]

/-- A notification keeps the owner, parks nobody, and wakes somebody if anybody is parked. -/
theorem notifyOne_spec {pick : Option ι} (h : m.notifyOne pick = some m') :
    m'.owner = m.owner ∧ m'.parked ⊆ m.parked ∧
      (m.parked = ∅ ∨ ∃ k ∈ m.parked, k ∉ m'.parked) := by
  cases pick with
  | none =>
      simp only [notifyOne] at h
      split_ifs at h with hp
      obtain rfl := Option.some.inj h
      exact ⟨rfl, Finset.Subset.refl _, .inl hp⟩
  | some k =>
      simp only [notifyOne] at h
      split_ifs at h with hk
      obtain rfl := Option.some.inj h
      exact ⟨rfl, Finset.erase_subset _ _, .inr ⟨k, hk, Finset.notMem_erase _ _⟩⟩

/-- Some choice of the thread to wake is always possible. -/
theorem exists_notifyOne (m : Monitor ι) : ∃ pick, (m.notifyOne pick).isSome := by
  by_cases h : m.parked = ∅
  · exact ⟨none, by simp [notifyOne, h]⟩
  · obtain ⟨k, hk⟩ := Finset.nonempty_iff_ne_empty.mpr h
    exact ⟨some k, by simp [notifyOne, hk]⟩

omit [DecidableEq ι] in
theorem lock_isSome (h : m.owner = none) : (m.lock i).isSome := by simp [lock, h]

theorem unlock_isSome (h : m.owner = some i) : (m.unlock i).isSome := by simp [unlock, h]

theorem park_isSome (h : m.owner = some i) : (m.park i).isSome := by simp [park, h]

theorem reacquire_isSome (hp : i ∉ m.parked) (h : m.owner = none) :
    (m.reacquire i).isSome := by simp [reacquire, hp, lock, h]

end ops

/-! ### Ownership -/

/-- One action of the thread `me`, whose control location says before and after the action
whether it owns the mutex (`h`, `h'`). -/
inductive OwnerMove (me : ι) (h h' : Bool) (o o' : Option ι) : Prop
  | keep : h' = h → o' = o → OwnerMove me h h' o o'
  | acquire : o = none → h' = true → o' = some me → OwnerMove me h h' o o'
  | release : o = some me → h' = false → o' = none → OwnerMove me h h' o o'

/-- The owner is the one thread whose location says so, before and after. -/
theorem OwnerMove.owned (me : ι) {o o' : Option ι} {H H' : ι → Bool}
    (hI : ∀ t, o = some t ↔ H t = true) (hm : OwnerMove me (H me) (H' me) o o')
    (hne : ∀ t, t ≠ me → H' t = H t) (t : ι) : o' = some t ↔ H' t = true := by
  by_cases ht : t = me
  · subst ht
    cases hm with
    | keep hh ho => rw [ho, hh]; exact hI t
    | acquire _ hh ho => simp [ho, hh]
    | release _ hh ho => simp [ho, hh]
  · rw [hne t ht, ← hI t]
    have hme : (some me = some t) = False := by simp [Ne.symm ht]
    cases hm with
    | keep _ ho => rw [ho]
    | acquire h _ ho => rw [ho, h, hme]; simp
    | release h _ ho => rw [ho, h, hme]; simp

end Monitor
