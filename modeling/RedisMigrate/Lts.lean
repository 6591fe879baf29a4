import Mathlib.Logic.Relation
import Mathlib.Order.Basic

/-! # Transition systems with a guarded step function

`step s a` is the state after action `a`, or `none` when `a` is not enabled in `s`; all
nondeterminism is in the choice of the action, so a run on a concrete input is computed
(`run`) and the guards that a proof uses are the guards that the run checks.

* `Steps` and `Reachable` are the runs; `run_steps` connects them with `run`.
* `restrict` keeps the steps that meet a condition, so its runs are the runs of the system
  all of whose steps meet it.
* `Reachable.induct` and `Steps.preserves` carry an invariant along a run: what one step
  keeps, every run keeps.  `Steps.monotone` is the same for a quantity that only grows, and
  `run_latch` for a fact that some actions turn on.
* `AllStates` and `AllSteps` speak of a single run; `allStates_iff_allSteps` finds the runs that
  stay in a set of states by their steps.
* `exists_terminal` runs a system down a decreasing measure until no action of a chosen
  kind is enabled.
* `Simulation` relates two systems; `Simulation.steps` follows a run of one by a run of the
  other. -/

structure Lts (σ α : Type*) where
  init : σ → Prop
  step : σ → α → Option σ

namespace Lts

variable {σ α τ β : Type*} (L : Lts σ α) (M : Lts τ β)

/-- One step, by some action. -/
def Step (s s' : σ) : Prop := ∃ a, L.step s a = some s'

/-- Any number of steps. -/
abbrev Steps : σ → σ → Prop := Relation.ReflTransGen L.Step

/-- The states of the runs from an initial state. -/
def Reachable (s : σ) : Prop := ∃ s₀, L.init s₀ ∧ L.Steps s₀ s

/-- Perform the actions in order; `none` when one of them is not enabled. -/
def run : σ → List α → Option σ
  | s, [] => some s
  | s, a :: as => (L.step s a).bind (fun s' => run s' as)

/-- Some action of the kind `P` is enabled. -/
def Enabled (P : α → Prop) (s : σ) : Prop := ∃ a, P a ∧ (L.step s a).isSome

variable {L M}

theorem Reachable.of_init {s : σ} (h : L.init s) : L.Reachable s := ⟨s, h, .refl⟩

theorem Reachable.trans {s s' : σ} (h : L.Reachable s) (hs : L.Steps s s') : L.Reachable s' := by
  obtain ⟨s₀, h0, h⟩ := h
  exact ⟨s₀, h0, h.trans hs⟩

theorem Reachable.tail {s s' : σ} {a : α} (h : L.Reachable s) (hs : L.step s a = some s') :
    L.Reachable s' := h.trans (.single ⟨a, hs⟩)

@[simp] theorem run_nil (s : σ) : L.run s [] = some s := rfl

@[simp] theorem run_cons (s : σ) (a : α) (as : List α) :
    L.run s (a :: as) = (L.step s a).bind (fun s' => L.run s' as) := rfl

theorem run_append {s s' s'' : σ} {as bs : List α} (h : L.run s as = some s')
    (h' : L.run s' bs = some s'') : L.run s (as ++ bs) = some s'' := by
  induction as generalizing s with
  | nil =>
      obtain rfl : s = s' := by simpa using h
      exact h'
  | cons a as ih =>
      obtain ⟨s₁, h1, h2⟩ := Option.bind_eq_some_iff.mp h
      simp only [List.cons_append, run_cons, h1, Option.bind_some]
      exact ih h2

theorem run_steps {s s' : σ} {as : List α} (h : L.run s as = some s') : L.Steps s s' := by
  induction as generalizing s with
  | nil =>
      obtain rfl : s = s' := by simpa using h
      exact .refl
  | cons a as ih =>
      obtain ⟨s₁, h1, h2⟩ := Option.bind_eq_some_iff.mp h
      exact .head ⟨a, h1⟩ (ih h2)

/-- The state in which a run that goes through ends. -/
theorem Reachable.of_run {s : σ} {as : List α} (h0 : L.init s) (h : (L.run s as).isSome) :
    L.Reachable ((L.run s as).get h) :=
  ⟨s, h0, run_steps (Option.some_get h).symm⟩

theorem Enabled.mono {P Q : α → Prop} {s : σ} (h : L.Enabled P s) (hPQ : ∀ a, P a → Q a) :
    L.Enabled Q s := by
  obtain ⟨a, ha, hs⟩ := h
  exact ⟨a, hPQ a ha, hs⟩

/-! ### Restriction -/

/-- The system that takes only the steps that meet `G`. -/
def restrict (L : Lts σ α) (G : σ → α → Prop) [∀ s a, Decidable (G s a)] : Lts σ α where
  init := L.init
  step s a := if G s a then L.step s a else none

section restrict
variable {G : σ → α → Prop} [∀ s a, Decidable (G s a)]

theorem restrict_step_eq_some {s s' : σ} {a : α} :
    (L.restrict G).step s a = some s' ↔ G s a ∧ L.step s a = some s' := by
  unfold restrict
  dsimp only
  split_ifs with h <;> simp [h]

theorem Reachable.of_restrict {s : σ} (h : (L.restrict G).Reachable s) : L.Reachable s := by
  obtain ⟨s₀, h0, h⟩ := h
  have hle : (L.restrict G).Step ≤ L.Step := by
    rintro t t' ⟨a, ha⟩
    exact ⟨a, (restrict_step_eq_some.mp ha).2⟩
  exact ⟨s₀, h0, Relation.ReflTransGen.mono hle s₀ s h⟩

end restrict

/-! ### Invariants -/

/-- What every step keeps, every run keeps. -/
theorem Steps.preserves {I : σ → Prop}
    (hstep : ∀ s a s', I s → L.step s a = some s' → I s') {s s' : σ} (h : L.Steps s s')
    (hI : I s) : I s' := by
  induction h with
  | refl => exact hI
  | tail _ hs ih =>
      obtain ⟨a, ha⟩ := hs
      exact hstep _ _ _ ih ha

/-- An invariant of the reachable states; the step may use that the state it leaves is
reachable, hence every invariant proved before. -/
theorem Reachable.induct {I : σ → Prop} (hinit : ∀ s, L.init s → I s)
    (hstep : ∀ s a s', L.Reachable s → I s → L.step s a = some s' → I s') {s : σ}
    (h : L.Reachable s) : I s := by
  obtain ⟨s₀, h0, h⟩ := h
  induction h with
  | refl => exact hinit _ h0
  | tail hr hs ih =>
      obtain ⟨a, ha⟩ := hs
      exact hstep _ _ _ ⟨s₀, h0, hr⟩ ih ha

/-- `Steps.preserves` for a run that starts in a reachable state. -/
theorem Reachable.preserves {I : σ → Prop}
    (hstep : ∀ s a s', L.Reachable s → I s → L.step s a = some s' → I s') {s s' : σ}
    (hr : L.Reachable s) (h : L.Steps s s') (hI : I s) : I s' := by
  induction h with
  | refl => exact hI
  | tail hsteps hs ih =>
      obtain ⟨a, ha⟩ := hs
      exact hstep _ _ _ (hr.trans hsteps) ih ha

/-- A quantity that no step makes smaller only grows along a run. -/
theorem Steps.monotone {γ : Type*} [Preorder γ] (f : σ → γ)
    (hstep : ∀ s a s', L.step s a = some s' → f s ≤ f s') {s s' : σ} (h : L.Steps s s') :
    f s ≤ f s' :=
  Steps.preserves (I := fun t => f s ≤ f t) (fun _ _ _ hi hs => hi.trans (hstep _ _ _ hs)) h le_rfl

/-- A fact that becomes true exactly by the actions of a kind, and then stays, says of the end
of a run whether the run has such an action. -/
theorem run_latch {Q : σ → Prop} {P : α → Prop}
    (hstep : ∀ s a s', L.step s a = some s' → (Q s' ↔ Q s ∨ P a)) {s s' : σ} {as : List α}
    (h : L.run s as = some s') : Q s' ↔ Q s ∨ ∃ a ∈ as, P a := by
  induction as generalizing s with
  | nil =>
      obtain rfl : s = s' := by simpa using h
      simp
  | cons a as ih =>
      obtain ⟨s₁, h1, h2⟩ := Option.bind_eq_some_iff.mp h
      rw [ih h2, hstep s a s₁ h1]
      simp only [List.mem_cons, exists_eq_or_imp, or_assoc]

/-! ### The states and the steps of a run -/

/-- `P` holds of every state of the run, its first and its last included. -/
def AllStates (L : Lts σ α) (P : σ → Prop) : σ → List α → Prop
  | s, [] => P s
  | s, a :: as => P s ∧ ∀ s', L.step s a = some s' → L.AllStates P s' as

/-- `G` holds of every step of the run. -/
def AllSteps (L : Lts σ α) (G : σ → α → Prop) : σ → List α → Prop
  | _, [] => True
  | s, a :: as => ∀ s', L.step s a = some s' → G s a ∧ L.AllSteps G s' as

theorem AllStates.head {P : σ → Prop} {s : σ} {as : List α} (h : L.AllStates P s as) : P s := by
  cases as with
  | nil => exact h
  | cons a as => exact h.1

/-- When a step keeps `P` exactly if it meets `G`, a run that starts in `P` stays in it exactly if
all its steps meet `G`. -/
theorem allStates_iff_allSteps {P : σ → Prop} {G : σ → α → Prop}
    (hstep : ∀ s a s', L.Reachable s → P s → L.step s a = some s' → (P s' ↔ G s a)) {s : σ}
    (hr : L.Reachable s) (hP : P s) (as : List α) : L.AllStates P s as ↔ L.AllSteps G s as := by
  induction as generalizing s with
  | nil => exact iff_of_true hP trivial
  | cons a as ih =>
      constructor
      · rintro ⟨-, h⟩ s' hs
        have hP' := (h s' hs).head
        exact ⟨(hstep s a s' hr hP hs).mp hP', (ih (hr.tail hs) hP').mp (h s' hs)⟩
      · intro h
        refine ⟨hP, ?_⟩
        intro s' hs
        obtain ⟨hG, hrest⟩ := h s' hs
        exact (ih (hr.tail hs) ((hstep s a s' hr hP hs).mpr hG)).mpr hrest

/-! ### Running down a measure -/

/-- When every action of the kind `P` keeps `I` and makes `μ` smaller, then from a state of
`I` the system reaches a state of `I` in which no action of that kind is enabled. -/
theorem exists_terminal {I : σ → Prop} {P : α → Prop} (μ : σ → ℕ)
    (hstep : ∀ s a s', I s → P a → L.step s a = some s' → I s' ∧ μ s' < μ s) {s : σ} (hI : I s) :
    ∃ s', L.Steps s s' ∧ I s' ∧ ¬ L.Enabled P s' := by
  induction hn : μ s using Nat.strongRecOn generalizing s with
  | ind n ih =>
      by_cases he : L.Enabled P s
      · obtain ⟨a, ha, hs⟩ := he
        obtain ⟨s₁, h1⟩ := Option.isSome_iff_exists.mp hs
        obtain ⟨hI1, hlt⟩ := hstep _ _ _ hI ha h1
        obtain ⟨s', hs', hI', hend⟩ := ih (μ s₁) (hn ▸ hlt) hI1 rfl
        exact ⟨s', .head ⟨a, h1⟩ hs', hI', hend⟩
      · exact ⟨s, .refl, hI, he⟩

/-! ### Simulation -/

/-- `R` relates the states of `L` with states of `M` that follow every step of `L` by some
steps of `M` (none of them, for a step that `M` does not see). -/
structure Simulation (L : Lts σ α) (M : Lts τ β) (R : σ → τ → Prop) : Prop where
  init : ∀ s, L.init s → ∃ t, M.init t ∧ R s t
  step : ∀ s a s' t, L.Reachable s → R s t → L.step s a = some s' → ∃ t', M.Steps t t' ∧ R s' t'

/-- Every run of `L` is followed by a run of `M`. -/
theorem Simulation.steps {R : σ → τ → Prop} (h : Simulation L M R) {s s' : σ}
    (hr : L.Reachable s) (hs : L.Steps s s') {t : τ} (hR : R s t) :
    ∃ t', M.Steps t t' ∧ R s' t' := by
  induction hs with
  | refl => exact ⟨t, .refl, hR⟩
  | tail hsteps hstep ih =>
      obtain ⟨t₁, ht₁, hR₁⟩ := ih
      obtain ⟨a, ha⟩ := hstep
      obtain ⟨t₂, ht₂, hR₂⟩ := h.step _ a _ t₁ (hr.trans hsteps) hR₁ ha
      exact ⟨t₂, ht₁.trans ht₂, hR₂⟩

theorem Simulation.reachable {R : σ → τ → Prop} (h : Simulation L M R) {s : σ}
    (hs : L.Reachable s) : ∃ t, M.Reachable t ∧ R s t := by
  obtain ⟨s₀, h0, hsteps⟩ := hs
  obtain ⟨t₀, ht₀, hR₀⟩ := h.init s₀ h0
  obtain ⟨t, ht, hR⟩ := h.steps (.of_init h0) hsteps hR₀
  exact ⟨t, ⟨t₀, ht₀, ht⟩, hR⟩

end Lts
