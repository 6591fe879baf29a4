import Mathlib.Data.Nat.Basic

/-! # Loops that carry their variant

A `Loop` is the body of an imperative loop together with a measure that every further turn
makes smaller, so a loop that does not terminate cannot be written down.  One turn leaves the
loop, goes round again with a new state, or does something that the language does not
define.  `run` executes the turns with the variant as fuel; it is structurally recursive, so it
computes, and `run_eq` says that the fuel never runs out.

* `run_inv`: an invariant of the turns holds of the result, and the turn from the result
  leaves the loop.
* `run_isSome`: the loop has a result when no state of the invariant has an undefined turn.
* `Visits` are the states at the head of the loop during a run, and `trace` is what can be
  observed there, in order (`mem_trace`). -/

/-- What one turn of a loop does. -/
inductive Turn (σ : Type*) where
  | leave
  | again (s : σ)
  | undefined
deriving DecidableEq, Repr

structure Loop (σ : Type*) where
  turn : σ → Turn σ
  variant : σ → ℕ
  decreases : ∀ s s', turn s = .again s' → variant s' < variant s

namespace Loop

variable {σ β : Type*} (L : Loop σ)

def runFuel (n : ℕ) (s : σ) : Option σ :=
  match L.turn s with
  | .leave => some s
  | .undefined => none
  | .again s' => match n with
    | 0 => none
    | n + 1 => runFuel n s'

/-- The result of the loop; `none` when some turn is undefined. -/
def run (s : σ) : Option σ := L.runFuel (L.variant s) s

/-- The states at the head of the loop during the run from `s`. -/
inductive Visits (s : σ) : σ → Prop
  | start : Visits s s
  | turn {s₁ s₂ : σ} : Visits s s₁ → L.turn s₁ = .again s₂ → Visits s s₂

def traceFuel (obs : σ → List β) (n : ℕ) (s : σ) : List β :=
  obs s ++ match L.turn s with
    | .leave => []
    | .undefined => []
    | .again s' => match n with
      | 0 => []
      | n + 1 => traceFuel obs n s'

/-- What `obs` shows at the head of each turn of the run from `s`. -/
def trace (obs : σ → List β) (s : σ) : List β := L.traceFuel obs (L.variant s) s

variable {L}

theorem runFuel_leave {s : σ} (h : L.turn s = .leave) (n : ℕ) : L.runFuel n s = some s := by
  unfold runFuel; rw [h]

theorem runFuel_undefined {s : σ} (h : L.turn s = .undefined) (n : ℕ) :
    L.runFuel n s = none := by
  unfold runFuel; rw [h]

theorem runFuel_again {s s' : σ} (h : L.turn s = .again s') (n : ℕ) :
    L.runFuel (n + 1) s = L.runFuel n s' := by
  rw [runFuel.eq_def, h]

/-- The variant is enough fuel, and more does not change the result. -/
theorem runFuel_eq_run {n : ℕ} {s : σ} (hn : L.variant s ≤ n) : L.runFuel n s = L.run s := by
  induction n using Nat.strongRecOn generalizing s with
  | ind n ih =>
      cases h : L.turn s with
      | leave => rw [run, runFuel_leave h, runFuel_leave h]
      | undefined => rw [run, runFuel_undefined h, runFuel_undefined h]
      | again s' =>
          have hlt := L.decreases s s' h
          obtain ⟨m, rfl⟩ : ∃ m, n = m + 1 := ⟨n - 1, by omega⟩
          obtain ⟨v, hv⟩ : ∃ v, L.variant s = v + 1 := ⟨L.variant s - 1, by omega⟩
          rw [run, hv, runFuel_again h, runFuel_again h, ih m (by omega) (by omega),
            ih v (by omega) (by omega)]

theorem run_leave {s : σ} (h : L.turn s = .leave) : L.run s = some s := runFuel_leave h _

theorem run_undefined {s : σ} (h : L.turn s = .undefined) : L.run s = none :=
  runFuel_undefined h _

theorem run_again {s s' : σ} (h : L.turn s = .again s') : L.run s = L.run s' := by
  have hlt := L.decreases s s' h
  obtain ⟨v, hv⟩ : ∃ v, L.variant s = v + 1 := ⟨L.variant s - 1, by omega⟩
  rw [run, hv, runFuel_again h, runFuel_eq_run (by omega)]

/-- The loop unrolled once: `run` is the loop, whatever fuel it was given. -/
theorem run_eq (s : σ) : L.run s = match L.turn s with
    | .leave => some s
    | .again s' => L.run s'
    | .undefined => none := by
  cases h : L.turn s with
  | leave => exact run_leave h
  | again s' => exact run_again h
  | undefined => exact run_undefined h

/-- Induction along the turns of a run. -/
theorem induct {P : σ → Prop} (hleave : ∀ s, L.turn s = .leave → P s)
    (hagain : ∀ s s', L.turn s = .again s' → P s' → P s)
    (hundef : ∀ s, L.turn s = .undefined → P s) (s : σ) : P s := by
  induction hn : L.variant s using Nat.strongRecOn generalizing s with
  | ind n ih =>
      cases h : L.turn s with
      | leave => exact hleave s h
      | again s' => exact hagain s s' h (ih _ (hn ▸ L.decreases s s' h) s' rfl)
      | undefined => exact hundef s h

/-- Partial correctness: what every turn keeps holds of the result, where the loop stops. -/
theorem run_inv {I : σ → Prop} (hturn : ∀ s s', I s → L.turn s = .again s' → I s') {s r : σ}
    (hI : I s) (h : L.run s = some r) : I r ∧ L.turn r = .leave := by
  induction s using L.induct with
  | hleave s hs =>
      obtain rfl : s = r := by simpa [run_leave hs] using h
      exact ⟨hI, hs⟩
  | hagain s s' hs ih => exact ih (hturn s s' hI hs) (by rwa [run_again hs] at h)
  | hundef s hs => simp [run_undefined hs] at h

/-- The loop has a result when the states of an invariant have no undefined turn. -/
theorem run_isSome {I : σ → Prop} (hturn : ∀ s s', I s → L.turn s = .again s' → I s')
    (hdef : ∀ s, I s → L.turn s ≠ .undefined) {s : σ} (hI : I s) : ∃ r, L.run s = some r := by
  induction s using L.induct with
  | hleave s hs => exact ⟨s, run_leave hs⟩
  | hagain s s' hs ih => rw [run_again hs]; exact ih (hturn s s' hI hs)
  | hundef s hs => exact absurd hs (hdef s hI)

/-- What every turn keeps holds at the head of every turn. -/
theorem Visits.inv {I : σ → Prop} (hturn : ∀ s s', I s → L.turn s = .again s' → I s') {s s' : σ}
    (h : L.Visits s s') (hI : I s) : I s' := by
  induction h with
  | start => exact hI
  | turn _ hs ih => exact hturn _ _ ih hs

/-! ### What is seen during a run -/

theorem Visits.head {s s₁ s₂ : σ} (h : L.turn s = .again s₁) (hv : L.Visits s₁ s₂) :
    L.Visits s s₂ := by
  induction hv with
  | start => exact .turn .start h
  | turn _ hs ih => exact .turn ih hs

theorem Visits.cases_head {s s' : σ} (h : L.Visits s s') :
    s' = s ∨ ∃ s₁, L.turn s = .again s₁ ∧ L.Visits s₁ s' := by
  induction h with
  | start => exact .inl rfl
  | @turn s₁ s₂ _ hs ih =>
      rcases ih with rfl | ⟨s₀, h₀, hv⟩
      · exact .inr ⟨s₂, hs, .start⟩
      · exact .inr ⟨s₀, h₀, hv.turn hs⟩

theorem traceFuel_stop {s : σ} (obs : σ → List β) (h : ∀ s', L.turn s ≠ .again s') (n : ℕ) :
    L.traceFuel obs n s = obs s := by
  unfold traceFuel
  cases hs : L.turn s with
  | leave => simp
  | undefined => simp
  | again s' => exact absurd hs (h s')

theorem traceFuel_again {s s' : σ} (obs : σ → List β) (h : L.turn s = .again s') (n : ℕ) :
    L.traceFuel obs (n + 1) s = obs s ++ L.traceFuel obs n s' := by
  rw [traceFuel.eq_def, h]

theorem traceFuel_eq_trace {obs : σ → List β} {n : ℕ} {s : σ} (hn : L.variant s ≤ n) :
    L.traceFuel obs n s = L.trace obs s := by
  induction n using Nat.strongRecOn generalizing s with
  | ind n ih =>
      by_cases h : ∃ s', L.turn s = .again s'
      · obtain ⟨s', h⟩ := h
        have hlt := L.decreases s s' h
        obtain ⟨m, rfl⟩ : ∃ m, n = m + 1 := ⟨n - 1, by omega⟩
        obtain ⟨v, hv⟩ : ∃ v, L.variant s = v + 1 := ⟨L.variant s - 1, by omega⟩
        rw [trace, hv, traceFuel_again obs h, traceFuel_again obs h, ih m (by omega) (by omega),
          ih v (by omega) (by omega)]
      · rw [not_exists] at h
        rw [trace, traceFuel_stop obs h, traceFuel_stop obs h]

theorem trace_stop {s : σ} (obs : σ → List β) (h : ∀ s', L.turn s ≠ .again s') :
    L.trace obs s = obs s := traceFuel_stop obs h _

theorem trace_again {s s' : σ} (obs : σ → List β) (h : L.turn s = .again s') :
    L.trace obs s = obs s ++ L.trace obs s' := by
  have hlt := L.decreases s s' h
  obtain ⟨v, hv⟩ : ∃ v, L.variant s = v + 1 := ⟨L.variant s - 1, by omega⟩
  rw [trace, hv, traceFuel_again obs h, traceFuel_eq_trace (by omega)]

/-- When what a turn shows can be carried out and leads from the state before to the state after it,
the whole trace leads from the start to the result. -/
theorem trace_replay {α : Type*} {v : σ → α} {act : α → β → Option α} {obs : σ → List β}
    (hleave : ∀ s, L.turn s = .leave → (obs s).foldlM act (v s) = some (v s))
    (hagain : ∀ s s', L.turn s = .again s' → (obs s).foldlM act (v s) = some (v s'))
    {s r : σ} (h : L.run s = some r) : (L.trace obs s).foldlM act (v s) = some (v r) := by
  induction s using L.induct with
  | hleave s hs =>
      obtain rfl : s = r := by simpa [run_leave hs] using h
      rw [trace_stop obs (by simp [hs]), hleave s hs]
  | hagain s s' hs ih =>
      rw [run_again hs] at h
      rw [trace_again obs hs, List.foldlM_append, hagain s s' hs]
      exact ih h
  | hundef s hs => simp [run_undefined hs] at h

/-- The trace shows what the states at the head of the loop show. -/
theorem mem_trace {obs : σ → List β} {s : σ} {b : β} :
    b ∈ L.trace obs s ↔ ∃ s', L.Visits s s' ∧ b ∈ obs s' := by
  have hstop : ∀ s, (∀ s', L.turn s ≠ .again s') →
      (b ∈ L.trace obs s ↔ ∃ s', L.Visits s s' ∧ b ∈ obs s') := by
    intro s h
    rw [trace_stop obs h]
    constructor
    · intro hb
      exact ⟨s, .start, hb⟩
    · rintro ⟨s', hv, hb⟩
      rcases hv.cases_head with rfl | ⟨s₁, h₁, -⟩
      · exact hb
      · exact absurd h₁ (h s₁)
  induction s using L.induct with
  | hleave s h => exact hstop s (by simp [h])
  | hundef s h => exact hstop s (by simp [h])
  | hagain s s₁ h ih =>
      rw [trace_again obs h, List.mem_append]
      constructor
      · rintro (hb | hb)
        · exact ⟨s, .start, hb⟩
        · obtain ⟨s', hv, hb⟩ := ih.mp hb
          exact ⟨s', hv.head h, hb⟩
      · rintro ⟨s', hv, hb⟩
        rcases hv.cases_head with rfl | ⟨s₂, h₂, hv⟩
        · exact .inl hb
        · obtain rfl := Turn.again.inj (h.symm.trans h₂)
          exact .inr (ih.mpr ⟨s', hv, hb⟩)

end Loop
