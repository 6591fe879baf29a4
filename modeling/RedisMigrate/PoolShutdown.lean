import RedisMigrate.PoolProgress

/-! # Shutting the pool down

The destructor keeps `queue_mutex` from setting `stop` until it has joined every worker, and the
predicate of the wait does not look at `stop`.  A worker gets out only from the head of its loop:
one that waits for the mutex, or on the condition, when `stop` is set never gets it again, and
the destructor never gets past its `join`.

`shutdown_iff`: a shutdown whose `stop` is set with every worker at the head of its loop has an
enabled step in every state until the destructor returns (`Leaving.progress`), and any other
shutdown can run into a state without any step (`Blocked.exists_dead`). -/

namespace RedisMigrate

variable {τ : Type*} {W : Workload τ}

/-- An action of a worker or of the destructor. -/
def Action.IsShutdown : Action W → Prop
  | .worker _ _ | .dtor => True
  | .submitter _ _ | .spurious _ => False

theorem Action.IsWorker.isShutdown {i : Fin W.num} {a : Action W} (h : a.IsWorker i) :
    a.IsShutdown := by
  cases a with
  | worker _ _ | dtor => trivial
  | submitter _ _ | spurious _ => exact h.elim

theorem enabled_dtor {s : PoolState W} (h : (dtorStep s).isSome) :
    (poolLts W).Enabled Action.IsShutdown s :=
  ⟨.dtor, trivial, by simpa [poolLts, poolStep] using h⟩

/-! ### Before `stop` is set -/

/-- While the destructor waits for the mutex, or is about to set `stop`, there is a step. -/
theorem shutdown_begins (hW : W.Leaf) {s : PoolState W} (hr : (poolLts W).Reachable s)
    (hd : s.dtor = .lock ∨ s.dtor = .setStop) : (poolLts W).Enabled Action.IsShutdown s := by
  have hs := sound hr
  rcases hd with hd | hd
  · cases ho : s.shared.sync.owner with
    | none => exact enabled_dtor (by simpa [dtorStep, hd] using Monitor.lock_isSome ho)
    | some t =>
        have hh := (hs.owner t).mp ho
        cases t with
        | worker i =>
            exact (worker_enabled_of_holds hs (queueSound hr) hh
              (fun _ _ => calls_of_leaf hW hr)).mono (fun _ => Action.IsWorker.isShutdown)
        | submitter j =>
            rw [PoolState.holds, (stopSound hr).done (by rw [hd]; simp) j] at hh
            cases hh
        | dtor => rw [PoolState.holds, hd] at hh; cases hh
  · exact enabled_dtor (by simp [dtorStep, hd])

/-! ### A clean shutdown -/

def WorkerPc.isHead : WorkerPc τ → Bool
  | .head => true
  | _ => false

theorem WorkerPc.isHead_iff {pc : WorkerPc τ} : pc.isHead = true ↔ pc = .head := by
  cases pc <;> simp [isHead]

/-- If the action sets `stop`, then every worker is about to read it. -/
def CleanStop (s : PoolState W) : Action W → Prop
  | .dtor => s.dtor = .setStop → ∀ i, (s.worker i).isHead = true
  | _ => True

instance (s : PoolState W) (a : Action W) : Decidable (CleanStop s a) :=
  match a with
  | .dtor => inferInstanceAs (Decidable (s.dtor = .setStop → ∀ i, (s.worker i).isHead = true))
  | .worker _ _ | .submitter _ _ | .spurious _ => .isTrue trivial

/-- `stop` is set, and every worker is on its way out. -/
structure Leaving (s : PoolState W) : Prop where
  stopped : s.dtor.stopped = true
  worker : ∀ i, s.worker i = .head ∨ s.worker i = .leave ∨ s.worker i = .exited

theorem DtorStep.stopped {s : PoolState W} {pc pc' : DtorPc} {sh : Shared W.Tid τ}
    (h : DtorStep s pc sh pc') :
    pc'.stopped = true ∧ (pc.stopped = true ∨ pc = .setStop) ∨ pc'.stopped = false := by
  cases h with
  | begin _ | lock _ => exact .inr rfl
  | setStop => exact .inl ⟨rfl, .inr rfl⟩
  | notify | join _ _ _ | joined _ _ | unlock _ => exact .inl ⟨rfl, .inl rfl⟩

/-- A worker that is on its way out and reads `stop` leaves. -/
theorem Leaving.step {s s' : PoolState W} {a : Action W} (hr : (poolLts W).Reachable s)
    (hs : Leaving s) (h : PoolStep s a s') : Leaving s' := by
  obtain ⟨hstopped, hworker⟩ := hs
  cases h with
  | worker i pick sh pc h =>
      have hstop : s.shared.stop = true := (stopSound hr).stop.trans hstopped
      refine ⟨hstopped, ?_⟩
      apply (Function.forall_update_iff s.worker
        fun _ pc => pc = .head ∨ pc = .leave ∨ pc = .exited).mpr
      refine ⟨?_, fun k _ => hworker k⟩
      have hi := hworker i
      generalize s.worker i = pc0 at h hi
      cases h with
      | stopUnset hf => rw [hstop] at hf; cases hf
      | stopSet _ => exact .inr (.inl rfl)
      | exit => exact .inr (.inr rfl)
      | _ => simp at hi
  | submitter j pick sh c h => exact ⟨hstopped, hworker⟩
  | dtor sh pc h =>
      refine ⟨?_, hworker⟩
      generalize s.dtor = d at h hstopped
      cases h with
      | begin _ | lock _ | setStop => cases hstopped
      | notify | join _ _ _ | joined _ _ | unlock _ => rfl
  | spurious i h => exact ⟨hstopped, hworker⟩

/-- Somebody goes on until the destructor has returned. -/
theorem Leaving.progress {s : PoolState W} (hr : (poolLts W).Reachable s) (hs : Leaving s)
    (hd : s.dtor ≠ .returned) : (poolLts W).Enabled Action.IsShutdown s := by
  obtain ⟨hstopped, hworker⟩ := hs
  cases hpc : s.dtor with
  | idle | lock | setStop => rw [hpc] at hstopped; cases hstopped
  | notify => exact enabled_dtor (by simp [dtorStep, hpc])
  | join k =>
      by_cases hk : k < W.num
      · have henabled : (s.worker ⟨k, hk⟩ = .head ∨ s.worker ⟨k, hk⟩ = .leave) →
            (poolLts W).Enabled Action.IsShutdown s := by
          intro h
          refine (enabled_worker (i := ⟨k, hk⟩) none ?_).mono (fun _ => Action.IsWorker.isShutdown)
          rcases h with h | h <;> rw [h] <;> rfl
        rcases hworker ⟨k, hk⟩ with h | h | h
        · exact henabled (.inl h)
        · exact henabled (.inr h)
        · exact enabled_dtor (by simp [dtorStep, hpc, hk, WorkerPc.isExited_iff.mpr h])
      · exact enabled_dtor (by simp [dtorStep, hpc, hk])
  | unlock =>
      have ho : s.shared.sync.owner = some .dtor :=
        ((sound hr).owner .dtor).mpr (by rw [PoolState.holds, hpc]; rfl)
      exact enabled_dtor (by simpa [dtorStep, hpc] using Monitor.unlock_isSome ho)
  | returned => exact absurd hpc hd

/-- In a run whose `stop` is set cleanly, every worker is on its way out from then on. -/
theorem leaving_of_clean {s : PoolState W} (h : ((poolLts W).restrict CleanStop).Reachable s)
    (hstopped : s.dtor.stopped = true) : Leaving s := by
  revert hstopped
  refine h.induct (I := fun s => s.dtor.stopped = true → Leaving s) ?_ ?_
  · rintro s rfl hstopped
    cases hstopped
  · intro s a s' hr ih hstep hstopped'
    obtain ⟨hclean, hstep⟩ := Lts.restrict_step_eq_some.mp hstep
    have h := step_sound hstep
    by_cases hstopped : s.dtor.stopped = true
    · exact (ih hstopped).step hr.of_restrict h
    · cases h with
      | dtor sh pc h =>
          rcases h.stopped with ⟨-, h | hd⟩ | h
          · exact absurd h hstopped
          · exact ⟨hstopped', fun i => .inl (WorkerPc.isHead_iff.mp (hclean hd i))⟩
          · rw [h] at hstopped'
            cases hstopped'
      | _ => exact absurd hstopped' hstopped

/-! ### A shutdown that hangs -/

/-- The destructor owns the mutex and has the worker `w` still to join, which waits for it. -/
structure Blocked (w : Fin W.num) (s : PoolState W) : Prop where
  reachable : (poolLts W).Reachable s
  worker : s.worker w = .lock ∨ s.worker w = .waiting
  dtor : s.dtor = .notify ∨ ∃ k ≤ w.val, s.dtor = .join k

/-- The steps of the destructor up to the join of the last of `n` workers. -/
def DtorPc.rank (n : ℕ) : DtorPc → ℕ
  | .notify => n + 1
  | .join k => n - k
  | _ => 0

/-- A bound on the steps that a blocked pool can still make. -/
def PoolState.blockedRank (s : PoolState W) : ℕ :=
  s.rank + s.dtor.rank W.num + s.shared.sync.parked.card

namespace Blocked

variable {w : Fin W.num} {s s' : PoolState W} {a : Action W}

theorem dtor_holds (hs : Blocked w s) : s.dtor.holds = true := by
  rcases hs.dtor with h | ⟨k, -, h⟩ <;> rw [h] <;> rfl

theorem owner (hs : Blocked w s) : s.shared.sync.owner = some .dtor :=
  ((sound hs.reachable).owner .dtor).mpr hs.dtor_holds

theorem worker_rank (hs : Blocked w s) : (s.worker w).rank = 0 := by
  rcases hs.worker with h | h <;> rw [h] <;> rfl

/-- The steps of the destructor get it to the join of `w` at most. -/
theorem step_dtor (hs : Blocked w s) {sh : Shared W.Tid τ} {pc : DtorPc}
    (h : DtorStep s s.dtor sh pc) :
    (pc = .notify ∨ ∃ k ≤ w.val, pc = .join k) ∧ pc.rank W.num < s.dtor.rank W.num ∧
      sh.sync.parked ⊆ s.shared.sync.parked := by
  have hd := hs.dtor
  have hw := hs.worker
  have hpark := h.parked_subset
  generalize s.dtor = d at h hd
  cases h with
  | notify => exact ⟨.inr ⟨0, Nat.zero_le _, rfl⟩, Nat.lt_succ_self _, hpark⟩
  | join k hk hx =>
      obtain ⟨k', hkw, heq⟩ := hd.resolve_left (by simp)
      obtain rfl := DtorPc.join.inj heq
      -- The worker joined has exited, so it is not `w`.
      have hne : k ≠ w.val := by
        rintro rfl
        rw [hx] at hw
        simp at hw
      refine ⟨.inr ⟨k + 1, by omega, rfl⟩, ?_, hpark⟩
      simp only [DtorPc.rank]
      omega
  | joined k hk =>
      -- All workers would be joined, `w` among them.
      obtain ⟨k', hkw, heq⟩ := hd.resolve_left (by simp)
      obtain rfl := DtorPc.join.inj heq
      have := w.isLt
      omega
  | begin _ | lock _ | setStop | unlock _ => simp at hd

/-- Every step, a spurious wake-up included, leaves the pool blocked and is one of finitely many. -/
theorem step (hs : Blocked w s) (hstep : (poolLts W).step s a = some s') :
    Blocked w s' ∧ s'.blockedRank < s.blockedRank := by
  have hr' := hs.reachable.tail hstep
  have hsound := sound hs.reachable
  cases step_sound hstep with
  | worker i pick sh pc h =>
      obtain ⟨rfl, hlt⟩ := rank_worker_lt hsound hs.owner (by simp) h
      have hiw : w ≠ i := by
        rintro rfl
        rw [hs.worker_rank] at hlt
        exact absurd hlt (Nat.not_lt_zero _)
      constructor
      · refine ⟨hr', ?_, hs.dtor⟩
        simpa only [Function.update_of_ne hiw] using hs.worker
      · have := sum_update_lt s.worker WorkerPc.rank i hlt
        simp only [PoolState.blockedRank, PoolState.rank]
        omega
  | submitter j pick sh c h =>
      have hdone := (stopSound hs.reachable).done (fun hd => by
        have := hs.dtor_holds
        rw [hd] at this
        cases this) j
      exact absurd hdone h.ne_done
  | dtor sh pc h =>
      obtain ⟨hd, hlt, hpark⟩ := hs.step_dtor h
      constructor
      · exact ⟨hr', hs.worker, hd⟩
      · have := Finset.card_le_card hpark
        simp only [PoolState.blockedRank, PoolState.rank]
        omega
  | spurious i h =>
      constructor
      · exact ⟨hr', hs.worker, hs.dtor⟩
      · have := Finset.card_erase_lt_of_mem h
        simp only [PoolState.blockedRank, PoolState.rank]
        omega

/-- A blocked pool runs into a state without any step. -/
theorem exists_dead (hs : Blocked w s) :
    ∃ s', (poolLts W).Steps s s' ∧ Blocked w s' ∧ ¬ (poolLts W).Enabled (fun _ => True) s' :=
  Lts.exists_terminal PoolState.blockedRank (fun _ _ _ hs _ => hs.step) hs

end Blocked

/-- A worker that is not at the head of its loop when the destructor is about to set `stop` waits
for the mutex. -/
theorem waits_of_setStop {s : PoolState W} (hr : (poolLts W).Reachable s) (hd : s.dtor = .setStop)
    {i : Fin W.num} (hi : s.worker i ≠ .head) : s.worker i = .lock ∨ s.worker i = .waiting := by
  have hstop : s.shared.stop = false := by rw [(stopSound hr).stop, hd]; rfl
  cases hpc : s.worker i with
  | head => exact absurd hpc hi
  | lock => exact .inl rfl
  | waiting => exact .inr rfl
  | leave =>
      have := (stopSound hr).leave i (.inl hpc)
      rw [hstop] at this
      cases this
  | exited =>
      have := (stopSound hr).leave i (.inr hpc)
      rw [hstop] at this
      cases this
  | _ =>
      -- The destructor owns the mutex, so no worker is in the critical section.
      have := (sound hr).holds_unique (t := .dtor) (u := .worker i)
        (by rw [PoolState.holds, hd]; rfl) (by rw [PoolState.holds, hpc]; rfl)
      cases this

/-- **A shutdown goes through exactly when `stop` is set with every worker at the head of its
loop**: with tasks that do not use the pool, in every run whose `stop` is set so a worker or the
destructor has a step until the destructor returns; and from the state that sets `stop`, that is
so of every continuation only if it is set so. -/
theorem shutdown_iff (hW : W.Leaf) :
    (∀ s, ((poolLts W).restrict CleanStop).Reachable s → s.dtor ≠ .idle → s.dtor ≠ .returned →
      (poolLts W).Enabled Action.IsShutdown s) ∧
    ∀ s s₁, (poolLts W).Reachable s → s.dtor = .setStop → (poolLts W).step s .dtor = some s₁ →
      ((∀ s', (poolLts W).Steps s₁ s' → s'.dtor ≠ .returned →
        (poolLts W).Enabled Action.IsShutdown s') ↔ ∀ i, s.worker i = .head) := by
  constructor
  · intro s h hidle hret
    by_cases hstopped : s.dtor.stopped = true
    · exact (leaving_of_clean h hstopped).progress h.of_restrict hret
    · apply shutdown_begins hW h.of_restrict
      cases hd : s.dtor with
      | idle => exact absurd hd hidle
      | lock => exact .inl rfl
      | setStop => exact .inr rfl
      | notify | join _ | unlock | returned => rw [hd] at hstopped; exact absurd rfl hstopped
  · intro s s₁ hr hd hstep
    have hr₁ := hr.tail hstep
    obtain rfl : s₁ = { s with shared := { s.shared with stop := true }, dtor := .notify } := by
      simpa [poolLts, poolStep, dtorStep, hd, eq_comm] using hstep
    constructor
    · intro hprogress i
      by_contra hi
      have hblocked : Blocked i { s with
          shared := { s.shared with stop := true }, dtor := .notify } :=
        ⟨hr₁, waits_of_setStop hr hd hi, .inl rfl⟩
      obtain ⟨s', hsteps, hs', hdead⟩ := hblocked.exists_dead
      refine hdead ((hprogress s' hsteps ?_).mono fun _ _ => trivial)
      intro hret
      have := hs'.dtor_holds
      rw [hret] at this
      cases this
    · intro hhead s' hsteps hret
      have hleaving : Leaving s' := hr₁.preserves
        (fun _ _ _ hr hs hstep => hs.step hr (step_sound hstep)) hsteps
        ⟨rfl, fun i => .inl (hhead i)⟩
      exact hleaving.progress (hr₁.trans hsteps) hret

/-- The worker has run its task and is at the head of its loop when `stop` is set. -/
theorem shutdown_clean :
    (∃ s : PoolState oneTask, ((poolLts oneTask).restrict CleanStop).Reachable s ∧
      s.dtor = .join 0 ∧ (poolLts oneTask).Enabled Action.IsShutdown s) ∧
    ∃ s s₁, (poolLts oneTask).Reachable s ∧ s.dtor = .setStop ∧
      (poolLts oneTask).step s .dtor = some s₁ ∧ ∀ s', (poolLts oneTask).Steps s₁ s' →
        s'.dtor ≠ .returned → (poolLts oneTask).Enabled Action.IsShutdown s' := by
  have h₁ : (((poolLts oneTask).restrict CleanStop).run (.initial oneTask)
    (oneTask.submitSteps ++ oneTask.workerSteps 9 ++ .replicate 4 .dtor)).isSome := rfl
  have h₂ : ((poolLts oneTask).run (.initial oneTask)
    (oneTask.submitSteps ++ oneTask.workerSteps 9 ++ .replicate 2 .dtor)).isSome := rfl
  have hr := Lts.Reachable.of_run (L := poolLts oneTask) rfl h₂
  have hr₁ := Lts.Reachable.of_run (L := (poolLts oneTask).restrict CleanStop) rfl h₁
  refine ⟨⟨_, hr₁, rfl, (shutdown_iff fun _ _ _ => rfl).1 _ hr₁ ?_ ?_⟩,
    ⟨_, _, hr, rfl, rfl, ((shutdown_iff fun _ _ _ => rfl).2 _ _ hr rfl rfl).mpr ?_⟩⟩
  · exact DtorPc.noConfusion
  · exact DtorPc.noConfusion
  · intro i
    obtain rfl : i = ⟨0, Nat.one_pos⟩ := Fin.ext (Nat.lt_one_iff.mp i.isLt)
    rfl

/-- The worker has run its task and waits for the next one when `stop` is set. -/
theorem shutdown_hangs :
    ¬ ∀ W : Workload ℕ, (∀ task, W.process task = []) → ∀ s, (poolLts W).Reachable s →
      s.dtor ≠ .idle → s.dtor ≠ .returned → (poolLts W).Enabled Action.IsShutdown s := by
  intro h
  have hrun : ((poolLts oneTask).run (.initial oneTask)
    (oneTask.submitSteps ++ oneTask.workerSteps 13 ++ .replicate 4 .dtor)).isSome := rfl
  obtain ⟨a, ha, hs⟩ := h oneTask (fun _ => rfl) _ (.of_run rfl hrun)
    (by exact DtorPc.noConfusion) (by exact DtorPc.noConfusion)
  cases a with
  | worker i pick =>
      obtain rfl : i = ⟨0, Nat.one_pos⟩ := Fin.ext (Nat.lt_one_iff.mp i.isLt)
      exact Bool.false_ne_true hs
  | dtor => exact Bool.false_ne_true hs
  | submitter j pick | spurious i => exact ha

end RedisMigrate
