import RedisMigrate.PoolWakeup

/-! # Tasks that submit to their own pool

A worker runs `process()` inside the scope of its lock, so the first `submit` of a task to its
own pool locks a mutex that its thread already owns.  The pool is never stuck exactly when no
submitted task does that (`feeding_iff`).

One direction is `client_enabled`.  For the other one, the first task that feeds the pool is brought
to its `submit`: the tasks before it are submitted and run one by one, each round from a quiet pool
to a quiet pool (`Quiet.round`), and then the other threads run into the mutex
(`Fed.exists_stuck`). -/

namespace RedisMigrate

variable {τ : Type*} {W : Workload τ}

/-! ### A round of one task -/

/-- The state after a call of `submit` for the first task of the program `j`. -/
def PoolState.submitted (s : PoolState W) (j : Fin W.submitters) (task : Option τ)
    (todo : List (Option τ)) : PoolState W :=
  { s with
    shared := { s.shared with
      tasksQueue := s.shared.tasksQueue ++ [task]
      pushed := s.shared.pushed ++ [task]
      accepted := s.shared.accepted ++ [task] }
    submitter := Function.update s.submitter j (.idle todo) }

/-- A whole call of `submit`, with the mutex free and nobody parked. -/
theorem submit_run {s : PoolState W} {j : Fin W.submitters} {task : Option τ}
    {todo : List (Option τ)} (hsync : s.shared.sync = .free)
    (hc : s.submitter j = .idle (task :: todo)) :
    (poolLts W).run s (.replicate 5 (.submitter j none)) = some (s.submitted j task todo) := by
  obtain ⟨⟨q, stop, sync, pu, po, ac, be, en⟩, worker, submitter, dtor⟩ := s
  dsimp only at hsync hc
  subst hsync
  simp [List.replicate, poolLts, poolStep, submitStep, hc, Monitor.lock, Monitor.unlock,
    Monitor.notifyOne, Monitor.free, PoolState.submitted]

/-- A worker from the head of its loop to the test of the task that it has popped. -/
theorem pop_run {s : PoolState W} {i : Fin W.num} {task : Option τ} {rest : List (Option τ)}
    (hsync : s.shared.sync = .free) (hstop : s.shared.stop = false)
    (hq : s.shared.tasksQueue = task :: rest) (hi : s.worker i = .head) :
    (poolLts W).run s (.replicate 6 (.worker i none)) = some { s with
      shared := { s.shared with
        tasksQueue := rest
        sync := ⟨some (.worker i), ∅⟩
        popped := s.shared.popped ++ [task] }
      worker := Function.update s.worker i (.test task) } := by
  obtain ⟨⟨q, stop, sync, pu, po, ac, be, en⟩, worker, submitter, dtor⟩ := s
  dsimp only at hsync hstop hq hi
  subst hsync hstop hq
  simp [List.replicate, poolLts, poolStep, workerStep, hi, Monitor.lock, Monitor.free]

/-- A worker that has popped a null pointer goes back to the head of its loop. -/
theorem skip_run {s : PoolState W} {i : Fin W.num} (hsync : s.shared.sync = ⟨some (.worker i), ∅⟩)
    (hi : s.worker i = .test none) :
    (poolLts W).run s (.replicate 2 (.worker i none)) = some { s with
      shared := { s.shared with sync := .free }
      worker := Function.update s.worker i .head } := by
  simp [List.replicate, poolLts, poolStep, workerStep, hi, hsync, Monitor.unlock, Monitor.free]

/-- A worker runs a task that makes no call, and goes back to the head of its loop. -/
theorem serve_run {s : PoolState W} {i : Fin W.num} {t : τ}
    (hsync : s.shared.sync = ⟨some (.worker i), ∅⟩) (hi : s.worker i = .test (some t))
    (hleaf : W.process t = []) :
    (poolLts W).run s (.replicate 3 (.worker i none)) = some { s with
      shared := { s.shared with
        sync := .free
        begun := s.shared.begun ++ [t]
        ended := s.shared.ended ++ [t] }
      worker := Function.update s.worker i .head } := by
  simp [List.replicate, poolLts, poolStep, workerStep, hi, hsync, hleaf, Monitor.unlock,
    Monitor.free]

/-- Nothing is queued, nobody owns the mutex or waits, and every worker is at the head of
its loop. -/
structure Quiet (s : PoolState W) : Prop where
  queue : s.shared.tasksQueue = []
  stop : s.shared.stop = false
  sync : s.shared.sync = .free
  worker : ∀ i, s.worker i = .head
  dtor : s.dtor = .idle

/-- The worker `i` is about to test the task it has popped, in a pool that is quiet otherwise. -/
structure Tested (i : Fin W.num) (task : Option τ) (s : PoolState W) : Prop where
  queue : s.shared.tasksQueue = []
  stop : s.shared.stop = false
  sync : s.shared.sync = ⟨some (.worker i), ∅⟩
  tested : s.worker i = .test task
  worker : ∀ k ≠ i, s.worker k = .head
  dtor : s.dtor = .idle

theorem Quiet.initial : Quiet (.initial W) := ⟨rfl, rfl, rfl, fun _ => rfl, rfl⟩

/-- From a quiet pool the next task of a program gets to a worker. -/
theorem Quiet.tested {s : PoolState W} (hs : Quiet s) (i : Fin W.num) {j : Fin W.submitters}
    {task : Option τ} {todo : List (Option τ)} (hc : s.submitter j = .idle (task :: todo)) :
    ∃ s', (poolLts W).Steps s s' ∧ Tested i task s' ∧ s'.submitter j = .idle todo := by
  have hqueue : (s.submitted j task todo).shared.tasksQueue = task :: [] := by
    rw [PoolState.submitted, hs.queue, List.nil_append]
  have hpop := pop_run (s := s.submitted j task todo) hs.sync hs.stop hqueue (hs.worker i)
  refine ⟨_, Lts.run_steps (Lts.run_append (submit_run hs.sync hc) hpop), ?_,
    Function.update_self ..⟩
  exact ⟨rfl, hs.stop, rfl, Function.update_self ..,
    fun k hk => (Function.update_of_ne hk ..).trans (hs.worker k), hs.dtor⟩

/-- A task that makes no call leaves a quiet pool behind. -/
theorem Tested.quiet {i : Fin W.num} {task : Option τ} {s : PoolState W} (hs : Tested i task s)
    (hleaf : ∀ t, task = some t → W.process t = []) :
    ∃ s', (poolLts W).Steps s s' ∧ Quiet s' ∧ s'.submitter = s.submitter := by
  have hhead : ∀ k, Function.update s.worker i .head k = .head :=
    (Function.forall_update_iff s.worker fun _ pc => pc = .head).mpr ⟨rfl, hs.worker⟩
  cases task with
  | none =>
      have hrun := skip_run hs.sync hs.tested
      exact ⟨_, Lts.run_steps hrun, ⟨hs.queue, hs.stop, rfl, hhead, hs.dtor⟩, rfl⟩
  | some t =>
      have hrun := serve_run hs.sync hs.tested (hleaf t rfl)
      exact ⟨_, Lts.run_steps hrun, ⟨hs.queue, hs.stop, rfl, hhead, hs.dtor⟩, rfl⟩

/-- A round: the next task of the program is submitted and run. -/
theorem Quiet.round {s : PoolState W} (hs : Quiet s) {j : Fin W.submitters} {task : Option τ}
    {todo : List (Option τ)} (hc : s.submitter j = .idle (task :: todo))
    (hleaf : ∀ t, task = some t → W.process t = []) :
    ∃ s', (poolLts W).Steps s s' ∧ Quiet s' ∧ s'.submitter j = .idle todo := by
  obtain ⟨s₁, h₁, htested, hc₁⟩ := hs.tested ⟨0, W.num_pos⟩ hc
  obtain ⟨s₂, h₂, hquiet, hc₂⟩ := htested.quiet hleaf
  exact ⟨s₂, h₁.trans h₂, hquiet, by rw [hc₂, hc₁]⟩

/-! ### The task that feeds the pool -/

/-- The worker `i` owns the mutex and is about to lock it, in the `submit` of its task. -/
structure Fed (i : Fin W.num) (s : PoolState W) : Prop where
  reachable : (poolLts W).Reachable s
  process : ∃ task t todo, s.worker i = .process task (.busy .lock t todo)
  parked : s.shared.sync.parked = ∅
  dtor : s.dtor = .idle

theorem Tested.fed {i : Fin W.num} {t : τ} {s : PoolState W} (hs : Tested i (some t) s)
    (hr : (poolLts W).Reachable s) (hfeed : W.process t ≠ []) :
    ∃ s', (poolLts W).Steps s s' ∧ Fed i s' := by
  obtain ⟨u, todo, hu⟩ := List.exists_cons_of_ne_nil hfeed
  obtain ⟨hqueue, hstop, hsync, htested, hworker, hdtor⟩ := hs
  have hrun : (poolLts W).run s (.replicate 2 (.worker i none)) = some { s with
      shared := { s.shared with begun := s.shared.begun ++ [t] }
      worker := Function.update s.worker i (.process t (.busy .lock u todo)) } := by
    simp [List.replicate, poolLts, poolStep, workerStep, submitStep, htested, hu]
  refine ⟨_, Lts.run_steps hrun, hr.trans (Lts.run_steps hrun), ⟨t, u, todo, ?_⟩, ?_, hdtor⟩
  · exact Function.update_self ..
  · dsimp only
    rw [hsync]

/-- A program with a task that feeds the pool brings a worker there. -/
theorem Quiet.exists_fed {s : PoolState W} (hs : Quiet s) (hr : (poolLts W).Reachable s)
    {j : Fin W.submitters} {todo : List (Option τ)} (hc : s.submitter j = .idle todo) {t : τ}
    (ht : some t ∈ todo) (hfeed : W.process t ≠ []) :
    ∃ s' i, (poolLts W).Steps s s' ∧ Fed i s' := by
  induction todo generalizing s with
  | nil => cases ht
  | cons task todo ih =>
      by_cases hleaf : ∀ t', task = some t' → W.process t' = []
      · -- The head of the program is not the task in question, so that task follows.
        obtain ⟨s₁, h₁, hquiet, hc₁⟩ := hs.round hc hleaf
        have htail : some t ∈ todo := by
          rcases List.mem_cons.mp ht with rfl | ht
          · exact absurd (hleaf t rfl) hfeed
          · exact ht
        obtain ⟨s₂, i, h₂, hfed⟩ := ih hquiet (hr.trans h₁) hc₁ htail
        exact ⟨s₂, i, h₁.trans h₂, hfed⟩
      · push Not at hleaf
        obtain ⟨t', rfl, hfeed'⟩ := hleaf
        obtain ⟨s₁, h₁, htested, -⟩ := hs.tested ⟨0, W.num_pos⟩ hc
        obtain ⟨s₂, h₂, hfed⟩ := htested.fed (hr.trans h₁) hfeed'
        exact ⟨s₂, _, h₁.trans h₂, hfed⟩

theorem Fed.owner {i : Fin W.num} {s : PoolState W} (hs : Fed i s) :
    s.shared.sync.owner = some (.worker i) := by
  obtain ⟨task, t, todo, hpc⟩ := hs.process
  exact (sound hs.reachable).worker_owner (by rw [hpc]; rfl)

/-- Until the destructor begins, the worker keeps the mutex and every step of another thread
brings that thread nearer to a lock. -/
theorem Fed.step {i : Fin W.num} {s s' : PoolState W} {a : Action W} (hs : Fed i s)
    (ha : a ≠ .dtor) (hstep : (poolLts W).step s a = some s') : Fed i s' ∧ s'.rank < s.rank := by
  have hr' := hs.reachable.tail hstep
  have hsound := sound hs.reachable
  obtain ⟨task, t, todo, hpc⟩ := hs.process
  cases step_sound hstep with
  | worker k pick sh pc h =>
      have hki : k ≠ i := by
        rintro rfl
        rw [hpc] at h
        cases h with
        | nested _ _ _ _ hc =>
            cases hc with
            | lock _ _ hfree => rw [hs.owner] at hfree; cases hfree
      obtain ⟨rfl, hlt⟩ := rank_worker_lt hsound hs.owner
        (fun heq => hki (Thread.worker.inj heq).symm) h
      constructor
      · have hpc' := (Function.update_of_ne hki.symm pc s.worker).trans hpc
        exact ⟨hr', ⟨task, t, todo, hpc'⟩, hs.parked, hs.dtor⟩
      · exact Nat.add_lt_add_right (sum_update_lt s.worker WorkerPc.rank k hlt) _
  | submitter j pick sh c h =>
      obtain ⟨-, hlt⟩ := rank_submitter_lt hsound hs.owner (by simp) h
      constructor
      · have hparked := Finset.subset_empty.mp (hs.parked ▸ h.parked_subset)
        exact ⟨hr', ⟨task, t, todo, hpc⟩, hparked, hs.dtor⟩
      · exact Nat.add_lt_add_left (sum_update_lt s.submitter Calls.rank j hlt) _
  | dtor sh pc h => exact absurd rfl ha
  | spurious k h =>
      rw [hs.parked] at h
      cases h

/-- The pool runs into a state in which nothing but the destructor can go on. -/
theorem Fed.exists_stuck {i : Fin W.num} {s : PoolState W} (hs : Fed i s) :
    ∃ s', Fed i s' ∧ ¬ (poolLts W).Enabled (· ≠ .dtor) s' := by
  obtain ⟨s', -, hfed, hstuck⟩ := Lts.exists_terminal (L := poolLts W) PoolState.rank
    (fun _ _ _ => Fed.step) hs
  exact ⟨s', hfed, hstuck⟩

/-! ### Exactly when the pool is never stuck -/

/-- Before destruction, a pool with work left has an enabled step of the kind `P`. -/
def NeverStuck (W : Workload τ) (P : Action W → Prop) : Prop :=
  ∀ s, (poolLts W).Reachable s → s.dtor = .idle → s.Busy → (poolLts W).Enabled P s

theorem NeverStuck.mono {P Q : Action W → Prop} (h : NeverStuck W P) (hPQ : ∀ a, P a → Q a) :
    NeverStuck W Q := fun s hr hd hb => (h s hr hd hb).mono hPQ

theorem neverStuck_of_leaf (hW : W.Leaf) : NeverStuck W Action.IsClient := fun _ hr hd hb =>
  client_enabled hr hd (fun _ _ _ => calls_of_leaf hW hr) hb

theorem leaf_of_neverStuck (h : NeverStuck W (· ≠ .dtor)) : W.Leaf := by
  intro j t ht
  by_contra hfeed
  have hr : (poolLts W).Reachable (.initial W) := .of_init rfl
  obtain ⟨s, i, -, hfed⟩ := Quiet.initial.exists_fed hr rfl ht hfeed
  obtain ⟨s', hfed', hstuck⟩ := hfed.exists_stuck
  obtain ⟨task, u, todo, hpc⟩ := hfed'.process
  exact hstuck (h s' hfed'.reachable hfed'.dtor (.inr ⟨i, task, _, hpc⟩))

/-- **The pool is never stuck exactly when no submitted task submits to it**, with the steps of the
workers and the submitters, and also when a spurious wake-up counts as a step. -/
theorem feeding_iff (W : Workload τ) :
    (NeverStuck W Action.IsClient ↔ W.Leaf) ∧ (NeverStuck W (· ≠ .dtor) ↔ W.Leaf) := by
  have hweak : NeverStuck W Action.IsClient → NeverStuck W (· ≠ .dtor) := by
    intro h
    apply h.mono
    rintro a ha rfl
    exact ha
  exact ⟨⟨fun h => leaf_of_neverStuck (hweak h), neverStuck_of_leaf⟩,
    ⟨leaf_of_neverStuck, fun h => hweak (neverStuck_of_leaf h)⟩⟩

/-- One worker, and one task that submits a second one, which makes no call. -/
def feeding : Workload ℕ :=
  ⟨1, Nat.one_pos, fun task => if task = 1 then [some 0] else [], 1, fun _ => [some 1]⟩

/-- The call of `submit`, and the worker up to the lock of the call that the task makes. -/
def feeding.run : List (Action feeding) :=
  .replicate 5 (.submitter ⟨0, Nat.one_pos⟩ none) ++ .replicate 8 (.worker ⟨0, Nat.one_pos⟩ none)

/-- The worker of `feeding` waits for a mutex that it owns. -/
theorem feeding_stuck :
    ¬ ∀ W : Workload ℕ, WellFounded (fun t t' => some t ∈ W.process t') →
      NeverStuck W Action.IsClient := by
  intro h
  have hwf : WellFounded (fun t t' => some t ∈ feeding.process t') := by
    refine Subrelation.wf (r := (· < ·)) ?_ Nat.lt_wfRel.wf
    intro t t' ht
    simp only [feeding] at ht
    split_ifs at ht with h1
    · obtain rfl : t = 0 := by simpa using ht
      omega
    · cases ht
  have hrun : ((poolLts feeding).run (.initial feeding) feeding.run).isSome := rfl
  obtain ⟨a, ha, hs⟩ := h feeding hwf _ (.of_run rfl hrun) rfl
    (.inr ⟨⟨0, Nat.one_pos⟩, 1, .busy .lock (some 0) [], rfl⟩)
  cases a with
  | worker i pick =>
      obtain rfl : i = ⟨0, Nat.one_pos⟩ := Fin.ext (Nat.lt_one_iff.mp i.isLt)
      exact Bool.false_ne_true hs
  | submitter j pick =>
      obtain rfl : j = ⟨0, Nat.one_pos⟩ := Fin.ext (Nat.lt_one_iff.mp j.isLt)
      exact Bool.false_ne_true hs
  | dtor | spurious i => exact ha

end RedisMigrate
