import RedisMigrate.PoolQueue

/-! # Which threads of the pool can take a step

A task gets into the queue from the programs of the submitters only (`TaskSound`), so when no task
of a program uses the pool, no `process()` has a call to make (`calls_of_leaf`).

A thread inside the critical section can go on unless it is a worker in the nested `submit` of a
task (`worker_enabled_of_holds`, `submitter_enabled_of_holds`); a worker outside can go on when the
mutex is free and it is not parked (`worker_enabled_of_free`).

While one thread keeps the mutex for good, the others run a few steps and block: every step of
theirs lowers `PoolState.rank` (`rank_worker_lt`, `rank_submitter_lt`).  The deadlocks of the pool
are reached that way. -/

namespace RedisMigrate

variable {τ : Type*} {W : Workload τ}

/-! ### The tasks in the pool -/

/-- The tasks whose `submit` has not returned. -/
def Calls.tasks : Calls τ → List (Option τ)
  | .idle todo => todo
  | .busy _ task todo => task :: todo

/-- No task that is submitted uses the pool. -/
def Workload.Leaf (W : Workload τ) : Prop := ∀ j task, some task ∈ W.program j → W.process task = []

/-- A task gets into the queue from the programs only. -/
structure TaskSound (s : PoolState W) : Prop where
  pushed : ∀ task ∈ s.shared.pushed, ∃ j, task ∈ W.program j
  submitter : ∀ j, (s.submitter j).tasks ⊆ W.program j
  worker : ∀ i task c, s.worker i = .process task c → c.tasks = W.process task

theorem SubmitStep.tasks_subset {ι : Type*} [DecidableEq ι] {me : ι} {sh sh' : Shared ι τ}
    {c c' : Calls τ} (h : SubmitStep me sh c sh' c') : c'.tasks ⊆ c.tasks := by
  cases h with
  | notify task todo _ _ _ => exact List.subset_cons_self task todo
  | _ => exact List.Subset.refl _

theorem SubmitStep.tasks_eq {ι : Type*} [DecidableEq ι] {me : ι} {sh sh' : Shared ι τ}
    {c c' : Calls τ} (h : SubmitStep me sh c sh' c') (hc : c.Outside) : c'.tasks = c.tasks := by
  cases h with
  | notify _ _ _ _ _ => exact hc.elim
  | _ => rfl

theorem SubmitStep.pushed {ι : Type*} [DecidableEq ι] {me : ι} {sh sh' : Shared ι τ}
    {c c' : Calls τ} (h : SubmitStep me sh c sh' c') {task : Option τ} (ht : task ∈ sh'.pushed) :
    task ∈ sh.pushed ∨ task ∈ c.tasks := by
  cases h with
  | push task' todo =>
      rcases List.mem_append.mp ht with ht | ht
      · exact .inl ht
      · exact .inr (List.mem_cons.mpr (.inl (List.mem_singleton.mp ht)))
  | _ => exact .inl ht

namespace TaskSound

variable {s : PoolState W}

theorem step_worker (hs : Sound s) (ht : TaskSound s) {i : Fin W.num} {sh : Shared W.Tid τ}
    {pc : WorkerPc τ} (h : WorkerStep W.process (.worker i) s.shared (s.worker i) sh pc) :
    TaskSound { s with shared := sh, worker := Function.update s.worker i pc } where
  pushed task hmem := ht.pushed task ((h.accept hs).1 ▸ hmem)
  submitter := ht.submitter
  worker := by
    apply (Function.forall_update_iff s.worker
      fun _ pc => ∀ task c, pc = .process task c → c.tasks = W.process task).mpr
    refine ⟨?_, fun k _ => ht.worker k⟩
    rintro task c rfl
    generalize hpc : s.worker i = pc0 at h
    cases h with
    | beginTask task => rfl
    | nested task c c' sh hc =>
        exact (hc.tasks_eq (hs.outside i task c hpc)).trans (ht.worker i task c hpc)

theorem step_submitter (ht : TaskSound s) {j : Fin W.submitters} {sh : Shared W.Tid τ}
    {c : Calls τ} (h : SubmitStep (.submitter j) s.shared (s.submitter j) sh c) :
    TaskSound { s with shared := sh, submitter := Function.update s.submitter j c } where
  pushed task hmem := by
    rcases h.pushed hmem with hmem | hmem
    · exact ht.pushed task hmem
    · exact ⟨j, ht.submitter j hmem⟩
  submitter := by
    apply (Function.forall_update_iff s.submitter fun k c => c.tasks ⊆ W.program k).mpr
    exact ⟨List.Subset.trans h.tasks_subset (ht.submitter j), fun k _ => ht.submitter k⟩
  worker := ht.worker

theorem step (hs : Sound s) (ht : TaskSound s) {a : Action W} {s' : PoolState W}
    (h : PoolStep s a s') : TaskSound s' := by
  cases h with
  | worker i pick sh pc h => exact ht.step_worker hs h
  | submitter j pick sh c h => exact ht.step_submitter h
  | dtor sh pc h =>
      refine ⟨?_, ht.submitter, ht.worker⟩
      generalize s.dtor = d at h
      cases h <;> exact ht.pushed
  | spurious i h => exact ⟨ht.pushed, ht.submitter, ht.worker⟩

end TaskSound

theorem taskSound {s : PoolState W} (h : (poolLts W).Reachable s) : TaskSound s := by
  refine h.induct ?_ (fun _ _ _ hr ht h => ht.step (sound hr) (step_sound h))
  rintro s rfl
  exact ⟨fun _ h => absurd h List.not_mem_nil, fun _ => List.Subset.refl _,
    fun _ _ _ h => by cases h⟩

/-- The task that a worker runs came from a program. -/
theorem process_mem_program {s : PoolState W} (hr : (poolLts W).Reachable s) {i : Fin W.num}
    {task : τ} {c : Calls τ} (hpc : s.worker i = .process task c) :
    ∃ j, some task ∈ W.program j := by
  have hq := (queueSound hr).history
  rw [current_of_owner ((sound hr).worker_owner (by rw [hpc]; rfl)), hpc] at hq
  apply (taskSound hr).pushed _
  rw [← hq.pushed, List.mem_append, ← List.reduceOption_mem_iff, hq.begun, hq.ended]
  exact .inl (by simp [WorkerPc.running])

/-- A task that does not use the pool has no call to make. -/
theorem calls_of_leaf (hW : W.Leaf) {s : PoolState W} (hr : (poolLts W).Reachable s) {i : Fin W.num}
    {task : τ} {c : Calls τ} (hpc : s.worker i = .process task c) : c = .idle [] := by
  obtain ⟨j, hj⟩ := process_mem_program hr hpc
  have htasks := (taskSound hr).worker i task c hpc
  rw [hW j task hj] at htasks
  cases c with
  | idle todo => exact congrArg Calls.idle htasks
  | busy pc t todo => cases htasks

/-! ### Enabled steps -/

/-- An action of the worker `i`. -/
def Action.IsWorker (i : Fin W.num) : Action W → Prop
  | .worker k _ => k = i
  | _ => False

/-- An action of the submitter `j`. -/
def Action.IsSubmitter (j : Fin W.submitters) : Action W → Prop
  | .submitter k _ => k = j
  | _ => False

theorem enabled_worker {s : PoolState W} {i : Fin W.num} (pick : Option W.Tid)
    (h : (workerStep W.process (.worker i) pick s.shared (s.worker i)).isSome) :
    (poolLts W).Enabled (Action.IsWorker i) s :=
  ⟨.worker i pick, rfl, by simpa [poolLts, poolStep] using h⟩

theorem enabled_submitter {s : PoolState W} {j : Fin W.submitters} (pick : Option W.Tid)
    (h : (submitStep (.submitter j) pick s.shared (s.submitter j)).isSome) :
    (poolLts W).Enabled (Action.IsSubmitter j) s :=
  ⟨.submitter j pick, rfl, by simpa [poolLts, poolStep] using h⟩

/-- The owner of the mutex goes on, if it is a worker whose task does not use the pool. -/
theorem worker_enabled_of_holds {s : PoolState W} (hs : Sound s) (hq : QueueSound s)
    {i : Fin W.num} (h : (s.worker i).holds = true)
    (hleaf : ∀ task c, s.worker i = .process task c → c = .idle []) :
    (poolLts W).Enabled (Action.IsWorker i) s := by
  have hown := hs.worker_owner h
  have hok := hq.worker i
  apply enabled_worker none
  cases hpc : s.worker i with
  | head | leave | exited | lock | waiting => rw [hpc] at h; cases h
  | wait | check => rfl
  | park => simpa [workerStep] using Monitor.park_isSome hown
  | front =>
      rw [hpc] at hok
      cases hl : s.shared.tasksQueue with
      | nil => exact absurd hl hok
      | cons r rest => simp [workerStep, hl]
  | pop request =>
      rw [hpc] at hok
      cases hl : s.shared.tasksQueue with
      | nil => simp [WorkerPc.QueueOk, hl] at hok
      | cons r rest => simp [workerStep, hl]
  | test request => cases request <;> rfl
  | process task c =>
      rw [hleaf task c hpc]
      rfl
  | unlock => simpa [workerStep] using Monitor.unlock_isSome hown

/-- With the mutex free, a worker that is not parked goes on until it has exited. -/
theorem worker_enabled_of_free {s : PoolState W} {i : Fin W.num} (h : (s.worker i).holds = false)
    (hfree : s.shared.sync.owner = none) (hpark : .worker i ∉ s.shared.sync.parked)
    (hexit : s.worker i ≠ .exited) : (poolLts W).Enabled (Action.IsWorker i) s := by
  apply enabled_worker none
  cases hpc : s.worker i with
  | head | leave => rfl
  | exited => exact absurd hpc hexit
  | lock => simpa [workerStep] using Monitor.lock_isSome hfree
  | waiting => simpa [workerStep] using Monitor.reacquire_isSome hpark hfree
  | _ => rw [hpc] at h; cases h

theorem submitter_enabled_of_holds {s : PoolState W} (hs : Sound s) {j : Fin W.submitters}
    (h : (s.submitter j).holds = true) : (poolLts W).Enabled (Action.IsSubmitter j) s := by
  have hown : s.shared.sync.owner = some (.submitter j) := (hs.owner (.submitter j)).mpr h
  apply enabled_submitter none
  match hc : s.submitter j with
  | .idle _ | .busy .lock _ _ | .busy .notify _ _ => rw [hc] at h; cases h
  | .busy .push _ _ => rfl
  | .busy .unlock _ _ => simpa [submitStep] using Monitor.unlock_isSome hown

/-- A notification is never blocked. -/
theorem submitter_enabled_of_notify {s : PoolState W} {j : Fin W.submitters} {task : Option τ}
    {todo : List (Option τ)} (h : s.submitter j = .busy .notify task todo) :
    (poolLts W).Enabled (Action.IsSubmitter j) s := by
  obtain ⟨pick, hpick⟩ := s.shared.sync.exists_notifyOne
  apply enabled_submitter pick
  rw [h]
  simpa [submitStep] using hpick

/-! ### Running into a mutex that stays locked -/

/-- The steps that a worker outside the critical section takes before it blocks. -/
def WorkerPc.rank : WorkerPc τ → ℕ
  | .head => 2
  | .leave => 1
  | _ => 0

/-- The same for a thread that calls `submit`. -/
def Calls.rank : Calls τ → ℕ
  | .busy .notify _ _ => 2
  | .idle (_ :: _) => 1
  | _ => 0

def PoolState.rank (s : PoolState W) : ℕ :=
  ∑ i, (s.worker i).rank + ∑ j, (s.submitter j).rank

theorem sum_update_lt {α : Type*} {n : ℕ} (f : Fin n → α) (rank : α → ℕ) (i : Fin n) {x : α}
    (h : rank x < rank (f i)) : ∑ k, rank (Function.update f i x k) < ∑ k, rank (f k) := by
  have hcomp : (fun k => rank (Function.update f i x k)) =
      Function.update (fun k => rank (f k)) i (rank x) := Function.comp_update rank f i x
  rw [hcomp, Finset.sum_update_of_mem (Finset.mem_univ i),
    ← Finset.add_sum_erase Finset.univ (fun k => rank (f k)) (Finset.mem_univ i),
    ← Finset.erase_eq]
  exact Nat.add_lt_add_right h _

/-- While another thread owns the mutex, a worker reads `stop` or exits, and that is all. -/
theorem rank_worker_lt {s : PoolState W} (hs : Sound s) {i : Fin W.num} {o : W.Tid}
    (ho : s.shared.sync.owner = some o) (hne : o ≠ .worker i) {sh : Shared W.Tid τ}
    {pc : WorkerPc τ} (h : WorkerStep W.process (.worker i) s.shared (s.worker i) sh pc) :
    sh = s.shared ∧ pc.rank < (s.worker i).rank := by
  have hpc : (s.worker i).holds = false := by
    rw [← Bool.not_eq_true]
    intro hh
    exact hne (Option.some.inj (ho.symm.trans (hs.worker_owner hh)))
  generalize s.worker i = pc0 at h hpc
  cases h with
  | stopUnset _ | stopSet _ | exit => exact ⟨rfl, by simp [WorkerPc.rank]⟩
  | lock hfree | reacquire _ hfree => rw [ho] at hfree; cases hfree
  | _ => cases hpc

/-- While another thread owns the mutex, a submitter starts a call or notifies. -/
theorem rank_submitter_lt {s : PoolState W} (hs : Sound s) {j : Fin W.submitters} {o : W.Tid}
    (ho : s.shared.sync.owner = some o) (hne : o ≠ .submitter j) {sh : Shared W.Tid τ}
    {c : Calls τ} (h : SubmitStep (.submitter j) s.shared (s.submitter j) sh c) :
    sh.sync.owner = some o ∧ c.rank < (s.submitter j).rank := by
  have hc : (s.submitter j).holds = false := by
    rw [← Bool.not_eq_true]
    intro hh
    exact hne (Option.some.inj (ho.symm.trans ((hs.owner (.submitter j)).mpr hh)))
  generalize s.submitter j = c0 at h hc
  cases h with
  | call task todo => exact ⟨ho, by simp [Calls.rank]⟩
  | notify task todo pick sync hn =>
      refine ⟨(Monitor.notifyOne_spec hn).1.trans ho, ?_⟩
      cases todo <;> simp [Calls.rank]
  | lock _ _ hfree => rw [ho] at hfree; cases hfree
  | push _ _ | unlock _ _ _ => cases hc

end RedisMigrate
