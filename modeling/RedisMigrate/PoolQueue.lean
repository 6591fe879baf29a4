import RedisMigrate.PoolInvariants
import Mathlib.Data.List.ReduceOption
import Mathlib.Algebra.BigOperators.Fin
import Mathlib.Algebra.BigOperators.Group.Finset.Piecewise
import Mathlib.Tactic.Abel

/-! # The tasks of the pool: order, and nothing lost or run twice

`QueueSound` ties the queue to what the workers know of it: between the predicate of the wait and
the pop the owner of the mutex sees a queue that nobody else changes.  The histories follow:
what was popped and what is queued is what was pushed, in order, and the calls of `process()` are
the non-null tasks popped, but for the one that the owner is about to run.

* `tasks_in_order`: order and single delivery, in every reachable state.
* `tasks_at_return`: what has happened to the accepted tasks when the destructor returns. -/

namespace RedisMigrate

variable {τ : Type*} {W : Workload τ}

/-! ### What a worker knows of the queue -/

/-- What holds of the queue `q` for a worker at this location. -/
def WorkerPc.QueueOk (q : List (Option τ)) : WorkerPc τ → Prop
  | .check | .front => q ≠ []
  | .pop request => q.head? = some request
  | .park => q = []
  | _ => True

theorem WorkerPc.queueOk_of_not_holds {pc : WorkerPc τ} (h : pc.holds = false)
    (q : List (Option τ)) : pc.QueueOk q := by
  cases pc with
  | head | leave | exited | lock | waiting => trivial
  | _ => cases h

/-- The queue changes only inside the critical section. -/
theorem SubmitStep.queue {ι : Type*} [DecidableEq ι] {me : ι} {sh sh' : Shared ι τ}
    {c c' : Calls τ} (h : SubmitStep me sh c sh' c') :
    sh'.tasksQueue = sh.tasksQueue ∨ c.holds = true := by
  cases h with
  | push _ _ => exact .inr rfl
  | _ => exact .inl rfl

theorem WorkerStep.queue {ι : Type*} [DecidableEq ι] {process : τ → List (Option τ)} {me : ι}
    {sh sh' : Shared ι τ} {pc pc' : WorkerPc τ} (h : WorkerStep process me sh pc sh' pc') :
    sh'.tasksQueue = sh.tasksQueue ∨ pc.holds = true := by
  cases h with
  | pop _ _ _ _ | nested _ _ _ _ _ => exact .inr rfl
  | _ => exact .inl rfl

theorem WorkerStep.queueOk {ι : Type*} [DecidableEq ι] {process : τ → List (Option τ)} {me : ι}
    {sh sh' : Shared ι τ} {pc pc' : WorkerPc τ} (h : WorkerStep process me sh pc sh' pc') :
    pc'.QueueOk sh'.tasksQueue := by
  cases h with
  | predFalse hq => exact hq
  | predTrue hq | checkFull hq => exact hq
  | front request rest hq => rw [WorkerPc.QueueOk, hq]; rfl
  | _ => trivial

/-! ### The histories -/

/-- The task that a worker has popped and not begun. -/
def WorkerPc.pending : WorkerPc τ → List τ
  | .test (some task) => [task]
  | _ => []

/-- The task whose `process()` a worker has begun and not ended. -/
def WorkerPc.running : WorkerPc τ → List τ
  | .process task _ => [task]
  | _ => []

/-- The location of the worker that owns the mutex; a location outside `process()` when no worker
does. -/
def PoolState.current (s : PoolState W) : WorkerPc τ :=
  match s.shared.sync.owner with
  | some (.worker i) => s.worker i
  | _ => .head

/-- The histories agree with each other and with the location `pc` of the owner. -/
structure Shared.HistoryOk {ι : Type*} (sh : Shared ι τ) (pc : WorkerPc τ) : Prop where
  pushed : sh.popped ++ sh.tasksQueue = sh.pushed
  begun : sh.popped.reduceOption = sh.begun ++ pc.pending
  ended : sh.begun = sh.ended ++ pc.running

/-- The two locations have the same task in hand, and have got as far with it. -/
structure WorkerPc.SameTask (pc pc' : WorkerPc τ) : Prop where
  pending : pc.pending = pc'.pending
  running : pc.running = pc'.running

theorem WorkerPc.SameTask.symm {pc pc' : WorkerPc τ} (h : pc.SameTask pc') : pc'.SameTask pc :=
  ⟨h.pending.symm, h.running.symm⟩

theorem Shared.HistoryOk.congr {ι : Type*} {sh : Shared ι τ} {pc pc' : WorkerPc τ}
    (h : sh.HistoryOk pc) (hpc : pc'.SameTask pc) : sh.HistoryOk pc' :=
  ⟨h.pushed, hpc.pending ▸ h.begun, hpc.running ▸ h.ended⟩

/-- Outside the critical section no task is in hand. -/
theorem WorkerPc.sameTask_head {pc : WorkerPc τ} (h : pc.holds = false) :
    WorkerPc.head.SameTask pc := by
  cases pc with
  | head | leave | exited | lock | waiting => exact ⟨rfl, rfl⟩
  | _ => cases h

theorem SubmitStep.historyOk {ι : Type*} [DecidableEq ι] {me : ι} {sh sh' : Shared ι τ}
    {c c' : Calls τ} (h : SubmitStep me sh c sh' c') {pc : WorkerPc τ} (hok : sh.HistoryOk pc) :
    sh'.HistoryOk pc := by
  obtain ⟨hpushed, hbegun, hended⟩ := hok
  cases h with
  | push task todo => exact ⟨by rw [← List.append_assoc, hpushed], hbegun, hended⟩
  | _ => exact ⟨hpushed, hbegun, hended⟩

/-- A step of the worker at `pc` keeps the histories, which then agree with its new location. -/
theorem WorkerStep.historyOk {ι : Type*} [DecidableEq ι] {process : τ → List (Option τ)} {me : ι}
    {sh sh' : Shared ι τ} {pc pc' : WorkerPc τ} (h : WorkerStep process me sh pc sh' pc')
    (hq : pc.QueueOk sh.tasksQueue) (hok : sh.HistoryOk pc) : sh'.HistoryOk pc' := by
  obtain ⟨hpushed, hbegun, hended⟩ := id hok
  cases h with
  | pop request r rest heq =>
      -- The task popped is the one that was read at the front.
      obtain rfl : r = request := by simpa [WorkerPc.QueueOk, heq] using hq
      refine ⟨by simpa [heq] using hpushed, ?_, hended⟩
      cases r <;> simp [List.reduceOption_append, hbegun, WorkerPc.pending]
  | testNull => exact ⟨hpushed, hbegun, hended⟩
  | beginTask task =>
      refine ⟨hpushed, by simpa [WorkerPc.pending] using hbegun, ?_⟩
      simpa [WorkerPc.running] using hended
  | endTask task =>
      refine ⟨hpushed, by simpa [WorkerPc.pending] using hbegun, ?_⟩
      simpa [WorkerPc.running] using hended
  | nested task c c' _ hc => exact (hc.historyOk hok).congr ⟨rfl, rfl⟩
  | _ => exact ⟨hpushed, hbegun, hended⟩

/-- A step outside the critical section leaves everything but the mutex. -/
theorem WorkerStep.outside {ι : Type*} [DecidableEq ι] {process : τ → List (Option τ)} {me : ι}
    {sh sh' : Shared ι τ} {pc pc' : WorkerPc τ} (h : WorkerStep process me sh pc sh' pc')
    (hpc : pc.holds = false) : sh' = { sh with sync := sh'.sync } := by
  cases h with
  | stopUnset _ | stopSet _ | exit | lock _ | reacquire _ _ => rfl
  | _ => cases hpc

/-! ### The location of the owner -/

theorem current_of_owner {s : PoolState W} {i : Fin W.num}
    (h : s.shared.sync.owner = some (.worker i)) : s.current = s.worker i := by
  rw [PoolState.current, h]

theorem current_of_owner_none {s : PoolState W} (h : s.shared.sync.owner = none) :
    s.current = .head := by
  rw [PoolState.current, h]

/-- A worker that is not the owner does not matter to the current location. -/
theorem current_update {s : PoolState W} {i : Fin W.num} {sh : Shared W.Tid τ} {pc : WorkerPc τ}
    (ho : sh.sync.owner = s.shared.sync.owner) (hne : s.shared.sync.owner ≠ some (.worker i)) :
    PoolState.current { s with shared := sh, worker := Function.update s.worker i pc } =
      s.current := by
  simp only [PoolState.current, ho]
  split
  · next k hk =>
      have hki : k ≠ i := fun heq => hne (heq ▸ hk)
      exact Function.update_of_ne hki ..
  · rfl

/-- A step of a worker is a step of the current location, or one outside the critical section that
leaves the current location alone. -/
theorem current_cases {s : PoolState W} (hs : Sound s) {i : Fin W.num} {sh : Shared W.Tid τ}
    {pc : WorkerPc τ} (h : WorkerStep W.process (.worker i) s.shared (s.worker i) sh pc) :
    ((s.worker i).holds = false ∧
      PoolState.current { s with shared := sh, worker := Function.update s.worker i pc } =
        s.current) ∨
    s.current.SameTask (s.worker i) ∧
      (PoolState.current
        { s with shared := sh, worker := Function.update s.worker i pc }).SameTask pc := by
  cases h.ownerMove (hs.outside i) with
  | keep heq ho =>
      cases hpc : (s.worker i).holds with
      | true =>
          right
          rw [current_of_owner (hs.worker_owner hpc),
            current_of_owner (i := i) (ho.trans (hs.worker_owner hpc))]
          simp only [Function.update_self]
          exact ⟨⟨rfl, rfl⟩, ⟨rfl, rfl⟩⟩
      | false => exact .inl ⟨rfl, current_update ho (hs.not_owner hpc)⟩
  | acquire hnone _ ho =>
      -- Nobody was current before, the worker is afterwards.
      right
      rw [current_of_owner_none hnone, current_of_owner (i := i) ho]
      simp only [Function.update_self]
      exact ⟨WorkerPc.sameTask_head (hs.owner_none (t := .worker i) hnone), ⟨rfl, rfl⟩⟩
  | release ho hpc hnone =>
      -- The worker was current before, nobody is afterwards.
      right
      rw [current_of_owner ho, current_of_owner_none hnone]
      exact ⟨⟨rfl, rfl⟩, WorkerPc.sameTask_head hpc⟩

theorem current_submitter {s : PoolState W} {j : Fin W.submitters} {sh : Shared W.Tid τ}
    {c : Calls τ} (h : SubmitStep (.submitter j) s.shared (s.submitter j) sh c) :
    PoolState.current
      { s with shared := sh, submitter := Function.update s.submitter j c } = s.current := by
  cases h.ownerMove with
  | keep _ ho => simp only [PoolState.current, ho]
  | acquire ho _ ho' => simp [PoolState.current, ho, ho']
  | release ho _ ho' => simp [PoolState.current, ho, ho']

theorem current_dtor {s : PoolState W} {pc : DtorPc} {sh : Shared W.Tid τ}
    (h : DtorStep s s.dtor sh pc) :
    PoolState.current { s with shared := sh, dtor := pc } = s.current := by
  cases h.ownerMove with
  | keep _ ho => simp only [PoolState.current, ho]
  | acquire ho _ ho' => simp [PoolState.current, ho, ho']
  | release ho _ ho' => simp [PoolState.current, ho, ho']

/-! ### The invariant -/

structure QueueSound (s : PoolState W) : Prop where
  worker : ∀ i, (s.worker i).QueueOk s.shared.tasksQueue
  history : s.shared.HistoryOk s.current

namespace QueueSound

theorem initial : QueueSound (.initial W) where
  worker _ := trivial
  history := ⟨rfl, rfl, rfl⟩

variable {s : PoolState W} (hs : Sound s) (hq : QueueSound s)

section threads
include hs hq

/-- What a worker knows survives the steps of the other threads. -/
theorem worker_other (me : W.Tid) {k : Fin W.num} (hne : me ≠ .worker k) {q : List (Option τ)}
    (h : q = s.shared.tasksQueue ∨ s.holds me = true) : (s.worker k).QueueOk q := by
  cases hk : (s.worker k).holds with
  | false => exact WorkerPc.queueOk_of_not_holds hk q
  | true =>
      rcases h with rfl | h
      · exact hq.worker k
      · exact absurd (hs.holds_unique (u := .worker k) h hk) hne

theorem step_worker {i : Fin W.num} {sh : Shared W.Tid τ} {pc : WorkerPc τ}
    (h : WorkerStep W.process (.worker i) s.shared (s.worker i) sh pc) :
    QueueSound { s with shared := sh, worker := Function.update s.worker i pc } where
  worker := by
    apply (Function.forall_update_iff s.worker fun _ pc => pc.QueueOk sh.tasksQueue).mpr
    refine ⟨h.queueOk, ?_⟩
    intro k hki
    exact hq.worker_other hs (.worker i) (fun heq => hki (Thread.worker.inj heq).symm) h.queue
  history := by
    rcases current_cases hs h with ⟨hpc, hcur⟩ | ⟨hbefore, hafter⟩
    · rw [hcur, h.outside hpc]
      exact ⟨hq.history.pushed, hq.history.begun, hq.history.ended⟩
    · exact (h.historyOk (hq.worker i) (hq.history.congr hbefore.symm)).congr hafter

theorem step_submitter {j : Fin W.submitters} {sh : Shared W.Tid τ} {c : Calls τ}
    (h : SubmitStep (.submitter j) s.shared (s.submitter j) sh c) :
    QueueSound { s with shared := sh, submitter := Function.update s.submitter j c } where
  worker k := hq.worker_other hs (.submitter j) (by simp) h.queue
  history := by
    rw [current_submitter h]
    exact h.historyOk hq.history

end threads

include hq in
theorem step_dtor {sh : Shared W.Tid τ} {pc : DtorPc} (h : DtorStep s s.dtor sh pc) :
    QueueSound { s with shared := sh, dtor := pc } := by
  have hcur := current_dtor h
  obtain ⟨hworker, hpushed, hbegun, hended⟩ := hq
  rw [← hcur] at hbegun hended
  generalize s.dtor = d at h
  cases h <;> exact ⟨hworker, hpushed, hbegun, hended⟩

include hs hq in
theorem step {a : Action W} {s' : PoolState W} (h : PoolStep s a s') : QueueSound s' := by
  cases h with
  | worker i pick sh pc h => exact hq.step_worker hs h
  | submitter j pick sh c h => exact hq.step_submitter hs h
  | dtor sh pc h => exact hq.step_dtor h
  | spurious i h => exact ⟨hq.worker, hq.history.pushed, hq.history.begun, hq.history.ended⟩

end QueueSound

theorem queueSound {s : PoolState W} (h : (poolLts W).Reachable s) : QueueSound s :=
  h.induct (by rintro s rfl; exact .initial)
    (fun _ _ _ hr hq h => hq.step (sound hr) (step_sound h))

/-! ### Order -/

/-- **Tasks are handed out once, in the order of submission**: popped and queued tasks are the
pushed ones in order, `front` and `pop` never meet an empty queue, and the calls of `process()`
are the non-null tasks popped, in order, but for at most one that the owner of the mutex has
not begun. -/
theorem tasks_in_order {s : PoolState W} (hr : (poolLts W).Reachable s) :
    s.shared.popped ++ s.shared.tasksQueue = s.shared.pushed ∧
      (∀ i, s.worker i = .front ∨ (∃ request, s.worker i = .pop request) →
        s.shared.tasksQueue ≠ []) ∧
      ∃ pending, s.shared.popped.reduceOption = s.shared.begun ++ pending ∧
        (pending = [] ∨ ∃ i task, s.shared.sync.owner = some (.worker i) ∧
          s.worker i = .test (some task) ∧ pending = [task]) := by
  have hq := queueSound hr
  refine ⟨hq.history.pushed, ?_, s.current.pending, hq.history.begun, ?_⟩
  · rintro i (h | ⟨request, h⟩) hnil
    · have := hq.worker i
      rw [h] at this
      exact this hnil
    · have := hq.worker i
      simp [h, WorkerPc.QueueOk, hnil] at this
  · cases hc : s.current with
    | test request =>
        cases request with
        | none => exact .inl rfl
        | some task =>
            right
            unfold PoolState.current at hc
            split at hc
            · next i hi => exact ⟨i, task, hi, hc, rfl⟩
            · cases hc
    | _ => exact .inl rfl

/-- One worker, and one submitter with one task, which does not use the pool. -/
def oneTask : Workload ℕ := ⟨1, Nat.one_pos, fun _ => [], 1, fun _ => [some 0]⟩

namespace oneTask

def workerSteps (n : ℕ) : List (Action oneTask) := .replicate n (.worker ⟨0, Nat.one_pos⟩ none)

/-- The whole call of `submit`. -/
def submitSteps : List (Action oneTask) := .replicate 5 (.submitter ⟨0, Nat.one_pos⟩ none)

/-- The call of `submit`, and the worker up to its `pop`. -/
def popRun : List (Action oneTask) := submitSteps ++ workerSteps 6

/-- The call of `submit`, `n` steps of the worker, and the destructor.  The worker has two steps to
make after `stop` is set. -/
def shutdownRun (n : ℕ) : List (Action oneTask) :=
  submitSteps ++ workerSteps n ++ .replicate 4 .dtor ++ workerSteps 2 ++ .replicate 3 .dtor

end oneTask

/-- The worker has popped the task and not begun it. -/
theorem tasks_in_order_popped :
    ∃ s : PoolState oneTask, (poolLts oneTask).Reachable s ∧ s.shared.popped = [some 0] ∧
      s.shared.begun = [] ∧ s.shared.popped ++ s.shared.tasksQueue = s.shared.pushed :=
  have h : ((poolLts oneTask).run (.initial oneTask) oneTask.popRun).isSome := rfl
  ⟨_, .of_run rfl h, rfl, rfl, (tasks_in_order (.of_run rfl h)).1⟩

/-! ### Accepted tasks -/

/-- The task that a call of `submit` has pushed without having returned. -/
def Calls.inFlight : Calls τ → Multiset (Option τ)
  | .busy .unlock task _ | .busy .notify task _ => {task}
  | _ => 0

/-- Every task pushed is accepted or on its way to be. -/
def AcceptSound (s : PoolState W) : Prop :=
  (s.shared.pushed : Multiset (Option τ)) =
    s.shared.accepted + ∑ j, (s.submitter j).inFlight

theorem SubmitStep.accept {ι : Type*} [DecidableEq ι] {me : ι} {sh sh' : Shared ι τ}
    {c c' : Calls τ} (h : SubmitStep me sh c sh' c') :
    (sh'.pushed : Multiset (Option τ)) + sh.accepted + c.inFlight =
      sh.pushed + sh'.accepted + c'.inFlight := by
  cases h with
  | push task todo =>
      simp only [Calls.inFlight, ← Multiset.coe_add, Multiset.coe_singleton, add_zero]
      abel
  | notify task todo pick sync hn =>
      simp only [Calls.inFlight, ← Multiset.coe_add, Multiset.coe_singleton, add_zero]
      abel
  | _ => rfl

theorem WorkerStep.accept {process : τ → List (Option τ)} {s : PoolState W} (hs : Sound s)
    {i : Fin W.num} {sh : Shared W.Tid τ} {pc : WorkerPc τ}
    (h : WorkerStep process (.worker i) s.shared (s.worker i) sh pc) :
    sh.pushed = s.shared.pushed ∧ sh.accepted = s.shared.accepted := by
  generalize hpc : s.worker i = pc0 at h
  cases h with
  | nested task c c' _ hc => rw [(hs.nested_call hpc hc).1]; exact ⟨rfl, rfl⟩
  | _ => exact ⟨rfl, rfl⟩

theorem AcceptSound.step {s s' : PoolState W} {a : Action W} (hs : Sound s) (hacc : AcceptSound s)
    (h : PoolStep s a s') : AcceptSound s' := by
  unfold AcceptSound at hacc ⊢
  cases h with
  | worker i pick sh pc h =>
      obtain ⟨h1, h2⟩ := h.accept hs
      simpa only [h1, h2] using hacc
  | submitter j pick sh c h =>
      have hstep := h.accept
      have hcomp : (fun k => (Function.update s.submitter j c k).inFlight) =
          Function.update (fun k => (s.submitter k).inFlight) j c.inFlight :=
        Function.comp_update Calls.inFlight s.submitter j c
      have hsum := Finset.add_sum_erase Finset.univ (fun k => (s.submitter k).inFlight)
        (Finset.mem_univ j)
      dsimp only at hsum ⊢
      rw [hcomp, Finset.sum_update_of_mem (Finset.mem_univ j), ← Finset.erase_eq]
      rw [hacc, ← hsum] at hstep
      apply add_right_cancel (b := s.shared.accepted + (s.submitter j).inFlight)
      calc (sh.pushed : Multiset (Option τ)) + (s.shared.accepted + (s.submitter j).inFlight)
          = sh.pushed + s.shared.accepted + (s.submitter j).inFlight := by rw [add_assoc]
        _ = _ := by rw [hstep]; abel
  | dtor sh pc h =>
      have heq : sh.pushed = s.shared.pushed ∧ sh.accepted = s.shared.accepted := by
        generalize s.dtor = d at h
        cases h <;> exact ⟨rfl, rfl⟩
      simpa only [heq.1, heq.2] using hacc
  | spurious i h => exact hacc

theorem acceptSound {s : PoolState W} (h : (poolLts W).Reachable s) : AcceptSound s := by
  refine h.induct ?_ (fun _ _ _ hr hacc h => hacc.step (sound hr) (step_sound h))
  rintro s rfl
  simp [AcceptSound, PoolState.initial, Calls.inFlight]

/-! ### The queue when the pool stops -/

/-- Once `stop` is set, nobody touches the queue. -/
theorem queue_stopped {s s' : PoolState W} {a : Action W} (hr : (poolLts W).Reachable s)
    (hstop : s.dtor.stopped = true) (h : PoolStep s a s') :
    s'.shared.tasksQueue = s.shared.tasksQueue := by
  cases h with
  | worker i pick sh pc h =>
      rcases h.queue with heq | hholds
      · exact heq
      cases hd : s.dtor with
      | returned =>
          have hx := (stopSound hr).joined i (by rw [hd]; exact i.isLt)
          exact absurd hx h.ne_exited
      | notify | join _ | unlock =>
          have := (sound hr).holds_unique (t := .worker i) (u := .dtor) hholds
            (by rw [PoolState.holds, hd]; rfl)
          cases this
      | idle | lock | setStop => rw [hd] at hstop; cases hstop
  | submitter j pick sh c h =>
      refine absurd ((stopSound hr).done ?_ j) h.ne_done
      intro hd
      rw [hd] at hstop
      cases hstop
  | dtor sh pc h =>
      generalize s.dtor = d at h
      cases h <;> rfl
  | spurious i h => rfl

/-- A pool that is stopping was stopped by the destructor, in a state with the same queue. -/
theorem exists_setStop {s : PoolState W} (h : (poolLts W).Reachable s)
    (hstop : s.dtor.stopped = true) :
    ∃ s₀, (poolLts W).Reachable s₀ ∧ s₀.dtor = .setStop ∧ (poolLts W).Steps s₀ s ∧
      s.shared.tasksQueue = s₀.shared.tasksQueue := by
  revert hstop
  refine h.induct (I := fun s => s.dtor.stopped = true → ∃ s₀, (poolLts W).Reachable s₀ ∧
    s₀.dtor = .setStop ∧ (poolLts W).Steps s₀ s ∧
    s.shared.tasksQueue = s₀.shared.tasksQueue) ?_ ?_
  · rintro s rfl hstop
    cases hstop
  · intro s a s' hr ih hstep hstop'
    have h := step_sound hstep
    by_cases hstop : s.dtor.stopped = true
    · obtain ⟨s₀, hr₀, hd, hsteps, hq⟩ := ih hstop
      exact ⟨s₀, hr₀, hd, hsteps.tail ⟨a, hstep⟩, (queue_stopped hr hstop h).trans hq⟩
    · -- The only step that sets `stop` is the destructor's.
      have hdtor : s.dtor = .setStop ∧ s'.shared.tasksQueue = s.shared.tasksQueue := by
        cases h with
        | dtor sh pc h =>
            generalize s.dtor = d at h hstop
            cases h with
            | setStop => exact ⟨rfl, rfl⟩
            | begin _ | lock _ => cases hstop'
            | _ => exact absurd rfl hstop
        | _ => exact absurd hstop' hstop
      exact ⟨s, hr, hdtor.1, .single ⟨a, hstep⟩, hdtor.2⟩

/-- **What has happened to the accepted tasks when the destructor returns**: `process()` has run
once for each of a first part of them, in the order of submission; the others were not run and
are still queued, and they are what the queue held when the destructor set `stop`. -/
theorem tasks_at_return {s : PoolState W} (hr : (poolLts W).Reachable s)
    (hret : s.dtor = .returned) :
    s.shared.ended ++ s.shared.tasksQueue.reduceOption = s.shared.pushed.reduceOption ∧
      s.shared.begun = s.shared.ended ∧ s.shared.accepted.Perm s.shared.pushed ∧
      ∃ s₀, (poolLts W).Reachable s₀ ∧ s₀.dtor = .setStop ∧ (poolLts W).Steps s₀ s ∧
        s.shared.tasksQueue = s₀.shared.tasksQueue ∧
        (s.shared.ended = s.shared.pushed.reduceOption ↔
          s₀.shared.tasksQueue.reduceOption = []) := by
  have hexit : ∀ i, s.worker i = .exited := fun i =>
    (stopSound hr).joined i (by rw [hret]; exact i.isLt)
  have hdone := (stopSound hr).done (by rw [hret]; simp)
  -- No worker owns the mutex, so nothing is pending and nothing is running.
  have hcur : s.current = .head := by
    unfold PoolState.current
    split
    · next i hi =>
        have := ((sound hr).owner _).mp hi
        rw [PoolState.holds, hexit i] at this
        cases this
    · rfl
  obtain ⟨hpushed, hbegun, hended⟩ := (queueSound hr).history
  rw [hcur] at hbegun hended
  simp only [WorkerPc.pending, WorkerPc.running, List.append_nil] at hbegun hended
  have hall : s.shared.ended ++ s.shared.tasksQueue.reduceOption =
      s.shared.pushed.reduceOption := by
    rw [← hpushed, List.reduceOption_append, hbegun, hended]
  refine ⟨hall, hended, ?_, ?_⟩
  · have hacc := acceptSound hr
    unfold AcceptSound at hacc
    simp only [hdone, Calls.inFlight, Finset.sum_const_zero, add_zero, Multiset.coe_eq_coe] at hacc
    exact hacc.symm
  · obtain ⟨s₀, hr₀, hd, hsteps, hq⟩ := exists_setStop hr (by rw [hret]; rfl)
    refine ⟨s₀, hr₀, hd, hsteps, hq, ?_⟩
    rw [← hall, ← hq]
    exact List.self_eq_append_right

/-- The worker has run the task before the destructor begins. -/
theorem tasks_at_return_run :
    ∃ s : PoolState oneTask, (poolLts oneTask).Reachable s ∧ s.dtor = .returned ∧
      s.shared.ended = [0] ∧
      s.shared.ended ++ s.shared.tasksQueue.reduceOption = s.shared.pushed.reduceOption :=
  have h : ((poolLts oneTask).run (.initial oneTask) (oneTask.shutdownRun 9)).isSome := rfl
  ⟨_, .of_run rfl h, rfl, rfl, (tasks_at_return (.of_run rfl h) rfl).1⟩

/-- The worker first reads `stop` after the destructor has set it, and the task is never run. -/
theorem queued_task_abandoned :
    ¬ ∀ (W : Workload ℕ), (∀ task, W.process task = []) → (∀ j, none ∉ W.program j) →
      ∀ s, (poolLts W).Reachable s → s.dtor = .returned →
        ∀ task, s.shared.ended.count task = s.shared.accepted.count (some task) := by
  intro h
  have hrun : ((poolLts oneTask).run (.initial oneTask) (oneTask.shutdownRun 0)).isSome := rfl
  have := h oneTask (fun _ => rfl) (by simp [oneTask]) _ (.of_run rfl hrun) rfl 0
  exact Nat.zero_ne_one this

end RedisMigrate
