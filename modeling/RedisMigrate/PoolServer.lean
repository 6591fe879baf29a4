import RedisMigrate.PoolQueue
import RedisMigrate.Server

/-! # The pool is a serial server

Since a worker runs `process()` while it owns `queue_mutex`, the pool does the work of one server
that serves one task at a time, however many workers it has.  `PoolState.server` is what a state of
the pool is to that server: a null pointer is no task, and the task in service is the one that the
owner of the mutex has in hand.  Every run of the pool is a run of the server
(`pool_simulates_server`), so the pool loses no task while it runs and lets none overtake
another (`pool_in_order`). -/

namespace RedisMigrate

variable {τ : Type*} {W : Workload τ}

/-- The task that a worker has popped and not ended. -/
def WorkerPc.inHand (pc : WorkerPc τ) : Option τ := (pc.pending ++ pc.running).head?

theorem WorkerPc.SameTask.inHand {pc pc' : WorkerPc τ} (h : pc.SameTask pc') :
    pc.inHand = pc'.inHand := by
  unfold WorkerPc.inHand
  rw [h.pending, h.running]

/-- The server, when the worker with that task in hand is the one that counts. -/
def Shared.server {ι : Type*} (sh : Shared ι τ) (inHand : Option τ) : Server τ :=
  ⟨sh.tasksQueue.reduceOption, inHand, sh.ended⟩

def PoolState.server (s : PoolState W) : Server τ := s.shared.server s.current.inHand

/-- A call of `submit` is the arrival of its task, or nothing to the server. -/
theorem SubmitStep.serves {ι : Type*} [DecidableEq ι] {me : ι} {sh sh' : Shared ι τ}
    {c c' : Calls τ} (h : SubmitStep me sh c sh' c') (inHand : Option τ) :
    Server.lts.Steps (sh.server inHand) (sh'.server inHand) := by
  cases h with
  | push task todo =>
      unfold Shared.server
      cases task with
      | none =>
          rw [List.reduceOption_append, List.reduceOption_cons_of_none, List.reduceOption_nil,
            List.append_nil]
      | some t =>
          rw [List.reduceOption_append, List.reduceOption_cons_of_some, List.reduceOption_nil]
          exact .single ⟨.arrive t, rfl⟩
  | _ => exact .refl

/-- The pop of a task is its start, the return of `process()` its end, and nothing else that the
owner of the mutex does is seen by the server. -/
theorem WorkerStep.serves {s : PoolState W} (hs : Sound s) {i : Fin W.num} {sh : Shared W.Tid τ}
    {pc : WorkerPc τ} (hq : (s.worker i).QueueOk s.shared.tasksQueue)
    (h : WorkerStep W.process (.worker i) s.shared (s.worker i) sh pc) :
    Server.lts.Steps (s.shared.server (s.worker i).inHand) (sh.server pc.inHand) := by
  generalize hpc : s.worker i = pc0 at h hq
  cases h with
  | pop request r rest heq =>
      obtain rfl : r = request := by simpa [WorkerPc.QueueOk, heq] using hq
      unfold Shared.server
      rw [heq]
      cases r with
      | none =>
          rw [List.reduceOption_cons_of_none]
          exact .refl
      | some t =>
          rw [List.reduceOption_cons_of_some]
          exact .single ⟨.start, rfl⟩
  | endTask task => exact .single ⟨.finish, rfl⟩
  | nested task c c' _ hc =>
      rw [(hs.nested_call hpc hc).1]
      exact .refl
  | _ => exact .refl

/-- One step of the pool is some steps of the server. -/
theorem server_steps {s s' : PoolState W} {a : Action W} (hs : Sound s) (hq : QueueSound s)
    (h : PoolStep s a s') : Server.lts.Steps s.server s'.server := by
  unfold PoolState.server
  cases h with
  | worker i pick sh pc h =>
      rcases current_cases hs h with ⟨hpc, hcur⟩ | ⟨hbefore, hafter⟩
      · rw [hcur, h.outside hpc]
        exact .refl
      · rw [hbefore.inHand, hafter.inHand]
        exact h.serves hs (hq.worker i)
  | submitter j pick sh c h =>
      rw [current_submitter h]
      exact h.serves _
  | dtor sh pc h =>
      rw [current_dtor h]
      generalize s.dtor = d at h
      cases h <;> exact .refl
  | spurious i h => exact .refl

/-- **Every run of the pool is a run of the serial server**, whatever the number of workers. -/
theorem pool_simulates_server :
    Lts.Simulation (poolLts W) Server.lts (fun s t => t = s.server) where
  init s := by
    rintro rfl
    exact ⟨_, rfl, rfl⟩
  step s a s' t hr ht h := by
    subst ht
    exact ⟨_, server_steps (sound hr) (queueSound hr) (step_sound h), rfl⟩

/-- **No task of the pool overtakes another**: along every run the tasks keep the order in which
they were submitted, those whose `process()` has returned are a first part of them, and they stay
so. -/
theorem pool_in_order {s s' : PoolState W} (hr : (poolLts W).Reachable s)
    (h : (poolLts W).Steps s s') :
    s.server.arrived <+: s'.server.arrived ∧ s.shared.ended <+: s'.shared.ended ∧
      s'.shared.ended <+: s'.server.arrived := by
  obtain ⟨t, hsteps, rfl⟩ := pool_simulates_server.steps hr h rfl
  exact Server.served_in_order hsteps

end RedisMigrate
