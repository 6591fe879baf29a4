import RedisMigrate.Lts
import RedisMigrate.Monitor
import Mathlib.Data.Fintype.Basic
import Mathlib.Data.Fin.Basic

/-! # The thread pool

`ThreadPool<T>` of `src/thread_pool.h` and `src/thread_pool.cpp` as a transition system.  The
threads are the workers, each in `run()`, the threads that call `submit`, and the one that
runs the destructor.  An action is one atomic step of one thread: locking or unlocking
`queue_mutex`, the two halves of `condition.wait`, a notification, the read of `stop`, one
operation on `tasks_queue`, the start or the return of a `process()`.  A spurious wake-up is an
action of no thread.

A task is a `T *`, possibly null.  `process` gives the tasks that its `process()` submits to the
same pool before it returns, none for a task that does not use the pool; a worker makes these calls
with the same code as the submitters, and while it owns `queue_mutex`, since the lock `lk` of
`run()` lives until the end of the loop body.

The state keeps the histories that the theorems are about: the tasks pushed, those popped, those
for which `submit` returned, and the `process()` calls begun and ended.

`workerStep`, `submitStep` and `dtorStep` compute; `WorkerStep`, `SubmitStep` and `DtorStep` say the
same as relations, one constructor for each step, and `step_sound` is the case analysis that the
invariants use. -/

namespace RedisMigrate

/-- `MAX_THREADS`. -/
def maxThreads : ℤ := 200

/-- The constructor: the number of workers that it starts, or `none` when it throws. -/
def ThreadPool.construct (num max : ℤ) : Option ℕ :=
  let max := if max < num then maxThreads else max
  if num ≤ 0 ∨ num > max then none else some num.toNat

/-- What the pool is used for: the number of workers, what the tasks do, and the tasks that each
submitting thread submits, in order. -/
structure Workload (τ : Type*) where
  num : ℕ
  num_pos : 0 < num
  process : τ → List (Option τ)
  submitters : ℕ
  program : Fin submitters → List (Option τ)

/-- A pool that was constructed has a worker. -/
theorem ThreadPool.construct_pos {num max : ℤ} {n : ℕ}
    (h : ThreadPool.construct num max = some n) : 0 < n := by
  unfold construct at h
  dsimp only at h
  generalize (if max < num then maxThreads else max) = m at h
  split_ifs at h
  obtain rfl := Option.some.inj h
  omega

/-- The threads. -/
inductive Thread (num submitters : ℕ) where
  | worker (i : Fin num)
  | submitter (j : Fin submitters)
  | dtor
deriving DecidableEq

/-- Where a thread is in `submit`. -/
inductive SubmitPc where
  | lock
  | push
  | unlock
  | notify
deriving DecidableEq, Repr

/-- A thread that calls `submit` for a list of tasks: between two calls, or in the call for
`task`. -/
inductive Calls (τ : Type*) where
  | idle (todo : List (Option τ))
  | busy (pc : SubmitPc) (task : Option τ) (todo : List (Option τ))

/-- Where a worker is in `run()`. -/
inductive WorkerPc (τ : Type*) where
  | head
  | leave
  | exited
  | lock
  | wait
  | park
  | waiting
  | check
  | front
  | pop (request : Option τ)
  | test (request : Option τ)
  | process (task : τ) (calls : Calls τ)
  | unlock

/-- Where the destructor is; `join k` is about to join the worker `k`. -/
inductive DtorPc where
  | idle
  | lock
  | setStop
  | notify
  | join (k : ℕ)
  | unlock
  | returned
deriving DecidableEq, Repr

/-- The members of the pool, and the histories. -/
structure Shared (ι τ : Type*) where
  tasksQueue : List (Option τ)
  stop : Bool
  sync : Monitor ι
  pushed : List (Option τ)
  popped : List (Option τ)
  accepted : List (Option τ)
  begun : List τ
  ended : List τ

variable {τ ι : Type*} [DecidableEq ι]

/-! ### `submit` -/

def submitStep (me : ι) (pick : Option ι) (sh : Shared ι τ) :
    Calls τ → Option (Shared ι τ × Calls τ)
  | .idle [] => none
  | .idle (task :: todo) => some (sh, .busy .lock task todo)
  | .busy .lock task todo =>
      (sh.sync.lock me).map fun sync => ({ sh with sync }, .busy .push task todo)
  | .busy .push task todo =>
      some ({ sh with tasksQueue := sh.tasksQueue ++ [task], pushed := sh.pushed ++ [task] },
        .busy .unlock task todo)
  | .busy .unlock task todo =>
      (sh.sync.unlock me).map fun sync => ({ sh with sync }, .busy .notify task todo)
  | .busy .notify task todo =>
      (sh.sync.notifyOne pick).map fun sync =>
        ({ sh with sync, accepted := sh.accepted ++ [task] }, .idle todo)

inductive SubmitStep (me : ι) (sh : Shared ι τ) : Calls τ → Shared ι τ → Calls τ → Prop
  | call (task : Option τ) (todo : List (Option τ)) :
      SubmitStep me sh (.idle (task :: todo)) sh (.busy .lock task todo)
  | lock (task : Option τ) (todo : List (Option τ)) : sh.sync.owner = none →
      SubmitStep me sh (.busy .lock task todo) { sh with sync := ⟨some me, sh.sync.parked⟩ }
        (.busy .push task todo)
  | push (task : Option τ) (todo : List (Option τ)) :
      SubmitStep me sh (.busy .push task todo)
        { sh with tasksQueue := sh.tasksQueue ++ [task], pushed := sh.pushed ++ [task] }
        (.busy .unlock task todo)
  | unlock (task : Option τ) (todo : List (Option τ)) : sh.sync.owner = some me →
      SubmitStep me sh (.busy .unlock task todo) { sh with sync := ⟨none, sh.sync.parked⟩ }
        (.busy .notify task todo)
  | notify (task : Option τ) (todo : List (Option τ)) (pick : Option ι) (sync : Monitor ι) :
      sh.sync.notifyOne pick = some sync →
      SubmitStep me sh (.busy .notify task todo)
        { sh with sync, accepted := sh.accepted ++ [task] } (.idle todo)

theorem submitStep_sound {me : ι} {pick : Option ι} {sh sh' : Shared ι τ} {c c' : Calls τ}
    (h : submitStep me pick sh c = some (sh', c')) : SubmitStep me sh c sh' c' := by
  cases c with
  | idle todo =>
      cases todo with
      | nil => cases h
      | cons task todo =>
          cases h
          exact .call task todo
  | busy pc task todo =>
      cases pc with
      | lock =>
          obtain ⟨sync, hs, heq⟩ := Option.map_eq_some_iff.mp h
          obtain ⟨ho, rfl⟩ := Monitor.lock_eq_some.mp hs
          cases heq
          exact .lock task todo ho
      | push =>
          cases h
          exact .push task todo
      | unlock =>
          obtain ⟨sync, hs, heq⟩ := Option.map_eq_some_iff.mp h
          obtain ⟨ho, rfl⟩ := Monitor.unlock_eq_some.mp hs
          cases heq
          exact .unlock task todo ho
      | notify =>
          obtain ⟨sync, hs, heq⟩ := Option.map_eq_some_iff.mp h
          cases heq
          exact .notify task todo pick sync hs

/-! ### `run` -/

def workerStep (process : τ → List (Option τ)) (me : ι) (pick : Option ι) (sh : Shared ι τ) :
    WorkerPc τ → Option (Shared ι τ × WorkerPc τ)
  | .head => some (sh, if sh.stop then .leave else .lock)
  | .leave => some (sh, .exited)
  | .exited => none
  | .lock => (sh.sync.lock me).map fun sync => ({ sh with sync }, .wait)
  -- `condition.wait(lk, pred)` is `while (!pred()) wait(lk)`.
  | .wait => some (sh, if sh.tasksQueue.isEmpty then .park else .check)
  | .park => (sh.sync.park me).map fun sync => ({ sh with sync }, .waiting)
  | .waiting => (sh.sync.reacquire me).map fun sync => ({ sh with sync }, .wait)
  | .check => some (sh, if sh.tasksQueue.isEmpty then .unlock else .front)
  | .front => sh.tasksQueue.head?.map fun request => (sh, .pop request)
  | .pop request =>
      match sh.tasksQueue with
      | [] => none
      | r :: rest =>
          some ({ sh with tasksQueue := rest, popped := sh.popped ++ [r] }, .test request)
  | .test none => some (sh, .unlock)
  | .test (some task) =>
      some ({ sh with begun := sh.begun ++ [task] }, .process task (.idle (process task)))
  | .process task (.idle []) => some ({ sh with ended := sh.ended ++ [task] }, .unlock)
  | .process task calls =>
      (submitStep me pick sh calls).map fun (sh, calls) => (sh, .process task calls)
  | .unlock => (sh.sync.unlock me).map fun sync => ({ sh with sync }, .head)

inductive WorkerStep (process : τ → List (Option τ)) (me : ι) (sh : Shared ι τ) :
    WorkerPc τ → Shared ι τ → WorkerPc τ → Prop
  | stopUnset : sh.stop = false → WorkerStep process me sh .head sh .lock
  | stopSet : sh.stop = true → WorkerStep process me sh .head sh .leave
  | exit : WorkerStep process me sh .leave sh .exited
  | lock : sh.sync.owner = none →
      WorkerStep process me sh .lock { sh with sync := ⟨some me, sh.sync.parked⟩ } .wait
  | predFalse : sh.tasksQueue = [] → WorkerStep process me sh .wait sh .park
  | predTrue : sh.tasksQueue ≠ [] → WorkerStep process me sh .wait sh .check
  | park : sh.sync.owner = some me →
      WorkerStep process me sh .park { sh with sync := ⟨none, insert me sh.sync.parked⟩ } .waiting
  | reacquire : me ∉ sh.sync.parked → sh.sync.owner = none →
      WorkerStep process me sh .waiting { sh with sync := ⟨some me, sh.sync.parked⟩ } .wait
  | checkEmpty : sh.tasksQueue = [] → WorkerStep process me sh .check sh .unlock
  | checkFull : sh.tasksQueue ≠ [] → WorkerStep process me sh .check sh .front
  | front (request : Option τ) (rest : List (Option τ)) : sh.tasksQueue = request :: rest →
      WorkerStep process me sh .front sh (.pop request)
  | pop (request r : Option τ) (rest : List (Option τ)) : sh.tasksQueue = r :: rest →
      WorkerStep process me sh (.pop request)
        { sh with tasksQueue := rest, popped := sh.popped ++ [r] } (.test request)
  | testNull : WorkerStep process me sh (.test none) sh .unlock
  | beginTask (task : τ) : WorkerStep process me sh (.test (some task))
      { sh with begun := sh.begun ++ [task] } (.process task (.idle (process task)))
  | endTask (task : τ) : WorkerStep process me sh (.process task (.idle []))
      { sh with ended := sh.ended ++ [task] } .unlock
  | nested (task : τ) (c c' : Calls τ) (sh' : Shared ι τ) : SubmitStep me sh c sh' c' →
      WorkerStep process me sh (.process task c) sh' (.process task c')
  | unlock : sh.sync.owner = some me →
      WorkerStep process me sh .unlock { sh with sync := ⟨none, sh.sync.parked⟩ } .head

theorem workerStep_sound {process : τ → List (Option τ)} {me : ι} {pick : Option ι}
    {sh sh' : Shared ι τ} {pc pc' : WorkerPc τ}
    (h : workerStep process me pick sh pc = some (sh', pc')) :
    WorkerStep process me sh pc sh' pc' := by
  cases pc with
  | head =>
      cases hs : sh.stop <;> simp only [workerStep, hs] at h <;> cases h
      · exact .stopUnset hs
      · exact .stopSet hs
  | leave => cases h; exact .exit
  | exited => cases h
  | lock =>
      obtain ⟨sync, hs, heq⟩ := Option.map_eq_some_iff.mp h
      obtain ⟨ho, rfl⟩ := Monitor.lock_eq_some.mp hs
      cases heq
      exact .lock ho
  | wait =>
      cases hq : sh.tasksQueue <;> simp only [workerStep, hq] at h <;> cases h
      · exact .predFalse hq
      · exact .predTrue (by simp [hq])
  | park =>
      obtain ⟨sync, hs, heq⟩ := Option.map_eq_some_iff.mp h
      obtain ⟨ho, rfl⟩ := Monitor.park_eq_some.mp hs
      cases heq
      exact .park ho
  | waiting =>
      obtain ⟨sync, hs, heq⟩ := Option.map_eq_some_iff.mp h
      obtain ⟨hp, ho, rfl⟩ := Monitor.reacquire_eq_some.mp hs
      cases heq
      exact .reacquire hp ho
  | check =>
      cases hq : sh.tasksQueue <;> simp only [workerStep, hq] at h <;> cases h
      · exact .checkEmpty hq
      · exact .checkFull (by simp [hq])
  | front =>
      cases hq : sh.tasksQueue <;> simp only [workerStep, hq] at h <;> cases h
      exact .front _ _ hq
  | pop request =>
      cases hq : sh.tasksQueue <;> simp only [workerStep, hq] at h <;> cases h
      exact .pop request _ _ hq
  | test request =>
      cases request <;> cases h
      · exact .testNull
      · exact .beginTask _
  | process task calls =>
      match calls, h with
      | .idle [], h => cases h; exact .endTask task
      | .idle (t :: todo), h =>
          unfold workerStep at h
          obtain ⟨⟨sh₁, c₁⟩, hs, heq⟩ := Option.map_eq_some_iff.mp h
          cases heq
          exact .nested task _ _ _ (submitStep_sound hs)
      | .busy pc t todo, h =>
          unfold workerStep at h
          obtain ⟨⟨sh₁, c₁⟩, hs, heq⟩ := Option.map_eq_some_iff.mp h
          cases heq
          exact .nested task _ _ _ (submitStep_sound hs)
  | unlock =>
      obtain ⟨sync, hs, heq⟩ := Option.map_eq_some_iff.mp h
      obtain ⟨ho, rfl⟩ := Monitor.unlock_eq_some.mp hs
      cases heq
      exact .unlock ho

/-! ### The pool -/

/-- The threads of the workload. -/
abbrev Workload.Tid (W : Workload τ) : Type := Thread W.num W.submitters

structure PoolState (W : Workload τ) where
  shared : Shared W.Tid τ
  worker : Fin W.num → WorkerPc τ
  submitter : Fin W.submitters → Calls τ
  dtor : DtorPc

/-- No call is running and none is left to make. -/
def Calls.done : Calls τ → Bool
  | .idle [] => true
  | _ => false

def WorkerPc.isExited : WorkerPc τ → Bool
  | .exited => true
  | _ => false

section pool
variable {W : Workload τ}

/-- The destructor begins when no `submit` is running and none follows. -/
def dtorStep (s : PoolState W) : Option (Shared W.Tid τ × DtorPc) :=
  match s.dtor with
  | .idle => if ∀ j, (s.submitter j).done = true then some (s.shared, .lock) else none
  | .lock => (s.shared.sync.lock .dtor).map fun sync => ({ s.shared with sync }, .setStop)
  | .setStop => some ({ s.shared with stop := true }, .notify)
  | .notify => some ({ s.shared with sync := s.shared.sync.notifyAll }, .join 0)
  | .join k =>
      if h : k < W.num then
        if (s.worker ⟨k, h⟩).isExited then some (s.shared, .join (k + 1)) else none
      else some (s.shared, .unlock)
  | .unlock => (s.shared.sync.unlock .dtor).map fun sync => ({ s.shared with sync }, .returned)
  | .returned => none

inductive DtorStep (s : PoolState W) : DtorPc → Shared W.Tid τ → DtorPc → Prop
  | begin : (∀ j, (s.submitter j).done = true) → DtorStep s .idle s.shared .lock
  | lock : s.shared.sync.owner = none →
      DtorStep s .lock { s.shared with sync := ⟨some .dtor, s.shared.sync.parked⟩ } .setStop
  | setStop : DtorStep s .setStop { s.shared with stop := true } .notify
  | notify : DtorStep s .notify { s.shared with sync := ⟨s.shared.sync.owner, ∅⟩ } (.join 0)
  | join (k : ℕ) (h : k < W.num) : s.worker ⟨k, h⟩ = .exited →
      DtorStep s (.join k) s.shared (.join (k + 1))
  | joined (k : ℕ) : W.num ≤ k → DtorStep s (.join k) s.shared .unlock
  | unlock : s.shared.sync.owner = some .dtor →
      DtorStep s .unlock { s.shared with sync := ⟨none, s.shared.sync.parked⟩ } .returned

theorem WorkerPc.isExited_iff {pc : WorkerPc τ} : pc.isExited = true ↔ pc = .exited := by
  cases pc <;> simp [isExited]

theorem Calls.done_iff {c : Calls τ} : c.done = true ↔ c = .idle [] := by
  unfold done
  split <;> simp_all

theorem dtorStep_sound {s : PoolState W} {sh : Shared W.Tid τ} {pc : DtorPc}
    (h : dtorStep s = some (sh, pc)) : DtorStep s s.dtor sh pc := by
  unfold dtorStep at h
  cases hd : s.dtor with
  | idle =>
      simp only [hd] at h
      split_ifs at h with hdone
      cases h
      exact .begin hdone
  | lock =>
      simp only [hd] at h
      obtain ⟨sync, hs, heq⟩ := Option.map_eq_some_iff.mp h
      obtain ⟨ho, rfl⟩ := Monitor.lock_eq_some.mp hs
      cases heq
      exact .lock ho
  | setStop => simp only [hd] at h; cases h; exact .setStop
  | notify => simp only [hd] at h; cases h; exact .notify
  | join k =>
      simp only [hd] at h
      split_ifs at h with hk hx
      · cases h
        exact .join k hk (WorkerPc.isExited_iff.mp hx)
      · cases h
        exact .joined k (Nat.le_of_not_lt hk)
  | unlock =>
      simp only [hd] at h
      obtain ⟨sync, hs, heq⟩ := Option.map_eq_some_iff.mp h
      obtain ⟨ho, rfl⟩ := Monitor.unlock_eq_some.mp hs
      cases heq
      exact .unlock ho
  | returned => simp only [hd] at h; cases h

/-- One atomic step of one thread; `pick` is the thread that a notification wakes.  `spurious i`
wakes the worker `i` without a notification. -/
inductive Action (W : Workload τ) where
  | worker (i : Fin W.num) (pick : Option W.Tid)
  | submitter (j : Fin W.submitters) (pick : Option W.Tid)
  | dtor
  | spurious (i : Fin W.num)

def poolStep (s : PoolState W) : Action W → Option (PoolState W)
  | .worker i pick =>
      (workerStep W.process (.worker i) pick s.shared (s.worker i)).map fun (shared, pc) =>
        { s with shared, worker := Function.update s.worker i pc }
  | .submitter j pick =>
      (submitStep (.submitter j) pick s.shared (s.submitter j)).map fun (shared, calls) =>
        { s with shared, submitter := Function.update s.submitter j calls }
  | .dtor => (dtorStep s).map fun (shared, dtor) => { s with shared, dtor }
  | .spurious i =>
      (s.shared.sync.spuriousWake (.worker i)).map fun sync =>
        { s with shared := { s.shared with sync } }

/-- The pool after its constructor: every worker is about to read `stop`. -/
def PoolState.initial (W : Workload τ) : PoolState W where
  shared := ⟨[], false, .free, [], [], [], [], []⟩
  worker _ := .head
  submitter j := .idle (W.program j)
  dtor := .idle

def poolLts (W : Workload τ) : Lts (PoolState W) (Action W) where
  init s := s = .initial W
  step := poolStep

/-- `poolStep` as a relation. -/
inductive PoolStep (s : PoolState W) : Action W → PoolState W → Prop
  | worker (i : Fin W.num) (pick : Option W.Tid) (sh : Shared W.Tid τ) (pc : WorkerPc τ) :
      WorkerStep W.process (.worker i) s.shared (s.worker i) sh pc →
      PoolStep s (.worker i pick) { s with shared := sh, worker := Function.update s.worker i pc }
  | submitter (j : Fin W.submitters) (pick : Option W.Tid) (sh : Shared W.Tid τ) (c : Calls τ) :
      SubmitStep (.submitter j) s.shared (s.submitter j) sh c →
      PoolStep s (.submitter j pick)
        { s with shared := sh, submitter := Function.update s.submitter j c }
  | dtor (sh : Shared W.Tid τ) (pc : DtorPc) :
      DtorStep s s.dtor sh pc → PoolStep s .dtor { s with shared := sh, dtor := pc }
  | spurious (i : Fin W.num) : .worker i ∈ s.shared.sync.parked →
      PoolStep s (.spurious i)
        { s with shared := { s.shared with
            sync := ⟨s.shared.sync.owner, s.shared.sync.parked.erase (.worker i)⟩ } }

/-- What a step of the pool can be. -/
theorem step_sound {s s' : PoolState W} {a : Action W} (h : (poolLts W).step s a = some s') :
    PoolStep s a s' := by
  cases a with
  | worker i pick =>
      obtain ⟨⟨sh, pc⟩, hs, rfl⟩ := Option.map_eq_some_iff.mp h
      exact .worker i pick sh pc (workerStep_sound hs)
  | submitter j pick =>
      obtain ⟨⟨sh, c⟩, hs, rfl⟩ := Option.map_eq_some_iff.mp h
      exact .submitter j pick sh c (submitStep_sound hs)
  | dtor =>
      obtain ⟨⟨sh, pc⟩, hs, rfl⟩ := Option.map_eq_some_iff.mp h
      exact .dtor sh pc (dtorStep_sound hs)
  | spurious i =>
      obtain ⟨sync, hs, rfl⟩ := Option.map_eq_some_iff.mp h
      obtain ⟨hp, rfl⟩ := Monitor.spuriousWake_eq_some.mp hs
      exact .spurious i hp

end pool

end RedisMigrate
