import RedisMigrate.PoolProgress

/-! # No wake-up is lost

A worker parks only when it has seen an empty queue while it owned the mutex, and a submitter that
fills the queue notifies afterwards.  So with tasks queued, somebody is awake or about to be
woken (`no_lost_wakeup`): the invariant `WakeSound` needs no fairness and no count of
notifications. -/

namespace RedisMigrate

variable {τ : Type*} {W : Workload τ}

/-- A call of `submit` that has pushed its task and not yet notified. -/
def Calls.OwesNotify : Calls τ → Prop
  | .busy .unlock _ _ | .busy .notify _ _ => True
  | _ => False

theorem Calls.owesNotify_iff {c : Calls τ} :
    c.OwesNotify ↔ ∃ task todo, c = .busy .unlock task todo ∨ c = .busy .notify task todo := by
  constructor
  · intro h
    cases c with
    | idle todo => exact h.elim
    | busy pc task todo =>
        cases pc with
        | lock | push => exact h.elim
        | unlock => exact ⟨task, todo, .inl rfl⟩
        | notify => exact ⟨task, todo, .inr rfl⟩
  · rintro ⟨task, todo, rfl | rfl⟩ <;> trivial

/-- With tasks queued, a worker is not parked or a submitter owes a notification. -/
def WakeSound (s : PoolState W) : Prop :=
  s.shared.tasksQueue ≠ [] →
    (∃ i, .worker i ∉ s.shared.sync.parked) ∨ ∃ j, (s.submitter j).OwesNotify

namespace WakeSound

variable {s : PoolState W}

/-- A worker that parks has seen the empty queue, and every other step leaves it awake. -/
theorem step_worker (hs : Sound s) (hq : QueueSound s) {i : Fin W.num} {sh : Shared W.Tid τ}
    {pc : WorkerPc τ} (h : WorkerStep W.process (.worker i) s.shared (s.worker i) sh pc) :
    WakeSound { s with shared := sh, worker := Function.update s.worker i pc } := by
  intro hne
  by_cases hp : .worker i ∈ sh.sync.parked
  · have hpc : pc = .waiting := by
      rcases h.parked hp with ⟨-, hpc⟩ | ⟨hold, hw⟩ | ⟨-, hw⟩
      · exact hpc
      · obtain ⟨k, hk, hwait⟩ := hs.parked _ hold
        obtain rfl := Thread.worker.inj hk
        exact absurd hwait hw
      · exact absurd rfl hw
    subst hpc
    have hok := hq.worker i
    generalize s.worker i = pc0 at h hok
    cases h with
    | park ho => exact absurd hok hne
  · exact .inl ⟨i, hp⟩

theorem step_submitter (hs : Sound s) (hw : WakeSound s) {j : Fin W.submitters}
    {sh : Shared W.Tid τ} {c : Calls τ}
    (h : SubmitStep (.submitter j) s.shared (s.submitter j) sh c) :
    WakeSound { s with shared := sh, submitter := Function.update s.submitter j c } := by
  intro hne
  -- A debt of another submitter stays, and `j` itself keeps one that it has until it notifies.
  have hkeep : sh.tasksQueue = s.shared.tasksQueue → sh.sync.parked ⊆ s.shared.sync.parked →
      ((s.submitter j).OwesNotify → c.OwesNotify) →
      (∃ i, .worker i ∉ sh.sync.parked) ∨
        ∃ k, (Function.update s.submitter j c k).OwesNotify := by
    intro hqueue hpark howes
    rcases hw (hqueue ▸ hne) with ⟨i, hi⟩ | ⟨k, hk⟩
    · exact .inl ⟨i, fun hin => hi (hpark hin)⟩
    · refine .inr ⟨k, ?_⟩
      by_cases hkj : k = j
      · subst hkj
        rw [Function.update_self]
        exact howes hk
      · rwa [Function.update_of_ne hkj]
  generalize s.submitter j = c0 at h hkeep
  cases h with
  | call task todo => exact hkeep rfl (Finset.Subset.refl _) (fun h => h.elim)
  | lock task todo ho => exact hkeep rfl (Finset.Subset.refl _) (fun h => h.elim)
  | push task todo => exact .inr ⟨j, by simp only [Function.update_self]; trivial⟩
  | unlock task todo ho => exact hkeep rfl (Finset.Subset.refl _) (fun _ => trivial)
  | notify task todo pick sync hn =>
      obtain ⟨-, hsub, hempty | ⟨t, ht, hout⟩⟩ := Monitor.notifyOne_spec hn
      · refine .inl ⟨⟨0, W.num_pos⟩, ?_⟩
        intro hin
        have := hsub hin
        rw [hempty] at this
        simp at this
      · obtain ⟨i, rfl, -⟩ := hs.parked t ht
        exact .inl ⟨i, hout⟩

theorem step (hs : Sound s) (hq : QueueSound s) (hw : WakeSound s) {a : Action W}
    {s' : PoolState W} (h : PoolStep s a s') : WakeSound s' := by
  cases h with
  | worker i pick sh pc h => exact step_worker hs hq h
  | submitter j pick sh c h => exact step_submitter hs hw h
  | dtor sh pc h =>
      have hqueue : sh.tasksQueue = s.shared.tasksQueue := by
        generalize s.dtor = d at h
        cases h <;> rfl
      intro hne
      rcases hw (hqueue ▸ hne) with ⟨i, hi⟩ | hj
      · exact .inl ⟨i, fun hin => hi (h.parked_subset hin)⟩
      · exact .inr hj
  | spurious i h => exact fun _ => .inl ⟨i, Finset.notMem_erase _ _⟩

end WakeSound

theorem wakeSound {s : PoolState W} (h : (poolLts W).Reachable s) : WakeSound s :=
  h.induct (by rintro s rfl hne; exact absurd rfl hne)
    (fun _ _ _ hr hw h => hw.step (sound hr) (queueSound hr) (step_sound h))

/-! ### Progress -/

/-- An action of a worker or of a submitter. -/
def Action.IsClient : Action W → Prop
  | .worker _ _ | .submitter _ _ => True
  | .dtor | .spurious _ => False

theorem Action.IsWorker.isClient {i : Fin W.num} {a : Action W} (h : a.IsWorker i) :
    a.IsClient := by
  cases a with
  | worker _ _ | submitter _ _ => trivial
  | dtor | spurious _ => exact h.elim

theorem Action.IsSubmitter.isClient {j : Fin W.submitters} {a : Action W} (h : a.IsSubmitter j) :
    a.IsClient := by
  cases a with
  | worker _ _ | submitter _ _ => trivial
  | dtor | spurious _ => exact h.elim

/-- Work is left: a task is queued, or a `process()` has begun and not returned. -/
def PoolState.Busy (s : PoolState W) : Prop :=
  s.shared.tasksQueue ≠ [] ∨ ∃ i task c, s.worker i = .process task c

/-- Before destruction no worker has exited. -/
theorem ne_exited {s : PoolState W} (hr : (poolLts W).Reachable s) (hd : s.dtor = .idle)
    (i : Fin W.num) : s.worker i ≠ .exited := by
  intro hx
  have := (stopSound hr).leave i (.inr hx)
  rw [(stopSound hr).stop, hd] at this
  cases this

/-- Before destruction, while no task in progress uses the pool, work that is left is
progressed on: a worker or a submitter has an enabled step. -/
theorem client_enabled {s : PoolState W} (hr : (poolLts W).Reachable s) (hd : s.dtor = .idle)
    (hleaf : ∀ i task c, s.worker i = .process task c → c = .idle []) (hb : s.Busy) :
    (poolLts W).Enabled Action.IsClient s := by
  have hs := sound hr
  cases ho : s.shared.sync.owner with
  | some t =>
      have hh := (hs.owner t).mp ho
      cases t with
      | worker i =>
          exact (worker_enabled_of_holds hs (queueSound hr) hh (hleaf i)).mono
            (fun _ => Action.IsWorker.isClient)
      | submitter j =>
          exact (submitter_enabled_of_holds hs hh).mono (fun _ => Action.IsSubmitter.isClient)
      | dtor => rw [PoolState.holds, hd] at hh; cases hh
  | none =>
      have hout : ∀ i, (s.worker i).holds = false := fun i => hs.owner_none (t := .worker i) ho
      have hqueue : s.shared.tasksQueue ≠ [] := by
        rcases hb with hb | ⟨i, task, c, hpc⟩
        · exact hb
        · have := hout i
          rw [hpc] at this
          cases this
      rcases wakeSound hr hqueue with ⟨i, hi⟩ | ⟨j, hj⟩
      · exact (worker_enabled_of_free (hout i) ho hi (ne_exited hr hd i)).mono
          (fun _ => Action.IsWorker.isClient)
      · refine Lts.Enabled.mono ?_ (fun _ => Action.IsSubmitter.isClient (j := j))
        have hfree : (s.submitter j).holds = false := hs.owner_none (t := .submitter j) ho
        obtain ⟨task, todo, hc | hc⟩ := Calls.owesNotify_iff.mp hj
        · rw [hc] at hfree
          cases hfree
        · exact submitter_enabled_of_notify hc

/-- **No wake-up is lost**: before destruction, with a task queued, some worker is awake and
has not exited, or some submitter has pushed and owes its notification.  The pool never rests
with work in its queue. -/
theorem no_lost_wakeup (hW : W.Leaf) {s : PoolState W} (hr : (poolLts W).Reachable s)
    (hd : s.dtor = .idle) (hne : s.shared.tasksQueue ≠ []) :
    ((∃ i, .worker i ∉ s.shared.sync.parked ∧ s.worker i ≠ .exited) ∨
      ∃ j task todo, s.submitter j = .busy .unlock task todo ∨
        s.submitter j = .busy .notify task todo) ∧
      (poolLts W).Enabled Action.IsClient s := by
  refine ⟨?_, client_enabled hr hd (fun _ _ _ => calls_of_leaf hW hr) (.inl hne)⟩
  rcases wakeSound hr hne with ⟨i, hi⟩ | ⟨j, hj⟩
  · exact .inl ⟨i, hi, ne_exited hr hd i⟩
  · exact .inr ⟨j, Calls.owesNotify_iff.mp hj⟩

/-- The one worker is parked when the submitter has pushed: the notification is to come. -/
theorem no_lost_wakeup_parked :
    ∃ s : PoolState oneTask, (poolLts oneTask).Reachable s ∧
      .worker ⟨0, Nat.one_pos⟩ ∈ s.shared.sync.parked ∧
      ((∃ i, .worker i ∉ s.shared.sync.parked ∧ s.worker i ≠ .exited) ∨
        ∃ j task todo, s.submitter j = .busy .unlock task todo ∨
          s.submitter j = .busy .notify task todo) :=
  have h : ((poolLts oneTask).run (.initial oneTask)
    (oneTask.workerSteps 4 ++ oneTask.submitSteps.take 3)).isSome := rfl
  ⟨_, .of_run rfl h, Finset.mem_insert_self _ _,
    (no_lost_wakeup (fun _ _ _ => rfl) (.of_run rfl h) rfl (List.cons_ne_nil _ _)).1⟩

end RedisMigrate
