import RedisMigrate.ThreadPool

/-! # Who owns the mutex of the pool, and who is parked

The control locations of the threads say who owns `queue_mutex` (`PoolState.holds`).  `Sound` is the
invariant of every reachable state: the owner is the one thread whose location says so, a task that
uses the pool never gets past the lock of its first `submit`, and only workers in
`condition.wait` are parked.  `StopSound` ties `stop`, the destructor and the exited workers
together.  Both hold in every reachable state (`sound`, `stopSound`). -/

namespace RedisMigrate

variable {τ : Type*} {W : Workload τ}

/-! ### Owning the mutex -/

def Calls.holds : Calls τ → Bool
  | .busy .push _ _ | .busy .unlock _ _ => true
  | _ => false

/-- Not yet past the lock of a `submit`. -/
def Calls.Outside : Calls τ → Prop
  | .idle _ | .busy .lock _ _ => True
  | _ => False

def WorkerPc.holds : WorkerPc τ → Bool
  | .wait | .park | .check | .front | .pop _ | .test _ | .process _ _ | .unlock => true
  | .head | .leave | .exited | .lock | .waiting => false

def DtorPc.holds : DtorPc → Bool
  | .setStop | .notify | .join _ | .unlock => true
  | .idle | .lock | .returned => false

/-- The location of the thread is inside the critical section. -/
def PoolState.holds (s : PoolState W) : W.Tid → Bool
  | .worker i => (s.worker i).holds
  | .submitter j => (s.submitter j).holds
  | .dtor => s.dtor.holds

theorem SubmitStep.ownerMove {ι : Type*} [DecidableEq ι] {me : ι} {sh sh' : Shared ι τ}
    {c c' : Calls τ} (h : SubmitStep me sh c sh' c') :
    Monitor.OwnerMove me c.holds c'.holds sh.sync.owner sh'.sync.owner := by
  cases h with
  | call task todo => exact .keep rfl rfl
  | lock task todo ho => exact .acquire ho rfl rfl
  | push task todo => exact .keep rfl rfl
  | unlock task todo ho => exact .release ho rfl rfl
  | notify task todo pick sync hn => exact .keep rfl (Monitor.notifyOne_spec hn).1

theorem WorkerStep.ownerMove {ι : Type*} [DecidableEq ι] {process : τ → List (Option τ)} {me : ι}
    {sh sh' : Shared ι τ} {pc pc' : WorkerPc τ} (h : WorkerStep process me sh pc sh' pc')
    (hout : ∀ task c, pc = .process task c → c.Outside) :
    Monitor.OwnerMove me pc.holds pc'.holds sh.sync.owner sh'.sync.owner := by
  cases h with
  | stopUnset _ | stopSet _ | exit | predFalse _ | predTrue _ | checkEmpty _ | checkFull _
  | front _ _ _ | pop _ _ _ _ | testNull | beginTask _ | endTask _ => exact .keep rfl rfl
  | lock ho | reacquire _ ho => exact .acquire ho rfl rfl
  | park ho | unlock ho => exact .release ho rfl rfl
  | nested task c c' _ hc =>
      have hc0 := hout task c rfl
      cases hc with
      | call t todo => exact .keep rfl rfl
      | lock t todo ho => exact .acquire ho rfl rfl
      | push _ _ | unlock _ _ _ | notify _ _ _ _ _ => exact hc0.elim

theorem DtorStep.ownerMove {s : PoolState W} {pc pc' : DtorPc} {sh : Shared W.Tid τ}
    (h : DtorStep s pc sh pc') :
    Monitor.OwnerMove (.dtor : W.Tid) pc.holds pc'.holds s.shared.sync.owner sh.sync.owner := by
  cases h with
  | begin _ | setStop | notify | join _ _ _ | joined _ _ => exact .keep rfl rfl
  | lock ho => exact .acquire ho rfl rfl
  | unlock ho => exact .release ho rfl rfl

/-! ### Parked threads -/

theorem SubmitStep.parked_subset {ι : Type*} [DecidableEq ι] {me : ι} {sh sh' : Shared ι τ}
    {c c' : Calls τ} (h : SubmitStep me sh c sh' c') : sh'.sync.parked ⊆ sh.sync.parked := by
  cases h with
  | call _ _ | lock _ _ _ | push _ _ | unlock _ _ _ => exact Finset.Subset.refl _
  | notify task todo pick sync hn => exact (Monitor.notifyOne_spec hn).2.1

/-- Only a worker that goes into the wait is added to the parked threads. -/
theorem WorkerStep.parked {ι : Type*} [DecidableEq ι] {process : τ → List (Option τ)} {me t : ι}
    {sh sh' : Shared ι τ} {pc pc' : WorkerPc τ} (h : WorkerStep process me sh pc sh' pc')
    (ht : t ∈ sh'.sync.parked) : t = me ∧ pc' = .waiting ∨ t ∈ sh.sync.parked ∧ pc ≠ .waiting ∨
      t ∈ sh.sync.parked ∧ t ≠ me := by
  cases h with
  | park ho =>
      rcases Finset.mem_insert.mp ht with rfl | ht
      · exact .inl ⟨rfl, rfl⟩
      · exact .inr (.inl ⟨ht, by simp⟩)
  | reacquire hp ho => exact .inr (.inr ⟨ht, fun heq => hp (heq ▸ ht)⟩)
  | nested task c c' _ hc => exact .inr (.inl ⟨hc.parked_subset ht, by simp⟩)
  | _ => exact .inr (.inl ⟨ht, by simp⟩)

theorem DtorStep.parked_subset {s : PoolState W} {pc pc' : DtorPc} {sh : Shared W.Tid τ}
    (h : DtorStep s pc sh pc') : sh.sync.parked ⊆ s.shared.sync.parked := by
  cases h with
  | notify => exact Finset.empty_subset _
  | _ => exact Finset.Subset.refl _

/-! ### The invariant -/

structure Sound (s : PoolState W) : Prop where
  owner : ∀ t, s.shared.sync.owner = some t ↔ s.holds t = true
  outside : ∀ i task c, s.worker i = .process task c → c.Outside
  parked : ∀ t ∈ s.shared.sync.parked, ∃ i, t = .worker i ∧ s.worker i = .waiting

namespace Sound

theorem initial : Sound (.initial W) where
  owner t := by cases t <;> simp [PoolState.initial, PoolState.holds, Monitor.free, WorkerPc.holds,
    Calls.holds, DtorPc.holds]
  outside i task c h := by cases h
  parked t ht := by simp [PoolState.initial, Monitor.free] at ht

variable {s : PoolState W} (hs : Sound s)
include hs

theorem owner_none {t : W.Tid} (h : s.shared.sync.owner = none) : s.holds t = false := by
  rw [← Bool.not_eq_true, ← hs.owner t, h]
  simp

/-- Two threads are never both inside the critical section. -/
theorem holds_unique {t u : W.Tid} (h : s.holds t = true) (h' : s.holds u = true) : t = u :=
  Option.some.inj (((hs.owner t).mpr h).symm.trans ((hs.owner u).mpr h'))

/-- A worker in `process()` owns the mutex, so the lock of a nested `submit` is not free. -/
theorem nested_call {i : Fin W.num} {task : τ} {c c' : Calls τ} {sh : Shared W.Tid τ}
    (hpc : s.worker i = .process task c) (h : SubmitStep (.worker i) s.shared c sh c') :
    sh = s.shared ∧ c.Outside ∧ c'.Outside := by
  have hout := hs.outside i task c hpc
  have hown : s.shared.sync.owner = some (.worker i) :=
    (hs.owner (.worker i)).mpr (by rw [PoolState.holds, hpc]; rfl)
  cases h with
  | call _ _ => exact ⟨rfl, trivial, trivial⟩
  | lock _ _ ho => rw [hown] at ho; cases ho
  | push _ _ | unlock _ _ _ | notify _ _ _ _ _ => exact hout.elim

theorem not_owner {i : Fin W.num} (h : (s.worker i).holds = false) :
    s.shared.sync.owner ≠ some (.worker i) := by
  rw [Ne, hs.owner (.worker i), PoolState.holds, h]
  simp

theorem worker_owner {i : Fin W.num} (h : (s.worker i).holds = true) :
    s.shared.sync.owner = some (.worker i) := (hs.owner (.worker i)).mpr h

theorem step_worker {i : Fin W.num} {sh : Shared W.Tid τ} {pc : WorkerPc τ}
    (h : WorkerStep W.process (.worker i) s.shared (s.worker i) sh pc) :
    Sound { s with shared := sh, worker := Function.update s.worker i pc } where
  owner := by
    apply Monitor.OwnerMove.owned (.worker i) hs.owner
    · simpa [PoolState.holds] using h.ownerMove (hs.outside i)
    · rintro (k | j | -) hne
      · have hk : k ≠ i := fun heq => hne (heq ▸ rfl)
        simp [PoolState.holds, hk]
      · rfl
      · rfl
  outside := by
    apply (Function.forall_update_iff s.worker
      fun _ pc => ∀ task c, pc = .process task c → c.Outside).mpr
    refine ⟨?_, fun k _ => hs.outside k⟩
    rintro task c rfl
    generalize hpc : s.worker i = pc0 at h
    cases h with
    | beginTask task => trivial
    | nested task c c' sh hc => exact (hs.nested_call hpc hc).2.2
  parked t ht := by
    have hold : t ∈ s.shared.sync.parked → s.worker i ≠ .waiting ∨ t ≠ .worker i →
        ∃ k, t = .worker k ∧ Function.update s.worker i pc k = .waiting := by
      intro hp hor
      obtain ⟨k, rfl, hk⟩ := hs.parked t hp
      have hki : k ≠ i := by
        rintro rfl
        rcases hor with h | h
        · exact h hk
        · exact h rfl
      exact ⟨k, rfl, by rw [Function.update_of_ne hki, hk]⟩
    rcases h.parked ht with ⟨rfl, rfl⟩ | ⟨hp, hne⟩ | ⟨hp, hne⟩
    · exact ⟨i, rfl, Function.update_self ..⟩
    · exact hold hp (.inl hne)
    · exact hold hp (.inr hne)

theorem step_submitter {j : Fin W.submitters} {sh : Shared W.Tid τ} {c : Calls τ}
    (h : SubmitStep (.submitter j) s.shared (s.submitter j) sh c) :
    Sound { s with shared := sh, submitter := Function.update s.submitter j c } where
  owner := by
    apply Monitor.OwnerMove.owned (.submitter j) hs.owner
    · simpa [PoolState.holds] using h.ownerMove
    · rintro (i | k | -) hne
      · rfl
      · have hk : k ≠ j := fun heq => hne (heq ▸ rfl)
        simp [PoolState.holds, hk]
      · rfl
  outside := hs.outside
  parked t ht := hs.parked t (h.parked_subset ht)

theorem step_dtor {sh : Shared W.Tid τ} {pc : DtorPc} (h : DtorStep s s.dtor sh pc) :
    Sound { s with shared := sh, dtor := pc } where
  owner := by
    apply Monitor.OwnerMove.owned .dtor hs.owner
    · simpa [PoolState.holds] using h.ownerMove
    · rintro (i | k | -) hne
      · rfl
      · rfl
      · exact absurd rfl hne
  outside := hs.outside
  parked t ht := hs.parked t (h.parked_subset ht)

theorem step {a : Action W} {s' : PoolState W} (h : PoolStep s a s') : Sound s' := by
  cases h with
  | worker i pick sh pc h => exact hs.step_worker h
  | submitter j pick sh c h => exact hs.step_submitter h
  | dtor sh pc h => exact hs.step_dtor h
  | spurious i h =>
      exact ⟨hs.owner, hs.outside, fun t ht => hs.parked t (Finset.mem_of_mem_erase ht)⟩

end Sound

/-- Every reachable state is sound. -/
theorem sound {s : PoolState W} (h : (poolLts W).Reachable s) : Sound s :=
  h.induct (by rintro s rfl; exact .initial) (fun _ _ _ _ hs h => hs.step (step_sound h))

/-! ### Stopping -/

/-- `stop` has been set. -/
def DtorPc.stopped : DtorPc → Bool
  | .notify | .join _ | .unlock | .returned => true
  | .idle | .lock | .setStop => false

/-- How many of `n` workers have been joined. -/
def DtorPc.joined (n : ℕ) : DtorPc → ℕ
  | .join k => k
  | .unlock | .returned => n
  | .idle | .lock | .setStop | .notify => 0

theorem SubmitStep.stop_eq {ι : Type*} [DecidableEq ι] {me : ι} {sh sh' : Shared ι τ}
    {c c' : Calls τ} (h : SubmitStep me sh c sh' c') : sh'.stop = sh.stop := by
  cases h <;> rfl

theorem WorkerStep.stop_eq {ι : Type*} [DecidableEq ι] {process : τ → List (Option τ)} {me : ι}
    {sh sh' : Shared ι τ} {pc pc' : WorkerPc τ} (h : WorkerStep process me sh pc sh' pc') :
    sh'.stop = sh.stop := by
  cases h with
  | nested task c c' _ hc => exact hc.stop_eq
  | _ => rfl

/-- A worker leaves its loop only when it has read `stop`. -/
theorem WorkerStep.leaves {ι : Type*} [DecidableEq ι] {process : τ → List (Option τ)} {me : ι}
    {sh sh' : Shared ι τ} {pc pc' : WorkerPc τ} (h : WorkerStep process me sh pc sh' pc')
    (hl : pc' = .leave ∨ pc' = .exited) : sh.stop = true ∨ pc = .leave := by
  cases h with
  | stopSet hs => exact .inl hs
  | exit => exact .inr rfl
  | _ => simp at hl

theorem WorkerStep.ne_exited {ι : Type*} [DecidableEq ι] {process : τ → List (Option τ)} {me : ι}
    {sh sh' : Shared ι τ} {pc pc' : WorkerPc τ} (h : WorkerStep process me sh pc sh' pc') :
    pc ≠ .exited := by
  cases h <;> simp

theorem SubmitStep.ne_done {ι : Type*} [DecidableEq ι] {me : ι} {sh sh' : Shared ι τ}
    {c c' : Calls τ} (h : SubmitStep me sh c sh' c') : c ≠ .idle [] := by
  cases h <;> simp

structure StopSound (s : PoolState W) : Prop where
  stop : s.shared.stop = s.dtor.stopped
  leave : ∀ i, s.worker i = .leave ∨ s.worker i = .exited → s.shared.stop = true
  done : s.dtor ≠ .idle → ∀ j, s.submitter j = .idle []
  joined : ∀ i : Fin W.num, i.val < s.dtor.joined W.num → s.worker i = .exited

namespace StopSound

theorem initial : StopSound (.initial W) where
  stop := rfl
  leave i h := by simp [PoolState.initial] at h
  done h := absurd rfl h
  joined i h := by simp [PoolState.initial, DtorPc.joined] at h

variable {s : PoolState W} (hs : StopSound s)
include hs

theorem step_worker {i : Fin W.num} {sh : Shared W.Tid τ} {pc : WorkerPc τ}
    (h : WorkerStep W.process (.worker i) s.shared (s.worker i) sh pc) :
    StopSound { s with shared := sh, worker := Function.update s.worker i pc } where
  stop := h.stop_eq.trans hs.stop
  leave := by
    apply (Function.forall_update_iff s.worker
      fun _ pc => pc = .leave ∨ pc = .exited → sh.stop = true).mpr
    rw [h.stop_eq]
    refine ⟨?_, fun k _ => hs.leave k⟩
    intro hpc
    exact (h.leaves hpc).elim id (fun hl => hs.leave i (.inl hl))
  done := hs.done
  joined k hk := by
    have hx := hs.joined k hk
    have hki : k ≠ i := fun heq => h.ne_exited (heq ▸ hx)
    simpa only [Function.update_of_ne hki] using hx

theorem step_submitter {j : Fin W.submitters} {sh : Shared W.Tid τ} {c : Calls τ}
    (h : SubmitStep (.submitter j) s.shared (s.submitter j) sh c) :
    StopSound { s with shared := sh, submitter := Function.update s.submitter j c } where
  stop := h.stop_eq.trans hs.stop
  leave i hi := h.stop_eq.trans (hs.leave i hi)
  done hd := absurd (hs.done hd j) h.ne_done
  joined := hs.joined

theorem step_dtor {sh : Shared W.Tid τ} {pc : DtorPc} (h : DtorStep s s.dtor sh pc) :
    StopSound { s with shared := sh, dtor := pc } := by
  obtain ⟨hstop, hleave, hdone, hjoined⟩ := hs
  generalize hd : s.dtor = d at h hstop hdone hjoined
  cases h with
  | begin hj => exact ⟨hstop, hleave, fun _ j => Calls.done_iff.mp (hj j), hjoined⟩
  | lock ho => exact ⟨hstop, hleave, fun _ => hdone (by simp), hjoined⟩
  | setStop => exact ⟨rfl, fun _ _ => rfl, fun _ => hdone (by simp), hjoined⟩
  | notify => exact ⟨hstop, hleave, fun _ => hdone (by simp), hjoined⟩
  | join k hk hx =>
      refine ⟨hstop, hleave, fun _ => hdone (by simp), ?_⟩
      intro i hi
      rcases Nat.lt_succ_iff_lt_or_eq.mp hi with hi | hi
      · exact hjoined i hi
      · rwa [show i = ⟨k, hk⟩ from Fin.ext hi]
  | joined k hk =>
      exact ⟨hstop, hleave, fun _ => hdone (by simp), fun i _ => hjoined i (i.isLt.trans_le hk)⟩
  | unlock ho => exact ⟨hstop, hleave, fun _ => hdone (by simp), hjoined⟩

theorem step {a : Action W} {s' : PoolState W} (h : PoolStep s a s') : StopSound s' := by
  cases h with
  | worker i pick sh pc h => exact hs.step_worker h
  | submitter j pick sh c h => exact hs.step_submitter h
  | dtor sh pc h => exact hs.step_dtor h
  | spurious i h => exact ⟨hs.stop, hs.leave, hs.done, hs.joined⟩

end StopSound

theorem stopSound {s : PoolState W} (h : (poolLts W).Reachable s) : StopSound s :=
  h.induct (by rintro s rfl; exact .initial) (fun _ _ _ _ hs h => hs.step (step_sound h))

end RedisMigrate
