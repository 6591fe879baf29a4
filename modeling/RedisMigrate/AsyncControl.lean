import RedisMigrate.AsyncTraffic

/-! # The control of an asynchronous client

As long as no connect or disconnect callback frees the context, there is at most one function of the
library on the stack, with at most one callback of the user on top of it, and `FrameOk` says what
holds while that function is there.  `async_ok` is the invariant over all runs.

* `async_safe`: in a run without a risky call, the assertion of `__redisAsyncDisconnect` fails
  exactly when a write has to be tried again while callbacks wait, and nothing is used after it was
  freed.
* `callbacks_run_once`: the callback of every command is shifted once, before the context
  is freed. -/

namespace RedisMigrate

namespace AsyncFrame

/-- The callbacks of the user. -/
def isUser : AsyncFrame → Bool
  | callback | hook => true
  | _ => false

/-- The functions that run reply callbacks. -/
def calls : AsyncFrame → Bool
  | processing _ | afterReply _ | timeout | freeReplies | freeInvalid | freeSubs _ _ => true
  | _ => false

/-- The functions that run a connect or disconnect callback. -/
def hooks : AsyncFrame → Bool
  | connecting _ | connectFailed | timeout | freeEnd => true
  | _ => false

/-- The parts of `__redisAsyncFree`. -/
def isFree : AsyncFrame → Bool
  | freeReplies | freeInvalid | freeSubs _ _ | freeHook | freeEnd => true
  | _ => false

/-- The parts after the loop over the regular callbacks. -/
def isDrained : AsyncFrame → Bool
  | freeInvalid | freeSubs _ _ | freeHook | freeEnd => true
  | _ => false

/-- The parts after the release of a dictionary. -/
def released : AsyncFrame → Bool → Bool
  | freeSubs pvariant _, p => pvariant && !p
  | freeHook, _ => true
  | freeEnd, _ => true
  | _, _ => false

theorem isFree_of_isDrained {f : AsyncFrame} (h : f.isDrained = true) : f.isFree = true := by
  cases f <;> first | rfl | cases h

theorem isFree_of_released {f : AsyncFrame} {p : Bool} (h : f.released p = true) :
    f.isFree = true := by
  cases f <;> first | rfl | cases h

end AsyncFrame

inductive StackShape : List AsyncFrame → Prop
  | idle : StackShape []
  | one {f : AsyncFrame} : f.isUser = false → StackShape [f]
  | callback {f : AsyncFrame} : f.calls = true → f.isUser = false → StackShape [.callback, f]
  | hook {f : AsyncFrame} : f.hooks = true → f.isUser = false → StackShape [.hook, f]

/-- What holds while `f` is on the stack. -/
structure FrameOk (ac : RedisAsyncContext) (teardownOpen : Bool) (f : AsyncFrame) : Prop where
  failed : f = .connectFailed ∨ f = .timeout → ac.c.err ≠ none
  shut : f.isFree = true → teardownOpen = false → ac.shut = true
  drained : f.isDrained = true → teardownOpen = false → ac.replies = []
  dicts : ∀ p, ac.sub.dict p = none → f.released p = true

structure Async.Ok (s : Async) : Prop where
  shape : StackShape s.stack
  inCallback : s.ac.inCallback = true ↔ s.stack.head? = some .callback
  bottom : ∀ f, s.stack.getLast? = some f → FrameOk s.ac s.teardownOpen f
  idle : s.stack = [] → s.live = true → ∀ p, s.ac.sub.dict p ≠ none
  dead : s.live = false →
    s.stack = [] ∧ (s.teardownOpen = false → s.ac.shut = true ∧ s.ac.replies = [])

section lemmas

variable {ac ac' : RedisAsyncContext} {o : Bool} {f : AsyncFrame} {s t : Async}

/-- A frame that has nothing to do with errors or with the end of the context. -/
theorem FrameOk.plain (hf : f ≠ .connectFailed ∧ f ≠ .timeout ∧ f.isFree = false)
    (hd : ∀ p, ac.sub.dict p ≠ none) : FrameOk ac o f where
  failed h := (h.elim hf.1 hf.2.1).elim
  shut h := by simp [hf.2.2] at h
  drained h := by
    have hfree := AsyncFrame.isFree_of_isDrained h
    simp [hf.2.2] at hfree
  dicts p h := absurd h (hd p)

theorem FrameOk.update (h : FrameOk ac o f) (herr : ac.c.err ≠ none → ac'.c.err ≠ none)
    (hshut : ac.shut = true → ac'.shut = true)
    (hreplies : ac.shut = true → ac.replies = [] → ac'.replies = [])
    (hdict : ∀ p, ac'.sub.dict p = none → ac.sub.dict p = none) : FrameOk ac' o f where
  failed hf := herr (h.failed hf)
  shut hf ho := hshut (h.shut hf ho)
  drained hf ho := hreplies (h.shut (AsyncFrame.isFree_of_isDrained hf) ho) (h.drained hf ho)
  dicts p hp := h.dicts p (hdict p hp)

/-- A step that leaves the stack alone. -/
theorem Async.Ok.update (h : s.Ok) (hstack : t.stack = s.stack) (hlive : t.live = s.live)
    (hopen : t.teardownOpen = s.teardownOpen) (hin : t.ac.inCallback = s.ac.inCallback)
    (herr : s.ac.c.err ≠ none → t.ac.c.err ≠ none) (hshut : s.ac.shut = true → t.ac.shut = true)
    (hreplies : s.ac.shut = true → s.ac.replies = [] → t.ac.replies = [])
    (hdict : ∀ p, t.ac.sub.dict p = none → s.ac.sub.dict p = none) : t.Ok where
  shape := hstack ▸ h.shape
  inCallback := by rw [hin, hstack]; exact h.inCallback
  bottom f hf := by
    rw [hstack] at hf
    rw [hopen]
    exact (h.bottom f hf).update herr hshut hreplies hdict
  idle hnil hl p hp := h.idle (hstack ▸ hnil) (hlive ▸ hl) p (hdict p hp)
  dead hl := by
    obtain ⟨hnil, hend⟩ := h.dead (hlive ▸ hl)
    refine ⟨hstack ▸ hnil, fun ho => ?_⟩
    obtain ⟨hs, hr⟩ := hend (hopen ▸ ho)
    exact ⟨hshut hs, hreplies hs hr⟩

/-- The base of a step: no function is on the stack. -/
structure Async.Bare (s : Async) : Prop where
  stack : s.stack = []
  live : s.live = true
  inCallback : s.ac.inCallback = false

theorem Async.Bare.push (h : s.Bare) (hf : f.isUser = false)
    (hok : FrameOk s.ac s.teardownOpen f) : (s.push f).Ok where
  shape := by
    show StackShape (f :: s.stack)
    rw [h.stack]
    exact .one hf
  inCallback := by
    have hne : f ≠ .callback := fun heq => by simp [heq, AsyncFrame.isUser] at hf
    simp [Async.push, h.inCallback, hne]
  bottom g hg := by
    simp only [Async.push, h.stack, List.getLast?_singleton, Option.some.injEq] at hg
    exact hg ▸ hok
  idle hnil := by simp [Async.push] at hnil
  dead hl := by simp [Async.push, h.live] at hl

theorem Async.Bare.pushHook (h : s.Bare) (hh : f.hooks = true) (hf : f.isUser = false)
    (hok : FrameOk s.ac s.teardownOpen f) : ((s.push f).push .hook).Ok where
  shape := by
    show StackShape (.hook :: f :: s.stack)
    rw [h.stack]
    exact .hook hh hf
  inCallback := by simp [Async.push, h.inCallback]
  bottom g hg := by
    simp only [Async.push, h.stack, List.getLast?_cons_cons, List.getLast?_singleton,
      Option.some.injEq] at hg
    exact hg ▸ hok
  idle hnil := by simp [Async.push] at hnil
  dead hl := by simp [Async.push, h.live] at hl

/-- A function that runs a callback of the user, unless that is `NULL`. -/
theorem Async.Bare.runCallback {isNull : Bool} (h : s.Bare) (hcalls : f.calls = true)
    (hf : f.isUser = false) (hok : FrameOk s.ac s.teardownOpen f) :
    ((s.push f).runCallback isNull).Ok := by
  cases isNull with
  | true => exact h.push hf hok
  | false =>
      refine ⟨?_, by simp [Async.runCallback, Async.push], fun g hg => ?_, ?_, ?_⟩
      · show StackShape (.callback :: f :: s.stack)
        rw [h.stack]
        exact .callback hcalls hf
      · simp only [Async.runCallback, Async.push, h.stack, if_neg, Bool.false_eq_true,
          List.getLast?_cons_cons, List.getLast?_singleton, Option.some.injEq, not_false_eq_true]
          at hg
        subst hg
        exact hok.update id id (fun _ => id) fun _ => id
      · intro hnil
        simp [Async.runCallback, Async.push] at hnil
      · intro hl
        simp [Async.runCallback, Async.push, h.live] at hl

theorem Async.Bare.runReply {cb : RedisCallback} (h : s.Bare)
    (hd : ∀ p, s.ac.sub.dict p ≠ none) : (s.runReply cb).Ok := by
  unfold Async.runReply
  split_ifs
  · exact h.push rfl (.plain ⟨nofun, nofun, rfl⟩ hd)
  · exact h.runCallback (f := .afterReply cb) rfl rfl (.plain ⟨nofun, nofun, rfl⟩ hd)

/-- Nothing is on the stack. -/
theorem Async.Bare.ok (h : s.Bare) (hd : ∀ p, s.ac.sub.dict p ≠ none) : s.Ok where
  shape := h.stack ▸ .idle
  inCallback := by simp [h.stack, h.inCallback]
  bottom f hf := by simp [h.stack] at hf
  idle _ _ := hd
  dead hl := by simp [h.live] at hl

theorem Async.Bare.startFree (h : s.Bare) (hd : ∀ p, s.ac.sub.dict p ≠ none) : s.startFree.Ok where
  shape := by
    show StackShape (.freeReplies :: s.stack)
    rw [h.stack]
    exact .one rfl
  inCallback := by simp [Async.startFree, h.inCallback]
  bottom f hf := by
    simp only [Async.startFree, h.stack, List.getLast?_singleton, Option.some.injEq] at hf
    subst hf
    refine ⟨fun h => by simp at h, fun _ ho => ?_, nofun, fun p hp => absurd hp (hd p)⟩
    simp only [Async.startFree, Bool.or_eq_false_iff, Bool.not_eq_false'] at ho
    exact ho.2
  idle hnil := by simp [Async.startFree] at hnil
  dead hl := by simp [Async.startFree, h.live] at hl

theorem Ended.ok (he : Ended s t) (h : s.Bare) (hd : ∀ p, s.ac.sub.dict p ≠ none)
    (hc : t.crash = none) : t.Ok := by
  cases he with
  | aborted _ _ hcrash => simp [hcrash] at hc
  | kept _ _ => exact Async.Bare.ok ⟨h.stack, h.live, h.inCallback⟩ hd
  | freed _ _ => exact Async.Bare.startFree ⟨h.stack, h.live, h.inCallback⟩ hd

end lemmas

/-! ### A connect or disconnect callback that frees the context -/

section hookFreed

variable {strtod : Strtod} {s t : Async}

@[simp] theorem Async.push_hookFreed (s : Async) (f : AsyncFrame) :
    (s.push f).hookFreed = s.hookFreed := rfl

@[simp] theorem Async.runCallback_hookFreed (s : Async) (isNull : Bool) :
    (s.runCallback isNull).hookFreed = s.hookFreed := by
  unfold Async.runCallback
  split_ifs <;> rfl

@[simp] theorem Async.runReply_hookFreed (s : Async) (cb : RedisCallback) :
    (s.runReply cb).hookFreed = s.hookFreed := by
  unfold Async.runReply
  split_ifs
  · rfl
  · exact Async.runCallback_hookFreed _ _

theorem Async.startFree_hookFreed (h : s.startFree.hookFreed = false) :
    s.hookFreed = false ∧ s.stack.head? ≠ some .hook := by
  simp only [Async.startFree, Bool.or_eq_false_iff] at h
  refine ⟨h.1, fun hhead => ?_⟩
  simp [hhead] at h

theorem Ended.hookFreed (he : Ended s t) (hc : t.crash = none) (h : t.hookFreed = false) :
    s.hookFreed = false := by
  cases he with
  | aborted _ _ hcrash => simp [hcrash] at hc
  | kept _ _ => exact h
  | freed _ _ => exact (Async.startFree_hookFreed h).1

theorem Processed.hookFreed (hp : Processed strtod s t) (hc : t.crash = none)
    (h : t.hookFreed = false) : s.hookFreed = false := by
  cases hp with
  | crashed hcrash _ => simp [hcrash] at hc
  | failed _ he => exact he.hookFreed hc h
  | drained _ _ _ he => exact he.hookFreed hc h
  | refused _ _ _ _ _ he => exact he.hookFreed hc h
  | _ => simpa using h

theorem WentOn.hookFreed {f : AsyncFrame} (hw : WentOn strtod s f t) (hc : t.crash = none)
    (h : t.hookFreed = false) : s.hookFreed = false := by
  cases hw with
  | processing hp => exact hp.hookFreed hc h
  | freed _ => exact (Async.startFree_hookFreed h).1
  | connectFailed he => exact he.hookFreed hc h
  | timedOut _ he => exact he.hookFreed hc h
  | subsCrashed hcrash _ _ => simp [hcrash] at hc
  | null _ _ => simpa [Async.runNull] using h
  | invalid _ => simpa [Async.runNull] using h
  | visit _ _ => simpa [Async.runNull] using h
  | _ => exact h

theorem AsyncStep.hookFreed {call : AsyncCall} (hs : AsyncStep strtod s call t)
    (hc : t.crash = none) (h : t.hookFreed = false) : s.hookFreed = false := by
  cases hs with
  | command _ hcmd =>
      cases hcmd with
      | crashed _ hcrash _ => simp [hcrash] at hc
      | _ => exact h
  | free _ =>
      unfold Async.userFree at h
      dsimp only at h
      split_ifs at h
      · exact h
      · exact (Async.startFree_hookFreed h).1
  | disconnect _ =>
      unfold Async.userDisconnect at h hc
      dsimp only at h hc
      by_cases hidle : s.ac.inCallback = false ∧ s.ac.replies = []
      · rw [if_pos hidle] at h hc
        have he := disconnect_ended
          { s with ac := { s.ac with disconnecting := true, noAutoFree := false } }
        exact he.hookFreed hc h
      · rw [if_neg hidle] at h
        exact h
  | handleIo _ _ hio =>
      cases hio with
      | failed he => exact he.hookFreed hc h
      | _ => exact h
  | handleTimeout _ _ htime => cases htime <;> exact h
  | read _ _ hread =>
      cases hread with
      | processing _ => exact h
      | failed _ he => exact he.hookFreed hc h
  | write _ _ hwrite =>
      cases hwrite with
      | done _ _ => exact h
      | failed _ _ he => exact he.hookFreed hc h
  | go _ _ hgo => exact hgo.hookFreed hc h
  | dead _ _ hcrash => simp [hcrash] at hc
  | _ => exact h

end hookFreed

/-! ### The invariant -/

section invariant

variable {strtod : Strtod} {printf : Printf} {alloc : Allocator} {s t : Async} {f : AsyncFrame}
  {rest : List AsyncFrame}

theorem FrameOk.dicts_ne {ac : RedisAsyncContext} {o : Bool} (h : FrameOk ac o f)
    (hf : ∀ p, f.released p = false) (p : Bool) : ac.sub.dict p ≠ none := by
  intro hp
  have hrel := h.dicts p hp
  simp [hf p] at hrel

/-- A function of the library goes on: it was alone on the stack. -/
theorem Async.Ok.bare (h : s.Ok) (hlive : s.live = true) (hstack : s.stack = f :: rest)
    (hf : f.isUser = false) :
    Async.Bare { s with stack := rest } ∧ FrameOk s.ac s.teardownOpen f := by
  have hrest : rest = [] := by
    have hshape := h.shape
    rw [hstack] at hshape
    cases hshape with
    | one _ => rfl
    | callback _ _ => cases hf
    | hook _ _ => cases hf
  subst hrest
  refine ⟨⟨rfl, hlive, ?_⟩, h.bottom f (by rw [hstack]; rfl)⟩
  cases hin : s.ac.inCallback with
  | false => rfl
  | true =>
      have hhead := h.inCallback.mp hin
      rw [hstack] at hhead
      cases hhead
      cases hf

/-- The user makes a call at top level, unless it is in a callback. -/
theorem Async.Ok.bare_of_userTurn (h : s.Ok) (hu : s.userTurn = true)
    (hin : s.ac.inCallback = false) (hhook : s.stack.head? ≠ some .hook) : s.Bare := by
  obtain ⟨hlive, hturn⟩ := Bool.and_eq_true_iff.mp hu
  refine ⟨?_, hlive, hin⟩
  split at hturn
  · assumption
  · rename_i hstack
    have := h.inCallback.mpr (by rw [hstack]; rfl)
    simp [hin] at this
  · rename_i hstack
    rw [hstack] at hhook
    exact absurd rfl hhook
  · cases hturn

theorem Async.Ok.bare_of_idle (h : s.Ok) (hlive : s.live = true) (hstack : s.stack = []) :
    s.Bare := by
  refine ⟨hstack, hlive, ?_⟩
  cases hin : s.ac.inCallback with
  | false => rfl
  | true =>
      have hhead := h.inCallback.mp hin
      simp [hstack] at hhead

theorem Commanded.ok (hcmd : Commanded s t) (h : s.Ok) (hc : t.crash = none) : t.Ok := by
  cases hcmd with
  | refused => exact h
  | crashed _ hcrash _ => simp [hcrash] at hc
  | outOfMemory hshut hdict =>
      refine h.update rfl rfl rfl rfl (fun _ => by simp [redisSetError]) id
        (fun hs => by simp [hshut] at hs) fun p => (hdict p).mp
  | appended text cb hshut _ _ hdict =>
      exact h.update rfl rfl rfl rfl id id (fun hs => by simp [hshut] at hs) fun p => (hdict p).mp

theorem userFree_bare (h : s.Ok) (hu : s.userTurn = true) (hin : s.ac.inCallback = false)
    (hhook : s.userFree.hookFreed = false) : s.Bare := by
  unfold Async.userFree at hhook
  rw [if_neg (by simp [hin])] at hhook
  exact h.bare_of_userTurn hu hin (Async.startFree_hookFreed hhook).2

theorem userFree_ok (h : s.Ok) (hu : s.userTurn = true) (hhook : s.userFree.hookFreed = false) :
    s.userFree.Ok := by
  cases hin : s.ac.inCallback with
  | true =>
      rw [Async.userFree, if_pos hin]
      exact h.update rfl rfl rfl rfl id (fun _ => by simp [RedisAsyncContext.shut]) (fun _ => id)
        fun _ => id
  | false =>
      have hbare := userFree_bare h hu hin hhook
      rw [Async.userFree, if_neg (by simp [hin])]
      exact Async.Bare.startFree ⟨hbare.stack, hbare.live, hbare.inCallback⟩
        (h.idle hbare.stack hbare.live)

theorem userDisconnect_bare (h : s.Ok) (hu : s.userTurn = true)
    (hidle : s.ac.inCallback = false ∧ s.ac.replies = [])
    (hhook : s.userDisconnect.hookFreed = false) (hc : s.userDisconnect.crash = none) : s.Bare := by
  unfold Async.userDisconnect at hhook hc
  rw [if_pos hidle] at hhook hc
  have hend := disconnect_ended
    { s with ac := { s.ac with disconnecting := true, noAutoFree := false } }
  apply h.bare_of_userTurn hu hidle.1
  generalize Async.disconnect _ = u at hend hhook hc
  cases hend with
  | aborted _ _ hcrash => simp [hcrash] at hc
  | kept hauto _ => cases hauto
  | freed _ _ => exact (Async.startFree_hookFreed hhook).2

theorem userDisconnect_ok (h : s.Ok) (hu : s.userTurn = true)
    (hhook : s.userDisconnect.hookFreed = false) (hc : s.userDisconnect.crash = none) :
    s.userDisconnect.Ok := by
  by_cases hidle : s.ac.inCallback = false ∧ s.ac.replies = []
  · have hbare := userDisconnect_bare h hu hidle hhook hc
    have hend := disconnect_ended
      { s with ac := { s.ac with disconnecting := true, noAutoFree := false } }
    unfold Async.userDisconnect at hc ⊢
    rw [if_pos hidle] at hc ⊢
    exact hend.ok ⟨hbare.stack, hbare.live, hbare.inCallback⟩ (h.idle hbare.stack hbare.live) hc
  · rw [Async.userDisconnect, if_neg hidle]
    exact h.update rfl rfl rfl rfl id (fun _ => by simp [RedisAsyncContext.shut]) (fun _ => id)
      fun _ => id

theorem HandledIo.ok {write : Bool} (hio : HandledIo s write t) (h : s.Bare)
    (hd : ∀ p, s.ac.sub.dict p ≠ none) (hc : t.crash = none) : t.Ok := by
  cases hio with
  | waiting => exact h.ok hd
  | connected =>
      refine Async.Bare.push ⟨h.stack, h.live, h.inCallback⟩ ?_ (.plain ?_ hd)
      · cases write <;> rfl
      · cases write <;> exact ⟨nofun, nofun, rfl⟩
  | hook => exact h.pushHook rfl rfl (.plain ⟨nofun, nofun, rfl⟩ hd)
  | failedHook =>
      refine Async.Bare.pushHook ⟨h.stack, h.live, h.inCallback⟩ rfl rfl
        ⟨fun _ => ?_, nofun, nofun, fun p hp => absurd hp (hd p)⟩
      simp [redisSetError]
  | failed he => exact he.ok ⟨h.stack, h.live, h.inCallback⟩ hd hc

theorem TimedOut.ok (ht : TimedOut s t) (h : s.Bare) (hd : ∀ p, s.ac.sub.dict p ≠ none) : t.Ok := by
  cases ht with
  | idle => exact h.ok hd
  | started herr _ =>
      exact Async.Bare.push ⟨h.stack, h.live, h.inCallback⟩ rfl
        ⟨fun _ => herr, nofun, nofun, fun p hp => absurd hp (hd p)⟩
  | hook herr _ =>
      exact Async.Bare.pushHook ⟨h.stack, h.live, h.inCallback⟩ rfl rfl
        ⟨fun _ => herr, nofun, nofun, fun p hp => absurd hp (hd p)⟩

theorem Processed.ok (hp : Processed strtod s t) (h : s.Bare)
    (hd : ∀ p, s.ac.sub.dict p ≠ none) (hc : t.crash = none) : t.Ok := by
  cases hp with
  | crashed hcrash _ => simp [hcrash] at hc
  | failed _ he => exact he.ok ⟨h.stack, h.live, h.inCallback⟩ hd hc
  | drained _ _ _ he => exact he.ok ⟨h.stack, h.live, h.inCallback⟩ hd hc
  | again cbs _ _ => exact Async.Bare.ok ⟨h.stack, h.live, h.inCallback⟩ hd
  | stopped _ => exact Async.Bare.ok ⟨h.stack, h.live, h.inCallback⟩ hd
  | spontaneous cb isNull _ _ =>
      exact Async.Bare.runCallback ⟨h.stack, h.live, h.inCallback⟩ (f := .processing cb) rfl rfl
        (.plain ⟨nofun, nofun, rfl⟩ hd)
  | answered _ _ _ => exact Async.Bare.runReply ⟨h.stack, h.live, h.inCallback⟩ hd
  | refused _ _ _ _ _ he => exact he.ok ⟨h.stack, h.live, h.inCallback⟩ hd hc
  | message cb _ _ _ _ _ hdict _ =>
      exact Async.Bare.runReply ⟨h.stack, h.live, h.inCallback⟩
        fun p hp => hd p ((hdict p).mp hp)

theorem setDict_none_ne {sub : RedisSubscriptions} (h : sub.dict true ≠ none) (p : Bool)
    (hp : (sub.setDict false none).dict p = none) : p = false := by
  cases p with
  | false => rfl
  | true => exact absurd hp h

theorem WentOn.isUser (hw : WentOn strtod s f t) : f.isUser = false := by
  cases hw with
  | null hf _ => obtain rfl | rfl := hf <;> rfl
  | _ => rfl

theorem WentOn.ok (hw : WentOn strtod s f t) (h : s.Bare) (hok : FrameOk s.ac s.teardownOpen f)
    (hc : t.crash = none) : t.Ok := by
  cases hw with
  | processing hp => exact hp.ok h (hok.dicts_ne fun _ => rfl) hc
  | freed _ => exact h.startFree (hok.dicts_ne fun _ => rfl)
  | afterReply _ => exact h.push rfl (.plain ⟨nofun, nofun, rfl⟩ (hok.dicts_ne fun _ => rfl))
  | @connecting write =>
      refine Async.Bare.push ⟨h.stack, h.live, h.inCallback⟩ ?_
        (.plain ?_ (hok.dicts_ne fun _ => rfl))
      · cases write <;> rfl
      · cases write <;> exact ⟨nofun, nofun, rfl⟩
  | connectFailed he => exact he.ok h (hok.dicts_ne fun _ => rfl) hc
  | timedOut _ he => exact he.ok h (hok.dicts_ne fun _ => rfl) hc
  | null hf _ =>
      refine Async.Bare.runCallback ⟨h.stack, h.live, h.inCallback⟩ ?_ ?_
        ⟨hok.failed, hok.shut, ?_, hok.dicts⟩
      · obtain rfl | rfl := hf <;> rfl
      · obtain rfl | rfl := hf <;> rfl
      · obtain rfl | rfl := hf <;> nofun
  | repliesFreed hreplies =>
      exact h.push rfl ⟨fun h => by simp at h, fun _ => hok.shut rfl, fun _ _ => hreplies,
        fun p hp => absurd hp (hok.dicts_ne (fun _ => rfl) p)⟩
  | invalid _ =>
      exact Async.Bare.runCallback ⟨h.stack, h.live, h.inCallback⟩ rfl rfl
        ⟨hok.failed, hok.shut, hok.drained, hok.dicts⟩
  | invalidFreed _ =>
      exact h.push rfl ⟨fun h => by simp at h, fun _ => hok.shut rfl, fun _ => hok.drained rfl,
        fun p hp => absurd hp (hok.dicts_ne (fun _ => rfl) p)⟩
  | subsCrashed hcrash _ _ => simp [hcrash] at hc
  | iterate =>
      exact h.push rfl ⟨fun h => by simp at h, fun _ => hok.shut rfl, fun _ => hok.drained rfl,
        hok.dicts⟩
  | visit _ _ =>
      exact Async.Bare.runCallback h rfl rfl ⟨fun h => by simp at h, fun _ => hok.shut rfl,
        fun _ => hok.drained rfl, hok.dicts⟩
  | @release pvariant it =>
      cases pvariant with
      | true =>
          exact Async.Bare.push ⟨h.stack, h.live, h.inCallback⟩ rfl
            ⟨fun h => by simp at h, fun _ => hok.shut rfl, fun _ => hok.drained rfl, fun _ _ => rfl⟩
      | false =>
          refine Async.Bare.push ⟨h.stack, h.live, h.inCallback⟩ rfl
            ⟨fun h => by simp at h, fun _ => hok.shut rfl, fun _ => hok.drained rfl, fun p hp => ?_⟩
          rw [setDict_none_ne (hok.dicts_ne (fun _ => rfl) true) p hp]
          rfl
  | disconnectCallback =>
      exact h.pushHook rfl rfl ⟨fun h => by simp at h, fun _ => hok.shut rfl,
        fun _ => hok.drained rfl, fun _ _ => rfl⟩
  | noDisconnectCallback =>
      exact h.push rfl ⟨fun h => by simp at h, fun _ => hok.shut rfl, fun _ => hok.drained rfl,
        fun _ _ => rfl⟩
  | freeEnd =>
      refine ⟨h.stack ▸ .idle, by simp [h.stack, h.inCallback], fun f hf => ?_, nofun,
        fun _ => ⟨h.stack, fun ho => ⟨hok.shut rfl ho, hok.drained rfl ho⟩⟩⟩
      simp [h.stack] at hf

/-- Below a callback of the user there is one function of the library. -/
theorem Async.Ok.below (h : s.Ok) (hf : f.isUser = true) (hstack : s.stack = f :: rest) :
    ∃ g, g.isUser = false ∧ rest = [g] := by
  have hshape := h.shape
  rw [hstack] at hshape
  cases hshape with
  | one hf' => simp [hf] at hf'
  | callback _ hg => exact ⟨_, hg, rfl⟩
  | hook _ hg => exact ⟨_, hg, rfl⟩

theorem Async.Ok.returns (h : s.Ok) (hf : f.isUser = true)
    (hstack : s.stack = f :: rest) (ht : t.stack = rest) (htlive : t.live = true)
    (hin : t.ac = { s.ac with inCallback := false }) (ho : t.teardownOpen = s.teardownOpen) :
    t.Ok := by
  obtain ⟨g, hg, rfl⟩ := h.below hf hstack
  refine ⟨?_, ?_, fun g' hg' => ?_, fun hnil => ?_, fun hl => ?_⟩
  · rw [ht]
    exact .one hg
  · have hne : g ≠ .callback := fun heq => by simp [heq, AsyncFrame.isUser] at hg
    simp [hin, ht, hne]
  · rw [ht] at hg'
    obtain rfl : g = g' := by simpa using hg'
    rw [hin, ho]
    exact (h.bottom g (by rw [hstack]; rfl)).update id id (fun _ => id) fun _ => id
  · simp [ht] at hnil
  · simp [htlive] at hl

theorem AsyncStep.ok {call : AsyncCall} (hs : AsyncStep strtod s call t) (h : s.Ok)
    (hc : t.crash = none) (hhook : t.hookFreed = false) : t.Ok := by
  cases hs with
  | command _ hcmd => exact hcmd.ok h hc
  | free hu => exact userFree_ok h hu hhook
  | disconnect hu => exact userDisconnect_ok h hu hhook hc
  | setCallbacks _ _ _ _ => exact h.update rfl rfl rfl rfl id id (fun _ => id) fun _ => id
  | handleIo hlive hstack hio => exact hio.ok (h.bare_of_idle hlive hstack) (h.idle hstack hlive) hc
  | handleTimeout hlive hstack htime =>
      exact htime.ok (h.bare_of_idle hlive hstack) (h.idle hstack hlive)
  | read hlive hstack hread =>
      obtain ⟨hbare, hok⟩ := h.bare hlive hstack rfl
      have hd := hok.dicts_ne fun _ => rfl
      cases hread with
      | processing _ =>
          exact Async.Bare.push ⟨hbare.stack, hlive, hbare.inCallback⟩ rfl
            (.plain ⟨nofun, nofun, rfl⟩ hd)
      | failed _ he => exact he.ok ⟨hbare.stack, hlive, hbare.inCallback⟩ hd hc
  | write hlive hstack hwrite =>
      obtain ⟨hbare, hok⟩ := h.bare hlive hstack rfl
      have hd := hok.dicts_ne fun _ => rfl
      cases hwrite with
      | done _ _ => exact Async.Bare.ok ⟨hbare.stack, hlive, hbare.inCallback⟩ hd
      | failed _ _ he => exact he.ok ⟨hbare.stack, hlive, hbare.inCallback⟩ hd hc
  | go hlive hstack hgo =>
      obtain ⟨hbare, hok⟩ := h.bare hlive hstack hgo.isUser
      exact hgo.ok hbare hok hc
  | callbackReturns hlive hstack =>
      exact h.returns (f := .callback) rfl hstack rfl hlive rfl rfl
  | @hookReturns rest hstack =>
      have hlive : s.live = true := by
        cases hl : s.live with
        | true => rfl
        | false =>
            have hnil := (h.dead hl).1
            simp [hstack] at hnil
      have hin : s.ac.inCallback = false := by
        cases hin : s.ac.inCallback with
        | false => rfl
        | true =>
            have hhead := h.inCallback.mp hin
            simp [hstack] at hhead
      exact h.returns (f := .hook) rfl hstack rfl hlive (by rw [← hin]) rfl
  | dead _ _ hcrash => simp [hcrash] at hc

/-- The invariant of every run in which no connect or disconnect callback frees the context. -/
theorem async_ok (hs : (asyncLts strtod printf alloc).Reachable s) (hc : s.crash = none)
    (hhook : s.hookFreed = false) : s.Ok := by
  revert hc hhook
  refine hs.induct (I := fun s => s.crash = none → s.hookFreed = false → s.Ok) ?_ ?_
  · rintro s ⟨noAutoFree, rfl⟩ - -
    refine ⟨.idle, by simp [redisAsyncInitialize], by simp, fun _ _ p => ?_, nofun⟩
    cases p <;> nofun
  · intro s call s' _ ih hs' hc' hhook'
    obtain ⟨hc, hstep⟩ := async_step hs'
    exact hstep.ok (ih hc (hstep.hookFreed hc' hhook')) hc' hhook'

end invariant

/-! ### Safety -/

/-- The calls that can end in a crash of the library: a write that has to be tried again, and the
end of the context in a connect or disconnect callback. -/
def Async.risky (s : Async) : AsyncCall → Bool
  | .write (.error e) => e.retry s.ac.c.block && s.ac.c.err.isNone && !s.ac.c.obuf.isEmpty
  | .free => (s.stack.head? matches some .hook)
  | .disconnect => (s.stack.head? matches some .hook)
  | _ => false

/-- A step that is none of these. -/
structure Calm (s t : Async) : Prop where
  pending : t.crash ≠ some .pendingCallbacks
  uses : t.crash ≠ some .useAfterFree
  opened : t.crash = none → t.teardownOpen = s.teardownOpen
  hook : t.crash = none → t.hookFreed = s.hookFreed

section safety

variable {strtod : Strtod} {printf : Printf} {alloc : Allocator} {s t : Async} {call : AsyncCall}
  {f : AsyncFrame}

theorem risky_of_retried {r : Except Errno ℕ} (h : Retried s.ac.c r) :
    s.risky (.write r) = true := by
  obtain ⟨e, rfl, hretry, herr, hobuf⟩ := h
  simp [Async.risky, hretry, herr, hobuf]

theorem head_ne_hook {call : AsyncCall} (hcall : call = .free ∨ call = .disconnect)
    (h : s.risky call = false) : s.stack.head? ≠ some .hook := by
  intro hhead
  obtain rfl | rfl := hcall <;> simp [Async.risky, hhead] at h

/-- The step is one from `s'`, which differs from `s` elsewhere. -/
theorem Calm.since {s' : Async} (h : Calm s' t) (ho : s'.teardownOpen = s.teardownOpen)
    (hh : s'.hookFreed = s.hookFreed) : Calm s t :=
  ⟨h.pending, h.uses, fun hc => (h.opened hc).trans ho, fun hc => (h.hook hc).trans hh⟩

theorem Calm.of_eq (hc : t.crash = none) (ho : t.teardownOpen = s.teardownOpen)
    (hh : t.hookFreed = s.hookFreed) : Calm s t :=
  ⟨by simp [hc], by simp [hc], fun _ => ho, fun _ => hh⟩

theorem startFree_calm (hc : s.crash = none) (hshut : s.ac.shut = true)
    (hhook : s.stack.head? ≠ some .hook) : Calm s s.startFree := by
  refine .of_eq hc ?_ ?_
  · have hshut' : (s.ac.disconnecting || s.ac.freeing) = true := hshut
    simp [Async.startFree, hshut']
  · cases hhead : s.stack.head? with
    | none => simp [Async.startFree, hhead]
    | some f => cases f <;> simp_all [Async.startFree]

theorem Ended.calm (he : Ended s t) (hc : s.crash = none) (hhook : s.stack.head? ≠ some .hook)
    (h : s.ac.c.err ≠ none ∨ s.ac.shut = true ∧ s.ac.replies = []) : Calm s t := by
  cases he with
  | aborted herr hreplies _ =>
      obtain h | ⟨-, h⟩ := h
      · exact absurd herr h
      · exact absurd h hreplies
  | kept _ _ => exact .of_eq hc rfl rfl
  | freed _ _ =>
      have hcalm := startFree_calm (s := { s with ac := { s.ac with
        err := s.ac.c.err, disconnecting := s.ac.disconnecting || s.ac.c.err.isSome } }) hc ?_ hhook
      · exact ⟨hcalm.pending, hcalm.uses, hcalm.opened, hcalm.hook⟩
      · obtain herr | ⟨hshut, -⟩ := h
        · simp [RedisAsyncContext.shut, Option.isSome_iff_ne_none.mpr herr]
        · rw [RedisAsyncContext.shut, Bool.or_eq_true] at hshut
          simp only [RedisAsyncContext.shut, Bool.or_eq_true]
          exact hshut.imp_left .inl

@[simp] theorem Async.runCallback_crash (s : Async) (isNull : Bool) :
    (s.runCallback isNull).crash = s.crash ∧
      (s.runCallback isNull).teardownOpen = s.teardownOpen := by
  unfold Async.runCallback
  split_ifs <;> exact ⟨rfl, rfl⟩

theorem runCallback_calm {isNull : Bool} (hc : s.crash = none)
    (ho : s.teardownOpen = t.teardownOpen) (hh : s.hookFreed = t.hookFreed) :
    Calm t ((s.push f).runCallback isNull) :=
  .of_eq (by simp [Async.push, hc]) (by simp [Async.push, ho]) (by simp [hh])

theorem runReply_calm {cb : RedisCallback} (hc : s.crash = none)
    (ho : s.teardownOpen = t.teardownOpen) (hh : s.hookFreed = t.hookFreed) :
    Calm t (s.runReply cb) := by
  unfold Async.runReply
  split_ifs
  · exact .of_eq hc ho hh
  · exact runCallback_calm hc ho hh

theorem CrashOf.calm {ac : RedisAsyncContext} {why : AsyncCrash} (h : CrashOf ac why)
    (hc : t.crash = some why) (hd : ∀ p, ac.sub.dict p ≠ none) : Calm s t := by
  refine ⟨?_, ?_, by simp [hc], by simp [hc]⟩
  · rw [hc]
    exact fun heq => h.not_pending (Option.some.inj heq)
  · rw [hc]
    intro heq
    obtain ⟨p, hp⟩ := h.released (Option.some.inj heq)
    exact hd p hp

theorem Commanded.calm (hcmd : Commanded s t) (hc : s.crash = none)
    (hd : s.ac.shut = false → ∀ p, s.ac.sub.dict p ≠ none) : Calm s t := by
  cases hcmd with
  | crashed hshut hcrash hof => exact hof.calm hcrash (hd hshut)
  | _ => exact .of_eq hc rfl rfl

/-- The reader puts its error into the context. -/
def AsksErr (strtod : Strtod) (s : Async) : Prop :=
  ∀ c o, redisGetReplyFromReader strtod s.ac.c = some (c, .err, o) → c.err ≠ none

theorem Processed.calm (hp : Processed strtod s t) (h : s.Bare) (hc : s.crash = none)
    (hask : AsksErr strtod s) (hd : ∀ p, s.ac.sub.dict p ≠ none) : Calm s t := by
  have hhook : s.stack.head? ≠ some .hook := by simp [h.stack]
  cases hp with
  | crashed hcrash hof => exact hof.calm hcrash hd
  | failed hr he =>
      exact Calm.since (he.calm hc hhook (.inl (hask _ _ hr))) rfl rfl
  | drained hr hdis hreplies he =>
      exact Calm.since
        (he.calm hc hhook (.inr ⟨by simp [RedisAsyncContext.shut, hdis], hreplies⟩)) rfl rfl
  | again _ _ _ => exact .of_eq hc rfl rfl
  | stopped _ => exact .of_eq hc rfl rfl
  | spontaneous cb isNull _ _ => exact runCallback_calm hc rfl rfl
  | answered _ _ _ => exact runReply_calm hc rfl rfl
  | refused str _ _ _ _ he =>
      exact Calm.since (he.calm hc hhook (.inl (by simp [redisSetError]))) rfl rfl
  | message cb _ _ _ _ _ _ _ => exact runReply_calm hc rfl rfl

theorem WentOn.calm (hw : WentOn strtod s f t) (h : s.Bare) (hc : s.crash = none)
    (hask : AsksErr strtod s) (hok : FrameOk s.ac s.teardownOpen f) : Calm s t := by
  have hhook : s.stack.head? ≠ some .hook := by simp [h.stack]
  cases hw with
  | processing hp => exact hp.calm h hc hask (hok.dicts_ne fun _ => rfl)
  | freed hf => exact startFree_calm hc (by simp [RedisAsyncContext.shut, hf]) hhook
  | connectFailed he => exact he.calm hc hhook (.inl (hok.failed (.inl rfl)))
  | timedOut _ he => exact he.calm hc hhook (.inl (hok.failed (.inr rfl)))
  | subsCrashed hcrash hpending huse =>
      refine ⟨?_, ?_, by simp [hcrash], by simp [hcrash]⟩
      · rw [hcrash]
        exact fun heq => hpending (Option.some.inj heq)
      · rw [hcrash]
        intro heq
        have hrel := hok.dicts _ (huse (Option.some.inj heq))
        simp [AsyncFrame.released] at hrel
  | null _ _ => exact runCallback_calm hc rfl rfl
  | invalid _ => exact runCallback_calm hc rfl rfl
  | visit _ _ => exact runCallback_calm hc rfl rfl
  | _ => exact .of_eq hc rfl rfl

theorem Async.Ok.dicts_of_userTurn (h : s.Ok) (hu : s.userTurn = true)
    (ho : s.teardownOpen = false) (hshut : s.ac.shut = false) (p : Bool) :
    s.ac.sub.dict p ≠ none := by
  obtain ⟨hlive, -⟩ := Bool.and_eq_true_iff.mp hu
  intro hp
  cases hbottom : s.stack.getLast? with
  | none => exact h.idle (List.getLast?_eq_none_iff.mp hbottom) hlive p hp
  | some f =>
      have hok := h.bottom f hbottom
      have hshut' := hok.shut (AsyncFrame.isFree_of_released (hok.dicts p hp)) ho
      simp [hshut] at hshut'

theorem userDisconnect_calm (hc : s.crash = none) (hhook : s.stack.head? ≠ some .hook) :
    Calm s s.userDisconnect := by
  unfold Async.userDisconnect
  dsimp only
  by_cases hidle : s.ac.inCallback = false ∧ s.ac.replies = []
  · rw [if_pos hidle]
    have he := disconnect_ended
      { s with ac := { s.ac with disconnecting := true, noAutoFree := false } }
    exact Calm.since (he.calm hc hhook (.inr ⟨by simp [RedisAsyncContext.shut], hidle.2⟩)) rfl rfl
  · rw [if_neg hidle]
    exact .of_eq hc rfl rfl

theorem userFree_calm (hc : s.crash = none) (hhook : s.stack.head? ≠ some .hook) :
    Calm s s.userFree := by
  unfold Async.userFree
  dsimp only
  split_ifs
  · exact .of_eq hc rfl rfl
  · have hcalm := startFree_calm (s := { s with ac := { s.ac with freeing := true } }) hc
      (by simp [RedisAsyncContext.shut]) hhook
    exact ⟨hcalm.pending, hcalm.uses, hcalm.opened, hcalm.hook⟩

theorem AsyncStep.calm (hs : AsyncStep strtod s call t) (h : s.Ok) (hc : s.crash = none)
    (hask : AsksErr strtod s) (ho : s.teardownOpen = false) (hrisk : s.risky call = false) :
    Calm s t := by
  cases hs with
  | command hu hcmd => exact hcmd.calm hc (h.dicts_of_userTurn hu ho)
  | free _ => exact userFree_calm hc (head_ne_hook (.inl rfl) hrisk)
  | disconnect _ => exact userDisconnect_calm hc (head_ne_hook (.inr rfl) hrisk)
  | setCallbacks _ _ _ _ => exact .of_eq hc rfl rfl
  | handleIo _ hstack hio =>
      cases hio with
      | failed he =>
          exact Calm.since (he.calm hc (by simp [hstack]) (.inl (by simp [redisSetError]))) rfl rfl
      | _ => exact .of_eq hc rfl rfl
  | handleTimeout _ _ htime => cases htime <;> exact .of_eq hc rfl rfl
  | @read r large rest t hlive hstack hread =>
      obtain ⟨hbare, -⟩ := h.bare hlive hstack rfl
      have hnil : rest = [] := hbare.stack
      cases hread with
      | processing _ => exact .of_eq hc rfl rfl
      | failed herr he =>
          exact Calm.since (he.calm hc (by simp [hnil]) (.inl herr)) rfl rfl
  | @write r rest t hlive hstack hwrite =>
      obtain ⟨hbare, -⟩ := h.bare hlive hstack rfl
      have hnil : rest = [] := hbare.stack
      cases hwrite with
      | done _ _ => exact .of_eq hc rfl rfl
      | failed _ hretried he =>
          have herr : (redisBufferWrite s.ac.c r).1.err ≠ none := fun hnone => by
            have hrisky : s.risky (.write r) = true := risky_of_retried (hretried.mp hnone)
            simp [hrisk] at hrisky
          exact Calm.since (he.calm hc (by simp [hnil]) (.inl herr)) rfl rfl
  | go hlive hstack hgo =>
      obtain ⟨hbare, hok⟩ := h.bare hlive hstack hgo.isUser
      exact Calm.since (hgo.calm hbare hc hask hok) rfl rfl
  | callbackReturns _ _ => exact .of_eq hc rfl rfl
  | hookReturns _ => exact .of_eq hc rfl rfl
  | dead hlive hstack _ => exact absurd (h.dead hlive).1 hstack

theorem async_asksErr (hs : (asyncLts strtod printf alloc).Reachable s) (hc : s.crash = none)
    (hsize : s.fed.length ≤ 2147483648) : AsksErr strtod s :=
  fun _ _ h => asked_err (async_explained hs hc hsize) hsize h

theorem AsyncStep.fed_le (hs : AsyncStep strtod s call t) (hc : t.crash = none) :
    s.fed.length ≤ t.fed.length := by
  have htraffic := hs.traffic hc
  generalize hst : s.traffic = st at htraffic
  generalize htt : t.traffic = tt at htraffic
  have hs' : s.fed = st.fed := hst ▸ rfl
  have ht' : t.fed = tt.fed := htt ▸ rfl
  rw [hs', ht']
  cases htraffic <;> simp

/-- In a run without a risky call, the context is not freed while commands are accepted, nor by a
connect or disconnect callback. -/
theorem quiet_of_restrict
    (hs : ((asyncLts strtod printf alloc).restrict fun s call => s.risky call = false).Reachable s)
    (hc : s.crash = none) (hsize : s.fed.length ≤ 2147483648) :
    s.teardownOpen = false ∧ s.hookFreed = false := by
  revert hc hsize
  refine hs.induct (I := fun s => s.crash = none → s.fed.length ≤ 2147483648 →
    s.teardownOpen = false ∧ s.hookFreed = false) ?_ ?_
  · rintro s ⟨noAutoFree, rfl⟩ - -
    exact ⟨rfl, rfl⟩
  · intro s call s' hr ih hstep hc' hsize
    obtain ⟨hrisk, hstep⟩ := Lts.restrict_step_eq_some.mp hstep
    obtain ⟨hc, hs'⟩ := async_step hstep
    have hsize' := (hs'.fed_le hc').trans hsize
    obtain ⟨ho, hh⟩ := ih hc hsize'
    have hok := async_ok hr.of_restrict hc hh
    have hcalm := hs'.calm hok hc (async_asksErr hr.of_restrict hc hsize') ho hrisk
    exact ⟨(hcalm.opened hc').trans ho, (hcalm.hook hc').trans hh⟩

theorem write_step {r : Except Errno ℕ}
    (h : (asyncLts strtod printf alloc).step s (.write r) = some t) :
    ∃ rest, s.stack = .writing :: rest ∧
      (s.live = true → Async.write { s with stack := rest } r = some t) := by
  obtain ⟨-, h⟩ := Option.ite_none_right_eq_some.mp h
  unfold Async.stackCall at h
  split at h
  · cases h
  · rename_i f rest hstack
    cases f with
    | writing =>
        refine ⟨rest, hstack, fun hlive => ?_⟩
        obtain ⟨u, hu, rfl⟩ := Option.map_eq_some_iff.mp h
        rw [if_pos hlive]
        exact hu
    | _ => cases h

/-- A write that has to be tried again disconnects. -/
theorem write_retried {r : Except Errno ℕ} (hr : Retried s.ac.c r) :
    s.write r = some s.disconnect := by
  have hwrite := bufferWrite_retried hr
  obtain ⟨e, rfl, -⟩ := hr
  unfold Async.write
  rw [hwrite]
  simp [bytesTaken]

theorem disconnect_pending (herr : s.ac.c.err = none) (hc : s.crash = none) :
    s.disconnect.crash = some .pendingCallbacks ↔ s.ac.replies ≠ [] := by
  have he := disconnect_ended s
  generalize s.disconnect = u at he
  cases he with
  | aborted _ hreplies hcrash => simp [hcrash, hreplies]
  | kept _ hreplies => simp [hc, hreplies herr]
  | freed _ hreplies => simp [Async.startFree, hc, hreplies herr]

theorem userDisconnect_pending (hc : s.crash = none) :
    s.userDisconnect.crash ≠ some .pendingCallbacks := by
  unfold Async.userDisconnect
  dsimp only
  by_cases hidle : s.ac.inCallback = false ∧ s.ac.replies = []
  · rw [if_pos hidle]
    have he := disconnect_ended
      { s with ac := { s.ac with disconnecting := true, noAutoFree := false } }
    generalize Async.disconnect _ = u at he
    cases he with
    | aborted _ hreplies _ => exact absurd hidle.2 hreplies
    | kept hauto _ => cases hauto
    | freed _ _ => simp [Async.startFree, hc]
  · rw [if_neg hidle]
    simp [hc]

theorem userFree_crash : s.userFree.crash = s.crash := by
  unfold Async.userFree
  dsimp only
  split_ifs <;> rfl

/-- **Which calls are safe.**  In a run without a risky call, the next step fails the assertion of
`__redisAsyncDisconnect` exactly when it is a write that has to be tried again while callbacks wait,
and a step that is not risky uses no memory that was freed. -/
theorem async_safe
    (hs : ((asyncLts strtod printf alloc).restrict fun s call => s.risky call = false).Reachable s)
    (hsize : s.fed.length ≤ 2147483648)
    (hstep : (asyncLts strtod printf alloc).step s call = some t) :
    (t.crash = some .pendingCallbacks ↔
      ∃ r, call = .write r ∧ Retried s.ac.c r ∧ s.ac.replies ≠ []) ∧
    (s.risky call = false → t.crash ≠ some .useAfterFree) := by
  obtain ⟨hc, hs'⟩ := async_step hstep
  obtain ⟨ho, hh⟩ := quiet_of_restrict hs hc hsize
  have hok := async_ok hs.of_restrict hc hh
  have hcalm := hs'.calm hok hc (async_asksErr hs.of_restrict hc hsize) ho
  have hretry {r : Except Errno ℕ} (hcall : call = .write r) (hr : Retried s.ac.c r) :
      t.crash = some .pendingCallbacks ↔ s.ac.replies ≠ [] := by
    subst hcall
    obtain ⟨rest, hstack, hwrite⟩ := write_step hstep
    have hlive : s.live = true := by
      cases hl : s.live with
      | true => rfl
      | false => simp [(hok.dead hl).1] at hstack
    have hdis := (hwrite hlive).symm.trans (write_retried (s := { s with stack := rest }) hr)
    obtain ⟨-, -, -, herr, -⟩ := hr
    rw [Option.some.inj hdis]
    exact disconnect_pending (s := { s with stack := rest }) herr hc
  refine ⟨⟨fun hpending => ?_, ?_⟩, fun hrisk => (hcalm hrisk).uses⟩
  · cases hrisk : s.risky call with
    | false => exact absurd hpending (hcalm hrisk).pending
    | true =>
        obtain ⟨-, hstep⟩ := Option.ite_none_right_eq_some.mp hstep
        cases call with
        | write r =>
            cases r with
            | ok n => cases hrisk
            | error e =>
                simp only [Async.risky, Bool.and_eq_true, Option.isNone_iff_eq_none,
                  Bool.not_eq_true', List.isEmpty_eq_false_iff] at hrisk
                have hr : Retried s.ac.c (.error e) := ⟨e, rfl, hrisk.1.1, hrisk.1.2, hrisk.2⟩
                exact ⟨_, rfl, hr, (hretry rfl hr).mp hpending⟩
        | free =>
            obtain ⟨-, hstep⟩ := Option.ite_none_right_eq_some.mp hstep
            cases hstep
            rw [userFree_crash, hc] at hpending
            cases hpending
        | disconnect =>
            obtain ⟨-, hstep⟩ := Option.ite_none_right_eq_some.mp hstep
            cases hstep
            exact absurd hpending (userDisconnect_pending hc)
        | _ => cases hrisk
  · rintro ⟨r, hcall, hr, hreplies⟩
    exact (hretry hcall hr).mpr hreplies

end safety

/-! ### A command and its reply -/

/-- The client after some calls, none of them risky. -/
def asyncAfter (calls : List AsyncCall) : Option Async :=
  ((asyncLts noDoubles (fun format _ => format) .plenty).restrict fun s call =>
    s.risky call = false).run
    ⟨redisAsyncInitialize false, [], true, none, [], [], [], [], [], [], false, false⟩ calls

theorem asyncAfter_reachable {calls : List AsyncCall} (h : (asyncAfter calls).isSome) :
    ((asyncLts noDoubles (fun format _ => format) .plenty).restrict fun s call =>
      s.risky call = false).Reachable ((asyncAfter calls).get h) := by
  refine Lts.Reachable.of_run ?_ h
  exact ⟨false, rfl⟩

/-- `GET k` with the callback `fn`. -/
def getCall (fn : ℕ) : AsyncCall :=
  .formatted (some fn) 0 (ascii "*2\x0d\n$3\x0d\nGET\x0d\n$1\x0d\nk\x0d\n") 20
    ⟨true, fun _ => ⟨true, .plenty, true⟩⟩

theorem async_safe_retry :
    (((asyncLts noDoubles (fun format _ => format) .plenty).step
      ((asyncAfter [getCall 1, .handleWrite (.completed true)]).get rfl)
      (.write (.error .wouldBlock))).get rfl).crash = some .pendingCallbacks :=
  (async_safe (asyncAfter_reachable rfl) (by decide) (Option.some_get _).symm).1.mpr
    ⟨_, rfl, ⟨_, rfl, rfl, rfl, by decide⟩, by decide⟩

/-- A connect callback that frees the context after a failure. -/
example : ((asyncLts noDoubles (fun format _ => format) .plenty).run
    ⟨redisAsyncInitialize false, [], true, none, [], [], [], [], [], [], false, false⟩
    ([.setConnectCallback, .handleWrite .failed, .free] ++ List.replicate 8 (.go true) ++
      [.ret, .go true])).map Async.crash = some (some .useAfterFree) := by decide

end RedisMigrate
