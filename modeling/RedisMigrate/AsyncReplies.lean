import RedisMigrate.AsyncControl

/-! # The replies of an asynchronous client

A reply that is no spontaneous push message goes to the regular callback that waits longest.  When
the client never subscribes and is not in monitor mode, this is the callback of the command that
the reply answers: callbacks get no reply (`NULL`) only after the last reply, and a reply that
nothing waits for ends the connection.

* `replies_in_order`: the `k`-th callback is that of the `k`-th command that has one, and gets the
  `k`-th reply of the stream or, like all after it, `NULL`. -/

namespace RedisMigrate

/-- A reply that is no spontaneous push message. -/
def inBand (v : RedisReply) : Bool := redisIsSpontaneousPushReply v = some false

/-- A callback got `NULL`, or a reply had no callback. -/
def Traffic.Spent (t : Traffic) : Prop :=
  (∃ p ∈ t.shifted, p.2 = none) ∨ t.unsolicited ≠ []

/-- The replies that were shifted are the first ones that were delivered. -/
def Traffic.Matched (t : Traffic) : Prop :=
  ∃ answered nulls, t.shifted.map Prod.snd = answered.map some ++ List.replicate nulls none ∧
    t.delivered.filter inBand = answered ++ t.unsolicited

/-- Neither subscribed nor in monitor mode. -/
def Async.plain (s : Async) : Bool := !s.ac.subscribed && !s.ac.monitoring

/-! ### The replies that were shifted -/

section matched

variable {strtod : Strtod} {top : Option AsyncFrame} {t t' : Traffic}

/-- Nothing got `NULL` so far. -/
theorem Traffic.Matched.all (h : t.Matched) (hspent : ¬ t.Spent) :
    t.shifted.map Prod.snd = (t.delivered.filter inBand).map some ∧ t.unsolicited = [] := by
  obtain ⟨answered, nulls, hshifted, hdelivered⟩ := h
  obtain ⟨hsome, hnone⟩ := not_or.mp hspent
  have hun : t.unsolicited = [] := not_not.mp hnone
  have hnulls : nulls = 0 := by
    cases nulls with
    | zero => rfl
    | succ n =>
        have hmem : none ∈ t.shifted.map Prod.snd := by simp [hshifted]
        obtain ⟨p, hp, hp2⟩ := List.mem_map.mp hmem
        exact absurd ⟨p, hp, hp2⟩ hsome
  refine ⟨?_, hun⟩
  rw [hshifted, hdelivered, hun, hnulls]
  simp

theorem Traffic.Matched.step (h : TrafficStep strtod top t t') (ht : t.Matched)
    (hplain : t.subscribed = false ∧ t.monitoring = false)
    (htop : ∀ cb, top = some (.processing cb) → ¬ t.Spent) : t'.Matched := by
  cases h with
  | spontaneous _ hv =>
      obtain ⟨answered, nulls, hshifted, hdelivered⟩ := ht
      exact ⟨answered, nulls, hshifted, by simp [inBand, hv, hdelivered]⟩
  | @answered c v cb rest cb' hproc _ hv _ =>
      obtain ⟨hshifted, hun⟩ := ht.all (htop cb' hproc)
      refine ⟨t.delivered.filter inBand ++ [v], 0, ?_, ?_⟩
      · simp [hshifted]
      · simp [inBand, hv, hun]
  | refused str _ _ hv _ _ =>
      obtain ⟨answered, nulls, hshifted, hdelivered⟩ := ht
      exact ⟨answered, nulls, hshifted, by simp [inBand, hv, hdelivered]⟩
  | message _ _ _ hmode _ => simp [hplain] at hmode
  | null _ _ =>
      obtain ⟨answered, nulls, hshifted, hdelivered⟩ := ht
      refine ⟨answered, nulls + 1, ?_, hdelivered⟩
      rw [List.map_append, hshifted, List.append_assoc, List.replicate_succ']
      rfl
  | _ => exact ht

end matched

/-! ### When nothing is answered any more -/

/-- The loop that runs the callbacks of replies. -/
def AsyncFrame.answers : AsyncFrame → Bool
  | processing _ | afterReply _ => true
  | _ => false

/-- What holds of a function on the stack, in a context with an error or not. -/
structure FrameTimely (err : Option (ContextErr × Bytes)) (spent : Prop) (f : AsyncFrame) :
    Prop where
  answering : f.answers = true → ¬ spent
  closing : spent → err ≠ none ∨ f.isFree = true

theorem FrameTimely.of_isFree {err : Option (ContextErr × Bytes)} {spent : Prop} {f : AsyncFrame}
    (h : f.isFree = true) : FrameTimely err spent f where
  answering ha := by cases f <;> simp_all [AsyncFrame.answers, AsyncFrame.isFree]
  closing _ := .inr h

theorem FrameTimely.of_err {err : Option (ContextErr × Bytes)} {spent : Prop} {f : AsyncFrame}
    (hf : f.answers = false) (h : spent → err ≠ none) : FrameTimely err spent f where
  answering ha := by simp [hf] at ha
  closing hs := .inl (h hs)

theorem FrameTimely.of_not {err : Option (ContextErr × Bytes)} {spent : Prop} {f : AsyncFrame}
    (h : ¬ spent) : FrameTimely err spent f where
  answering _ := h
  closing hs := absurd hs h

theorem FrameTimely.err {err : Option (ContextErr × Bytes)} {spent : Prop} {f : AsyncFrame}
    (h : FrameTimely err spent f) (hf : f.isFree = false) (hs : spent) : err ≠ none :=
  (h.closing hs).resolve_right (by simp [hf])

structure Async.Timely (s : Async) : Prop where
  bottom : ∀ f, s.stack.getLast? = some f → FrameTimely s.ac.c.err s.traffic.Spent f
  idle : s.stack = [] → s.live = true → s.traffic.Spent → s.ac.c.err ≠ none

section timely

variable {strtod : Strtod} {printf : Printf} {alloc : Allocator} {s t : Async} {call : AsyncCall}
  {f : AsyncFrame} {spent : Prop} {err : Option (ContextErr × Bytes)}

theorem Async.Timely.of_bottom (hb : t.stack.getLast? = some f)
    (h : FrameTimely t.ac.c.err t.traffic.Spent f) : t.Timely where
  bottom g hg := by
    obtain rfl : f = g := Option.some.inj (hb.symm.trans hg)
    exact h
  idle hnil := by simp [hnil] at hb

theorem Async.Timely.of_idle (hnil : t.stack = []) (h : t.traffic.Spent → t.ac.c.err ≠ none) :
    t.Timely where
  bottom g hg := by simp [hnil] at hg
  idle _ _ := h

/-- A step that leaves the bottom of the stack alone. -/
theorem Async.Timely.update (h : s.Timely) (hb : t.stack.getLast? = s.stack.getLast?)
    (hlive : t.live = s.live) (herr : s.ac.c.err ≠ none → t.ac.c.err ≠ none)
    (hspent : t.traffic.Spent → s.traffic.Spent) : t.Timely where
  bottom f hf := by
    obtain ⟨hans, hclo⟩ := h.bottom f (hb ▸ hf)
    exact ⟨fun ha hs => hans ha (hspent hs), fun hs => (hclo (hspent hs)).imp_left herr⟩
  idle hnil hl hs := by
    refine herr (h.idle ?_ (hlive ▸ hl) (hspent hs))
    rw [hnil, List.getLast?_nil] at hb
    exact List.getLast?_eq_none_iff.mp hb.symm

theorem getLast_push (hnil : s.stack = []) : (s.push f).stack.getLast? = some f := by
  simp [Async.push, hnil]

theorem getLast_runCallback {isNull : Bool} (hnil : s.stack = []) :
    ((s.push f).runCallback isNull).stack.getLast? = some f := by
  cases isNull <;> simp [Async.runCallback, Async.push, hnil]

theorem runCallback_err {isNull : Bool} : (s.runCallback isNull).ac.c = s.ac.c := by
  cases isNull <;> rfl

theorem runCallback_timely {isNull : Bool} (hnil : s.stack = [])
    (h : FrameTimely s.ac.c.err s.traffic.Spent f) : ((s.push f).runCallback isNull).Timely := by
  refine .of_bottom (getLast_runCallback hnil) ?_
  rw [Async.runCallback_traffic, runCallback_err]
  exact h

theorem runReply_timely {cb : RedisCallback} (hnil : s.stack = []) (h : ¬ s.traffic.Spent) :
    (s.runReply cb).Timely := by
  unfold Async.runReply
  split_ifs
  · exact .of_bottom (getLast_push hnil) (.of_not h)
  · exact runCallback_timely hnil (.of_not h)

theorem startFree_timely (hnil : s.stack = []) : s.startFree.Timely :=
  .of_bottom (f := .freeReplies) (by simp [Async.startFree, hnil]) (.of_isFree rfl)

theorem Ended.timely (he : Ended s t) (hnil : s.stack = []) (hc : t.crash = none)
    (h : s.traffic.Spent → s.ac.c.err ≠ none) : t.Timely := by
  cases he with
  | aborted _ _ hcrash => simp [hcrash] at hc
  | kept _ _ => exact .of_idle hnil h
  | freed _ _ => exact startFree_timely hnil

theorem Commanded.timely (hcmd : Commanded s t) (h : s.Timely) (hc : t.crash = none) :
    t.Timely := by
  cases hcmd with
  | refused => exact h
  | crashed _ hcrash _ => simp [hcrash] at hc
  | outOfMemory _ _ => exact h.update rfl rfl (fun _ => by simp [redisSetError]) id
  | appended _ _ _ _ _ _ => exact h.update rfl rfl id id

theorem userFree_timely (h : s.Timely) (hok : s.Ok) (hu : s.userTurn = true)
    (hhook : s.userFree.hookFreed = false) : s.userFree.Timely := by
  cases hin : s.ac.inCallback with
  | true =>
      rw [Async.userFree, if_pos hin]
      exact h.update rfl rfl id id
  | false =>
      have hbare := userFree_bare hok hu hin hhook
      rw [Async.userFree, if_neg (by simp [hin])]
      exact startFree_timely hbare.stack

theorem userDisconnect_timely (h : s.Timely) (hok : s.Ok) (hu : s.userTurn = true)
    (hhook : s.userDisconnect.hookFreed = false) (hc : s.userDisconnect.crash = none) :
    s.userDisconnect.Timely := by
  by_cases hidle : s.ac.inCallback = false ∧ s.ac.replies = []
  · have hbare := userDisconnect_bare hok hu hidle hhook hc
    have he := disconnect_ended
      { s with ac := { s.ac with disconnecting := true, noAutoFree := false } }
    unfold Async.userDisconnect at hc ⊢
    rw [if_pos hidle] at hc ⊢
    exact he.timely hbare.stack hc (h.idle hbare.stack hbare.live)
  · rw [Async.userDisconnect, if_neg hidle]
    exact h.update rfl rfl id id

theorem Processed.timely (hp : Processed strtod s t) (hnil : s.stack = []) (hc : t.crash = none)
    (hplain : s.plain = true) (h : ¬ s.traffic.Spent) : t.Timely := by
  cases hp with
  | crashed hcrash _ => simp [hcrash] at hc
  | failed _ he => exact he.timely hnil hc fun hs => absurd hs h
  | drained _ _ _ he => exact he.timely hnil hc fun hs => absurd hs h
  | again _ _ _ => exact .of_idle hnil fun hs => absurd hs h
  | stopped _ => exact .of_idle hnil fun hs => absurd hs h
  | spontaneous cb isNull _ _ =>
      exact runCallback_timely hnil (.of_not h)
  | answered _ _ _ =>
      refine runReply_timely hnil fun hs => h (hs.imp_left ?_)
      rintro ⟨p, hp, hp2⟩
      obtain hp | hp := List.mem_append.mp hp
      · exact ⟨p, hp, hp2⟩
      · obtain rfl := List.mem_singleton.mp hp
        cases hp2
  | refused str _ _ _ _ he => exact he.timely hnil hc fun _ => by simp [redisSetError]
  | message _ _ _ _ hmode _ _ _ => simp_all [Async.plain]

theorem WentOn.timely (hw : WentOn strtod s f t) (hnil : s.stack = []) (hc : t.crash = none)
    (hplain : s.plain = true) (hok : FrameOk s.ac s.teardownOpen f)
    (h : FrameTimely s.ac.c.err s.traffic.Spent f) : t.Timely := by
  cases hw with
  | processing hp => exact hp.timely hnil hc hplain (h.answering rfl)
  | freed _ => exact startFree_timely hnil
  | afterReply _ => exact .of_bottom (getLast_push hnil) (.of_not (h.answering rfl))
  | @connecting write =>
      refine .of_bottom (getLast_push hnil) (.of_err ?_ (h.err rfl))
      cases write <;> rfl
  | connectFailed he => exact he.timely hnil hc (h.err rfl)
  | timedOut _ he => exact he.timely hnil hc (h.err rfl)
  | null hf _ =>
      refine runCallback_timely hnil ?_
      obtain rfl | rfl := hf
      · exact .of_err rfl fun _ => hok.failed (.inr rfl)
      · exact .of_isFree rfl
  | repliesFreed _ => exact .of_bottom (getLast_push hnil) (.of_isFree rfl)
  | invalid _ => exact runCallback_timely hnil (.of_isFree rfl)
  | invalidFreed _ => exact .of_bottom (getLast_push hnil) (.of_isFree rfl)
  | subsCrashed hcrash _ _ => simp [hcrash] at hc
  | iterate => exact .of_bottom (getLast_push hnil) (.of_isFree rfl)
  | visit _ _ => exact runCallback_timely hnil (.of_isFree rfl)
  | @release pvariant it =>
      refine .of_bottom (getLast_push hnil) ?_
      cases pvariant <;> exact .of_isFree rfl
  | disconnectCallback =>
      refine .of_bottom (f := .freeEnd) ?_ (.of_isFree rfl)
      simp [Async.push, hnil]
  | noDisconnectCallback => exact .of_bottom (getLast_push hnil) (.of_isFree rfl)
  | freeEnd => exact ⟨fun g hg => by simp [hnil] at hg, fun _ hl => by cases hl⟩

theorem HandledIo.timely {write : Bool} (hio : HandledIo s write t) (hnil : s.stack = [])
    (hc : t.crash = none) (h : s.traffic.Spent → s.ac.c.err ≠ none) : t.Timely := by
  cases hio with
  | waiting => exact .of_idle hnil h
  | connected =>
      refine .of_bottom (getLast_push hnil) (.of_err ?_ h)
      cases write <;> rfl
  | hook =>
      refine .of_bottom (f := .connecting write) ?_ (.of_err rfl h)
      simp [Async.push, hnil]
  | failedHook =>
      refine .of_bottom (f := .connectFailed) ?_ (.of_err rfl fun _ => ?_)
      · simp [Async.push, hnil]
      · simp [Async.push, redisSetError]
  | failed he => exact he.timely hnil hc fun _ => by simp [redisSetError]

theorem TimedOut.timely (ht : TimedOut s t) (hnil : s.stack = [])
    (h : s.traffic.Spent → s.ac.c.err ≠ none) : t.Timely := by
  cases ht with
  | idle => exact .of_idle hnil h
  | started herr _ => exact .of_bottom (getLast_push hnil) (.of_err rfl fun _ => herr)
  | hook herr _ =>
      refine .of_bottom (f := .timeout) ?_ (.of_err rfl fun _ => herr)
      simp [Async.push, hnil]

/-- An error is not lost by a write. -/
theorem bufferWrite_keeps {c : RedisContext} (h : c.err ≠ none) (r : Except Errno ℕ) :
    (redisBufferWrite c r).1.err ≠ none := by
  rw [redisBufferWrite, if_pos h]
  exact h

theorem AsyncStep.timely (hs : AsyncStep strtod s call t) (h : s.Timely) (hok : s.Ok)
    (hc : t.crash = none) (hhook : t.hookFreed = false) (hplain : s.plain = true) : t.Timely := by
  cases hs with
  | command _ hcmd => exact hcmd.timely h hc
  | free hu => exact userFree_timely h hok hu hhook
  | disconnect hu => exact userDisconnect_timely h hok hu hhook hc
  | setCallbacks _ _ _ _ => exact h.update rfl rfl id id
  | handleIo hlive hstack hio => exact hio.timely hstack hc (h.idle hstack hlive)
  | handleTimeout hlive hstack htime => exact htime.timely hstack (h.idle hstack hlive)
  | @read r large rest t hlive hstack hread =>
      obtain ⟨hbare, -⟩ := hok.bare hlive hstack rfl
      have hnil : rest = [] := hbare.stack
      have htimely := h.bottom .reading (by simp [hstack, hnil])
      cases hread with
      | processing herr =>
          have hspent : ¬ s.traffic.Spent := fun hs => htimely.err rfl hs herr
          exact .of_bottom (getLast_push hnil) (.of_not hspent)
      | failed herr he => exact he.timely hnil hc fun _ => herr
  | @write r rest t hlive hstack hwrite =>
      obtain ⟨hbare, -⟩ := hok.bare hlive hstack rfl
      have hnil : rest = [] := hbare.stack
      have htimely := h.bottom .writing (by simp [hstack, hnil])
      have herr : s.traffic.Spent → (redisBufferWrite s.ac.c r).1.err ≠ none := fun hs =>
        bufferWrite_keeps (htimely.err rfl hs) r
      cases hwrite with
      | done _ _ => exact .of_idle hnil herr
      | failed _ _ he => exact he.timely hnil hc herr
  | @go malloc f rest t hlive hstack hgo =>
      obtain ⟨hbare, hframe⟩ := hok.bare hlive hstack hgo.isUser
      have hnil : rest = [] := hbare.stack
      exact hgo.timely hnil hc hplain hframe (h.bottom f (by simp [hstack, hnil]))
  | @callbackReturns rest _ hstack =>
      obtain ⟨g, -, rfl⟩ := hok.below (f := .callback) rfl hstack
      exact h.update (by simp [hstack]) rfl id id
  | @hookReturns rest hstack =>
      obtain ⟨g, -, rfl⟩ := hok.below (f := .hook) rfl hstack
      exact h.update (by simp [hstack]) rfl id id
  | dead _ _ hcrash => simp [hcrash] at hc

/-! ### Runs -/

/-- What holds in a run that is plain in every state before the last one. -/
structure Async.InStep (s : Async) : Prop where
  timely : s.Timely
  matched : s.traffic.Matched

theorem answering_of_top (hok : s.Ok) {cb : RedisCallback}
    (htop : s.stack.head? = some (.processing cb)) :
    s.stack.getLast? = some (.processing cb) := by
  cases hstack : s.stack with
  | nil => simp [hstack] at htop
  | cons f rest =>
      have hshape := hok.shape
      rw [hstack] at hshape htop
      obtain rfl := Option.some.inj htop
      cases hshape with
      | one _ => rfl

theorem in_step
    (hs : ((asyncLts strtod printf alloc).restrict fun s _ => s.plain = true).Reachable s)
    (hc : s.crash = none) (hhook : s.hookFreed = false) : s.InStep := by
  revert hc hhook
  refine hs.induct (I := fun s => s.crash = none → s.hookFreed = false → s.InStep) ?_ ?_
  · rintro s ⟨noAutoFree, rfl⟩ - -
    refine ⟨.of_idle rfl fun hs => ?_, [], 0, rfl, rfl⟩
    simp [Traffic.Spent, Async.traffic] at hs
  · intro s call s' hr ih hstep hc' hhook'
    obtain ⟨hplain, hstep⟩ := Lts.restrict_step_eq_some.mp hstep
    obtain ⟨hc, hs'⟩ := async_step hstep
    have hhook := hs'.hookFreed hc' hhook'
    obtain ⟨htimely, hmatched⟩ := ih hc hhook
    have hok := async_ok hr.of_restrict hc hhook
    refine ⟨hs'.timely htimely hok hc' hhook' hplain, hmatched.step (hs'.traffic hc') ?_ ?_⟩
    · simpa [Async.plain, Async.traffic] using hplain
    · intro cb htop
      exact (htimely.bottom _ (answering_of_top hok htop)).answering rfl

/-- **Replies come in order.**  In a run of a client that is neither subscribed nor in monitor mode
and is not freed by a connect or disconnect callback, the wire carries the texts of the commands,
and the `k`-th callback that was shifted is that of the `k`-th command that has one.  It got the
`k`-th reply of the stream that is no spontaneous push message, or it got none, like all after
it. -/
theorem replies_in_order
    (hs : ((asyncLts strtod printf alloc).restrict fun s _ => s.plain = true).Reachable s)
    (hc : s.crash = none) (hhook : s.hookFreed = false) (hm : s.ac.monitoring = false)
    (hsize : s.fed.length ≤ 2147483648)
    (hout : (s.cmds.flatMap Prod.fst).length ≤ 9223372036854775807) :
    s.wire ++ s.ac.c.obuf = s.cmds.flatMap Prod.fst ∧
    ∀ (k : ℕ) (cb : RedisCallback) (o : Option RedisReply), s.shifted[k]? = some (cb, o) →
      (s.cmds.filterMap Prod.snd)[k]? = some cb ∧
      (∀ v, o = some v →
        (((replyDecoder strtod readerMaxArrayElements).drain [] s.fed).1.filter inBand)[k]? =
          some v) ∧
      (o = none → ∀ (j : ℕ) (p : RedisCallback × Option RedisReply), k ≤ j →
        s.shifted[j]? = some p → p.2 = none) := by
  refine ⟨async_wire hs.of_restrict hc hout, fun k cb o hk => ?_⟩
  have horder : s.cmds.filterMap Prod.snd = s.shifted.map Prod.fst ++ s.ac.replies :=
    callbacks_in_order hs.of_restrict hc hm
  obtain ⟨answered, nulls, hshifted, hdelivered⟩ := (in_step hs hc hhook).matched
  have hsnd {j : ℕ} {p : RedisCallback × Option RedisReply} (hp : s.shifted[j]? = some p) :
      (answered.map some ++ List.replicate nulls none)[j]? = some p.2 := by
    have hget := congrArg (fun l => l[j]?) hshifted
    simp only [Async.traffic, List.getElem?_map, hp, Option.map_some] at hget
    exact hget.symm
  refine ⟨?_, fun v hv => ?_, fun hnone j p hkj hp => ?_⟩
  · have hlt : k < (s.shifted.map Prod.fst).length := by
      rw [List.length_map]
      exact (List.getElem?_eq_some_iff.mp hk).1
    rw [horder, List.getElem?_append_left hlt, List.getElem?_map, hk]
    rfl
  · -- The replies that were answered begin the stream.
    have hbegin := (async_explained hs.of_restrict hc hsize).begins.filter inBand
    have hget := hsnd hk
    subst hv
    have hlt : k < answered.length := by
      by_contra hge
      rw [List.getElem?_append_right (by simpa using hge)] at hget
      have hmem := List.mem_of_getElem? hget
      simp at hmem
    rw [List.getElem?_append_left (by simpa using hlt), List.getElem?_map] at hget
    have hans : answered[k]? = some v := by simpa using hget
    have hle : answered <+:
        ((replyDecoder strtod readerMaxArrayElements).drain [] s.fed).1.filter inBand := by
      refine List.IsPrefix.trans ?_ hbegin
      rw [hdelivered]
      exact List.prefix_append _ _
    obtain ⟨more, hmore⟩ := hle
    rw [← hmore, List.getElem?_append_left hlt]
    exact hans
  · have hget := hsnd hk
    have hge : answered.length ≤ k := by
      by_contra hlt
      rw [List.getElem?_append_left (by simpa using hlt), List.getElem?_map, hnone] at hget
      simp at hget
    have hget' := hsnd hp
    rw [List.getElem?_append_right (by rw [List.length_map]; omega)] at hget'
    exact (List.mem_replicate.mp (List.mem_of_getElem? hget')).2

end timely

/-! ### Two commands and one reply -/

/-- The client after some calls, plain before each of them. -/
def plainAfter (calls : List AsyncCall) : Option Async :=
  ((asyncLts noDoubles (fun format _ => format) .plenty).restrict fun s _ => s.plain = true).run
    ⟨redisAsyncInitialize false, [], true, none, [], [], [], [], [], [], false, false⟩ calls

theorem plainAfter_reachable {calls : List AsyncCall} (h : (plainAfter calls).isSome) :
    ((asyncLts noDoubles (fun format _ => format) .plenty).restrict fun s _ =>
      s.plain = true).Reachable ((plainAfter calls).get h) := by
  refine Lts.Reachable.of_run ?_ h
  exact ⟨false, rfl⟩

/-- The server answers the first command and closes the connection. -/
def oneAnswer : List AsyncCall :=
  [getCall 1, getCall 2, .handleWrite (.completed true), .write (.ok 40), .handleRead .pending,
    .read (.ok (ascii "+OK\x0d\n")) false, .go true, .ret, .go true, .go true, .handleRead .pending,
    .read (.ok []) false, .go true]

theorem replies_in_order_closed :
    (((replyDecoder noDoubles readerMaxArrayElements).drain []
      ((plainAfter oneAnswer).get rfl).fed).1.filter inBand)[0]? =
        some (.string .status (ascii "OK")) :=
  ((replies_in_order (plainAfter_reachable rfl) (by decide) (by decide) (by decide) (by decide)
    (by decide)).2 0 ⟨some 1, 1, 0⟩ (some (.string .status (ascii "OK"))) rfl).2.1 _ rfl

example : ((plainAfter oneAnswer).get rfl).shifted =
    [(⟨some 1, 1, 0⟩, some (.string .status (ascii "OK"))), (⟨some 2, 1, 0⟩, none)] := by rfl

end RedisMigrate
