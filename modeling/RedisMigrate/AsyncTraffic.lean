import RedisMigrate.AsyncSteps

/-! # What passes through an asynchronous client

`Traffic` is the part of the state that holds commands, callbacks and replies, and
`TrafficStep` says everything that a step can do to it.

* `callbacks_in_order`: outside of monitor mode, the callbacks that were shifted and those that wait
  are the callbacks of the commands, in order.
* `async_wire`: the wire carries the texts of the commands. -/

namespace RedisMigrate

structure Traffic where
  c : RedisContext
  subscribed : Bool
  monitoring : Bool
  replies : List RedisCallback
  cmds : List (Bytes × Option RedisCallback)
  shifted : List (RedisCallback × Option RedisReply)
  delivered : List RedisReply
  unsolicited : List RedisReply
  wire : Bytes
  fed : Bytes

def Async.traffic (s : Async) : Traffic :=
  ⟨s.ac.c, s.ac.subscribed, s.ac.monitoring, s.ac.replies, s.cmds, s.shifted, s.delivered,
    s.unsolicited, s.wire, s.fed⟩

/-! ### Control does not touch the traffic -/

section control

variable (s : Async)

@[simp] theorem Async.push_traffic (f : AsyncFrame) : (s.push f).traffic = s.traffic := rfl

@[simp] theorem Async.startFree_traffic : s.startFree.traffic = s.traffic := rfl

@[simp] theorem Async.runCallback_traffic (isNull : Bool) :
    (s.runCallback isNull).traffic = s.traffic := by
  unfold Async.runCallback
  split_ifs <;> rfl

@[simp] theorem Async.runNull_traffic (f : AsyncFrame) (cb : RedisCallback) :
    (s.runNull f cb).traffic = s.traffic :=
  Async.runCallback_traffic _ _

@[simp] theorem Async.runReply_traffic (cb : RedisCallback) :
    (s.runReply cb).traffic = s.traffic := by
  unfold Async.runReply
  split_ifs
  · rfl
  · exact Async.runCallback_traffic _ _

@[simp] theorem Async.userFree_traffic : s.userFree.traffic = s.traffic := by
  unfold Async.userFree
  dsimp only
  split_ifs <;> rfl

end control

/-! ### What a step does -/

/-- A step from `t` in the call `top`. -/
inductive TrafficStep (strtod : Strtod) (top : Option AsyncFrame) (t : Traffic) : Traffic → Prop
  | quiet : TrafficStep strtod top t t
  | failed {c : RedisContext} : c = t.c ∨ (∃ type str, c = redisSetError t.c type str) →
      TrafficStep strtod top t { t with c }
  | outOfMemory (type : ContextErr) (str : Bytes) :
      TrafficStep strtod top t { t with c := redisSetError t.c type str, subscribed := true }
  | command (text : Bytes) (cb : Option RedisCallback) {subscribed monitoring : Bool} :
      (t.subscribed = true → subscribed = true) → (t.monitoring = true → monitoring = true) →
      TrafficStep strtod top t { t with
        c := { t.c with obuf := t.c.obuf ++ text }, subscribed, monitoring
        replies := t.replies ++ cb.toList, cmds := t.cmds ++ [(text, cb)] }
  | asked {c : RedisContext} {st : Status} :
      redisGetReplyFromReader strtod t.c = some (c, st, none) →
      TrafficStep strtod top t { t with c }
  | again {c : RedisContext} (cbs : List RedisCallback) :
      redisGetReplyFromReader strtod t.c = some (c, .ok, none) → t.monitoring = true →
      TrafficStep strtod top t { t with c, replies := t.replies ++ cbs }
  | spontaneous {c : RedisContext} {v : RedisReply} :
      redisGetReplyFromReader strtod t.c = some (c, .ok, some v) →
      redisIsSpontaneousPushReply v = some true →
      TrafficStep strtod top t { t with c, delivered := t.delivered ++ [v] }
  | answered {c : RedisContext} {v : RedisReply} {cb : RedisCallback} {rest : List RedisCallback}
      {cb' : RedisCallback} : top = some (.processing cb') →
      redisGetReplyFromReader strtod t.c = some (c, .ok, some v) →
      redisIsSpontaneousPushReply v = some false → t.replies = cb :: rest →
      TrafficStep strtod top t { t with
        c, delivered := t.delivered ++ [v], replies := rest
        shifted := t.shifted ++ [(cb, some v)] }
  | refused {c : RedisContext} {v : RedisReply} (str : Bytes) {cb' : RedisCallback} :
      top = some (.processing cb') →
      redisGetReplyFromReader strtod t.c = some (c, .ok, some v) →
      redisIsSpontaneousPushReply v = some false → v.errorBytes.isSome → t.replies = [] →
      TrafficStep strtod top t { t with
        c := redisSetError c .other str, delivered := t.delivered ++ [v]
        unsolicited := t.unsolicited ++ [v] }
  | message {c c' : RedisContext} {v : RedisReply} {subscribed : Bool} :
      redisGetReplyFromReader strtod t.c = some (c, .ok, some v) →
      redisIsSpontaneousPushReply v = some false → t.replies = [] →
      t.subscribed = true ∨ t.monitoring = true →
      c' = c ∨ c' = redisSetError c .oom (ascii "Out of memory") →
      TrafficStep strtod top t { t with
        c := c', subscribed, delivered := t.delivered ++ [v]
        unsolicited := t.unsolicited ++ [v] }
  | null {cb : RedisCallback} {rest : List RedisCallback} :
      top = some .timeout ∨ top = some .freeReplies → t.replies = cb :: rest →
      TrafficStep strtod top t { t with replies := rest, shifted := t.shifted ++ [(cb, none)] }
  | read (r : Except Errno Bytes) (large : Bool) : top = some .reading →
      TrafficStep strtod top t { t with
        c := (redisBufferRead t.c r large).1, fed := t.fed ++ bytesGot t.c r }
  | write (r : Except Errno ℕ) : bytesTaken t.c r ≤ t.c.obuf.length →
      TrafficStep strtod top t { t with
        c := (redisBufferWrite t.c r).1, wire := t.wire ++ t.c.obuf.take (bytesTaken t.c r) }

section steps

variable {strtod : Strtod} {top : Option AsyncFrame} {s t : Async}

theorem Ended.traffic (h : Ended s t) (hc : t.crash = none) : t.traffic = s.traffic := by
  cases h with
  | aborted _ _ hcrash => simp [hcrash] at hc
  | kept _ _ => rfl
  | freed _ _ => rfl

theorem Commanded.traffic (h : Commanded s t) (hc : t.crash = none) :
    TrafficStep strtod top s.traffic t.traffic := by
  cases h with
  | refused => exact .quiet
  | crashed _ hcrash _ => simp [hcrash] at hc
  | outOfMemory _ _ => exact .outOfMemory _ _
  | appended text cb _ hs hm _ => exact .command text cb hs hm

theorem Processed.traffic {cb' : RedisCallback} (h : Processed strtod s t)
    (hc : t.crash = none) : TrafficStep strtod (some (.processing cb')) s.traffic t.traffic := by
  cases h with
  | crashed hcrash _ => simp [hcrash] at hc
  | failed h he =>
      rw [he.traffic hc]
      exact .asked h
  | drained h _ _ he =>
      rw [he.traffic hc]
      exact .asked h
  | again cbs h hm => exact .again cbs h hm
  | stopped h => exact .asked h
  | spontaneous cb isNull h hv =>
      rw [Async.runCallback_traffic, Async.push_traffic]
      exact .spontaneous h hv
  | answered h hv hreplies =>
      rw [Async.runReply_traffic]
      exact .answered rfl h hv hreplies
  | refused str h hv herr hreplies he =>
      rw [he.traffic hc]
      exact .refused str rfl h hv herr hreplies
  | message cb h hv hreplies hplain hctx _ _ =>
      rw [Async.runReply_traffic]
      exact .message h hv hreplies hplain hctx

theorem WentOn.traffic {f : AsyncFrame} (h : WentOn strtod s f t) (hc : t.crash = none) :
    TrafficStep strtod (some f) s.traffic t.traffic := by
  cases h with
  | processing hp => exact hp.traffic hc
  | freed _ => exact .quiet
  | afterReply _ => exact .quiet
  | connecting => exact .quiet
  | connectFailed he =>
      rw [he.traffic hc]
      exact .quiet
  | timedOut _ he =>
      rw [he.traffic hc]
      exact .quiet
  | null hf hreplies =>
      rw [Async.runNull_traffic]
      exact .null (hf.imp (congrArg some) (congrArg some)) hreplies
  | repliesFreed _ => exact .quiet
  | invalid _ =>
      rw [Async.runNull_traffic]
      exact .quiet
  | invalidFreed _ => exact .quiet
  | subsCrashed hcrash _ _ => simp [hcrash] at hc
  | iterate => exact .quiet
  | visit _ _ =>
      rw [Async.runNull_traffic]
      exact .quiet
  | release => exact .quiet
  | disconnectCallback => exact .quiet
  | noDisconnectCallback => exact .quiet
  | freeEnd => exact .quiet

theorem userDisconnect_traffic (hc : s.userDisconnect.crash = none) :
    s.userDisconnect.traffic = s.traffic := by
  unfold Async.userDisconnect at hc ⊢
  dsimp only at hc ⊢
  split_ifs at hc ⊢
  · exact (disconnect_ended _).traffic hc
  · rfl

theorem HandledIo.traffic {write : Bool} (h : HandledIo s write t) (hc : t.crash = none) :
    TrafficStep strtod top s.traffic t.traffic := by
  cases h with
  | waiting => exact .quiet
  | connected => exact .quiet
  | hook => exact .quiet
  | failedHook => exact .failed (.inr ⟨.io, [], rfl⟩)
  | failed he =>
      rw [he.traffic hc]
      exact .failed (.inr ⟨.io, [], rfl⟩)

theorem TimedOut.traffic (h : TimedOut s t) : TrafficStep strtod top s.traffic t.traffic := by
  cases h with
  | idle => exact .quiet
  | started _ hset => exact .failed (hset.imp_right fun heq => ⟨_, _, heq⟩)
  | hook _ hset => exact .failed (hset.imp_right fun heq => ⟨_, _, heq⟩)

theorem WasRead.traffic (htop : top = some .reading) {r : Except Errno Bytes} {large : Bool}
    (h : WasRead s r large t) (hc : t.crash = none) :
    TrafficStep strtod top s.traffic t.traffic := by
  cases h with
  | processing _ => exact .read r large htop
  | failed _ he =>
      rw [he.traffic hc]
      exact .read r large htop

theorem Written.traffic {r : Except Errno ℕ} (h : Written s r t) (hc : t.crash = none) :
    TrafficStep strtod top s.traffic t.traffic := by
  cases h with
  | done hle _ => exact .write r hle
  | failed hle _ he =>
      rw [he.traffic hc]
      exact .write r hle

/-- What a step that does not end in a crash does to the traffic. -/
theorem AsyncStep.traffic {call : AsyncCall} (h : AsyncStep strtod s call t)
    (hc : t.crash = none) : TrafficStep strtod s.stack.head? s.traffic t.traffic := by
  cases h with
  | command _ hcmd => exact hcmd.traffic hc
  | free _ =>
      rw [Async.userFree_traffic]
      exact .quiet
  | disconnect _ =>
      rw [userDisconnect_traffic hc]
      exact .quiet
  | setCallbacks _ _ _ _ => exact .quiet
  | handleIo _ _ hio => exact hio.traffic hc
  | handleTimeout _ _ htime => exact htime.traffic
  | @read r large rest t _ hstack hread =>
      rw [hstack]
      exact WasRead.traffic (s := { s with stack := rest }) rfl hread hc
  | @write r rest t _ hstack hw => exact Written.traffic (s := { s with stack := rest }) hw hc
  | @go malloc f rest t _ hstack hgo =>
      rw [hstack]
      exact WentOn.traffic (s := { s with stack := rest }) hgo hc
  | callbackReturns _ _ => exact .quiet
  | hookReturns _ => exact .quiet
  | dead _ _ hcrash => simp [hcrash] at hc

end steps

/-! ### Runs -/

section runs

variable {strtod : Strtod} {printf : Printf} {alloc : Allocator} {s : Async}

/-- What every step keeps of the traffic holds in every run. -/
theorem traffic_induct {J : Traffic → Prop}
    (hinit : J ⟨⟨none, false, [], redisReaderCreate, false⟩, false, false, [], [], [], [], [], [],
      []⟩)
    (hstep : ∀ top t t', TrafficStep strtod top t t' → J t → J t')
    (hs : (asyncLts strtod printf alloc).Reachable s) (hc : s.crash = none) : J s.traffic := by
  revert hc
  refine hs.induct (I := fun s => s.crash = none → J s.traffic) ?_ ?_
  · rintro s ⟨noAutoFree, rfl⟩ -
    exact hinit
  · intro s call s' _ ih hs' hc'
    obtain ⟨hc, hstep'⟩ := async_step hs'
    exact hstep _ _ _ (hstep'.traffic hc') (ih hc)

/-- The callbacks that were shifted and those that wait are the callbacks of the commands. -/
def Traffic.InOrder (t : Traffic) : Prop :=
  t.monitoring = false → t.cmds.filterMap Prod.snd = t.shifted.map Prod.fst ++ t.replies

theorem Traffic.InOrder.step {top : Option AsyncFrame} {t t' : Traffic}
    (h : TrafficStep strtod top t t') (ht : t.InOrder) : t'.InOrder := by
  intro hm
  cases h with
  | command text cb _ hmon =>
      have hm' : t.monitoring = false := by
        cases hold : t.monitoring with
        | false => rfl
        | true => simp [hmon hold] at hm
      cases cb <;> simp [ht hm']
  | again cbs _ hmon => simp [hmon] at hm
  | answered _ _ _ hreplies => simp [ht hm, hreplies]
  | null _ hreplies => simp [ht hm, hreplies]
  | _ => exact ht hm

/-- **Callbacks are kept in order.**  In every run that is not in monitor mode, the regular
callbacks that were shifted and then those that wait are the callbacks of the commands, each once
and in the order of the commands. -/
theorem callbacks_in_order (hs : (asyncLts strtod printf alloc).Reachable s) (hc : s.crash = none) :
    s.traffic.InOrder :=
  traffic_induct (J := Traffic.InOrder) (fun _ => rfl) (fun _ _ _ h ht => ht.step h) hs hc

def Traffic.Carried (t : Traffic) : Prop :=
  (t.cmds.flatMap Prod.fst).length ≤ 9223372036854775807 →
    t.wire ++ t.c.obuf = t.cmds.flatMap Prod.fst

theorem Traffic.Carried.step {top : Option AsyncFrame} {t t' : Traffic}
    (h : TrafficStep strtod top t t') (ht : t.Carried) : t'.Carried := by
  intro hlen
  have hasked {c : RedisContext} {st : Status} {o : Option RedisReply}
      (h : redisGetReplyFromReader strtod t.c = some (c, st, o)) : c.obuf = t.c.obuf := by
    obtain ⟨⟨_, _, _⟩, -, ⟨-, heq⟩ | ⟨-, err, heq⟩⟩ := redisGetReplyFromReader_eq h
    · cases heq; rfl
    · cases heq; rfl
  cases h with
  | failed hset =>
      obtain rfl | ⟨type, str, rfl⟩ := hset
      · exact ht hlen
      · exact ht hlen
  | command text cb _ _ =>
      simp only [List.flatMap_append, List.length_append] at hlen
      rw [← List.append_assoc, ht (by omega)]
      simp
  | asked h => exact (hasked h).symm ▸ ht hlen
  | again cbs h _ => exact (hasked h).symm ▸ ht hlen
  | spontaneous h _ => exact (hasked h).symm ▸ ht hlen
  | answered _ h _ _ => exact (hasked h).symm ▸ ht hlen
  | refused str _ h _ _ _ => exact (hasked h).symm ▸ ht hlen
  | message h _ _ _ hset =>
      have hobuf := hasked h
      obtain rfl | rfl := hset
      · exact hobuf.symm ▸ ht hlen
      · exact hobuf.symm ▸ ht hlen
  | read r large _ =>
      obtain ⟨err, heq⟩ := redisBufferRead_eq t.c r large
      show t.wire ++ (redisBufferRead t.c r large).1.obuf = _
      rw [heq]
      exact ht hlen
  | write r hle =>
      have hall := ht hlen
      have hobuf : t.c.obuf.length ≤ 9223372036854775807 := by
        rw [← hall, List.length_append] at hlen
        omega
      show t.wire ++ t.c.obuf.take _ ++ (redisBufferWrite t.c r).1.obuf = _
      rw [redisBufferWrite_obuf t.c r hle hobuf, List.append_assoc, List.take_append_drop, hall]
  | _ => exact ht hlen

/-- The wire carries the texts of the commands. -/
theorem async_wire (hs : (asyncLts strtod printf alloc).Reachable s) (hc : s.crash = none) :
    s.traffic.Carried :=
  traffic_induct (J := Traffic.Carried) (fun _ => rfl) (fun _ _ _ h ht => ht.step h) hs hc

def Traffic.ReadFrom (strtod : Strtod) (t : Traffic) : Prop :=
  t.fed.length ≤ seekMax → Explained strtod readerMaxArrayElements t.c.reader t.fed t.delivered

theorem Traffic.ReadFrom.step {top : Option AsyncFrame} {t t' : Traffic}
    (h : TrafficStep strtod top t t') (ht : t.ReadFrom strtod) : t'.ReadFrom strtod := by
  intro hsize
  have hasked {c : RedisContext} {st : Status} {o : Option RedisReply}
      (h : redisGetReplyFromReader strtod t.c = some (c, st, o)) (hsize : t.fed.length ≤ seekMax) :
      Explained strtod readerMaxArrayElements c.reader t.fed (t.delivered ++ o.toList) := by
    obtain ⟨⟨_, _, _⟩, hr, hcase⟩ := redisGetReplyFromReader_eq h
    have hnext := getReply_next (ht hsize) hsize hr
    obtain ⟨-, heq⟩ | ⟨hst, err, heq⟩ := hcase
    · cases heq
      exact hnext.1
    · have hnone := hnext.2.2 hst
      rw [hnone] at hnext
      cases heq
      exact hnext.1
  cases h with
  | failed hset =>
      obtain rfl | ⟨type, str, rfl⟩ := hset
      · exact ht hsize
      · exact ht hsize
  | asked h => simpa using hasked h hsize
  | again cbs h _ => simpa using hasked h hsize
  | spontaneous h _ => exact hasked h hsize
  | answered _ h _ _ => exact hasked h hsize
  | refused str _ h _ _ _ => exact hasked h hsize
  | message h _ _ _ hset =>
      have hex := hasked h hsize
      obtain rfl | rfl := hset
      · exact hex
      · exact hex
  | read r large _ =>
      obtain ⟨err, heq⟩ := redisBufferRead_eq t.c r large
      show Explained strtod readerMaxArrayElements (redisBufferRead t.c r large).1.reader _ _
      rw [heq]
      rw [List.length_append] at hsize
      exact feed_explained (ht (by omega)) _ large
  | write r _ =>
      obtain ⟨err, obuf, heq⟩ := redisBufferWrite_eq t.c r
      show Explained strtod readerMaxArrayElements (redisBufferWrite t.c r).1.reader _ _
      rw [heq]
      exact ht hsize
  | _ => exact ht hsize

/-- The reader has read what the client was fed. -/
theorem async_explained (hs : (asyncLts strtod printf alloc).Reachable s) (hc : s.crash = none) :
    s.traffic.ReadFrom strtod := by
  refine traffic_induct (J := Traffic.ReadFrom strtod) (fun _ => ?_)
    (fun _ _ _ h ht => ht.step h) hs hc
  have hstart : (sessionLts strtod readerMaxArrayElements).Reachable ⟨redisReaderCreate, [], []⟩ :=
    .of_init rfl
  exact session_explained hstart (Nat.zero_le _)

end runs

end RedisMigrate
