import RedisMigrate.Async

/-! # What the functions of the asynchronous client can do

One inversion for each function that a step calls.  A crash keeps no data, so only its reason is
described. -/

namespace RedisMigrate

/-- Commands are not accepted any more. -/
def RedisAsyncContext.shut (ac : RedisAsyncContext) : Bool := ac.disconnecting || ac.freeing

/-- A crash that is not an assertion of `__redisAsyncDisconnect`; memory that was freed is only
used when a dictionary was released. -/
structure CrashOf (ac : RedisAsyncContext) (why : AsyncCrash) : Prop where
  not_pending : why ≠ .pendingCallbacks
  released : why = .useAfterFree → ∃ pvariant, ac.sub.dict pvariant = none

section errors

variable {strtod : Strtod} {c c' : RedisContext}

theorem readerFailed_err {c : RedisContext} (h : c.reader.err ≠ none) :
    (readerFailed c).err ≠ none := by
  cases herr : c.reader.err with
  | none => exact absurd herr h
  | some e => simp [readerFailed, herr, redisSetError]

/-- An error of `redisGetReply` is in the context, as long as the reader was not fed too much. -/
theorem asked_err {m : ℤ} {fed : Bytes} {outs : List RedisReply} {o : Option RedisReply}
    (hex : Explained strtod m c.reader fed outs) (hsize : fed.length ≤ seekMax)
    (h : redisGetReplyFromReader strtod c = some (c', .err, o)) : c'.err ≠ none := by
  obtain ⟨⟨reader, st, o'⟩, hr, heq⟩ := Option.map_eq_some_iff.mp h
  have hend := getReply_end hex hsize
  rw [hr] at hend
  cases hend with
  | failed hf _ =>
      cases heq
      exact readerFailed_err (by rw [hf.err]; simp)
  | waiting _ _ _ _ => cases heq
  | reply _ _ => cases heq

theorem bufferRead_err {r : Except Errno Bytes} {large : Bool}
    (h : (redisBufferRead c r large).2 = .err) : (redisBufferRead c r large).1.err ≠ none := by
  unfold redisBufferRead at h ⊢
  by_cases herr : c.err = none
  · rw [if_neg (by simp [herr])] at h ⊢
    cases r with
    | error e =>
        simp only [redisNetRead] at h ⊢
        by_cases hretry : e.retry c.block = true
        · rw [if_pos hretry] at h
          cases h
        · rw [if_neg hretry]
          split_ifs <;> simp [redisSetError]
    | ok buf =>
        cases buf with
        | nil => simp [redisNetRead, redisSetError]
        | cons b bs =>
            simp only [redisNetRead] at h ⊢
            cases hfeed : redisReaderFeed c.reader (b :: bs) large with
            | mk reader st =>
                rw [hfeed] at h
                cases st with
                | ok => cases h
                | err =>
                    apply readerFailed_err (c := { c with reader })
                    unfold redisReaderFeed at hfeed
                    split_ifs at hfeed with hr
                    · cases hfeed
                      exact hr
                    all_goals cases hfeed
  · rw [if_pos herr]
    exact herr

theorem bufferRead_ok {r : Except Errno Bytes} {large : Bool}
    (h : (redisBufferRead c r large).2 = .ok) : c.err = none := by
  unfold redisBufferRead at h
  split_ifs at h with herr
  · simpa using herr

/-- A write that has to be tried again. -/
def Retried (c : RedisContext) (r : Except Errno ℕ) : Prop :=
  ∃ e, r = .error e ∧ e.retry c.block = true ∧ c.err = none ∧ c.obuf ≠ []

theorem bufferWrite_retried {r : Except Errno ℕ} (h : Retried c r) :
    redisBufferWrite c r = (c, .err, false) := by
  obtain ⟨e, rfl, hretry, herr, hobuf⟩ := h
  rw [redisBufferWrite, if_neg (by simp [herr]), if_pos (List.length_pos_iff.mpr hobuf),
    redisNetWrite, if_pos hretry]
  rfl

/-- `redisBufferWrite` fails without an error in the context when the write has to be tried again,
and only then. -/
theorem bufferWrite_err {r : Except Errno ℕ} (h : (redisBufferWrite c r).2.1 = .err) :
    (redisBufferWrite c r).1.err = none ↔ Retried c r := by
  constructor
  · intro hnone
    unfold redisBufferWrite at h hnone
    by_cases herr : c.err = none
    · rw [if_neg (by simp [herr])] at h hnone
      by_cases hpos : c.obuf.length > 0
      · rw [if_pos hpos] at h hnone
        cases r with
        | error e =>
            refine ⟨e, rfl, ?_, herr, List.length_pos_iff.mp hpos⟩
            unfold redisNetWrite at hnone
            cases hretry : e.retry c.block with
            | true => rfl
            | false => simp [hretry, redisSetError] at hnone
        | ok n =>
            have hnet : redisNetWrite c (.ok n) = (c, (n : ℤ)) := rfl
            rw [hnet] at h hnone
            dsimp only at h hnone
            rw [if_neg (by omega)] at h hnone
            split_ifs at h hnone
            · cases h
            · cases hrange : sdsrange c.obuf n (-1) with
              | none => simp [hrange, redisSetError] at hnone
              | some obuf => simp [hrange, writeDone] at h
            · cases h
      · rw [if_neg hpos] at h
        cases h
    · rw [if_pos herr] at hnone
      exact absurd hnone herr
  · intro hr
    rw [bufferWrite_retried hr]
    obtain ⟨-, -, -, herr, -⟩ := hr
    exact herr

end errors

/-! ### The end of a context -/

/-- What `__redisAsyncDisconnect` does. -/
inductive Ended (s : Async) : Async → Prop
  | aborted {t : Async} : s.ac.c.err = none → s.ac.replies ≠ [] →
      t.crash = some .pendingCallbacks → Ended s t
  | kept : s.ac.noAutoFree = true → (s.ac.c.err = none → s.ac.replies = []) →
      Ended s { s with ac := { s.ac with
        err := s.ac.c.err, disconnecting := s.ac.disconnecting || s.ac.c.err.isSome } }
  | freed : s.ac.noAutoFree = false → (s.ac.c.err = none → s.ac.replies = []) →
      Ended s (Async.startFree { s with ac := { s.ac with
        err := s.ac.c.err, disconnecting := s.ac.disconnecting || s.ac.c.err.isSome } })

theorem autoFree_ended {s : Async} (h : s.ac.c.err = none → s.ac.replies = []) :
    Ended s (Async.autoFree { s with ac := { s.ac with
      err := s.ac.c.err, disconnecting := s.ac.disconnecting || s.ac.c.err.isSome } }) := by
  unfold Async.autoFree
  dsimp only
  split_ifs with hauto
  · exact .kept hauto h
  · exact .freed (by simpa using hauto) h

theorem disconnect_ended (s : Async) : Ended s s.disconnect := by
  unfold Async.disconnect
  dsimp only
  split_ifs with herr hreplies
  · have h := autoFree_ended fun _ => hreplies
    simpa [herr] using h
  · exact .aborted herr hreplies rfl
  · have h := autoFree_ended (s := s) fun hnone => absurd hnone herr
    simpa [Option.isSome_iff_ne_none.mpr herr] using h

/-! ### Commands -/

/-- What `__redisAsyncCommand` does. -/
inductive Commanded (s : Async) : Async → Prop
  | refused : Commanded s s
  | crashed {t : Async} {why : AsyncCrash} : s.ac.shut = false → t.crash = some why →
      CrashOf s.ac why → Commanded s t
  | outOfMemory {sub : RedisSubscriptions} : s.ac.shut = false →
      (∀ pvariant, sub.dict pvariant = none ↔ s.ac.sub.dict pvariant = none) →
      Commanded s { s with ac := { s.ac with
        c := redisSetError s.ac.c .oom (ascii "Out of memory"), subscribed := true, sub } }
  | appended (text : Bytes) (cb : Option RedisCallback) {subscribed monitoring : Bool}
      {sub : RedisSubscriptions} : s.ac.shut = false →
      (s.ac.subscribed = true → subscribed = true) →
      (s.ac.monitoring = true → monitoring = true) →
      (∀ pvariant, sub.dict pvariant = none ↔ s.ac.sub.dict pvariant = none) →
      Commanded s { s with
        ac := { s.ac with
          c := { s.ac.c with obuf := s.ac.c.obuf ++ text }
          replies := s.ac.replies ++ cb.toList, subscribed, monitoring, sub }
        cmds := s.cmds ++ [(text, cb)] }

theorem setDict_eq_none_iff {sub : RedisSubscriptions} {pvariant : Bool} {d d' : CallbackDict}
    (h : sub.dict pvariant = some d) (p : Bool) :
    (sub.setDict pvariant (some d')).dict p = none ↔ sub.dict p = none := by
  cases pvariant <;> cases p <;>
    simp_all [RedisSubscriptions.setDict, RedisSubscriptions.dict]

theorem subscribeChannels_crash {names : List (Option Bytes)} {ended : Bool}
    {mem : ℕ → ChannelMemory} {cb : RedisCallback} {d : CallbackDict} {why : AsyncCrash}
    (h : subscribeChannels names ended mem cb d = .crash why) :
    why ≠ .pendingCallbacks ∧ why ≠ .useAfterFree := by
  induction names generalizing mem cb d with
  | nil =>
      rw [subscribeChannels] at h
      split_ifs at h
      cases h
      exact ⟨nofun, nofun⟩
  | cons name names ih =>
      cases name with
      | none => cases h
      | some sname =>
          rw [subscribeChannels] at h
          by_cases hname : (mem 0).name = true
          swap
          · rw [if_neg hname] at h
            cases h
          rw [if_pos hname] at h
          split at h
          · cases h
            exact ⟨nofun, nofun⟩
          · cases h
            exact ⟨nofun, nofun⟩
          · dsimp only at h
            split at h
            · cases h
              exact ⟨nofun, nofun⟩
            · exact ih h

theorem appendRegular_commanded {s : Async} (hshut : s.ac.shut = false) (cmd : Bytes) (len : ℕ)
    (malloc : Bool) (cb : RedisCallback) {monitoring : Bool}
    (hm : s.ac.monitoring = true → monitoring = true) :
    Commanded s
      (Async.appendRegular { s with ac := { s.ac with monitoring } } cmd len malloc cb) := by
  have h := @Commanded.appended s (cmd.take len) (if malloc then some cb else none)
    s.ac.subscribed monitoring s.ac.sub hshut id hm fun _ => Iff.rfl
  cases malloc with
  | true => exact h
  | false => simpa [Async.appendRegular, Async.append, redisPushCallback] using h

theorem append_commanded {s : Async} (hshut : s.ac.shut = false) (cmd : Bytes) (len : ℕ)
    {subscribed : Bool} {sub : RedisSubscriptions}
    (hs : s.ac.subscribed = true → subscribed = true)
    (hsub : ∀ pvariant, sub.dict pvariant = none ↔ s.ac.sub.dict pvariant = none) :
    Commanded s (Async.append { s with ac := { s.ac with subscribed, sub } } cmd len none) := by
  have h := @Commanded.appended s (cmd.take len) none subscribed s.ac.monitoring sub hshut hs id
    hsub
  simpa [Async.append] using h

theorem command_commanded (s : Async) (fn : Option ℕ) (privdata : ℕ) (cmd : Bytes) (len : ℕ)
    (mem : CommandMemory) : Commanded s (s.command fn privdata cmd len mem) := by
  unfold Async.command
  by_cases hshut : s.ac.disconnecting || s.ac.freeing
  · rw [if_pos hshut]
    exact .refused
  · rw [if_neg hshut]
    have hopen : s.ac.shut = false := by simpa [RedisAsyncContext.shut] using hshut
    dsimp only
    cases asyncKind cmd with
    | none => exact .crashed hopen rfl ⟨nofun, nofun⟩
    | some kind =>
        cases kind with
        | subscribe pvariant names =>
            dsimp only
            cases hd : s.ac.sub.dict pvariant with
            | none => exact .crashed hopen rfl ⟨nofun, fun _ => ⟨pvariant, hd⟩⟩
            | some d =>
                dsimp only
                cases hsub : subscribeChannels names.1 names.2 mem.channels ⟨fn, 1, privdata⟩ d with
                | crash why =>
                    obtain ⟨h1, h2⟩ := subscribeChannels_crash hsub
                    exact .crashed hopen rfl ⟨h1, fun heq => absurd heq h2⟩
                | oom d' => exact .outOfMemory hopen (setDict_eq_none_iff hd)
                | done d' =>
                    exact append_commanded hopen cmd len (fun _ => rfl) (setDict_eq_none_iff hd)
        | unsubscribe =>
            dsimp only
            split_ifs with hsub
            · exact append_commanded (s := s) hopen cmd len id fun _ => Iff.rfl
            · exact .refused
        | monitor => exact appendRegular_commanded hopen cmd len mem.push _ fun _ => rfl
        | regular =>
            dsimp only
            split_ifs with hsub
            · refine @append_commanded s hopen cmd len s.ac.subscribed _ id ?_
              intro pvariant
              cases pvariant <;> exact Iff.rfl
            · exact appendRegular_commanded (s := s) hopen cmd len mem.push _ id

/-! ### Replies -/

/-- What `__redisGetSubscribeCallback` does. -/
inductive Found (ac : RedisAsyncContext) :
    Except AsyncCrash (RedisAsyncContext × RedisCallback) → Prop
  | crashed {why : AsyncCrash} : CrashOf ac why → Found ac (.error why)
  | found {c : RedisContext} {sub : RedisSubscriptions} {subscribed : Bool} (cb : RedisCallback) :
      c = ac.c ∨ c = redisSetError ac.c .oom (ascii "Out of memory") →
      (∀ pvariant, sub.dict pvariant = none ↔ ac.sub.dict pvariant = none) →
      (subscribed = true → ac.subscribed = true) →
      Found ac (.ok ({ ac with c, sub, subscribed }, cb))

theorem getChannelCallback_found (ac : RedisAsyncContext) (reply : RedisReply)
    (stype sname : Bytes) (dstcb : RedisCallback) :
    Found ac (getChannelCallback ac reply stype sname dstcb) := by
  unfold getChannelCallback
  dsimp only
  generalize decide (tolower (stype.headD 0) = 112) = pvariant
  cases hd : ac.sub.dict pvariant with
  | none => exact .crashed ⟨nofun, fun _ => ⟨pvariant, hd⟩⟩
  | some d =>
      dsimp only
      split
      · exact .crashed ⟨nofun, nofun⟩
      · exact .found dstcb (.inl rfl) (fun _ => Iff.rfl) id
      · exact .crashed ⟨nofun, nofun⟩
      · split_ifs
        · split
          · exact .crashed ⟨nofun, nofun⟩
          · rename_i hun
            obtain ⟨d', -, hun⟩ := Option.bind_eq_some_iff.mp hun
            split at hun
            · cases hun
              refine .found _ (.inl rfl) (setDict_eq_none_iff hd) fun hs => ?_
              exact (Bool.and_eq_true_iff.mp hs).1
            · cases hun
        · exact .found _ (.inl rfl) (setDict_eq_none_iff hd) id

theorem getInvalidCallback_found (ac : RedisAsyncContext) (dstcb : RedisCallback) :
    Found ac (.ok (getInvalidCallback ac dstcb)) := by
  unfold getInvalidCallback
  split
  · exact .found dstcb (.inl rfl) (fun _ => Iff.rfl) id
  · refine .found _ (.inl rfl) (fun pvariant => ?_) id
    cases pvariant <;> exact Iff.rfl

theorem getSubscribeCallback_found (malloc : Bool) (ac : RedisAsyncContext) (reply : RedisReply)
    (dstcb : RedisCallback) : Found ac (redisGetSubscribeCallback malloc ac reply dstcb) := by
  unfold redisGetSubscribeCallback
  split
  · rename_i type element
    by_cases htype : type = .array ∨ type = .push
    · rw [if_pos htype]
      split
      · by_cases hlen : element.length < 2
        · rw [if_pos hlen]
          exact .crashed ⟨nofun, nofun⟩
        · rw [if_neg hlen]
          cases malloc with
          | true => exact getChannelCallback_found _ _ _ _ _
          | false => exact .found dstcb (.inr rfl) (fun _ => Iff.rfl) id
      · exact .crashed ⟨nofun, nofun⟩
    · rw [if_neg htype]
      exact getInvalidCallback_found _ _
  · exact getInvalidCallback_found _ _

/-- What a turn of the loop of `redisProcessCallbacks` does; its frame is not on the stack
of `s`. -/
inductive Processed (strtod : Strtod) (s : Async) : Async → Prop
  | crashed {t : Async} {why : AsyncCrash} : t.crash = some why → CrashOf s.ac why →
      Processed strtod s t
  | failed {c : RedisContext} {t : Async} :
      redisGetReplyFromReader strtod s.ac.c = some (c, .err, none) →
      Ended { s with ac := { s.ac with c } } t → Processed strtod s t
  | drained {c : RedisContext} {t : Async} :
      redisGetReplyFromReader strtod s.ac.c = some (c, .ok, none) → s.ac.disconnecting = true →
      s.ac.replies = [] → Ended { s with ac := { s.ac with c } } t → Processed strtod s t
  | again {c : RedisContext} (cbs : List RedisCallback) :
      redisGetReplyFromReader strtod s.ac.c = some (c, .ok, none) → s.ac.monitoring = true →
      Processed strtod s { s with ac := { s.ac with c, replies := s.ac.replies ++ cbs } }
  | stopped {c : RedisContext} : redisGetReplyFromReader strtod s.ac.c = some (c, .ok, none) →
      Processed strtod s { s with ac := { s.ac with c } }
  | spontaneous {c : RedisContext} {v : RedisReply} (cb : RedisCallback) (isNull : Bool) :
      redisGetReplyFromReader strtod s.ac.c = some (c, .ok, some v) →
      redisIsSpontaneousPushReply v = some true →
      Processed strtod s ((Async.push { s with
        ac := { s.ac with c }
        delivered := s.delivered ++ [v] } (.processing cb)).runCallback isNull)
  | answered {c : RedisContext} {v : RedisReply} {cb : RedisCallback} {rest : List RedisCallback} :
      redisGetReplyFromReader strtod s.ac.c = some (c, .ok, some v) →
      redisIsSpontaneousPushReply v = some false → s.ac.replies = cb :: rest →
      Processed strtod s (Async.runReply { s with
        ac := { s.ac with c, replies := rest }, delivered := s.delivered ++ [v]
        shifted := s.shifted ++ [(cb, some v)] } cb)
  | refused {c : RedisContext} {v : RedisReply} {t : Async} (str : Bytes) :
      redisGetReplyFromReader strtod s.ac.c = some (c, .ok, some v) →
      redisIsSpontaneousPushReply v = some false → v.errorBytes.isSome → s.ac.replies = [] →
      Ended { s with
        ac := { s.ac with c := redisSetError c .other str }, delivered := s.delivered ++ [v]
        unsolicited := s.unsolicited ++ [v] } t → Processed strtod s t
  | message {c c' : RedisContext} {v : RedisReply} {sub : RedisSubscriptions} {subscribed : Bool}
      (cb : RedisCallback) : redisGetReplyFromReader strtod s.ac.c = some (c, .ok, some v) →
      redisIsSpontaneousPushReply v = some false → s.ac.replies = [] →
      s.ac.subscribed = true ∨ s.ac.monitoring = true →
      c' = c ∨ c' = redisSetError c .oom (ascii "Out of memory") →
      (∀ pvariant, sub.dict pvariant = none ↔ s.ac.sub.dict pvariant = none) →
      (subscribed = true → s.ac.subscribed = true) →
      Processed strtod s (Async.runReply { s with
        ac := { s.ac with c := c', sub, subscribed }, delivered := s.delivered ++ [v]
        unsolicited := s.unsolicited ++ [v] } cb)

theorem noRegular_processed {strtod : Strtod} {s : Async} {c : RedisContext} {v : RedisReply}
    (h : redisGetReplyFromReader strtod s.ac.c = some (c, .ok, some v))
    (hv : redisIsSpontaneousPushReply v = some false) (hreplies : s.ac.replies = [])
    (cb : RedisCallback) (malloc : Bool) :
    Processed strtod s (Async.noRegular { s with
      ac := { s.ac with c }, delivered := s.delivered ++ [v] } cb v malloc) := by
  unfold Async.noRegular
  dsimp only
  cases herr : v.errorBytes with
  | some str => exact .refused _ h hv (by rw [herr]; rfl) hreplies (disconnect_ended _)
  | none =>
      dsimp only
      by_cases hplain : s.ac.subscribed || s.ac.monitoring
      · rw [if_pos hplain]
        have hplain' : s.ac.subscribed = true ∨ s.ac.monitoring = true := by simpa using hplain
        by_cases hsub : s.ac.subscribed = true
        · rw [if_pos hsub]
          have hfound := getSubscribeCallback_found malloc { s.ac with c } v cb
          generalize redisGetSubscribeCallback malloc { s.ac with c } v cb = r at hfound
          cases hfound with
          | crashed hwhy => exact .crashed rfl ⟨hwhy.1, hwhy.2⟩
          | found cb' hc hdict hmono => exact .message cb' h hv hreplies hplain' hc hdict hmono
        · rw [if_neg hsub]
          exact .message cb h hv hreplies hplain' (.inl rfl) (fun _ => Iff.rfl) id
      · rw [if_neg hplain]
        exact .crashed rfl ⟨nofun, nofun⟩

theorem processReply_processed (strtod : Strtod) (s : Async) (cb : RedisCallback) (malloc : Bool) :
    Processed strtod s (s.processReply strtod cb malloc) := by
  unfold Async.processReply
  cases h : redisGetReplyFromReader strtod s.ac.c with
  | none => exact .crashed rfl ⟨nofun, nofun⟩
  | some r =>
      obtain ⟨c, st, o⟩ := r
      cases st with
      | err =>
          have ho : o = none := by
            obtain ⟨⟨reader, st, o'⟩, -, heq⟩ := Option.map_eq_some_iff.mp h
            cases st <;> cases heq
            rfl
          subst ho
          exact .failed h (disconnect_ended _)
      | ok =>
          cases o with
          | none =>
              dsimp only
              split_ifs with hend hmon
              · exact .drained h hend.1 hend.2.2 (disconnect_ended _)
              · unfold redisPushCallback
                cases malloc with
                | true => exact .again [cb] h hmon
                | false => exact .stopped h
              · exact .stopped h
          | some v =>
              dsimp only [Async.dispatch]
              cases hv : redisIsSpontaneousPushReply v with
              | none => exact .crashed rfl ⟨nofun, nofun⟩
              | some spontaneous =>
                  cases spontaneous with
                  | true => exact .spontaneous cb _ h hv
                  | false =>
                      dsimp only
                      split
                      · rename_i hreplies
                        exact .answered h hv hreplies
                      · rename_i hreplies
                        exact noRegular_processed h hv hreplies cb malloc

/-! ### Steps -/

/-- What a function does when it goes on; its frame is not on the stack of `s`. -/
inductive WentOn (strtod : Strtod) (s : Async) : AsyncFrame → Async → Prop
  | processing {cb : RedisCallback} {t : Async} : Processed strtod s t →
      WentOn strtod s (.processing cb) t
  | freed {cb : RedisCallback} : s.ac.freeing = true → WentOn strtod s (.afterReply cb) s.startFree
  | afterReply {cb : RedisCallback} : s.ac.freeing = false →
      WentOn strtod s (.afterReply cb) (s.push (.processing cb))
  | connecting {write : Bool} : WentOn strtod s (.connecting write)
      (Async.push { s with ac := { s.ac with connected := true } } (ioFrame write))
  | connectFailed {t : Async} : Ended s t → WentOn strtod s .connectFailed t
  | timedOut {t : Async} : s.ac.replies = [] → Ended s t → WentOn strtod s .timeout t
  | null {f : AsyncFrame} {cb : RedisCallback} {rest : List RedisCallback} :
      f = .timeout ∨ f = .freeReplies → s.ac.replies = cb :: rest →
      WentOn strtod s f (Async.runNull { s with
        ac := { s.ac with replies := rest }, shifted := s.shifted ++ [(cb, none)] } f cb)
  | repliesFreed : s.ac.replies = [] → WentOn strtod s .freeReplies (s.push .freeInvalid)
  | invalid {cb : RedisCallback} {rest : List RedisCallback} : s.ac.sub.invalid = cb :: rest →
      WentOn strtod s .freeInvalid (Async.runNull { s with
        ac := { s.ac with sub := { s.ac.sub with invalid := rest } } } .freeInvalid cb)
  | invalidFreed : s.ac.sub.invalid = [] →
      WentOn strtod s .freeInvalid (s.push (.freeSubs false none))
  | subsCrashed {pvariant : Bool} {it : Option (DictIterator Bytes)} {t : Async}
      {why : AsyncCrash} : t.crash = some why → why ≠ .pendingCallbacks →
      (why = .useAfterFree → s.ac.sub.dict pvariant = none) →
      WentOn strtod s (.freeSubs pvariant it) t
  | iterate {pvariant : Bool} : WentOn strtod s (.freeSubs pvariant none)
      (s.push (.freeSubs pvariant (some (dictGetIterator Bytes))))
  | visit {pvariant : Bool} {it it' : DictIterator Bytes} {d : CallbackDict} {key : Bytes}
      {cb : RedisCallback} : s.ac.sub.dict pvariant = some d →
      dictNext d it = (it', some ⟨key, some cb⟩) →
      WentOn strtod s (.freeSubs pvariant (some it)) (s.runNull (.freeSubs pvariant (some it')) cb)
  | release {pvariant : Bool} {it : Option (DictIterator Bytes)} :
      WentOn strtod s (.freeSubs pvariant it) (Async.push { s with
        ac := { s.ac with sub := s.ac.sub.setDict pvariant none } }
        (if pvariant then .freeHook else .freeSubs true none))
  | disconnectCallback : WentOn strtod s .freeHook ((s.push .freeEnd).push .hook)
  | noDisconnectCallback : WentOn strtod s .freeHook (s.push .freeEnd)
  | freeEnd : WentOn strtod s .freeEnd { s with live := false }

theorem freeSubs_wentOn (strtod : Strtod) (s : Async) (pvariant : Bool)
    (it : Option (DictIterator Bytes)) (malloc : Bool) :
    WentOn strtod s (.freeSubs pvariant it) (s.freeSubs pvariant it malloc) := by
  unfold Async.freeSubs
  dsimp only
  cases hd : s.ac.sub.dict pvariant with
  | none => exact .subsCrashed rfl nofun fun _ => hd
  | some d =>
      dsimp only
      cases it with
      | none =>
          cases malloc with
          | true => exact .iterate
          | false => exact .release
      | some it =>
          dsimp only
          split
          · exact .release
          · exact .subsCrashed rfl nofun nofun
          · rename_i hnext
            exact .visit hd hnext

theorem goOn_wentOn {strtod : Strtod} {s t : Async} {malloc : Bool} {f : AsyncFrame}
    (h : s.goOn strtod malloc f = some t) : WentOn strtod s f t := by
  cases f with
  | callback => cases h
  | hook => cases h
  | reading => cases h
  | writing => cases h
  | processing cb =>
      cases h
      exact .processing (processReply_processed strtod s cb malloc)
  | afterReply cb =>
      cases h
      cases hf : s.ac.freeing with
      | true => exact .freed hf
      | false => exact .afterReply hf
  | connecting write =>
      cases h
      exact .connecting
  | connectFailed =>
      cases h
      exact .connectFailed (disconnect_ended s)
  | timeout =>
      cases h
      unfold Async.drainReplies
      split
      · rename_i hreplies
        exact .null (.inl rfl) hreplies
      · rename_i hreplies
        exact .timedOut hreplies (disconnect_ended s)
  | freeReplies =>
      cases h
      unfold Async.drainReplies
      split
      · rename_i hreplies
        exact .null (.inr rfl) hreplies
      · rename_i hreplies
        exact .repliesFreed hreplies
  | freeInvalid =>
      simp only [Async.goOn] at h
      split at h
      · rename_i hinvalid
        cases h
        exact .invalid hinvalid
      · rename_i hinvalid
        cases h
        exact .invalidFreed hinvalid
  | freeSubs pvariant it =>
      cases h
      exact freeSubs_wentOn strtod s pvariant it malloc
  | freeHook =>
      cases h
      split_ifs
      · exact .disconnectCallback
      · exact .noDisconnectCallback
  | freeEnd =>
      cases h
      exact .freeEnd

/-- What the handlers for reading and writing do. -/
inductive HandledIo (s : Async) (write : Bool) : Async → Prop
  | waiting : HandledIo s write s
  | connected : HandledIo s write
      (Async.push { s with ac := { s.ac with connected := true } } (ioFrame write))
  | hook : HandledIo s write ((s.push (.connecting write)).push .hook)
  | failedHook : HandledIo s write ((Async.push { s with
      ac := { s.ac with c := redisSetError s.ac.c .io [] } } .connectFailed).push .hook)
  | failed {t : Async} : Ended { s with ac := { s.ac with c := redisSetError s.ac.c .io [] } } t →
      HandledIo s write t

theorem connectFailure_handled (s : Async) (write : Bool) : HandledIo s write s.connectFailure := by
  unfold Async.connectFailure
  dsimp only
  split_ifs
  · exact .failedHook
  · exact .failed (disconnect_ended _)

theorem handleIo_handled (s : Async) (write : Bool) (conn : ConnectDone) :
    HandledIo s write (s.handleIo write conn) := by
  unfold Async.handleIo
  by_cases hconn : s.ac.connected = true
  · rw [if_pos hconn]
    have h : HandledIo s write _ := .connected
    rwa [← hconn] at h
  · rw [if_neg hconn]
    cases conn with
    | failed => exact connectFailure_handled s write
    | pending => exact .waiting
    | completed noDelay =>
        cases noDelay with
        | false => exact connectFailure_handled s write
        | true =>
            dsimp only
            split_ifs
            · exact .hook
            · exact .connected

/-- What the handler of the timer does. -/
inductive TimedOut (s : Async) : Async → Prop
  | idle : TimedOut s s
  | started {c : RedisContext} : c.err ≠ none →
      c = s.ac.c ∨ c = redisSetError s.ac.c .timeout (ascii "Timeout") →
      TimedOut s (Async.push { s with ac := { s.ac with c } } .timeout)
  | hook {c : RedisContext} : c.err ≠ none →
      c = s.ac.c ∨ c = redisSetError s.ac.c .timeout (ascii "Timeout") →
      TimedOut s ((Async.push { s with ac := { s.ac with c } } .timeout).push .hook)

theorem handleTimeout_timedOut (s : Async) : TimedOut s s.handleTimeout := by
  unfold Async.handleTimeout
  by_cases hidle : s.ac.connected = true ∧ s.ac.replies = []
  · rw [if_pos hidle]
    exact .idle
  · rw [if_neg hidle]
    by_cases herr : s.ac.c.err = none
    · have hset : (redisSetError s.ac.c .timeout (ascii "Timeout")).err ≠ none := by
        simp [redisSetError]
      simp only [herr, if_true]
      split_ifs
      · exact .hook hset (.inr rfl)
      · exact .started hset (.inr rfl)
    · simp only [herr, if_false]
      split_ifs
      · exact .hook (c := s.ac.c) herr (.inl rfl)
      · exact .started (c := s.ac.c) herr (.inl rfl)

/-- What `redisAsyncRead` does. -/
inductive WasRead (s : Async) (r : Except Errno Bytes) (large : Bool) : Async → Prop
  | processing : s.ac.c.err = none → WasRead s r large (Async.push { s with
      ac := { s.ac with c := (redisBufferRead s.ac.c r large).1 }
      fed := s.fed ++ bytesGot s.ac.c r } (.processing .null))
  | failed {t : Async} : (redisBufferRead s.ac.c r large).1.err ≠ none →
      Ended { s with
        ac := { s.ac with c := (redisBufferRead s.ac.c r large).1 }
        fed := s.fed ++ bytesGot s.ac.c r } t → WasRead s r large t

theorem read_wasRead (s : Async) (r : Except Errno Bytes) (large : Bool) :
    WasRead s r large (s.read r large) := by
  unfold Async.read
  dsimp only
  split
  · rename_i hst
    exact .failed (bufferRead_err hst) (disconnect_ended _)
  · rename_i hst
    exact .processing (bufferRead_ok hst)

/-- What `redisAsyncWrite` does. -/
inductive Written (s : Async) (r : Except Errno ℕ) : Async → Prop
  | done : bytesTaken s.ac.c r ≤ s.ac.c.obuf.length → ¬ Retried s.ac.c r →
      Written s r { s with
        ac := { s.ac with c := (redisBufferWrite s.ac.c r).1 }
        wire := s.wire ++ s.ac.c.obuf.take (bytesTaken s.ac.c r) }
  | failed {t : Async} : bytesTaken s.ac.c r ≤ s.ac.c.obuf.length →
      ((redisBufferWrite s.ac.c r).1.err = none ↔ Retried s.ac.c r) →
      Ended { s with
        ac := { s.ac with c := (redisBufferWrite s.ac.c r).1 }
        wire := s.wire ++ s.ac.c.obuf.take (bytesTaken s.ac.c r) } t → Written s r t

theorem write_written {s t : Async} {r : Except Errno ℕ} (h : s.write r = some t) :
    Written s r t := by
  unfold Async.write at h
  dsimp only at h
  obtain ⟨hle, h⟩ := Option.ite_none_right_eq_some.mp h
  split at h
  · rename_i hst
    cases h
    exact .failed hle (bufferWrite_err hst) (disconnect_ended _)
  · rename_i hst
    cases h
    refine .done hle fun hr => ?_
    rw [bufferWrite_retried hr] at hst
    cases hst

/-- A step of the asynchronous client. -/
inductive AsyncStep (strtod : Strtod) (s : Async) : AsyncCall → Async → Prop
  | command {call : AsyncCall} {t : Async} : s.userTurn = true → Commanded s t →
      AsyncStep strtod s call t
  | free : s.userTurn = true → AsyncStep strtod s .free s.userFree
  | disconnect : s.userTurn = true → AsyncStep strtod s .disconnect s.userDisconnect
  | setCallbacks {call : AsyncCall} (onConnect onDisconnect pushCb : Bool) : s.userTurn = true →
      AsyncStep strtod s call { s with ac := { s.ac with onConnect, onDisconnect, pushCb } }
  | handleIo {call : AsyncCall} {write : Bool} {t : Async} : s.live = true → s.stack = [] →
      HandledIo s write t → AsyncStep strtod s call t
  | handleTimeout {call : AsyncCall} {t : Async} : s.live = true → s.stack = [] →
      TimedOut s t → AsyncStep strtod s call t
  | read {r : Except Errno Bytes} {large : Bool} {rest : List AsyncFrame} {t : Async} :
      s.live = true → s.stack = .reading :: rest → WasRead { s with stack := rest } r large t →
      AsyncStep strtod s (.read r large) t
  | write {r : Except Errno ℕ} {rest : List AsyncFrame} {t : Async} : s.live = true →
      s.stack = .writing :: rest → Written { s with stack := rest } r t →
      AsyncStep strtod s (.write r) t
  | go {malloc : Bool} {f : AsyncFrame} {rest : List AsyncFrame} {t : Async} : s.live = true →
      s.stack = f :: rest → WentOn strtod { s with stack := rest } f t →
      AsyncStep strtod s (.go malloc) t
  | callbackReturns {rest : List AsyncFrame} : s.live = true → s.stack = .callback :: rest →
      AsyncStep strtod s .ret { s with stack := rest, ac := { s.ac with inCallback := false } }
  | hookReturns {rest : List AsyncFrame} : s.stack = .hook :: rest →
      AsyncStep strtod s .ret { s with stack := rest }
  | dead {call : AsyncCall} {t : Async} : s.live = false → s.stack ≠ [] →
      t.crash = some .useAfterFree → AsyncStep strtod s call t

section inversion

variable {strtod : Strtod} {printf : Printf} {alloc : Allocator} {s t : Async} {call : AsyncCall}

theorem userCall_step (hu : s.userTurn = true) (h : s.userCall printf alloc call = some t) :
    AsyncStep strtod s call t := by
  have hcmd : ∀ (fn : Option ℕ) (privdata : ℕ) (mem : CommandMemory)
      (r : Except FormatErr (Bytes × ℤ)),
        AsyncStep strtod s call (s.commandOf fn privdata mem r) := by
    intro fn privdata mem r
    cases r with
    | error e => exact .command hu .refused
    | ok cmd =>
        obtain ⟨cmd, len⟩ := cmd
        unfold Async.commandOf
        dsimp only
        split_ifs
        · exact .command hu .refused
        · exact .command hu (command_commanded s _ _ _ _ _)
  cases call with
  | formatted fn privdata cmd len mem =>
      cases h
      exact .command hu (command_commanded s _ _ _ _ _)
  | argv fn privdata argv argvlen mem =>
      obtain ⟨r, -, rfl⟩ := Option.map_eq_some_iff.mp h
      exact hcmd fn privdata mem r
  | format fn privdata format va mem =>
      obtain ⟨r, -, rfl⟩ := Option.map_eq_some_iff.mp h
      exact hcmd fn privdata mem r
  | free =>
      cases h
      exact .free hu
  | disconnect =>
      cases h
      exact .disconnect hu
  | setConnectCallback =>
      cases h
      exact .setCallbacks _ _ _ hu
  | setDisconnectCallback =>
      cases h
      exact .setCallbacks _ _ _ hu
  | setPushCallback fn =>
      cases h
      exact .setCallbacks _ _ _ hu
  | _ => cases h

theorem eventCall_step (hlive : s.live = true) (hstack : s.stack = [])
    (h : s.eventCall call = some t) : AsyncStep strtod s call t := by
  cases call with
  | handleRead conn =>
      cases h
      exact .handleIo hlive hstack (handleIo_handled s false conn)
  | handleWrite conn =>
      cases h
      exact .handleIo hlive hstack (handleIo_handled s true conn)
  | handleTimeout =>
      cases h
      exact .handleTimeout hlive hstack (handleTimeout_timedOut s)
  | _ => cases h

theorem topCall_step {f : AsyncFrame} {rest : List AsyncFrame} (hstack : s.stack = f :: rest)
    (h : Async.topCall strtod { s with stack := rest } f call = some t) :
    AsyncStep strtod s call t := by
  unfold Async.topCall at h
  split at h
  · cases h
    exact .hookReturns hstack
  · obtain ⟨u, hu, rfl⟩ := Option.map_eq_some_iff.mp h
    cases hlive : s.live with
    | false =>
        refine .dead hlive (by rw [hstack]; simp) ?_
        simp [Async.fail]
    | true =>
        rw [if_pos rfl]
        unfold Async.topCall.resume at hu
        split at hu
        · cases hu
          exact .callbackReturns hlive hstack
        · cases hu
          exact .read hlive hstack (read_wasRead _ _ _)
        · exact .write hlive hstack (write_written hu)
        · exact .go hlive hstack (goOn_wentOn hu)
        · cases hu

theorem async_step (h : (asyncLts strtod printf alloc).step s call = some t) :
    s.crash = none ∧ AsyncStep strtod s call t := by
  obtain ⟨hc, h⟩ := Option.ite_none_right_eq_some.mp h
  refine ⟨hc, ?_⟩
  have huser : ∀ {o : Option Async}, (if s.userTurn = true then o else none) = some t →
      s.userTurn = true ∧ o = some t := fun h => Option.ite_none_right_eq_some.mp h
  have htop : s.stackCall strtod call = some t → AsyncStep strtod s call t := by
    intro h
    unfold Async.stackCall at h
    split at h
    · cases h
    · rename_i f rest hstack
      exact topCall_step hstack h
  cases call with
  | handleRead conn =>
      obtain ⟨⟨hlive, hstack⟩, h⟩ := Option.ite_none_right_eq_some.mp h
      exact eventCall_step hlive hstack h
  | handleWrite conn =>
      obtain ⟨⟨hlive, hstack⟩, h⟩ := Option.ite_none_right_eq_some.mp h
      exact eventCall_step hlive hstack h
  | handleTimeout =>
      obtain ⟨⟨hlive, hstack⟩, h⟩ := Option.ite_none_right_eq_some.mp h
      exact eventCall_step hlive hstack h
  | read r large => exact htop h
  | write r => exact htop h
  | go malloc => exact htop h
  | ret => exact htop h
  | _ =>
      obtain ⟨hu, h⟩ := huser h
      exact userCall_step hu h

end inversion

end RedisMigrate
