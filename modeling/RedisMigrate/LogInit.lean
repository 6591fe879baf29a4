import RedisMigrate.CommandActions

/-! # When the log has a file

`initLogObj` is called while a request runs and gives up when `CONFIG GET logfile` does not return
two items; the request goes on and is registered.  The filter uses the log object without
looking at it.  `LogReady` says that the filter does not do so without a file, `SetsUpLog` which
steps keep that, and `log_ready_iff` that these are exactly the right ones: the runs that are
ready throughout are the runs of such steps. -/

namespace RedisMigrate

/-! ### The log object -/

/-- `initLogObj` leaves a log file when there was one, or when the configuration has one. -/
theorem initLogObj_logfile (ctx : RedisModuleCtx) (mLog : LogObj) :
    (initLogObj ctx mLog).1.logfile ≠ none ↔
      mLog.logfile ≠ none ∨ (ctx.call "config" ["get", "logfile"]).length = 2 := by
  unfold initLogObj
  split_ifs with h
  · exact iff_of_true h (.inl h)
  · split
    · next item0 item1 hcall =>
        rw [hcall]
        simp
    · next hcall =>
        rw [or_iff_right h]
        apply iff_of_false h
        intro hlen
        obtain ⟨item0, item1, heq⟩ := List.length_eq_two.mp hlen
        exact hcall item0 item1 heq

theorem initLogObj_loglevel (ctx : RedisModuleCtx) (mLog : LogObj) :
    (initLogObj ctx mLog).1.loglevel = mLog.loglevel ∨
      (initLogObj ctx mLog).1.loglevel = llNotice := by
  unfold initLogObj
  split_ifs
  · exact .inl rfl
  · split
    · exact .inr rfl
    · exact .inl rfl

theorem rmMigrateCommand_mLog (ctx : RedisModuleCtx) (argv : List RedisModuleString) (s : Module) :
    (rmMigrateCommand ctx argv s).mod.mLog = s.mLog ∨
      (rmMigrateCommand ctx argv s).mod.mLog = (initLogObj ctx s.mLog).1 := by
  have he := rmMigrateCommand_exit ctx argv s
  generalize rmMigrateCommandActions ctx argv s = as at he
  generalize (rmMigrateCommand ctx argv s).mod = s' at he ⊢
  cases he with
  | early _ => exact .inl rfl
  | taken _ _ => exact .inr rfl
  | stored _ => exact .inr rfl

/-- A log file that was found is kept. -/
theorem logfile_step {s s' : Module} {e : Event} (hstep : moduleLts.step s e = some s')
    (h : s.mLog.logfile ≠ none) : s'.mLog.logfile ≠ none := by
  cases e with
  | filter argv =>
      obtain ⟨r, -, rfl⟩ := Option.map_eq_some_iff.mp hstep
      exact h
  | command ctx argv =>
      obtain rfl := Option.some.inj hstep
      rcases rmMigrateCommand_mLog ctx argv s with hm | hm
      · rw [hm]
        exact h
      · rw [hm, initLogObj_logfile]
        exact .inl h

/-- The level of the log lets notices through. -/
theorem loglevel_le {s : Module} (h : moduleLts.Reachable s) : s.mLog.loglevel ≤ llNotice := by
  refine h.induct (I := fun s => s.mLog.loglevel ≤ llNotice) ?_ ?_
  · rintro s rfl
    decide
  · intro s e s' _ hle hstep
    cases e with
    | filter argv =>
        obtain ⟨r, -, rfl⟩ := Option.map_eq_some_iff.mp hstep
        exact hle
    | command ctx argv =>
        obtain rfl := Option.some.inj hstep
        rcases rmMigrateCommand_mLog ctx argv s with hm | hm
        · rwa [hm]
        · rcases initLogObj_loglevel ctx s.mLog with hl | hl
          · rwa [hm, hl]
          · rw [hm, hl]

/-! ### The filter's use of it -/

/-- The filter reaches its call of `migrateLog` for some argument list. -/
def Module.CanLog (s : Module) : Prop :=
  s.isMigrating = true ∧ ∃ key m, s.migrating.lookup key = some m ∧ 0 < m.hostLen

/-- When the filter reaches its call of `migrateLog`, there is a log file. -/
def Module.LogReady (s : Module) : Prop := s.CanLog → s.mLog.logfile ≠ none

theorem Module.CanLog.blocks {s : Module} (h : s.CanLog) : ∃ name key, s.Blocks [name, key] := by
  obtain ⟨hm, key, m, hlookup, hpos⟩ := h
  exact ⟨⟨0, []⟩, ⟨1, key⟩, hm, _, rfl, findMigrating_hostLen_pos.mpr ⟨m, hlookup, hpos⟩⟩

theorem canLog_iff {s : Module} :
    s.CanLog ↔ ∃ argv r, rmMigrateFilter s argv = some r ∧ r.logged ≠ [] := by
  constructor
  · intro h
    obtain ⟨name, key, hb⟩ := h.blocks
    exact ⟨_, _, rmMigrateFilter_of_blocks hb, by simp⟩
  · rintro ⟨argv, r, hr, hlog⟩
    by_cases hb : s.Blocks argv
    · obtain ⟨hm, key, -, hkey⟩ := hb
      obtain ⟨m, hlookup, hpos⟩ := findMigrating_hostLen_pos.mp hkey
      exact ⟨hm, key.bytes, m, hlookup, hpos⟩
    · rw [rmMigrateFilter_of_not_blocks hb] at hr
      obtain rfl := Option.some.inj hr
      exact absurd rfl hlog

/-- A state is ready exactly when every message of the filter is for a log with a file. -/
theorem logReady_iff {s : Module} :
    s.LogReady ↔ ∀ argv r, rmMigrateFilter s argv = some r →
      ∀ call ∈ r.logged, call.mLog.logfile ≠ none := by
  constructor
  · intro h argv r hr call hcall
    have hready := h (canLog_iff.mpr ⟨argv, r, hr, List.ne_nil_of_mem hcall⟩)
    by_cases hb : s.Blocks argv
    · obtain ⟨name, key, rest, rfl, -⟩ := hb.argv
      rw [rmMigrateFilter_of_blocks hb] at hr
      obtain rfl := Option.some.inj hr
      obtain rfl := List.mem_singleton.mp hcall
      exact hready
    · rw [rmMigrateFilter_of_not_blocks hb] at hr
      obtain rfl := Option.some.inj hr
      cases hcall
  · intro h hcan
    obtain ⟨name, key, hb⟩ := hcan.blocks
    exact h _ _ (rmMigrateFilter_of_blocks hb) _ (List.mem_singleton_self _)

/-! ### Requests that set up the log -/

/-- An executed request that will be registered, for a host that is not the empty string. -/
def RegistersHost (ctx : RedisModuleCtx) (argv : List RedisModuleString) (s : Module) : Prop :=
  match argv with
  | [_, host, port, slot, key] =>
      ctx.isKeysPositionRequest = false ∧ (ctx.stringToDouble port).isSome = true ∧
        (ctx.stringToDouble slot).isSome = true ∧ s.migrating.size < maxMigrateingNum ∧
        (findMigrating s.migrating key.bytes).hostLen = 0 ∧ host.bytes ≠ []
  | _ => False

instance (ctx : RedisModuleCtx) (argv : List RedisModuleString) (s : Module) :
    Decidable (RegistersHost ctx argv s) := by
  unfold RegistersHost
  split <;> infer_instance

theorem registersHost_iff {ctx : RedisModuleCtx} {argv : List RedisModuleString} {s : Module} :
    RegistersHost ctx argv s ↔
      ∃ host key port slot, Accepts ctx argv s host key port slot ∧ host.bytes ≠ [] := by
  constructor
  · intro h
    unfold RegistersHost at h
    split at h
    · next name host portArg slotArg key =>
        obtain ⟨hx, hp, hs, hroom, hfree, hne⟩ := h
        obtain ⟨port, hp⟩ := Option.isSome_iff_exists.mp hp
        obtain ⟨slot, hs⟩ := Option.isSome_iff_exists.mp hs
        exact ⟨host, key, port, slot,
          ⟨⟨name, portArg, slotArg, rfl, hp, hs⟩, hx, hroom, hfree⟩, hne⟩
    · exact h.elim
  · rintro ⟨host, key, port, slot, ha, hne⟩
    obtain ⟨name, portArg, slotArg, rfl, hp, hs⟩ := ha.argv
    exact ⟨ha.executed, by simp [hp], by simp [hs], ha.room, ha.free, hne⟩

/-- A request that opens a protection finds a log file, or `CONFIG GET logfile` returns two items
while it runs. -/
def SetsUpLog (s : Module) : Event → Prop
  | .command ctx argv => RegistersHost ctx argv s →
      s.mLog.logfile ≠ none ∨ (ctx.call "config" ["get", "logfile"]).length = 2
  | .filter _ => True

instance (s : Module) (e : Event) : Decidable (SetsUpLog s e) := by
  cases e <;> unfold SetsUpLog <;> infer_instance

/-- A record with an empty host protects nothing new. -/
theorem canLog_of_insert {s : Module} (hflag : s.FlagAgrees) {key : Bytes} {m : MigrateObj}
    (hm : m.hostLen = 0) {s' : Module} (hs' : s'.migrating = s.migrating.insert key m)
    (h : s'.CanLog) : s.CanLog := by
  obtain ⟨-, key', m', hlookup, hpos⟩ := h
  rw [hs'] at hlookup
  by_cases heq : key' = key
  · subst heq
    rw [Finmap.lookup_insert] at hlookup
    obtain rfl := Option.some.inj hlookup
    omega
  · rw [Finmap.lookup_insert_of_ne _ heq] at hlookup
    refine ⟨hflag.mpr ?_, key', m', hlookup, hpos⟩
    intro hempty
    rw [hempty, Finmap.lookup_empty] at hlookup
    cases hlookup

theorem LogReady.step {s s' : Module} {e : Event} (hflag : s.FlagAgrees) (h : s.LogReady)
    (hg : SetsUpLog s e) (hstep : moduleLts.step s e = some s') : s'.LogReady := by
  intro hcan
  by_cases hlog : s.mLog.logfile ≠ none
  · exact logfile_step hstep hlog
  -- Without a file, nothing was protected yet, so the step is the request that changed that.
  have hnot : ¬ s.CanLog := fun hc => hlog (h hc)
  rcases step_cases hstep with ⟨hm, hf⟩ | ⟨ctx, argv, host, key, port, slot, rfl, ha, -, hm⟩
  · refine absurd ?_ hnot
    unfold Module.CanLog at hcan ⊢
    rwa [hm, hf] at hcan
  · by_cases hhost : host.bytes = []
    · refine absurd (canLog_of_insert hflag ?_ hm hcan) hnot
      rw [newRecord_hostLen, hhost, List.length_nil]
    · have hset := hg (registersHost_iff.mpr ⟨host, key, port, slot, ha, hhost⟩)
      obtain rfl := Option.some.inj hstep
      rw [rmMigrateCommand_eq_of_accepts ha, initLogObj_logfile]
      exact hset

theorem not_logReady_of_not_setsUpLog {s s' : Module} {e : Event}
    (hstep : moduleLts.step s e = some s') (h : ¬ SetsUpLog s e) : ¬ s'.LogReady := by
  cases e with
  | filter argv => exact absurd trivial h
  | command ctx argv =>
      unfold SetsUpLog at h
      rw [Classical.not_imp] at h
      obtain ⟨hreg, hlog⟩ := h
      obtain ⟨host, key, port, slot, ha, hne⟩ := registersHost_iff.mp hreg
      obtain ⟨-, hm, hf⟩ := rmMigrateCommand_of_accepts ha
      obtain rfl := Option.some.inj hstep
      intro hready
      have hcan : (rmMigrateCommand ctx argv s).mod.CanLog := by
        refine ⟨hf, key.bytes, newRecord ctx s host key port slot, ?_, ?_⟩
        · rw [hm, Finmap.lookup_insert]
        · rw [newRecord_hostLen]
          exact List.length_pos_iff.mpr hne
      have hfile := hready hcan
      rw [rmMigrateCommand_eq_of_accepts ha, initLogObj_logfile] at hfile
      exact hlog hfile

/-- **When the filter never logs without a file**: a run is ready in every state exactly when each
of its steps sets up the log before it protects a key. -/
theorem log_ready_iff (es : List Event) :
    moduleLts.AllStates Module.LogReady .initial es ↔ moduleLts.AllSteps SetsUpLog .initial es := by
  apply Lts.allStates_iff_allSteps
  · intro s e s' hr hready hstep
    constructor
    · intro hready'
      by_contra hg
      exact not_logReady_of_not_setsUpLog hstep hg hready'
    · intro hg
      exact LogReady.step (flagAgrees hr) hready hg hstep
  · exact .of_init rfl
  · rintro ⟨hm, -⟩
    cases hm

/-- Answers under which `CONFIG GET logfile` returns no item. -/
def noLogfileCtx : RedisModuleCtx := { plainCtx with call := fun _ _ => [] }

/-- `rm.migrate h 1 1 a` is accepted without a log file, and the filter then protects `a`. -/
theorem logs_without_file : ¬ ∀ s, moduleLts.Reachable s → s.LogReady := by
  intro h
  have hstep : moduleLts.step .initial (.command noLogfileCtx (plainRequest [104] [97])) =
      some (rmMigrateCommand noLogfileCtx (plainRequest [104] [97]) .initial).mod := rfl
  refine not_logReady_of_not_setsUpLog hstep ?_ (h _ (.tail (.of_init rfl) hstep))
  decide

end RedisMigrate
