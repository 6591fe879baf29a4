import RedisMigrate.FilterEffect
import Mathlib.Data.Set.Basic
import Mathlib.Data.Set.Insert

/-! # What the command does besides its reply

`rmMigrateCommandActions` lists, along the exits of `rm_migrateCommand`, the key positions that
it reports, the strings that it takes or makes, and the arguments that it uses as keys of the
registry.  `rmMigrateCommand_exit` puts this beside what the command leaves.

Three places decide what the key of `rm.migrate` is: the keys-position mode that the command is
registered with (`getkeys-api`), its normal mode, and the filter.  `key_positions_agree_iff`
says when they agree. -/

namespace RedisMigrate

inductive CommandAction where
  /-- `RedisModule_KeyAtPos`. -/
  | keyAtPos (pos : ℕ)
  /-- `RedisModule_RetainString` or `RedisModule_HoldString`. -/
  | retainString (str : RedisModuleString)
  /-- `RedisModule_CreateStringFromCallReply`. -/
  | createString (str : RedisModuleString)
  /-- `findMigrating` of the bytes of the argument. -/
  | find (pos : ℕ)
  /-- `migrating[..] = m` with the bytes of the argument. -/
  | store (pos : ℕ)
deriving DecidableEq, Repr

def initLogObjActions (ctx : RedisModuleCtx) (mLog : LogObj) : List CommandAction :=
  if mLog.logfile ≠ none then []
  else
    match ctx.call "config" ["get", "logfile"] with
    | [_, item1] => [.createString item1]
    | _ => []

/-- The actions of `rm_migrateCommand`, exit by exit. -/
def rmMigrateCommandActions (ctx : RedisModuleCtx) (argv : List RedisModuleString) (s : Module) :
    List CommandAction :=
  match argv with
  | [_, _, port, slot, key] =>
      -- The keys-position mode logs and replies, and reports nothing.
      if ctx.isKeysPositionRequest then []
      else
        match ctx.stringToDouble port with
        | none => []
        | some _ =>
            match ctx.stringToDouble slot with
            | none => []
            | some _ =>
                if s.migrating.size ≥ maxMigrateingNum then []
                else
                  let (keyChar, keyLen) := stringPtrLen key
                  let m := findMigrating s.migrating (stdString keyChar keyLen)
                  if m.hostLen > 0 then initLogObjActions ctx s.mLog ++ [.find 4]
                  else initLogObjActions ctx s.mLog ++ [.find 4, .store 4]
  | _ => []

/-- An executed request with five arguments whose port and slot parse. -/
def Parses (ctx : RedisModuleCtx) (argv : List RedisModuleString) : Prop :=
  ctx.isKeysPositionRequest = false ∧ ∃ name host port slot key,
    argv = [name, host, port, slot, key] ∧ (ctx.stringToDouble port).isSome = true ∧
      (ctx.stringToDouble slot).isSome = true

theorem parses_cons {ctx : RedisModuleCtx} {name host port slot key : RedisModuleString} :
    Parses ctx [name, host, port, slot, key] ↔ ctx.isKeysPositionRequest = false ∧
      (ctx.stringToDouble port).isSome = true ∧ (ctx.stringToDouble slot).isSome = true := by
  constructor
  · rintro ⟨hx, _, _, _, _, _, heq, hp, hs⟩
    obtain ⟨rfl, rfl, rfl, rfl, rfl⟩ :
      name = _ ∧ host = _ ∧ port = _ ∧ slot = _ ∧ key = _ := by simpa using heq
    exact ⟨hx, hp, hs⟩
  · rintro ⟨hx, hp, hs⟩
    exact ⟨hx, name, host, port, slot, key, rfl, hp, hs⟩

/-- With another number of arguments nothing happens. -/
theorem rmMigrateCommand_args (ctx : RedisModuleCtx) {argv : List RedisModuleString} (s : Module)
    (h : ∀ name host port slot key, argv ≠ [name, host, port, slot, key]) :
    rmMigrateCommandActions ctx argv s = [] ∧ (rmMigrateCommand ctx argv s).mod = s := by
  constructor
  · unfold rmMigrateCommandActions
    split
    · exact absurd rfl (h _ _ _ _ _)
    · rfl
  · unfold rmMigrateCommand
    split
    · exact absurd rfl (h _ _ _ _ _)
    · rfl

theorem Accepts.parses {ctx : RedisModuleCtx} {argv : List RedisModuleString} {s : Module}
    {host key : RedisModuleString} {port slot : Double}
    (h : Accepts ctx argv s host key port slot) : Parses ctx argv := by
  obtain ⟨name, portArg, slotArg, rfl, hport, hslot⟩ := h.argv
  exact parses_cons.mpr ⟨h.executed, by simp [hport], by simp [hslot]⟩

/-- The ways in which a run of the command ends, with the globals and the actions that it leaves:
before the lookup, with a key that is taken, or with the key stored. -/
inductive CommandExit (ctx : RedisModuleCtx) (argv : List RedisModuleString) (s : Module) :
    Module → List CommandAction → Prop
  | early : ¬ (Parses ctx argv ∧ s.migrating.size < maxMigrateingNum) → CommandExit ctx argv s s []
  | taken : Parses ctx argv → (¬ ∃ host key port slot, Accepts ctx argv s host key port slot) →
      CommandExit ctx argv s { s with mLog := (initLogObj ctx s.mLog).1 }
        (initLogObjActions ctx s.mLog ++ [.find 4])
  | stored {host key : RedisModuleString} {port slot : Double} :
      Accepts ctx argv s host key port slot →
      CommandExit ctx argv s ⟨(initLogObj ctx s.mLog).1, true,
          s.migrating.insert key.bytes (newRecord ctx s host key port slot)⟩
        (initLogObjActions ctx s.mLog ++ [.find 4, .store 4])

theorem rmMigrateCommand_exit (ctx : RedisModuleCtx) (argv : List RedisModuleString)
    (s : Module) :
    CommandExit ctx argv s (rmMigrateCommand ctx argv s).mod
      (rmMigrateCommandActions ctx argv s) := by
  by_cases hfive : ∃ name host port slot key, argv = [name, host, port, slot, key]
  · obtain ⟨name, host, port, slot, key, rfl⟩ := hfive
    simp only [rmMigrateCommand, rmMigrateCommandActions]
    by_cases hk : ctx.isKeysPositionRequest = true
    · simp only [if_pos hk]
      exact .early (by simp [parses_cons, hk])
    simp only [if_neg hk]
    cases hp : ctx.stringToDouble port with
    | none => exact .early (by simp [parses_cons, hp])
    | some portDouble =>
        cases hs : ctx.stringToDouble slot with
        | none => exact .early (by simp [parses_cons, hs])
        | some slotDouble =>
            dsimp only
            by_cases hroom : s.migrating.size ≥ maxMigrateingNum
            · simp only [if_pos hroom]
              exact .early (fun h => Nat.not_lt_of_le hroom h.2)
            simp only [if_neg hroom, stdString_stringPtrLen]
            have hparses : Parses ctx [name, host, port, slot, key] :=
              parses_cons.mpr ⟨by simpa using hk, by simp [hp], by simp [hs]⟩
            split_ifs with hfree
            · refine .taken hparses ?_
              rintro ⟨host', key', _, _, ha⟩
              obtain ⟨-, rfl, -⟩ := ha.args
              rw [ha.free] at hfree
              omega
            · exact .stored ⟨⟨name, port, slot, rfl, hp, hs⟩, by simpa using hk, by omega, by omega⟩
  · obtain ⟨hactions, hmod⟩ := rmMigrateCommand_args ctx s
      (fun name host port slot key heq => hfive ⟨name, host, port, slot, key, heq⟩)
    rw [hactions, hmod]
    refine .early ?_
    rintro ⟨⟨-, name, host, port, slot, key, heq, -⟩, -⟩
    exact hfive ⟨name, host, port, slot, key, heq⟩

/-- `initLogObj` makes at most a string. -/
theorem mem_initLogObjActions {ctx : RedisModuleCtx} {mLog : LogObj} {a : CommandAction}
    (h : a ∈ initLogObjActions ctx mLog) : ∃ str, a = .createString str := by
  unfold initLogObjActions at h
  split_ifs at h
  · cases h
  · split at h
    · next item0 item1 _ => exact ⟨item1, List.mem_singleton.mp h⟩
    · cases h

theorem store_notMem_initLogObjActions (ctx : RedisModuleCtx) (mLog : LogObj) (pos : ℕ) :
    .store pos ∉ initLogObjActions ctx mLog := by
  intro h
  obtain ⟨str, h⟩ := mem_initLogObjActions h
  cases h

/-- The command makes strings and uses the argument at position `4` as a key; it reports no key
position and retains nothing. -/
theorem mem_rmMigrateCommandActions {ctx : RedisModuleCtx} {argv : List RedisModuleString}
    {s : Module} {a : CommandAction} (h : a ∈ rmMigrateCommandActions ctx argv s) :
    (∃ str, a = .createString str) ∨ a = .find 4 ∨ a = .store 4 := by
  have he := rmMigrateCommand_exit ctx argv s
  generalize rmMigrateCommandActions ctx argv s = as at h he
  generalize (rmMigrateCommand ctx argv s).mod = s' at he
  cases he with
  | early _ => cases h
  | taken _ _ =>
      rw [List.mem_append] at h
      cases h with
      | inl h => exact .inl (mem_initLogObjActions h)
      | inr h => exact .inr (.inl (List.mem_singleton.mp h))
  | stored _ =>
      rw [List.mem_append] at h
      cases h with
      | inl h => exact .inl (mem_initLogObjActions h)
      | inr h => exact .inr (by simpa using h)

/-- The command stores the argument at position `4` exactly when it accepts the request. -/
theorem store_mem_iff {ctx : RedisModuleCtx} {argv : List RedisModuleString} {s : Module} :
    .store 4 ∈ rmMigrateCommandActions ctx argv s ↔
      ∃ host key port slot, Accepts ctx argv s host key port slot := by
  have he := rmMigrateCommand_exit ctx argv s
  generalize rmMigrateCommandActions ctx argv s = as at he ⊢
  generalize (rmMigrateCommand ctx argv s).mod = s' at he
  cases he with
  | early hn =>
      apply iff_of_false List.not_mem_nil
      rintro ⟨host, key, port, slot, ha⟩
      exact hn ⟨ha.parses, ha.room⟩
  | taken _ hn =>
      refine iff_of_false ?_ hn
      simp [store_notMem_initLogObjActions]
  | stored ha => exact iff_of_true (by simp) ⟨_, _, _, _, ha⟩

/-! ### Key positions -/

/-- The positions reported for a keys-position request with these arguments. -/
def reportedPositions (ctx : RedisModuleCtx) (argv : List RedisModuleString) (s : Module) : Set ℕ :=
  {p | .keyAtPos p ∈ rmMigrateCommandActions { ctx with isKeysPositionRequest := true } argv s}

/-- The positions whose bytes an execution with these arguments uses as keys of the registry. -/
def executedPositions (ctx : RedisModuleCtx) (argv : List RedisModuleString) (s : Module) : Set ℕ :=
  {p | .find p ∈ rmMigrateCommandActions { ctx with isKeysPositionRequest := false } argv s ∨
    .store p ∈ rmMigrateCommandActions { ctx with isKeysPositionRequest := false } argv s}

/-- The positions whose bytes the filter looks up for these arguments. -/
def comparedPositions (argv : List RedisModuleString) (s : Module) : Set ℕ :=
  {p | ∃ count, .find p count ∈ rmMigrateFilterActions s argv}

/-- The three places agree on the key; the filter is asked only while a migration is in
progress. -/
structure KeyPositionsAgree (ctx : RedisModuleCtx) (argv : List RedisModuleString) (s : Module) :
    Prop where
  executed : reportedPositions ctx argv s = executedPositions ctx argv s
  compared : s.isMigrating = true → reportedPositions ctx argv s = comparedPositions argv s

theorem reportedPositions_eq (ctx : RedisModuleCtx) (argv : List RedisModuleString) (s : Module) :
    reportedPositions ctx argv s = ∅ := by
  ext p
  apply iff_of_false
  · intro h
    rcases mem_rmMigrateCommandActions h with ⟨str, h⟩ | h | h
    · cases h
    · cases h
    · cases h
  · exact Set.notMem_empty p

/-- The execution uses the argument at position `4`, when it gets as far as the lookup. -/
theorem executedPositions_eq_singleton {ctx : RedisModuleCtx} {argv : List RedisModuleString}
    {s : Module} (h : Parses { ctx with isKeysPositionRequest := false } argv)
    (hroom : s.migrating.size < maxMigrateingNum) : executedPositions ctx argv s = {4} := by
  ext p
  rw [Set.mem_singleton_iff]
  constructor
  · rintro (hmem | hmem)
    · rcases mem_rmMigrateCommandActions hmem with ⟨str, heq⟩ | heq | heq
      · cases heq
      · exact CommandAction.find.inj heq
      · cases heq
    · rcases mem_rmMigrateCommandActions hmem with ⟨str, heq⟩ | heq | heq
      · cases heq
      · cases heq
      · exact CommandAction.store.inj heq
  · rintro rfl
    have he := rmMigrateCommand_exit { ctx with isKeysPositionRequest := false } argv s
    unfold executedPositions
    generalize rmMigrateCommandActions { ctx with isKeysPositionRequest := false } argv s = as
      at he ⊢
    generalize (rmMigrateCommand { ctx with isKeysPositionRequest := false } argv s).mod = s' at he
    left
    cases he with
    | early hn => exact absurd ⟨h, hroom⟩ hn
    | taken _ _ => simp
    | stored _ => simp

theorem executedPositions_eq_empty {ctx : RedisModuleCtx} {argv : List RedisModuleString}
    {s : Module} (h : ¬ Parses { ctx with isKeysPositionRequest := false } argv) :
    executedPositions ctx argv s = ∅ := by
  have he := rmMigrateCommand_exit { ctx with isKeysPositionRequest := false } argv s
  unfold executedPositions
  generalize rmMigrateCommandActions { ctx with isKeysPositionRequest := false } argv s = as at he ⊢
  generalize (rmMigrateCommand { ctx with isKeysPositionRequest := false } argv s).mod = s' at he
  cases he with
  | early _ => simp
  | taken hp _ => exact absurd hp h
  | stored ha => exact absurd ha.parses h

/-- While a migration is in progress the filter looks the argument at position `1` up. -/
theorem comparedPositions_eq {s : Module} (hm : s.isMigrating = true)
    (name key : RedisModuleString) (rest : List RedisModuleString) :
    comparedPositions (name :: key :: rest) s = {1} := by
  ext p
  show (∃ count, .find p count ∈ rmMigrateFilterActions s (name :: key :: rest)) ↔ p = 1
  rw [rmMigrateFilterActions, if_pos hm]
  constructor
  · rintro ⟨count, h⟩
    obtain ⟨f, -, hf⟩ := Loop.mem_trace.mp h
    obtain ⟨-, heq | heq | ⟨heq, -, hpos⟩⟩ := mem_filterActions hf
    · cases heq
    · cases heq
    · rw [← hpos]
      exact (FilterAction.find.inj heq).1
  · rintro rfl
    have hturn : filterTurn s ⟨name :: key :: rest, 0, false, []⟩ =
        .again ⟨name :: key :: rest, 1, false, []⟩ :=
      filterTurn_pass (a := name) rfl rfl (by simp)
    refine ⟨(name :: key :: rest).length, Loop.mem_trace.mpr ⟨_, .turn .start hturn, ?_⟩⟩
    simp only [filterActions, argsCount, argGet, List.length_cons, List.getElem?_cons_succ,
      List.getElem?_cons_zero]
    split_ifs <;> simp_all

/-- **When the three places agree on the key of `rm.migrate`**: only while no migration is in
progress, for a request whose port or slot does not parse. -/
theorem key_positions_agree_iff {s : Module} (h : moduleLts.Reachable s) (ctx : RedisModuleCtx)
    (name host port slot key : RedisModuleString) :
    KeyPositionsAgree ctx [name, host, port, slot, key] s ↔
      s.isMigrating = false ∧
        (ctx.stringToDouble port = none ∨ ctx.stringToDouble slot = none) := by
  have hparses : Parses { ctx with isKeysPositionRequest := false } [name, host, port, slot, key] ↔
      ¬ (ctx.stringToDouble port = none ∨ ctx.stringToDouble slot = none) := by
    rw [parses_cons, not_or, ← ne_eq, ← ne_eq, Option.ne_none_iff_isSome,
      Option.ne_none_iff_isSome, and_iff_right rfl]
  constructor
  · rintro ⟨hex, hcmp⟩
    have hflag : s.isMigrating = false := by
      by_contra hm
      rw [Bool.not_eq_false] at hm
      have heq := hcmp hm
      rw [reportedPositions_eq, comparedPositions_eq hm] at heq
      exact Set.singleton_ne_empty 1 heq.symm
    refine ⟨hflag, ?_⟩
    by_contra hn
    have hempty : s.migrating = ∅ := by
      by_contra hne
      rw [(flagAgrees h).mpr hne] at hflag
      cases hflag
    rw [reportedPositions_eq, executedPositions_eq_singleton (hparses.mpr hn)
      (by rw [hempty]; decide)] at hex
    exact Set.singleton_ne_empty 4 hex.symm
  · rintro ⟨hflag, hn⟩
    constructor
    · rw [reportedPositions_eq, executedPositions_eq_empty (fun hp => hparses.mp hp hn)]
    · intro hm
      rw [hflag] at hm
      cases hm

/-- `rm.migrate h 1 1 a` when nothing is migrating. -/
theorem key_positions_first_request :
    KeyPositionsAgree plainCtx (plainRequest [104] [97]) .initial ↔
      Module.initial.isMigrating = false ∧
        (plainCtx.stringToDouble ⟨2, ascii "1"⟩ = none ∨
          plainCtx.stringToDouble ⟨3, ascii "1"⟩ = none) :=
  key_positions_agree_iff (.of_init rfl) plainCtx _ _ _ _ _

/-- For `rm.migrate h 1 1 a` no position is reported, and `a` is stored as a key. -/
theorem key_position_not_reported :
    ¬ ∀ (s : Module) (ctx : RedisModuleCtx) (argv : List RedisModuleString),
      moduleLts.Reachable s → argv.length = 5 → KeyPositionsAgree ctx argv s := by
  intro h
  have hex := (h .initial plainCtx (plainRequest [104] [97]) (.of_init rfl) rfl).executed
  have hparses :
      Parses { plainCtx with isKeysPositionRequest := false } (plainRequest [104] [97]) :=
    ⟨rfl, _, _, _, _, _, rfl, rfl, rfl⟩
  rw [reportedPositions_eq, executedPositions_eq_singleton hparses (by decide)] at hex
  exact Set.singleton_ne_empty 4 hex.symm

end RedisMigrate
