import Mathlib.Data.Finmap
import RedisMigrate.Log

/-! # The registry of migrations and `rm.migrate`

The globals of `src/redis_migrate.cpp` (`mLog`, `isMigrating`, `migrating`), the lookup
`findMigrating`, the record built by `createMigrateObject`, and the command callback
`rm_migrateCommand` with its exits in the order of the source.

A missing key is not distinguished from a record whose `hostLen` is `0`: `findMigrating` returns
the zero record for it, and both the command and the filter test `hostLen > 0`
(`findMigrating_hostLen_pos`).  `rmMigrateCommand_effect` says once what a run of the
command can do; every invariant of the module is read off it. -/

namespace RedisMigrate

/-- `migrateObj`; the fields `address` and `migrating`, which nothing reads, are left out. -/
structure MigrateObj where
  host : Option CharPtr
  hostLen : ℕ
  port : BitVec 64
  slot : BitVec 64
  key : Option CharPtr
  keyLen : ℕ
  timeout : ℤ
  isCache : ℤ
deriving DecidableEq, Repr

/-- The value-initialised record `{}`. -/
def MigrateObj.zero : MigrateObj := ⟨none, 0, 0, 0, none, 0, 0, 0⟩

/-- `std::map<std::string, migrateObj>`. -/
abbrev MigrateMap := Finmap (fun _ : Bytes => MigrateObj)

/-- `migrating.size()`. -/
def MigrateMap.size (m : MigrateMap) : ℕ := m.keys.card

/-- The globals of the module. -/
structure Module where
  mLog : LogObj
  isMigrating : Bool
  migrating : MigrateMap

/-- The globals when the module is loaded. -/
def Module.initial : Module := ⟨⟨none, 0⟩, false, ∅⟩

/-- `MAX_MIGRATEING_NUM`. -/
def maxMigrateingNum : ℕ := 50

def createMigrateObject (host : RedisModuleString) (port slot : BitVec 32) (key : RedisModuleString)
    (m : MigrateObj) : MigrateObj :=
  let (hostStr, hostLen) := stringPtrLen host
  let (keyStr, keyLen) := stringPtrLen key
  { m with
    port := sizeOfInt port
    slot := sizeOfInt slot
    timeout := 10000
    isCache := 0
    host := some hostStr
    hostLen := hostLen
    key := some keyStr
    keyLen := keyLen }

def findMigrating (migrating : MigrateMap) (key : Bytes) : MigrateObj :=
  match migrating.lookup key with
  | some m => m
  | none => .zero

/-- `initLogObj`: the new log object and the messages to the server's log. -/
def initLogObj (ctx : RedisModuleCtx) (mLog : LogObj) : LogObj × List ServerLog :=
  if mLog.logfile ≠ none then (mLog, [])
  else
    match ctx.call "config" ["get", "logfile"] with
    | [_, item1] =>
        let (logfile, _) := stringPtrLen item1
        (⟨some logfile, llNotice⟩,
          [⟨"notice", "init logfile success logfile is %s", [logfile.cString]⟩])
    | _ => (mLog, [⟨"warning", "logfile is empty", []⟩])

/-- What a run of the command leaves: the reply, the messages to the server's log, the globals. -/
structure CommandResult where
  reply : Reply
  log : List ServerLog
  mod : Module

def rmMigrateCommand (ctx : RedisModuleCtx) (argv : List RedisModuleString) (s : Module) :
    CommandResult :=
  match argv with
  | [_, host, port, slot, key] =>
      if ctx.isKeysPositionRequest then
        ⟨.simpleString "OK", [⟨"VERBOSE", "get keys from module", []⟩], s⟩
      else
        match ctx.stringToDouble port with
        | none => ⟨.error "ERR invalid port", [], s⟩
        | some portDouble =>
            match ctx.stringToDouble slot with
            | none => ⟨.error "ERR invalid port", [], s⟩
            | some slotDouble =>
                if s.migrating.size ≥ maxMigrateingNum then
                  ⟨.error "migrating key is bigger 50", [], s⟩
                else
                  let (mLog, log) := initLogObj ctx s.mLog
                  let (keyChar, keyLen) := stringPtrLen key
                  let keyStr := stdString keyChar keyLen
                  let m := findMigrating s.migrating keyStr
                  if m.hostLen > 0 then
                    ⟨.error "migrating, try again later", log, { s with mLog }⟩
                  else
                    let m := createMigrateObject host (intOfDouble ctx.castUndefined portDouble)
                      (intOfDouble ctx.castUndefined slotDouble) key m
                    ⟨.simpleString "OK", log,
                      { mLog, isMigrating := true, migrating := s.migrating.insert keyStr m }⟩
  | _ => ⟨.error "args number failed", [], s⟩

/-! ### The lookup -/

theorem findMigrating_of_lookup {migrating : MigrateMap} {key : Bytes} {m : MigrateObj}
    (h : migrating.lookup key = some m) : findMigrating migrating key = m := by
  rw [findMigrating, h]

/-- A lookup looks present exactly when the key has a record with a non-empty host. -/
theorem findMigrating_hostLen_pos {migrating : MigrateMap} {key : Bytes} :
    0 < (findMigrating migrating key).hostLen ↔
      ∃ m, migrating.lookup key = some m ∧ 0 < m.hostLen := by
  unfold findMigrating
  cases migrating.lookup key <;> simp [MigrateObj.zero]

theorem size_insert_le (migrating : MigrateMap) (key : Bytes) (m : MigrateObj) :
    MigrateMap.size (migrating.insert key m) ≤ migrating.size + 1 := by
  have hkeys : (migrating.insert key m).keys = Insert.insert key migrating.keys := by
    ext a
    simp [Finmap.mem_keys, Finmap.mem_insert]
  unfold MigrateMap.size
  rw [hkeys]
  exact Finset.card_insert_le _ _

theorem size_insert_of_mem {migrating : MigrateMap} {key : Bytes} (h : key ∈ migrating)
    (m : MigrateObj) : MigrateMap.size (migrating.insert key m) = migrating.size := by
  have hkeys : (migrating.insert key m).keys = migrating.keys := by
    ext a
    simp only [Finmap.mem_keys, Finmap.mem_insert, or_iff_right_iff_imp]
    rintro rfl
    exact h
  rw [MigrateMap.size, hkeys, MigrateMap.size]

theorem size_insert_of_notMem {migrating : MigrateMap} {key : Bytes} (h : key ∉ migrating)
    (m : MigrateObj) : MigrateMap.size (migrating.insert key m) = migrating.size + 1 := by
  have hkeys : (migrating.insert key m).keys = Insert.insert key migrating.keys := by
    ext a
    simp [Finmap.mem_keys, Finmap.mem_insert]
  rw [MigrateMap.size, hkeys, Finset.card_insert_of_notMem (by rwa [Finmap.mem_keys]),
    MigrateMap.size]

/-! ### What the command can do -/

/-- An executed request that reaches the registration: the argument list, its parsed numbers, and
room in a registry in which the key looks free. -/
structure Accepts (ctx : RedisModuleCtx) (argv : List RedisModuleString) (s : Module)
    (host key : RedisModuleString) (port slot : Double) : Prop where
  argv : ∃ name portArg slotArg, argv = [name, host, portArg, slotArg, key] ∧
    ctx.stringToDouble portArg = some port ∧ ctx.stringToDouble slotArg = some slot
  executed : ctx.isKeysPositionRequest = false
  room : s.migrating.size < maxMigrateingNum
  free : (findMigrating s.migrating key.bytes).hostLen = 0

/-- What is accepted is what the argument list says. -/
theorem Accepts.args {ctx : RedisModuleCtx} {s : Module}
    {name host portArg slotArg key host' key' : RedisModuleString} {port slot : Double}
    (h : Accepts ctx [name, host, portArg, slotArg, key] s host' key' port slot) :
    host' = host ∧ key' = key ∧ ctx.stringToDouble portArg = some port ∧
      ctx.stringToDouble slotArg = some slot := by
  obtain ⟨_, _, _, heq, hport, hslot⟩ := h.argv
  obtain ⟨rfl, rfl, rfl, rfl, rfl⟩ :
    name = _ ∧ host = _ ∧ portArg = _ ∧ slotArg = _ ∧ key = _ := by simpa using heq
  exact ⟨rfl, rfl, hport, hslot⟩

/-- The record that an accepted request stores. -/
def newRecord (ctx : RedisModuleCtx) (s : Module) (host key : RedisModuleString)
    (port slot : Double) : MigrateObj :=
  createMigrateObject host (intOfDouble ctx.castUndefined port) (intOfDouble ctx.castUndefined slot)
    key (findMigrating s.migrating key.bytes)

theorem newRecord_hostLen (ctx : RedisModuleCtx) (s : Module) (host key : RedisModuleString)
    (port slot : Double) : (newRecord ctx s host key port slot).hostLen = host.bytes.length := rfl

/-- The effect of one run of the command on the reply and the globals. -/
inductive CommandEffect (ctx : RedisModuleCtx) (argv : List RedisModuleString) (s : Module) :
    Reply → Module → Prop
  | refused (msg : String) (mLog : LogObj) :
      CommandEffect ctx argv s (.error msg) { s with mLog }
  | keys : argv.length = 5 → ctx.isKeysPositionRequest = true →
      CommandEffect ctx argv s (.simpleString "OK") s
  | accepted {host key : RedisModuleString} {port slot : Double} (mLog : LogObj) :
      Accepts ctx argv s host key port slot →
      CommandEffect ctx argv s (.simpleString "OK")
        ⟨mLog, true, s.migrating.insert key.bytes (newRecord ctx s host key port slot)⟩

theorem rmMigrateCommand_effect (ctx : RedisModuleCtx) (argv : List RedisModuleString)
    (s : Module) :
    CommandEffect ctx argv s (rmMigrateCommand ctx argv s).reply
      (rmMigrateCommand ctx argv s).mod := by
  unfold rmMigrateCommand
  split
  · next name host port slot key =>
      by_cases hk : ctx.isKeysPositionRequest = true
      · rw [if_pos hk]
        exact .keys rfl hk
      rw [if_neg hk]
      cases hp : ctx.stringToDouble port with
      | none => exact .refused _ s.mLog
      | some portDouble =>
          cases hs : ctx.stringToDouble slot with
          | none => exact .refused _ s.mLog
          | some slotDouble =>
              dsimp only
              by_cases hroom : s.migrating.size ≥ maxMigrateingNum
              · rw [if_pos hroom]
                exact .refused _ s.mLog
              rw [if_neg hroom, stdString_stringPtrLen]
              by_cases hfree : (findMigrating s.migrating key.bytes).hostLen > 0
              · rw [if_pos hfree]
                exact .refused _ _
              rw [if_neg hfree]
              exact .accepted _ ⟨⟨name, port, slot, rfl, hp, hs⟩, by simpa using hk,
                Nat.lt_of_not_ge hroom, Nat.eq_zero_of_not_pos hfree⟩
  · exact .refused _ s.mLog

/-- The result of a request that reaches the registration. -/
theorem rmMigrateCommand_eq_of_accepts {ctx : RedisModuleCtx} {argv : List RedisModuleString}
    {s : Module} {host key : RedisModuleString} {port slot : Double}
    (h : Accepts ctx argv s host key port slot) :
    rmMigrateCommand ctx argv s = ⟨.simpleString "OK", (initLogObj ctx s.mLog).2,
      ⟨(initLogObj ctx s.mLog).1, true,
        s.migrating.insert key.bytes (newRecord ctx s host key port slot)⟩⟩ := by
  obtain ⟨name, portArg, slotArg, rfl, hp, hs⟩ := h.argv
  have hroom := Nat.not_le_of_lt h.room
  have hfree : ¬ (findMigrating s.migrating key.bytes).hostLen > 0 := by rw [h.free]; simp
  simp only [rmMigrateCommand, h.executed, Bool.false_eq_true, if_false, hp, hs, ge_iff_le,
    if_neg hroom, stdString_stringPtrLen, if_neg hfree]
  rfl

/-- A request that reaches the registration is answered `OK`, stores its record and raises the
flag. -/
theorem rmMigrateCommand_of_accepts {ctx : RedisModuleCtx} {argv : List RedisModuleString}
    {s : Module} {host key : RedisModuleString} {port slot : Double}
    (h : Accepts ctx argv s host key port slot) :
    (rmMigrateCommand ctx argv s).reply = .simpleString "OK" ∧
      (rmMigrateCommand ctx argv s).mod.migrating =
        s.migrating.insert key.bytes (newRecord ctx s host key port slot) ∧
      (rmMigrateCommand ctx argv s).mod.isMigrating = true := by
  rw [rmMigrateCommand_eq_of_accepts h]
  exact ⟨rfl, rfl, rfl⟩

/-- An executed request answered `OK` reached the registration. -/
theorem accepts_of_reply {ctx : RedisModuleCtx} {argv : List RedisModuleString} {s : Module}
    (hx : ctx.isKeysPositionRequest = false)
    (h : (rmMigrateCommand ctx argv s).reply = .simpleString "OK") :
    ∃ host key port slot, Accepts ctx argv s host key port slot := by
  have he := rmMigrateCommand_effect ctx argv s
  generalize (rmMigrateCommand ctx argv s).mod = s' at he
  rw [h] at he
  cases he with
  | keys _ hk => rw [hx] at hk; cases hk
  | accepted mLog ha => exact ⟨_, _, _, _, ha⟩

end RedisMigrate
