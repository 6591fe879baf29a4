import RedisMigrate.Filter
import RedisMigrate.Lts

/-! # Runs of the module

From the moment the module is loaded Redis calls `rm_migrateCommand` and `rm_migrateFilter` in any
order, with any arguments and any answers to the calls they make.  `moduleLts` is that
system.  The filter reads the globals and writes none of them, so only an accepted request
changes the registry (`step_cases`).

* `registry_frame`: the registry is bounded, a refusal changes nothing, and an accepted request
  changes one key.
* `accepted_kept_iff`: when a migration that was accepted is safe from being overwritten. -/

namespace RedisMigrate

/-- What Redis calls. -/
inductive Event where
  | command (ctx : RedisModuleCtx) (argv : List RedisModuleString)
  | filter (argv : List RedisModuleString)

def moduleLts : Lts Module Event where
  init s := s = .initial
  step s
    | .command ctx argv => some (rmMigrateCommand ctx argv s).mod
    | .filter argv => (rmMigrateFilter s argv).map fun _ => s

/-- One event leaves the registry and the flag alone, or is an accepted request. -/
theorem step_cases {s s' : Module} {e : Event} (h : moduleLts.step s e = some s') :
    (s'.migrating = s.migrating ∧ s'.isMigrating = s.isMigrating) ∨
      ∃ ctx argv host key port slot, e = .command ctx argv ∧
        Accepts ctx argv s host key port slot ∧ s'.isMigrating = true ∧
        s'.migrating = s.migrating.insert key.bytes (newRecord ctx s host key port slot) := by
  cases e with
  | filter argv =>
      obtain ⟨r, -, rfl⟩ := Option.map_eq_some_iff.mp h
      exact .inl ⟨rfl, rfl⟩
  | command ctx argv =>
      obtain rfl := Option.some.inj h
      have he := rmMigrateCommand_effect ctx argv s
      generalize (rmMigrateCommand ctx argv s).mod = s' at he ⊢
      generalize (rmMigrateCommand ctx argv s).reply = r at he
      cases he with
      | refused msg mLog => exact .inl ⟨rfl, rfl⟩
      | keys _ _ => exact .inl ⟨rfl, rfl⟩
      | accepted mLog ha => exact .inr ⟨ctx, argv, _, _, _, _, rfl, ha, rfl, rfl⟩

/-- Answers under which every number is `1` and no log file is configured. -/
def plainCtx : RedisModuleCtx where
  isKeysPositionRequest := false
  stringToDouble _ := some (.finite 1)
  castUndefined _ := 0
  call _ _ := [⟨10, ascii "logfile"⟩, ⟨11, []⟩]

/-- `rm.migrate host 1 1 key`. -/
def plainRequest (host key : Bytes) : List RedisModuleString :=
  [⟨0, ascii "rm.migrate"⟩, ⟨1, host⟩, ⟨2, ascii "1"⟩, ⟨3, ascii "1"⟩, ⟨4, key⟩]

/-- The module after `rm.migrate host 1 1 key` on an empty registry. -/
def afterOne (host key : Bytes) : Module :=
  (rmMigrateCommand plainCtx (plainRequest host key) .initial).mod

theorem afterOne_reachable (host key : Bytes) : moduleLts.Reachable (afterOne host key) :=
  Lts.Reachable.tail (a := .command plainCtx (plainRequest host key)) (.of_init rfl) rfl

/-! ### The registry is bounded and changes only by accepted requests -/

/-- No run fills the registry beyond `MAX_MIGRATEING_NUM` keys. -/
theorem size_le {s : Module} (h : moduleLts.Reachable s) :
    s.migrating.size ≤ maxMigrateingNum := by
  refine h.induct (I := fun s => s.migrating.size ≤ maxMigrateingNum) ?_ ?_
  · rintro s rfl
    decide
  · intro s e s' _ hle hstep
    rcases step_cases hstep with ⟨hm, -⟩ | ⟨ctx, argv, host, key, port, slot, -, ha, -, hm⟩
    · rwa [hm]
    · rw [hm]
      have := size_insert_le s.migrating key.bytes (newRecord ctx s host key port slot)
      have := ha.room
      omega

/-- An answer that is an error, and every keys-position request, leaves the registry. -/
theorem refusal_atomic (ctx : RedisModuleCtx) (argv : List RedisModuleString) (s : Module)
    (h : (rmMigrateCommand ctx argv s).reply.IsError ∨ ctx.isKeysPositionRequest = true) :
    (rmMigrateCommand ctx argv s).mod.migrating = s.migrating ∧
      (rmMigrateCommand ctx argv s).mod.isMigrating = s.isMigrating := by
  have he := rmMigrateCommand_effect ctx argv s
  generalize (rmMigrateCommand ctx argv s).mod = s' at he ⊢
  generalize (rmMigrateCommand ctx argv s).reply = r at he h
  cases he with
  | refused msg mLog => exact ⟨rfl, rfl⟩
  | keys _ _ => exact ⟨rfl, rfl⟩
  | accepted mLog ha =>
      rcases h with h | h
      · exact h.elim
      · rw [ha.executed] at h; cases h

/-- From `s` to `s'` only the key of the request `argv` changed, and its record holds the lengths
and numbers of that request. -/
structure StoredOnly (ctx : RedisModuleCtx) (argv : List RedisModuleString) (s s' : Module) :
    Prop where
  stored : ∃ name host portArg slotArg key port slot m,
    argv = [name, host, portArg, slotArg, key] ∧
    ctx.stringToDouble portArg = some port ∧ ctx.stringToDouble slotArg = some slot ∧
    s'.migrating.lookup key.bytes = some m ∧
    m.keyLen = key.bytes.length ∧ m.hostLen = host.bytes.length ∧
    m.port = sizeOfInt (intOfDouble ctx.castUndefined port) ∧
    m.slot = sizeOfInt (intOfDouble ctx.castUndefined slot)
  frame : ∀ k, (∀ key, argv[4]? = some key → k ≠ key.bytes) →
    s'.migrating.lookup k = s.migrating.lookup k
  grows : ∀ k, k ∈ s.migrating → k ∈ s'.migrating

theorem accepted_storedOnly {ctx : RedisModuleCtx} {argv : List RedisModuleString} {s : Module}
    (hx : ctx.isKeysPositionRequest = false)
    (h : (rmMigrateCommand ctx argv s).reply = .simpleString "OK") :
    StoredOnly ctx argv s (rmMigrateCommand ctx argv s).mod := by
  obtain ⟨host, key, port, slot, ha⟩ := accepts_of_reply hx h
  have hm := (rmMigrateCommand_of_accepts ha).2.1
  obtain ⟨name, portArg, slotArg, rfl, hp, hs⟩ := ha.argv
  refine ⟨?_, ?_, ?_⟩
  · refine ⟨name, host, portArg, slotArg, key, port, slot, newRecord ctx s host key port slot,
      rfl, hp, hs, ?_, rfl, rfl, rfl, rfl⟩
    rw [hm, Finmap.lookup_insert]
  · intro k hk
    rw [hm, Finmap.lookup_insert_of_ne _ (hk key rfl)]
  · intro k hk
    rw [hm, Finmap.mem_insert]
    exact .inr hk

/-- **The registry is bounded, a refusal is atomic, and an accepted request changes one key.** -/
theorem registry_frame {s : Module} (hr : moduleLts.Reachable s) :
    s.migrating.size ≤ 50 ∧
      (∀ ctx argv, (rmMigrateCommand ctx argv s).reply.IsError ∨ ctx.isKeysPositionRequest = true →
        (rmMigrateCommand ctx argv s).mod.migrating = s.migrating ∧
          (rmMigrateCommand ctx argv s).mod.isMigrating = s.isMigrating) ∧
      (∀ argv s', moduleLts.step s (.filter argv) = some s' →
        s'.migrating = s.migrating ∧ s'.isMigrating = s.isMigrating) ∧
      ∀ ctx argv, ctx.isKeysPositionRequest = false →
        (rmMigrateCommand ctx argv s).reply = .simpleString "OK" →
        StoredOnly ctx argv s (rmMigrateCommand ctx argv s).mod := by
  refine ⟨size_le hr, fun ctx argv => refusal_atomic ctx argv s, ?_,
    fun ctx argv => accepted_storedOnly⟩
  intro argv s' h
  rcases step_cases h with hm | ⟨_, _, _, _, _, _, he, _⟩
  · exact hm
  · cases he

/-- After one request a second key is stored beside the first. -/
theorem registry_frame_two_keys :
    StoredOnly plainCtx (plainRequest [104] [98]) (afterOne [104] [97])
      (rmMigrateCommand plainCtx (plainRequest [104] [98]) (afterOne [104] [97])).mod :=
  (registry_frame (afterOne_reachable [104] [97])).2.2.2 plainCtx (plainRequest [104] [98]) rfl
    (by decide)

/-! ### An accepted migration -/

/-- An executed request for `key`, with the target `host`, that is answered `OK` in `s`. -/
structure AcceptedRequest (s : Module) (ctx : RedisModuleCtx) (argv : List RedisModuleString)
    (host key : RedisModuleString) : Prop where
  executed : ctx.isKeysPositionRequest = false
  host : argv[1]? = some host
  key : argv[4]? = some key
  ok : (rmMigrateCommand ctx argv s).reply = .simpleString "OK"

theorem AcceptedRequest.accepts {s : Module} {ctx : RedisModuleCtx} {argv : List RedisModuleString}
    {host key : RedisModuleString} (h : AcceptedRequest s ctx argv host key) :
    ∃ port slot, Accepts ctx argv s host key port slot := by
  obtain ⟨host', key', port, slot, ha⟩ := accepts_of_reply h.executed h.ok
  obtain ⟨name, portArg, slotArg, hargv, -⟩ := ha.argv
  have h1 := h.host
  have h4 := h.key
  rw [hargv] at h1 h4
  obtain rfl : host' = host := by simpa using h1
  obtain rfl : key' = key := by simpa using h4
  exact ⟨port, slot, ha⟩

/-- In every state from `s₁` on, the record of `k` is the one that `s₁` has, and every executed
request for `k` is refused.  The bytes in a record are those at its pointers when these were taken;
`StringLifetimes` says how long they stay there. -/
def KeptFrom (s₁ : Module) (k : Bytes) : Prop :=
  ∃ m, s₁.migrating.lookup k = some m ∧ ∀ s, moduleLts.Steps s₁ s →
    s.migrating.lookup k = some m ∧
      ∀ ctx argv key, ctx.isKeysPositionRequest = false → argv[4]? = some key → key.bytes = k →
        (rmMigrateCommand ctx argv s).reply.IsError

/-- The record `m` of `k` is locked: the key looks taken, or the registry is full. -/
structure Locked (k : Bytes) (m : MigrateObj) (s : Module) : Prop where
  lookup : s.migrating.lookup k = some m
  taken : 0 < m.hostLen ∨ maxMigrateingNum ≤ s.migrating.size

theorem Locked.not_accepts {k : Bytes} {m : MigrateObj} {s : Module} (h : Locked k m s)
    {ctx : RedisModuleCtx} {argv : List RedisModuleString} {host key : RedisModuleString}
    {port slot : Double} (ha : Accepts ctx argv s host key port slot) : key.bytes ≠ k := by
  rintro rfl
  have hfree := ha.free
  rw [findMigrating_of_lookup h.lookup] at hfree
  have := ha.room
  rcases h.taken with ht | ht <;> omega

theorem Locked.step {k : Bytes} {m : MigrateObj} {s s' : Module} {e : Event} (h : Locked k m s)
    (hstep : moduleLts.step s e = some s') : Locked k m s' := by
  rcases step_cases hstep with ⟨hm, -⟩ | ⟨ctx, argv, host, key, port, slot, -, ha, -, hm⟩
  · exact ⟨hm ▸ h.lookup, hm ▸ h.taken⟩
  · have hne := (h.not_accepts ha).symm
    refine ⟨by rw [hm, Finmap.lookup_insert_of_ne _ hne, h.lookup], ?_⟩
    rcases h.taken with ht | ht
    · exact .inl ht
    · exact absurd ha.room (Nat.not_lt_of_le ht)

theorem Locked.refused {k : Bytes} {m : MigrateObj} {s : Module} (h : Locked k m s)
    {ctx : RedisModuleCtx} {argv : List RedisModuleString} {key : RedisModuleString}
    (hx : ctx.isKeysPositionRequest = false) (hkey : argv[4]? = some key) (hk : key.bytes = k) :
    (rmMigrateCommand ctx argv s).reply.IsError := by
  have he := rmMigrateCommand_effect ctx argv s
  generalize (rmMigrateCommand ctx argv s).mod = s' at he
  generalize (rmMigrateCommand ctx argv s).reply = r at he
  cases he with
  | refused msg mLog => trivial
  | keys _ hk => rw [hx] at hk; cases hk
  | accepted mLog ha =>
      have hne := h.not_accepts ha
      obtain ⟨name, portArg, slotArg, rfl, -⟩ := ha.argv
      obtain rfl := Option.some.inj hkey
      exact absurd hk hne

theorem Locked.keptFrom {k : Bytes} {m : MigrateObj} {s : Module} (h : Locked k m s) :
    KeptFrom s k := by
  refine ⟨m, h.lookup, ?_⟩
  intro s' hs
  have h' := hs.preserves (I := Locked k m) (fun _ _ _ => Locked.step) h
  exact ⟨h'.lookup, fun ctx argv key => h'.refused⟩

/-- **When an accepted migration is never overwritten**: exactly when its host is not the empty
string, or its key took the last place of the registry. -/
theorem accepted_kept_iff {s₀ : Module} {ctx : RedisModuleCtx} {argv : List RedisModuleString}
    {host key : RedisModuleString} (h : AcceptedRequest s₀ ctx argv host key) :
    KeptFrom (rmMigrateCommand ctx argv s₀).mod key.bytes ↔
      host.bytes ≠ [] ∨ (key.bytes ∉ s₀.migrating ∧ s₀.migrating.size = 49) := by
  obtain ⟨port, slot, ha⟩ := h.accepts
  have hm := (rmMigrateCommand_of_accepts ha).2.1
  have hlookup : (rmMigrateCommand ctx argv s₀).mod.migrating.lookup key.bytes =
      some (newRecord ctx s₀ host key port slot) := by rw [hm, Finmap.lookup_insert]
  constructor
  · -- An empty host with room left lets the same request in again.
    rintro ⟨m, -, hkept⟩
    by_contra hcond
    rw [not_or, not_not, not_and] at hcond
    obtain ⟨hhost, hsize⟩ := hcond
    have hroom : (rmMigrateCommand ctx argv s₀).mod.migrating.size < maxMigrateingNum := by
      rw [hm]
      have hlt := ha.room
      by_cases hmem : key.bytes ∈ s₀.migrating
      · rwa [size_insert_of_mem hmem]
      · rw [size_insert_of_notMem hmem]
        have := hsize hmem
        unfold maxMigrateingNum at hlt ⊢
        omega
    have hagain : Accepts ctx argv (rmMigrateCommand ctx argv s₀).mod host key port slot :=
      ⟨ha.argv, ha.executed, hroom, by
        rw [findMigrating_of_lookup hlookup, newRecord_hostLen, hhost, List.length_nil]⟩
    have herr := (hkept _ .refl).2 ctx argv key h.executed h.key rfl
    rw [(rmMigrateCommand_of_accepts hagain).1] at herr
    exact herr
  · intro hcond
    refine Locked.keptFrom ⟨hlookup, ?_⟩
    rcases hcond with hhost | ⟨hmem, hsize⟩
    · left
      rw [newRecord_hostLen]
      exact List.length_pos_iff.mpr hhost
    · right
      rw [hm, size_insert_of_notMem hmem, hsize, maxMigrateingNum]

theorem afterOne_accepted (host key : Bytes) :
    AcceptedRequest .initial plainCtx (plainRequest host key) ⟨1, host⟩ ⟨4, key⟩ :=
  ⟨rfl, rfl, rfl, rfl⟩

theorem accepted_kept_plain : KeptFrom (afterOne [104] [97]) [97] :=
  (accepted_kept_iff (afterOne_accepted [104] [97])).mpr (.inl (by decide))

/-- `rm.migrate "" 1 1 a` is answered `OK`, and so is the same request again. -/
theorem empty_host_overwritten :
    ¬ ∀ (s₀ : Module) (ctx : RedisModuleCtx) (argv : List RedisModuleString)
        (host key : RedisModuleString), moduleLts.Reachable s₀ →
      AcceptedRequest s₀ ctx argv host key →
      KeptFrom (rmMigrateCommand ctx argv s₀).mod key.bytes := by
  intro h
  obtain ⟨m, -, hkept⟩ := h .initial plainCtx (plainRequest [] [97]) _ _ (.of_init rfl)
    (afterOne_accepted [] [97])
  have herr := (hkept (afterOne [] [97]) .refl).2 plainCtx (plainRequest [] [97]) ⟨4, [97]⟩ rfl
    rfl rfl
  revert herr
  decide

end RedisMigrate
