import RedisMigrate.ModuleRuns
import Mathlib.Data.Set.Insert
import Mathlib.Data.Set.Basic

/-! # What the filter protects

The purpose of the module's two halves together: the command enters keys into a set, and the
filter stops commands on the keys of that set.  `guardLts` is that purpose by itself, a set
of keys that only grows; `protectedKeys` is what the globals say of it, and `guard_simulation`
says that every run of the module is a run of the guard.

The filter has no table of commands: it compares the argument at position `1` and nothing else.
So a migrating key is protected in that position (`filter_stops_migrating_key`), a command that
has it in another position passes (`del_second_key_escapes`), and a command that has it
in position `1` as something other than a key is cut (`publish_channel_cut`). -/

namespace RedisMigrate

/-! ### The guard -/

/-- A set of protected keys, to which keys are only added. -/
def guardLts : Lts (Set Bytes) Bytes where
  init P := P = ∅
  step P k := some (insert k P)

/-- A protected key stays protected. -/
theorem guard_mono {P P' : Set Bytes} (h : guardLts.Steps P P') : P ⊆ P' := by
  apply h.monotone (L := guardLts) id
  intro P k P' hs
  obtain rfl := Option.some.inj hs
  exact Set.subset_insert k P

/-- The keys that the lookups of the filter find. -/
def Module.protectedKeys (s : Module) : Set Bytes := {k | s.Protects k}

theorem mem_protectedKeys {s : Module} {k : Bytes} :
    k ∈ s.protectedKeys ↔ ∃ m, s.migrating.lookup k = some m ∧ 0 < m.hostLen :=
  findMigrating_hostLen_pos

theorem protectedKeys_congr {s s' : Module} (h : s'.migrating = s.migrating) :
    s'.protectedKeys = s.protectedKeys := by
  ext k
  rw [mem_protectedKeys, mem_protectedKeys, h]

/-- An accepted request protects its key when its host is not empty. -/
theorem protectedKeys_insert {ctx : RedisModuleCtx} {argv : List RedisModuleString}
    {s s' : Module} {host key : RedisModuleString} {port slot : Double}
    (ha : Accepts ctx argv s host key port slot)
    (h : s'.migrating = s.migrating.insert key.bytes (newRecord ctx s host key port slot)) :
    s'.protectedKeys =
      if host.bytes = [] then s.protectedKeys else insert key.bytes s.protectedKeys := by
  have hkey : key.bytes ∉ s.protectedKeys := by
    have := ha.free
    simp [Module.protectedKeys, Module.Protects, this]
  ext k
  rw [mem_protectedKeys, h]
  by_cases hk : k = key.bytes
  · subst hk
    simp only [Finmap.lookup_insert, Option.some.injEq, exists_eq_left', newRecord_hostLen]
    split_ifs with hhost
    · simp [hhost, hkey]
    · simp [List.length_pos_iff, hhost]
  · rw [Finmap.lookup_insert_of_ne _ hk, ← mem_protectedKeys]
    split_ifs
    · rfl
    · simp [Set.mem_insert_iff, hk]

/-- One event leaves the protected keys or adds one. -/
theorem protectedKeys_step {s s' : Module} {e : Event} (h : moduleLts.step s e = some s') :
    s'.protectedKeys = s.protectedKeys ∨
      ∃ k, s'.protectedKeys = insert k s.protectedKeys ∧ s'.isMigrating = true := by
  rcases step_cases h with ⟨hm, -⟩ | ⟨ctx, argv, host, key, port, slot, -, ha, hflag, hm⟩
  · exact .inl (protectedKeys_congr hm)
  · have hins := protectedKeys_insert ha hm
    split_ifs at hins
    · exact .inl hins
    · exact .inr ⟨key.bytes, hins, hflag⟩

/-- **Every run of the module is a run of the guard.** -/
theorem guard_simulation :
    Lts.Simulation moduleLts guardLts (fun s P => P = s.protectedKeys) where
  init s := by
    rintro rfl
    refine ⟨∅, rfl, ?_⟩
    ext k
    simp [mem_protectedKeys, Module.initial]
  step s e s' P _ hP h := by
    subst hP
    rcases protectedKeys_step h with hk | ⟨k, hk, -⟩
    · exact ⟨_, .refl, hk.symm⟩
    · exact ⟨_, .single ⟨k, rfl⟩, hk.symm⟩

/-- No run takes a key out of protection. -/
theorem protectedKeys_mono {s s' : Module} (hr : moduleLts.Reachable s)
    (h : moduleLts.Steps s s') : s.protectedKeys ⊆ s'.protectedKeys := by
  obtain ⟨P, hP, rfl⟩ := guard_simulation.steps hr h rfl
  exact guard_mono hP

theorem isMigrating_mono {s s' : Module} (h : moduleLts.Steps s s') (hm : s.isMigrating = true) :
    s'.isMigrating = true := by
  refine h.preserves (I := fun s => s.isMigrating = true) ?_ hm
  intro s e s' hs hstep
  rcases step_cases hstep with ⟨-, hf⟩ | ⟨_, _, _, _, _, _, -, -, hf, -⟩
  · exact hf.trans hs
  · exact hf

/-! ### The keys of a command -/

/-- A range of key positions as the server's command table gives it; a negative `last` counts
from the end of the argument list, and `first = 0` is the empty range. -/
structure KeyRange where
  first : ℕ
  last : ℤ
  step : ℕ

def KeyRange.positions (r : KeyRange) (argc : ℕ) : List ℕ :=
  let last : ℤ := if r.last < 0 then argc + r.last else r.last
  (List.range argc).filter fun p =>
    decide (0 < r.first ∧ r.first ≤ p ∧ (p : ℤ) ≤ last ∧ (p - r.first) % r.step = 0)

/-- The rows of the table for some commands: the keys, and those of them that are written. -/
def commandTable : List (Bytes × KeyRange × KeyRange) :=
  [(ascii "set", ⟨1, 1, 1⟩, ⟨1, 1, 1⟩), (ascii "del", ⟨1, -1, 1⟩, ⟨1, -1, 1⟩),
    (ascii "mset", ⟨1, -1, 2⟩, ⟨1, -1, 2⟩), (ascii "bitop", ⟨2, -1, 1⟩, ⟨2, 2, 1⟩),
    (ascii "publish", ⟨0, 0, 0⟩, ⟨0, 0, 0⟩)]

def commandRow (argv : List Bytes) : KeyRange × KeyRange :=
  (argv.head?.bind fun name => commandTable.lookup name).getD (⟨0, 0, 0⟩, ⟨0, 0, 0⟩)

def keyPositions (argv : List Bytes) : List ℕ := (commandRow argv).1.positions argv.length

def writtenPositions (argv : List Bytes) : List ℕ := (commandRow argv).2.positions argv.length

/-! ### Writes to a migrating key -/

/-- With the written positions `written` of every command: no command that writes a migrating key
is handed on unchanged. -/
def NoWriteEscapes (written : List Bytes → List ℕ) : Prop :=
  ∀ (s₀ : Module) (ctx : RedisModuleCtx) (argv₀ : List RedisModuleString)
    (host key : RedisModuleString) (s : Module) (argv : List RedisModuleString) (p : ℕ)
    (arg : RedisModuleString), moduleLts.Reachable s₀ → AcceptedRequest s₀ ctx argv₀ host key →
    moduleLts.Steps (rmMigrateCommand ctx argv₀ s₀).mod s →
    argv.head?.map RedisModuleString.bytes ≠ some (ascii "rm.migrate") →
    p ∈ written (argv.map RedisModuleString.bytes) → argv[p]? = some arg →
    arg.bytes = key.bytes → ∃ r, rmMigrateFilter s argv = some r ∧ r.args ≠ argv

/-- **A command with a migrating key at position `1` is cut to its name**, in every state after the
request for that key, with a host that is not empty, was accepted. -/
theorem filter_stops_migrating_key {s₀ s : Module} {ctx : RedisModuleCtx}
    {argv₀ argv : List RedisModuleString} {host key arg : RedisModuleString}
    (hr : moduleLts.Reachable s₀) (h : AcceptedRequest s₀ ctx argv₀ host key)
    (hhost : host.bytes ≠ [])
    (hs : moduleLts.Steps (rmMigrateCommand ctx argv₀ s₀).mod s)
    (harg : argv[1]? = some arg) (hkey : arg.bytes = key.bytes) :
    ∃ r, rmMigrateFilter s argv = some r ∧ r.args ≠ argv ∧ r.args = argv.take 1 := by
  obtain ⟨port, slot, ha⟩ := h.accepts
  obtain ⟨-, hm, hflag⟩ := rmMigrateCommand_of_accepts ha
  have hin : key.bytes ∈ (rmMigrateCommand ctx argv₀ s₀).mod.protectedKeys := by
    rw [protectedKeys_insert ha hm, if_neg hhost]
    exact Set.mem_insert _ _
  have hr' : moduleLts.Reachable (rmMigrateCommand ctx argv₀ s₀).mod :=
    hr.tail (a := .command ctx argv₀) rfl
  have hblocks : s.Blocks argv :=
    ⟨isMigrating_mono hs hflag, arg, harg, hkey ▸ protectedKeys_mono hr' hs hin⟩
  obtain ⟨r, hrun, hcut, -⟩ := rmMigrateFilter_eq s argv
  refine ⟨r, hrun, ?_, hcut hblocks⟩
  intro heq
  have hlen := congrArg List.length (heq.symm.trans (hcut hblocks))
  have hlt := (List.getElem?_eq_some_iff.mp harg).1
  rw [List.length_take] at hlen
  omega

/-- `SET a v` while `a` is migrating. -/
theorem set_stopped :
    ∃ r, rmMigrateFilter (afterOne [104] [97])
        [⟨5, ascii "set"⟩, ⟨6, [97]⟩, ⟨7, [118]⟩] = some r ∧
      r.args ≠ [⟨5, ascii "set"⟩, ⟨6, [97]⟩, ⟨7, [118]⟩] ∧
      r.args = [⟨5, ascii "set"⟩, ⟨6, [97]⟩, ⟨7, [118]⟩].take 1 :=
  filter_stops_migrating_key (.of_init rfl) (afterOne_accepted [104] [97]) (by decide) .refl rfl rfl

/-- `DEL b a` while `a` is migrating. -/
theorem del_second_key_escapes : ¬ NoWriteEscapes writtenPositions := by
  intro h
  obtain ⟨r, hr, hne⟩ := h .initial plainCtx (plainRequest [104] [97]) _ _ (afterOne [104] [97])
    [⟨5, ascii "del"⟩, ⟨6, [98]⟩, ⟨7, [97]⟩] 2 ⟨7, [97]⟩ (.of_init rfl)
    (afterOne_accepted [104] [97]) .refl (by decide) (by decide) rfl rfl
  obtain ⟨r', hr', -, hpass⟩ := rmMigrateFilter_eq (afterOne [104] [97])
    [⟨5, ascii "del"⟩, ⟨6, [98]⟩, ⟨7, [97]⟩]
  obtain rfl := Option.some.inj (hr.symm.trans hr')
  refine hne (congrArg FilterResult.args (hpass ?_))
  rintro ⟨-, arg, harg, hkey⟩
  obtain rfl := Option.some.inj harg
  revert hkey
  decide

/-! ### Commands on other keys -/

/-- With the key positions `keys` of every command: a command without a migrating key is handed on
unchanged. -/
def PassesOthers (keys : List Bytes → List ℕ) : Prop :=
  ∀ (s : Module) (argv : List RedisModuleString), moduleLts.Reachable s →
    (∀ p ∈ keys (argv.map RedisModuleString.bytes), ∀ arg, argv[p]? = some arg →
      arg.bytes ∉ s.migrating) →
    ∃ r, rmMigrateFilter s argv = some r ∧ r.args = argv

/-- **A command whose argument at position `1` is not a migrating key is handed on unchanged**,
and nothing is logged. -/
theorem filter_passes_other_commands (s : Module) (argv : List RedisModuleString)
    (h : ∀ arg, argv[1]? = some arg → arg.bytes ∉ s.migrating) :
    rmMigrateFilter s argv = some ⟨argv, []⟩ := by
  obtain ⟨r, hr, -, hpass⟩ := rmMigrateFilter_eq s argv
  rw [hr, hpass]
  rintro ⟨-, arg, harg, hkey⟩
  obtain ⟨m, hm, -⟩ := findMigrating_hostLen_pos.mp hkey
  exact h arg harg (Finmap.mem_of_lookup_eq_some hm)

/-- `DEL b a` while `a` is migrating: the argument at position `1` is `b`. -/
theorem del_first_other_passes :
    rmMigrateFilter (afterOne [104] [97]) [⟨5, ascii "del"⟩, ⟨6, [98]⟩, ⟨7, [97]⟩] =
      some ⟨[⟨5, ascii "del"⟩, ⟨6, [98]⟩, ⟨7, [97]⟩], []⟩ :=
  filter_passes_other_commands _ _ (by
    intro arg harg
    obtain rfl := Option.some.inj harg
    decide)

/-- `PUBLISH a m` has no keys, and is cut while a key `a` is migrating. -/
theorem publish_channel_cut : ¬ PassesOthers keyPositions := by
  intro h
  obtain ⟨r, hr, heq⟩ := h (afterOne [104] [97]) [⟨5, ascii "publish"⟩, ⟨6, [97]⟩, ⟨7, [109]⟩]
    (afterOne_reachable _ _) (by decide)
  obtain ⟨r', hr', hcut, -⟩ := rmMigrateFilter_eq (afterOne [104] [97])
    [⟨5, ascii "publish"⟩, ⟨6, [97]⟩, ⟨7, [109]⟩]
  obtain rfl := Option.some.inj (hr.symm.trans hr')
  have hargs := heq.symm.trans (hcut ⟨rfl, ⟨6, [97]⟩, rfl, by decide⟩)
  revert hargs
  decide

end RedisMigrate
