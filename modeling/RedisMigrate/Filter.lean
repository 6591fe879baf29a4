import RedisMigrate.Registry

/-! # The command filter

`rm_migrateFilter` scans the argument list of every client command.  When the argument at
position `1` is a key whose lookup has a non-empty host, it deletes that argument and then, in
the same loop, every argument after it.  An argument read or deleted outside the list would be
an undefined turn.

`Blocks` is the abstract filter: which commands it stops.  `rmMigrateFilter_eq` connects the two:
the loop has a result for every argument list, and that result is the command name alone or
the list unchanged.  `rmMigrateFilter_of_blocks` also says what a stopped command leaves in
the log. -/

namespace RedisMigrate

/-- The locals of the filter at the head of its loop, the argument list that it edits in place,
and the calls of `migrateLog` so far. -/
structure FilterState where
  args : List RedisModuleString
  pos : ℕ
  isMigratingKey : Bool
  logged : List LogCall

/-- `RedisModule_CommandFilterArgsCount`. -/
def argsCount (args : List RedisModuleString) : ℕ := args.length

/-- `RedisModule_CommandFilterArgGet`. -/
def argGet (args : List RedisModuleString) (pos : ℕ) : Option RedisModuleString := args[pos]?

/-- `RedisModule_CommandFilterArgDelete`; `none` for a position that is not in the list. -/
def argDelete (args : List RedisModuleString) (pos : ℕ) : Option (List RedisModuleString) :=
  if pos < args.length then some (args.eraseIdx pos) else none

/-- One turn of the loop. -/
def filterTurn (s : Module) (f : FilterState) : Turn FilterState :=
  if f.pos < argsCount f.args then
    match argGet f.args f.pos with
    | none => .undefined
    | some arg =>
        let (argStr, argLen) := stringPtrLen arg
        if f.isMigratingKey then
          match argDelete f.args f.pos with
          | none => .undefined
          | some args => .again { f with args }
        else if f.pos = 1 ∧
            (findMigrating s.migrating (stdString argStr argLen)).hostLen > 0 then
          match argDelete f.args f.pos with
          | none => .undefined
          | some args => .again
              { f with
                args
                isMigratingKey := true
                logged := f.logged ++ [⟨s.mLog, llNotice,
                  "key:%s is migrating, do not allow change", [argStr]⟩] }
        else .again { f with pos := f.pos + 1 }
  else .leave

/-- The lookup of `key` shows a migration in progress. -/
def Module.Protects (s : Module) (key : Bytes) : Prop :=
  0 < (findMigrating s.migrating key).hostLen

instance (s : Module) (key : Bytes) : Decidable (s.Protects key) :=
  inferInstanceAs (Decidable (0 < _))

/-- The call of `migrateLog` for a command on `key` that is stopped. -/
def Module.blockedCall (s : Module) (key : RedisModuleString) : LogCall :=
  ⟨s.mLog, llNotice, "key:%s is migrating, do not allow change", [(stringPtrLen key).1]⟩

/-! ### Turns of the loop -/

section turns
variable {s : Module} {f : FilterState}

theorem filterTurn_end (h : f.args.length ≤ f.pos) : filterTurn s f = .leave := by
  rw [filterTurn, argsCount, if_neg (by omega)]

/-- While no key was found, an argument that is not a protected key at position `1` is passed. -/
theorem filterTurn_pass {a : RedisModuleString} (hget : f.args[f.pos]? = some a)
    (hmode : f.isMigratingKey = false) (hpass : ¬ (f.pos = 1 ∧ s.Protects a.bytes)) :
    filterTurn s f = .again { f with pos := f.pos + 1 } := by
  have hlt := (List.getElem?_eq_some_iff.mp hget).1
  rw [filterTurn, argsCount, if_pos hlt, argGet, hget]
  dsimp only
  rw [hmode, stdString_stringPtrLen]
  simp only [Bool.false_eq_true, if_false]
  exact if_neg hpass

/-- The protected key at position `1` is deleted and the loop goes over to deleting. -/
theorem filterTurn_found {a : RedisModuleString} (hget : f.args[f.pos]? = some a)
    (hmode : f.isMigratingKey = false) (hpos : f.pos = 1) (hkey : s.Protects a.bytes) :
    filterTurn s f = .again
      { f with
        args := f.args.eraseIdx f.pos
        isMigratingKey := true
        logged := f.logged ++ [s.blockedCall a] } := by
  have hlt := (List.getElem?_eq_some_iff.mp hget).1
  rw [filterTurn, argsCount, if_pos hlt, argGet, hget]
  dsimp only
  rw [hmode, stdString_stringPtrLen]
  simp only [Bool.false_eq_true, if_false]
  rw [if_pos ⟨hpos, hkey⟩, argDelete, if_pos hlt]
  rfl

theorem filterTurn_delete (hlt : f.pos < f.args.length) (hmode : f.isMigratingKey = true) :
    filterTurn s f = .again { f with args := f.args.eraseIdx f.pos } := by
  rw [filterTurn, argsCount, if_pos hlt, argGet, List.getElem?_eq_getElem hlt]
  dsimp only
  rw [if_pos hmode, argDelete, if_pos hlt]

/-- One turn leaves the loop at the end of the list, passes an argument, or deletes one. -/
theorem filterTurn_cases (s : Module) (f : FilterState) :
    f.args.length ≤ f.pos ∧ filterTurn s f = .leave ∨
      f.pos < f.args.length ∧ (filterTurn s f = .again { f with pos := f.pos + 1 } ∨
        ∃ mode logged, filterTurn s f =
          .again { f with args := f.args.eraseIdx f.pos, isMigratingKey := mode, logged }) := by
  rcases Nat.lt_or_ge f.pos f.args.length with hlt | hge
  · refine .inr ⟨hlt, ?_⟩
    have hget := List.getElem?_eq_getElem hlt
    by_cases hmode : f.isMigratingKey = true
    · exact .inr ⟨_, _, filterTurn_delete hlt hmode⟩
    rw [Bool.not_eq_true] at hmode
    by_cases hkey : f.pos = 1 ∧ s.Protects f.args[f.pos].bytes
    · exact .inr ⟨true, _, filterTurn_found hget hmode hkey.1 hkey.2⟩
    · exact .inl (filterTurn_pass hget hmode hkey)
  · exact .inl ⟨hge, filterTurn_end hge⟩

end turns

/-- Every turn shortens the part of the list from `pos` on, by a deletion or by a step of `pos`. -/
theorem filterTurn_decreases {s : Module} {f f' : FilterState} (h : filterTurn s f = .again f') :
    f'.args.length - f'.pos < f.args.length - f.pos := by
  rcases filterTurn_cases s f with ⟨-, h'⟩ | ⟨hlt, h' | ⟨mode, logged, h'⟩⟩
  · rw [h'] at h; cases h
  · rw [h'] at h
    obtain rfl := Turn.again.inj h
    dsimp only
    omega
  · rw [h'] at h
    obtain rfl := Turn.again.inj h
    rw [List.length_eraseIdx_of_lt hlt]
    dsimp only
    omega

def filterLoop (s : Module) : Loop FilterState where
  turn := filterTurn s
  variant f := f.args.length - f.pos
  decreases _ _ := filterTurn_decreases

@[simp] theorem filterLoop_turn (s : Module) : (filterLoop s).turn = filterTurn s := rfl

/-- What the filter leaves: the argument list and its calls of `migrateLog`. -/
structure FilterResult where
  args : List RedisModuleString
  logged : List LogCall
deriving DecidableEq, Repr

/-- `none` when a turn of the loop is undefined. -/
def rmMigrateFilter (s : Module) (argv : List RedisModuleString) : Option FilterResult :=
  if s.isMigrating then
    ((filterLoop s).run ⟨argv, 0, false, []⟩).map fun f => ⟨f.args, f.logged⟩
  else some ⟨argv, []⟩

/-! ### The commands that are stopped -/

/-- The filter stops a command whose argument at position `1` is a protected key. -/
def Module.Blocks (s : Module) (argv : List RedisModuleString) : Prop :=
  s.isMigrating = true ∧ ∃ arg, argv[1]? = some arg ∧ s.Protects arg.bytes

/-! ### The whole loop -/

/-- Once deleting, the loop keeps the arguments before `pos` and removes the rest. -/
theorem filterLoop_run_delete {s : Module} {f : FilterState} (hmode : f.isMigratingKey = true)
    (hle : f.pos ≤ f.args.length) :
    ∃ r, (filterLoop s).run f = some r ∧ r.args = f.args.take f.pos ∧ r.logged = f.logged := by
  induction f using (filterLoop s).induct with
  | hleave f h =>
      refine ⟨f, Loop.run_leave h, ?_, rfl⟩
      have hge : f.args.length ≤ f.pos := by
        by_contra hlt
        rw [filterLoop_turn, filterTurn_delete (by omega) hmode] at h
        cases h
      rw [List.take_of_length_le hge]
  | hagain f f' h ih =>
      have hlt : f.pos < f.args.length := by
        by_contra hge
        rw [filterLoop_turn, filterTurn_end (by omega)] at h
        cases h
      rw [Loop.run_again h]
      rw [filterLoop_turn, filterTurn_delete hlt hmode] at h
      obtain rfl := Turn.again.inj h
      obtain ⟨r, hr, hargs, hlog⟩ := ih hmode (by
        rw [List.length_eraseIdx_of_lt hlt]
        dsimp only
        omega)
      refine ⟨r, hr, ?_, hlog⟩
      rw [hargs, List.take_eraseIdx_eq_take_of_le _ _ _ le_rfl]
  | hundef f h =>
      rcases Nat.lt_or_ge f.pos f.args.length with hlt | hge
      · rw [filterLoop_turn, filterTurn_delete hlt hmode] at h
        cases h
      · rw [filterLoop_turn, filterTurn_end hge] at h
        cases h

/-- With no protected key at position `1` from `pos` on, the loop passes every argument. -/
theorem filterLoop_run_pass {s : Module} {f : FilterState} (hmode : f.isMigratingKey = false)
    (hpass : f.pos ≤ 1 → ∀ arg, f.args[1]? = some arg → ¬ s.Protects arg.bytes) :
    ∃ r, (filterLoop s).run f = some r ∧ r.args = f.args ∧ r.logged = f.logged := by
  have hturn : ∀ arg, f.args[f.pos]? = some arg →
      filterTurn s f = .again { f with pos := f.pos + 1 } := by
    intro arg harg
    apply filterTurn_pass harg hmode
    rintro ⟨h1, hkey⟩
    exact hpass (by omega) arg (h1 ▸ harg) hkey
  induction f using (filterLoop s).induct with
  | hleave f h => exact ⟨f, Loop.run_leave h, rfl, rfl⟩
  | hagain f f' h ih =>
      rw [Loop.run_again h]
      cases hget : f.args[f.pos]? with
      | none =>
          rw [filterLoop_turn, filterTurn_end (List.getElem?_eq_none_iff.mp hget)] at h
          cases h
      | some arg =>
          rw [filterLoop_turn, hturn arg hget] at h
          obtain rfl := Turn.again.inj h
          refine ih hmode (fun hp => hpass (by dsimp only at hp; omega)) ?_
          intro arg' harg'
          apply filterTurn_pass harg' hmode
          rintro ⟨h1, hkey⟩
          exact hpass (by dsimp only at h1; omega) arg' (h1 ▸ harg') hkey
  | hundef f h =>
      cases hget : f.args[f.pos]? with
      | none =>
          rw [filterLoop_turn, filterTurn_end (List.getElem?_eq_none_iff.mp hget)] at h
          cases h
      | some arg =>
          rw [filterLoop_turn, hturn arg hget] at h
          cases h

/-- A protected key at position `1` leaves the command name alone, and one message. -/
theorem filterLoop_run_found {s : Module} (name : RedisModuleString) {key : RedisModuleString}
    (rest : List RedisModuleString) (hkey : s.Protects key.bytes) :
    ∃ r, (filterLoop s).run ⟨name :: key :: rest, 0, false, []⟩ = some r ∧ r.args = [name] ∧
      r.logged = [s.blockedCall key] := by
  have h0 : filterTurn s ⟨name :: key :: rest, 0, false, []⟩ =
      .again ⟨name :: key :: rest, 1, false, []⟩ :=
    filterTurn_pass (a := name) rfl rfl (by simp)
  have h1 := filterTurn_found (s := s) (f := ⟨name :: key :: rest, 1, false, []⟩)
    (a := key) rfl rfl rfl hkey
  obtain ⟨r, hr, hargs, hlog⟩ := filterLoop_run_delete (s := s)
    (f := ⟨name :: rest, 1, true, [s.blockedCall key]⟩) rfl (by simp)
  refine ⟨r, ?_, by simpa using hargs, hlog⟩
  rw [Loop.run_again h0, Loop.run_again h1]
  exact hr

/-- A stopped command has a name and a key. -/
theorem Module.Blocks.argv {s : Module} {argv : List RedisModuleString} (h : s.Blocks argv) :
    ∃ name key rest, argv = name :: key :: rest ∧ s.Protects key.bytes := by
  obtain ⟨-, key, hget, hkey⟩ := h
  cases argv with
  | nil => cases hget
  | cons name tail =>
      cases tail with
      | nil => cases hget
      | cons key' rest =>
          obtain rfl : key' = key := by simpa using hget
          exact ⟨name, key', rest, rfl, hkey⟩

theorem rmMigrateFilter_of_blocks {s : Module} {name key : RedisModuleString}
    {rest : List RedisModuleString} (h : s.Blocks (name :: key :: rest)) :
    rmMigrateFilter s (name :: key :: rest) = some ⟨[name], [s.blockedCall key]⟩ := by
  obtain ⟨_, _, _, heq, hkey⟩ := h.argv
  obtain ⟨rfl, rfl, rfl⟩ : _ = _ ∧ _ = _ ∧ _ = _ := by simpa using heq
  obtain ⟨r, hr, hargs, hlog⟩ := filterLoop_run_found name rest hkey
  rw [rmMigrateFilter, if_pos h.1, hr, Option.map_some, hargs, hlog]

/-- With no protected key at position `1` the loop hands the list on, whatever the flag says. -/
theorem filterLoop_run_unprotected {s : Module} {argv : List RedisModuleString}
    (h : ∀ arg, argv[1]? = some arg → ¬ s.Protects arg.bytes) :
    ∃ r, (filterLoop s).run ⟨argv, 0, false, []⟩ = some r ∧ r.args = argv ∧ r.logged = [] :=
  filterLoop_run_pass (f := ⟨argv, 0, false, []⟩) rfl (fun _ => h)

theorem rmMigrateFilter_of_not_blocks {s : Module} {argv : List RedisModuleString}
    (h : ¬ s.Blocks argv) : rmMigrateFilter s argv = some ⟨argv, []⟩ := by
  unfold rmMigrateFilter
  split_ifs with hm
  · have hpass : ∀ arg, argv[1]? = some arg → ¬ s.Protects arg.bytes :=
      fun arg harg hkey => h ⟨hm, arg, harg, hkey⟩
    obtain ⟨r, hr, hargs, hlog⟩ := filterLoop_run_unprotected hpass
    rw [hr, Option.map_some, hargs, hlog]
  · rfl

/-- **The filter removes all arguments or none**: a stopped command keeps its name only, and
every other command is handed on unchanged. -/
theorem rmMigrateFilter_eq (s : Module) (argv : List RedisModuleString) :
    ∃ r, rmMigrateFilter s argv = some r ∧ (s.Blocks argv → r.args = argv.take 1) ∧
      (¬ s.Blocks argv → r = ⟨argv, []⟩) := by
  by_cases hb : s.Blocks argv
  · obtain ⟨name, key, rest, rfl, -⟩ := hb.argv
    exact ⟨_, rmMigrateFilter_of_blocks hb, fun _ => by simp, fun hn => absurd hb hn⟩
  · exact ⟨_, rmMigrateFilter_of_not_blocks hb, fun h => absurd h hb, fun _ => rfl⟩

end RedisMigrate
