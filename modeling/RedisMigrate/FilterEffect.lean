import RedisMigrate.ModuleRuns

/-! # The exact effect of the filter

`filterActions` lists what one turn of the filter's loop does with the argument list and the
registry, and `rmMigrateFilterActions` what a whole call does, turn after turn; carried out on the
argument list they leave what the filter leaves (`rmMigrateFilterActions_replay`).

* `rmMigrateFilter_exact`: the loop ends, every access is inside the list as it is at that
  moment, and the result is the command name alone or the list unchanged, which a second call
  keeps.
* `fast_path_agrees`: in the reachable states the flag `isMigrating` says whether the registry
  is empty, so the early return does not change the result. -/

namespace RedisMigrate

/-! ### The accesses -/

/-- What the filter does with a position of an argument list of `count` arguments. -/
inductive FilterAction where
  /-- `RedisModule_CommandFilterArgGet`. -/
  | get (pos count : ℕ)
  /-- `findMigrating` of the bytes of the argument. -/
  | find (pos count : ℕ)
  /-- `RedisModule_CommandFilterArgDelete`. -/
  | delete (pos count : ℕ)
deriving DecidableEq, Repr

/-- The position is in the list. -/
def FilterAction.InBounds : FilterAction → Prop
  | get pos count => pos < count
  | find pos count => pos < count
  | delete pos count => pos < count

/-- The actions of one turn of the loop. -/
def filterActions (s : Module) (f : FilterState) : List FilterAction :=
  let count := argsCount f.args
  if f.pos < count then
    match argGet f.args f.pos with
    | none => [.get f.pos count]
    | some arg =>
        let (argStr, argLen) := stringPtrLen arg
        if f.isMigratingKey then [.get f.pos count, .delete f.pos count]
        else if f.pos = 1 then
          if (findMigrating s.migrating (stdString argStr argLen)).hostLen > 0 then
            [.get f.pos count, .find f.pos count, .delete f.pos count]
          else [.get f.pos count, .find f.pos count]
        else [.get f.pos count]
  else []

/-- The actions of a call of the filter. -/
def rmMigrateFilterActions (s : Module) (argv : List RedisModuleString) : List FilterAction :=
  if s.isMigrating then (filterLoop s).trace (filterActions s) ⟨argv, 0, false, []⟩ else []

theorem filterActions_end {s : Module} {f : FilterState} (h : f.args.length ≤ f.pos) :
    filterActions s f = [] := by
  rw [filterActions, argsCount, if_neg (by omega)]

/-- What an action does with an argument list; it has as many arguments as the action says. -/
def FilterAction.apply (args : List RedisModuleString) :
    FilterAction → Option (List RedisModuleString)
  | get pos count => if count = argsCount args then (argGet args pos).map fun _ => args else none
  | find pos count => if count = argsCount args then (argGet args pos).map fun _ => args else none
  | delete pos count => if count = argsCount args then argDelete args pos else none

namespace FilterAction

variable {args : List RedisModuleString} {pos : ℕ}

theorem apply_get (h : pos < args.length) : apply args (get pos args.length) = some args := by
  rw [apply, argsCount, if_pos rfl, argGet, List.getElem?_eq_getElem h, Option.map_some]

theorem apply_find (h : pos < args.length) : apply args (find pos args.length) = some args := by
  rw [apply, argsCount, if_pos rfl, argGet, List.getElem?_eq_getElem h, Option.map_some]

theorem apply_delete (h : pos < args.length) :
    apply args (delete pos args.length) = some (args.eraseIdx pos) := by
  rw [apply, argsCount, if_pos rfl, argDelete, if_pos h]

end FilterAction

/-- The actions of a turn are those that the turn does. -/
theorem filterActions_turn (s : Module) (f : FilterState) :
    (filterTurn s f = .leave → filterActions s f = []) ∧
      ∀ f', filterTurn s f = .again f' →
        (filterActions s f).foldlM FilterAction.apply f.args = some f'.args := by
  -- From the turn and its actions.
  have hdone {t : FilterState} (hturn : filterTurn s f = .again t)
      (h : (filterActions s f).foldlM FilterAction.apply f.args = some t.args) :
      (filterTurn s f = .leave → filterActions s f = []) ∧
        ∀ f', filterTurn s f = .again f' →
          (filterActions s f).foldlM FilterAction.apply f.args = some f'.args := by
    rw [hturn]
    refine ⟨by simp, fun f' heq => ?_⟩
    obtain rfl := Turn.again.inj heq
    exact h
  by_cases hlt : f.pos < f.args.length
  · have hget := List.getElem?_eq_getElem hlt
    by_cases hmode : f.isMigratingKey = true
    · apply hdone (filterTurn_delete hlt hmode)
      simp [filterActions, argsCount, argGet, hlt, hmode, FilterAction.apply_get hlt,
        FilterAction.apply_delete hlt]
    rw [Bool.not_eq_true] at hmode
    by_cases hpos : f.pos = 1
    · by_cases hkey : s.Protects f.args[f.pos].bytes
      · apply hdone (filterTurn_found hget hmode hpos hkey)
        rw [Module.Protects, ← stdString_stringPtrLen] at hkey
        have hacts : filterActions s f = [.get f.pos f.args.length, .find f.pos f.args.length,
            .delete f.pos f.args.length] := by
          rw [filterActions, argsCount, argGet, if_pos hlt, hget, hmode]
          simp only [Bool.false_eq_true, if_false, if_pos hpos, gt_iff_lt, if_pos hkey]
        simp [hacts, FilterAction.apply_get hlt, FilterAction.apply_find hlt,
          FilterAction.apply_delete hlt]
      · apply hdone (filterTurn_pass hget hmode fun h => hkey h.2)
        rw [Module.Protects, ← stdString_stringPtrLen] at hkey
        have hacts : filterActions s f = [.get f.pos f.args.length, .find f.pos f.args.length] := by
          rw [filterActions, argsCount, argGet, if_pos hlt, hget, hmode]
          simp only [Bool.false_eq_true, if_false, if_pos hpos, gt_iff_lt, if_neg hkey]
        simp [hacts, FilterAction.apply_get hlt, FilterAction.apply_find hlt]
    · apply hdone (filterTurn_pass hget hmode fun h => hpos h.1)
      simp [filterActions, argsCount, argGet, hlt, hmode, hpos, FilterAction.apply_get hlt]
  · rw [filterTurn_end (by omega), filterActions_end (by omega)]
    simp

/-- **The actions of a call are what the call does**: carried out one after the other on the
argument list, they leave what the filter leaves. -/
theorem rmMigrateFilterActions_replay (s : Module) (argv : List RedisModuleString) :
    (rmMigrateFilterActions s argv).foldlM FilterAction.apply argv =
      (rmMigrateFilter s argv).map FilterResult.args := by
  unfold rmMigrateFilterActions rmMigrateFilter
  split_ifs with hm
  · have hdef : ∀ f, True → filterTurn s f ≠ .undefined := by
      intro f _ h
      rcases filterTurn_cases s f with ⟨-, h'⟩ | ⟨-, h' | ⟨mode, logged, h'⟩⟩ <;>
        rw [h'] at h <;> cases h
    obtain ⟨r, hr⟩ := Loop.run_isSome (L := filterLoop s) (I := fun _ => True)
      (fun _ _ _ _ => trivial) hdef (s := ⟨argv, 0, false, []⟩) trivial
    rw [hr]
    show ((filterLoop s).trace (filterActions s) ⟨argv, 0, false, []⟩).foldlM FilterAction.apply
      argv = some r.args
    apply Loop.trace_replay (v := FilterState.args) _ (fun f => (filterActions_turn s f).2) hr
    intro f h
    rw [(filterActions_turn s f).1 h]
    rfl
  · rfl

/-- A turn reads the argument at `pos`, looks it up when `pos` is `1` and no key was found yet,
and may delete it. -/
theorem mem_filterActions {s : Module} {f : FilterState} {a : FilterAction}
    (h : a ∈ filterActions s f) :
    f.pos < f.args.length ∧ (a = .get f.pos f.args.length ∨ a = .delete f.pos f.args.length ∨
      a = .find f.pos f.args.length ∧ f.isMigratingKey = false ∧ f.pos = 1) := by
  by_cases hlt : f.pos < f.args.length
  · refine ⟨hlt, ?_⟩
    simp only [filterActions, argsCount, argGet, if_pos hlt, List.getElem?_eq_getElem hlt] at h
    split_ifs at h with hmode hpos hkey
    · simp only [List.mem_cons, List.not_mem_nil, or_false] at h
      rcases h with h | h
      · exact .inl h
      · exact .inr (.inl h)
    · rw [Bool.not_eq_true] at hmode
      simp only [List.mem_cons, List.not_mem_nil, or_false] at h
      rcases h with h | h | h
      · exact .inl h
      · exact .inr (.inr ⟨h, hmode, hpos⟩)
      · exact .inr (.inl h)
    · rw [Bool.not_eq_true] at hmode
      simp only [List.mem_cons, List.not_mem_nil, or_false] at h
      rcases h with h | h
      · exact .inl h
      · exact .inr (.inr ⟨h, hmode, hpos⟩)
    · exact .inl (List.mem_singleton.mp h)
  · rw [filterActions_end (by omega)] at h
    cases h

theorem filterActions_inBounds {s : Module} {f : FilterState} {a : FilterAction}
    (h : a ∈ filterActions s f) : a.InBounds := by
  obtain ⟨hlt, rfl | rfl | ⟨rfl, -, -⟩⟩ := mem_filterActions h
  · exact hlt
  · exact hlt
  · exact hlt

theorem rmMigrateFilterActions_inBounds {s : Module} {argv : List RedisModuleString}
    {a : FilterAction} (h : a ∈ rmMigrateFilterActions s argv) : a.InBounds := by
  unfold rmMigrateFilterActions at h
  split_ifs at h
  · obtain ⟨f, -, ha⟩ := Loop.mem_trace.mp h
    exact filterActions_inBounds ha
  · cases h

/-! ### All or nothing -/

/-- A list without an argument at position `1` is not stopped. -/
theorem not_blocks_singleton (s : Module) (name : RedisModuleString) : ¬ s.Blocks [name] := by
  rintro ⟨-, arg, hget, -⟩
  cases hget

/-- **The exact effect of the filter**: it ends with a result for every registry and every argument
list, every access is in bounds, a stopped command keeps its name only, every other list is
unchanged, and a second call keeps what the first left. -/
theorem rmMigrateFilter_exact (s : Module) (argv : List RedisModuleString) :
    ∃ r, rmMigrateFilter s argv = some r ∧
      (∀ a ∈ rmMigrateFilterActions s argv, a.InBounds) ∧
      (s.isMigrating = true ∧ (∃ key, argv[1]? = some key ∧
          0 < (findMigrating s.migrating key.bytes).hostLen) →
        ∃ name, argv[0]? = some name ∧ r.args = [name]) ∧
      (¬ (s.isMigrating = true ∧ ∃ key, argv[1]? = some key ∧
          0 < (findMigrating s.migrating key.bytes).hostLen) → r.args = argv) ∧
      ∃ r', rmMigrateFilter s r.args = some r' ∧ r'.args = r.args := by
  have hbounds : ∀ a ∈ rmMigrateFilterActions s argv, a.InBounds :=
    fun _ => rmMigrateFilterActions_inBounds
  by_cases hb : s.Blocks argv
  · obtain ⟨name, key, rest, rfl, -⟩ := hb.argv
    refine ⟨_, rmMigrateFilter_of_blocks hb, hbounds, ?_, ?_, ?_⟩
    · intro _
      exact ⟨name, rfl, rfl⟩
    · intro hn
      exact absurd hb hn
    · exact ⟨_, rmMigrateFilter_of_not_blocks (not_blocks_singleton s name), rfl⟩
  · have hr := rmMigrateFilter_of_not_blocks hb
    refine ⟨_, hr, hbounds, ?_, ?_, ?_⟩
    · intro h
      exact absurd h hb
    · intro _
      rfl
    · exact ⟨_, hr, rfl⟩

/-! ### The early return -/

/-- `rm_migrateFilter` without its early return. -/
def rmMigrateFilterSlow (s : Module) (argv : List RedisModuleString) : Option FilterResult :=
  ((filterLoop s).run ⟨argv, 0, false, []⟩).map fun f => ⟨f.args, f.logged⟩

/-- The flag is up exactly when the registry has a key. -/
def Module.FlagAgrees (s : Module) : Prop := s.isMigrating = true ↔ s.migrating ≠ ∅

theorem insert_ne_empty (migrating : MigrateMap) (key : Bytes) (m : MigrateObj) :
    migrating.insert key m ≠ ∅ := by
  intro h
  have hmem : key ∈ migrating.insert key m := Finmap.mem_insert.mpr (.inl rfl)
  rw [h] at hmem
  exact Finmap.notMem_empty hmem

theorem FlagAgrees.step {s s' : Module} {e : Event} (h : s.FlagAgrees)
    (hstep : moduleLts.step s e = some s') : s'.FlagAgrees := by
  rcases step_cases hstep with ⟨hm, hf⟩ | ⟨ctx, argv, host, key, port, slot, -, -, hf, hm⟩
  · unfold Module.FlagAgrees
    rw [hm, hf]
    exact h
  · unfold Module.FlagAgrees
    rw [hm, hf]
    exact iff_of_true rfl (insert_ne_empty _ _ _)

theorem flagAgrees {s : Module} (h : moduleLts.Reachable s) : s.FlagAgrees := by
  refine h.induct (I := Module.FlagAgrees) ?_ (fun _ _ _ _ => FlagAgrees.step)
  rintro s rfl
  exact iff_of_false (by decide) (by simp [Module.initial])

/-- Nothing is protected by an empty registry. -/
theorem not_protects_empty {s : Module} (h : s.migrating = ∅) (key : Bytes) : ¬ s.Protects key := by
  rw [Module.Protects, findMigrating_hostLen_pos, h]
  rintro ⟨m, hm, -⟩
  rw [Finmap.lookup_empty] at hm
  cases hm

/-- **The early return does not change the filter**: in every reachable state the flag says
whether a migration is in the registry, and the loop without the early return leaves the same. -/
theorem fast_path_agrees {s : Module} (h : moduleLts.Reachable s) :
    (s.isMigrating = true ↔ s.migrating ≠ ∅) ∧
      ∀ argv, rmMigrateFilter s argv = rmMigrateFilterSlow s argv := by
  have hflag := flagAgrees h
  refine ⟨hflag, ?_⟩
  intro argv
  unfold rmMigrateFilter
  split_ifs with hm
  · rfl
  · have hempty : s.migrating = ∅ := by
      by_contra hne
      exact hm (hflag.mpr hne)
    have hpass : ∀ arg, argv[1]? = some arg → ¬ s.Protects arg.bytes :=
      fun arg _ => not_protects_empty hempty arg.bytes
    obtain ⟨r, hr, hargs, hlog⟩ := filterLoop_run_unprotected hpass
    rw [rmMigrateFilterSlow, hr, Option.map_some, hargs, hlog]

theorem fast_path_agrees_after_one :
    ((afterOne [104] [97]).isMigrating = true ↔ (afterOne [104] [97]).migrating ≠ ∅) ∧
      ∀ argv, rmMigrateFilter (afterOne [104] [97]) argv =
        rmMigrateFilterSlow (afterOne [104] [97]) argv :=
  fast_path_agrees (afterOne_reachable [104] [97])

end RedisMigrate
