import RedisMigrate.CommandActions
import RedisMigrate.RefTable

/-! # How long the stored strings live

The records of the registry and the log object hold pointers into strings that belong to Redis.
`memoryLts` runs the module together with a table of these strings: the arguments of a command
(and of a filtered command) are in the table while it runs and are released when it returns, and
what the command makes or retains in between stays.  Its runs are runs of the module
(`memory_simulation`).

`strings_denote_iff` says when the pointers still denote what they were taken from: the log
file always does, and the records exactly as long as there are none. -/

namespace RedisMigrate

abbrev Strings := RefTable ℕ Bytes

def Event.argv : Event → List RedisModuleString
  | .command _ argv => argv
  | .filter argv => argv

/-- What an event does with strings; the filter takes and makes none. -/
def Event.actions (s : Module) : Event → List CommandAction
  | .command ctx argv => rmMigrateCommandActions ctx argv s
  | .filter _ => []

/-- The effect of an action on the table. -/
def CommandAction.perform (t : Strings) : CommandAction → Option Strings
  | .createString str => t.alloc str.id str.bytes
  | .retainString str => t.retain str.id
  | .keyAtPos _ => some t
  | .find _ => some t
  | .store _ => some t

def performAll (t : Strings) : List CommandAction → Option Strings
  | [] => some t
  | a :: as => (a.perform t).bind fun t' => performAll t' as

/-- The globals of the module and the strings of Redis. -/
structure Memory where
  mod : Module
  strings : Strings

def Memory.initial : Memory := ⟨.initial, .empty⟩

/-- A string as the table holds it. -/
def RedisModuleString.entry (str : RedisModuleString) : ℕ × Bytes := (str.id, str.bytes)

/-- One event between the arrival of its arguments and their release. -/
def memoryLts : Lts Memory Event where
  init m := m = .initial
  step m e :=
    (moduleLts.step m.mod e).bind fun mod =>
      (m.strings.allocAll (e.argv.map RedisModuleString.entry)).bind fun t =>
        (performAll t (e.actions m.mod)).bind fun t =>
          (t.releaseAll ((e.argv.map RedisModuleString.entry).map Prod.fst)).map fun t => ⟨mod, t⟩

/-! ### The strings of one event -/

/-- Without a call of `RetainString`, the actions only add the strings that they make. -/
theorem performAll_spec {t t' : Strings} {as : List CommandAction}
    (hretain : ∀ str, .retainString str ∉ as) (h : performAll t as = some t') :
    t.Extends t' ∧ ∀ str, .createString str ∈ as →
      str.id ∉ t.issued ∧ str.id ∈ t'.issued ∧ t'.value? str.id = some str.bytes := by
  induction as generalizing t with
  | nil =>
      obtain rfl := Option.some.inj h
      exact ⟨.refl t, by simp⟩
  | cons a as ih =>
      obtain ⟨t₁, h1, h2⟩ := Option.bind_eq_some_iff.mp h
      obtain ⟨hext, hmade⟩ := ih (fun str hs => hretain str (List.mem_cons_of_mem _ hs)) h2
      have hkeep : t₁ = t → t.Extends t' ∧ ∀ str, .createString str ∈ as →
          str.id ∉ t.issued ∧ str.id ∈ t'.issued ∧ t'.value? str.id = some str.bytes := by
        rintro rfl
        exact ⟨hext, hmade⟩
      cases a with
      | retainString str => exact absurd List.mem_cons_self (hretain str)
      | keyAtPos pos => simpa using hkeep (Option.some.inj h1).symm
      | find pos => simpa using hkeep (Option.some.inj h1).symm
      | store pos => simpa using hkeep (Option.some.inj h1).symm
      | createString str =>
          have hext₁ := RefTable.alloc_extends h1
          obtain ⟨hi, hcell⟩ := RefTable.alloc_cell h1
          refine ⟨hext₁.trans hext, ?_⟩
          intro str' hstr'
          rcases List.mem_cons.mp hstr' with heq | hmem
          · obtain rfl := CommandAction.createString.inj heq
            refine ⟨(RefTable.alloc_eq_some h1).1, (hext _ hi).1, hext.value ?_⟩
            rw [RefTable.value?, hcell, Option.map_some]
          · obtain ⟨hfresh, hi', hvalue⟩ := hmade str' hmem
            exact ⟨fun hn => hfresh (hext₁ _ hn).1, hi', hvalue⟩

theorem retainString_notMem (s : Module) (e : Event) (str : RedisModuleString) :
    .retainString str ∉ e.actions s := by
  intro h
  cases e with
  | filter argv => cases h
  | command ctx argv =>
      rcases mem_rmMigrateCommandActions h with ⟨str, h⟩ | h | h
      · cases h
      · cases h
      · cases h

/-- An event runs the module, keeps the strings that there were, drops its arguments, and keeps
what it made. -/
structure StringStep (m m' : Memory) (e : Event) : Prop where
  mod : moduleLts.step m.mod e = some m'.mod
  keeps : m.strings.Extends m'.strings
  dropped : ∀ arg ∈ e.argv, m'.strings.Dropped arg.id
  made : ∀ str, .createString str ∈ e.actions m.mod → m'.strings.value? str.id = some str.bytes

theorem stringStep {m m' : Memory} {e : Event} (h : memoryLts.step m e = some m') :
    StringStep m m' e := by
  obtain ⟨mod, hmod, h⟩ := Option.bind_eq_some_iff.mp h
  obtain ⟨t₁, h1, h⟩ := Option.bind_eq_some_iff.mp h
  obtain ⟨t₂, h2, h⟩ := Option.bind_eq_some_iff.mp h
  obtain ⟨t₃, h3, rfl⟩ := Option.map_eq_some_iff.mp h
  obtain ⟨hext, hmade⟩ := performAll_spec (retainString_notMem m.mod e) h2
  obtain ⟨t', h', hkeeps, hdropped, hrest⟩ := RefTable.releaseAll_of_allocAll h1 hext
  obtain rfl : t' = t₃ := Option.some.inj (h'.symm.trans h3)
  refine ⟨hmod, hkeeps, ?_, ?_⟩
  · intro arg harg
    exact hdropped arg.entry (List.mem_map_of_mem harg)
  · intro str hstr
    obtain ⟨hfresh, hi, hvalue⟩ := hmade str hstr
    rw [RefTable.value?, (hrest str.id hi hfresh).2]
    exact hvalue

/-- Every run of the module with its strings is a run of the module. -/
theorem memory_simulation : Lts.Simulation memoryLts moduleLts (fun m s => s = m.mod) where
  init := by
    rintro m rfl
    exact ⟨_, rfl, rfl⟩
  step := by
    rintro m e m' s _ rfl hstep
    exact ⟨m'.mod, .single ⟨e, (stringStep hstep).mod⟩, rfl⟩

/-! ### What the pointers denote -/

/-- The string behind the pointer is in the table, with the bytes that it had when the pointer
was taken. -/
def Memory.Denotes (m : Memory) (p : CharPtr) : Prop := m.strings.value? p.id = some p.bytes

/-- The host and the key of every record denote strings of the recorded lengths. -/
def Memory.RecordsDenote (m : Memory) : Prop :=
  ∀ k r, m.mod.migrating.lookup k = some r → ∃ host key, r.host = some host ∧ r.key = some key ∧
    m.Denotes host ∧ host.bytes.length = r.hostLen ∧
    m.Denotes key ∧ key.bytes = k ∧ key.bytes.length = r.keyLen

/-- The name of the log file denotes the string that was obtained for it. -/
def Memory.LogDenotes (m : Memory) : Prop :=
  ∀ p, m.mod.mLog.logfile = some p → m.Denotes p

/-- The host and the key of every record are strings that have been dropped. -/
def Memory.RecordsDropped (m : Memory) : Prop :=
  ∀ k r, m.mod.migrating.lookup k = some r → ∃ host key, r.host = some host ∧ r.key = some key ∧
    m.strings.Dropped host.id ∧ m.strings.Dropped key.id

/-- `initLogObj` takes the name of the log file from a string that it makes. -/
theorem initLogObj_made {ctx : RedisModuleCtx} {mLog : LogObj} {p : CharPtr}
    (h : (initLogObj ctx mLog).1.logfile = some p) :
    mLog.logfile = some p ∨
      ∃ str, .createString str ∈ initLogObjActions ctx mLog ∧ p = ⟨str.id, str.bytes⟩ := by
  unfold initLogObj at h
  unfold initLogObjActions
  split_ifs at h ⊢ with hlog
  · exact .inl h
  · cases hcall : ctx.call "config" ["get", "logfile"] with
    | nil =>
        rw [hcall] at h
        exact .inl h
    | cons item0 tail =>
        cases tail with
        | nil =>
            rw [hcall] at h
            exact .inl h
        | cons item1 tail =>
            cases tail with
            | cons item2 tail =>
                rw [hcall] at h
                exact .inl h
            | nil =>
                rw [hcall] at h
                obtain rfl := Option.some.inj h
                exact .inr ⟨item1, List.mem_singleton_self _, rfl⟩

/-- The log file after an event is the one before, or a string that the event made. -/
theorem logfile_made {s s' : Module} {e : Event} (hstep : moduleLts.step s e = some s')
    {p : CharPtr} (h : s'.mLog.logfile = some p) :
    s.mLog.logfile = some p ∨ ∃ str, .createString str ∈ e.actions s ∧ p = ⟨str.id, str.bytes⟩ := by
  cases e with
  | filter argv =>
      obtain ⟨r, -, rfl⟩ := Option.map_eq_some_iff.mp hstep
      exact .inl h
  | command ctx argv =>
      obtain rfl := Option.some.inj hstep
      have he := rmMigrateCommand_exit ctx argv s
      unfold Event.actions
      dsimp only
      generalize rmMigrateCommandActions ctx argv s = as at he ⊢
      generalize (rmMigrateCommand ctx argv s).mod = s' at he h
      cases he with
      | early _ => exact .inl h
      | taken _ _ =>
          apply (initLogObj_made h).imp_right
          rintro ⟨str, hstr, rfl⟩
          exact ⟨str, List.mem_append_left _ hstr, rfl⟩
      | stored _ =>
          apply (initLogObj_made h).imp_right
          rintro ⟨str, hstr, rfl⟩
          exact ⟨str, List.mem_append_left _ hstr, rfl⟩

theorem LogDenotes.step {m m' : Memory} {e : Event} (h : m.LogDenotes)
    (hstep : StringStep m m' e) : m'.LogDenotes := by
  intro p hp
  rcases logfile_made hstep.mod hp with hp | ⟨str, hstr, rfl⟩
  · exact hstep.keeps.value (h p hp)
  · exact hstep.made str hstr

/-- The record that a request adds points to its arguments, which are dropped when it returns. -/
theorem RecordsDropped.step {m m' : Memory} {e : Event} (h : m.RecordsDropped)
    (hstep : StringStep m m' e) : m'.RecordsDropped := by
  have hold : ∀ k r, m.mod.migrating.lookup k = some r → ∃ host key, r.host = some host ∧
      r.key = some key ∧ m'.strings.Dropped host.id ∧ m'.strings.Dropped key.id := by
    intro k r hr
    obtain ⟨host, key, hhost, hkey, hh, hk⟩ := h k r hr
    exact ⟨host, key, hhost, hkey, hstep.keeps.dropped hh, hstep.keeps.dropped hk⟩
  intro k r hr
  rcases step_cases hstep.mod with ⟨hm, -⟩ | ⟨ctx, argv, host, key, port, slot, rfl, ha, -, hm⟩
  · rw [hm] at hr
    exact hold k r hr
  · rw [hm] at hr
    by_cases hk : k = key.bytes
    · subst hk
      rw [Finmap.lookup_insert] at hr
      obtain rfl := Option.some.inj hr
      obtain ⟨name, portArg, slotArg, rfl, -⟩ := ha.argv
      refine ⟨(stringPtrLen host).1, (stringPtrLen key).1, rfl, rfl, ?_, ?_⟩
      · exact hstep.dropped host (by simp [Event.argv])
      · exact hstep.dropped key (by simp [Event.argv])
    · rw [Finmap.lookup_insert_of_ne _ hk] at hr
      exact hold k r hr

theorem logDenotes {m : Memory} (h : memoryLts.Reachable m) : m.LogDenotes := by
  refine h.induct (I := Memory.LogDenotes) ?_
    (fun _ _ _ _ hI hs => LogDenotes.step hI (stringStep hs))
  rintro m rfl p hp
  cases hp

theorem recordsDropped {m : Memory} (h : memoryLts.Reachable m) : m.RecordsDropped := by
  refine h.induct (I := Memory.RecordsDropped) ?_
    (fun _ _ _ _ hI hs => RecordsDropped.step hI (stringStep hs))
  rintro m rfl k r hr
  cases hr

/-- The records denote what was sent exactly when there are none. -/
theorem recordsDenote_iff_empty {m : Memory} (h : memoryLts.Reachable m) :
    m.RecordsDenote ↔ m.mod.migrating = ∅ := by
  constructor
  · intro hd
    apply Finmap.ext_lookup
    intro k
    rw [Finmap.lookup_empty]
    cases hr : m.mod.migrating.lookup k with
    | none => rfl
    | some r =>
        obtain ⟨host, key, hhost, -, hvalue, -⟩ := hd k r hr
        obtain ⟨host', key', hhost', -, hdropped, -⟩ := recordsDropped h k r hr
        obtain rfl := Option.some.inj (hhost.symm.trans hhost')
        rw [Memory.Denotes, hdropped.value] at hvalue
        cases hvalue
  · intro hempty k r hr
    rw [hempty, Finmap.lookup_empty] at hr
    cases hr

/-! ### The requests of a run -/

/-- The event is an executed request with five arguments whose port and slot parse. -/
def Event.Parses : Event → Prop
  | .command ctx argv => RedisMigrate.Parses ctx argv
  | .filter _ => False

/-- The first request that parses fills the registry, and nothing empties it. -/
theorem migrating_step {s s' : Module} {e : Event} (hstep : moduleLts.step s e = some s') :
    s'.migrating ≠ ∅ ↔ s.migrating ≠ ∅ ∨ e.Parses := by
  rcases step_cases hstep with ⟨hm, -⟩ | ⟨ctx, argv, host, key, port, slot, rfl, ha, -, hm⟩
  · rw [hm]
    constructor
    · exact .inl
    · rintro (h | hp)
      · exact h
      · intro hempty
        cases e with
        | filter argv => exact hp
        | command ctx argv =>
            obtain rfl := Option.some.inj hstep
            obtain ⟨hx, name, host, portArg, slotArg, key, rfl, hport, hslot⟩ := hp
            obtain ⟨port, hport⟩ := Option.isSome_iff_exists.mp hport
            obtain ⟨slot, hslot⟩ := Option.isSome_iff_exists.mp hslot
            have ha : Accepts ctx [name, host, portArg, slotArg, key] s host key port slot := by
              refine ⟨⟨name, portArg, slotArg, rfl, hport, hslot⟩, hx, ?_, ?_⟩
              · rw [hempty]
                decide
              · rw [hempty]
                rfl
            have hm' := (rmMigrateCommand_of_accepts ha).2.1
            rw [hm, hempty] at hm'
            exact insert_ne_empty _ _ _ hm'.symm
  · rw [hm]
    exact iff_of_true (insert_ne_empty _ _ _) (.inr ha.parses)

theorem migrating_run {es : List Event} {m : Memory}
    (h : memoryLts.run .initial es = some m) : m.mod.migrating ≠ ∅ ↔ ∃ e ∈ es, e.Parses := by
  rw [Lts.run_latch (Q := fun m => m.mod.migrating ≠ ∅) (P := Event.Parses)
    (fun m e m' hs => migrating_step (stringStep hs).mod) h]
  simp [Memory.initial, Module.initial]

/-- **When the stored strings denote what the client sent**: as long as no executed request with
five arguments had a port and a slot that parse, so that nothing is stored. -/
theorem strings_denote_iff {es : List Event} {m : Memory}
    (h : memoryLts.run .initial es = some m) :
    m.RecordsDenote ∧ m.LogDenotes ↔ ∀ e ∈ es, ¬ e.Parses := by
  have hr : memoryLts.Reachable m := ⟨_, rfl, Lts.run_steps h⟩
  rw [and_iff_left (logDenotes hr), recordsDenote_iff_empty hr]
  have hrun := not_congr (migrating_run h)
  rw [not_not] at hrun
  rw [hrun]
  simp

/-- The strings of `rm.migrate h 1 1 a` are new in the table. -/
theorem one_request_runs :
    (memoryLts.run .initial [.command plainCtx (plainRequest [104] [97])]).isSome := by
  decide

/-- After `rm.migrate h 1 1 a` alone. -/
theorem strings_denote_one_request :
    ((memoryLts.run .initial [.command plainCtx (plainRequest [104] [97])]).get
        one_request_runs).RecordsDenote ∧
      ((memoryLts.run .initial [.command plainCtx (plainRequest [104] [97])]).get
        one_request_runs).LogDenotes ↔
      ∀ e ∈ [Event.command plainCtx (plainRequest [104] [97])], ¬ e.Parses :=
  strings_denote_iff (Option.some_get one_request_runs).symm

/-- When `rm.migrate h 1 1 a` has returned, its record points to strings that are gone. -/
theorem stored_strings_dropped :
    ¬ ∀ (es : List Event) (m : Memory), memoryLts.run .initial es = some m →
      m.RecordsDenote ∧ m.LogDenotes := by
  intro h
  have hrun := (Option.some_get one_request_runs).symm
  have hempty := (recordsDenote_iff_empty ⟨_, rfl, Lts.run_steps hrun⟩).mp (h _ _ hrun).1
  refine (migrating_run hrun).mpr ?_ hempty
  exact ⟨_, List.mem_singleton_self _, rfl, _, _, _, _, _, rfl, rfl, rfl⟩

end RedisMigrate
