import RedisMigrate.CivilFields
import RedisMigrate.LogInit
import RedisMigrate.LogText
import RedisMigrate.RecordStream
import Mathlib.Data.List.Forall2

/-! # The log as a record of what was blocked

A `BlockedCommand` is a call of the filter, at some moment and in a reachable state with a log
file, that stops a command; the calls of a sequence need not belong to one run.  `appendedText`
is what such a sequence appends to the file when every append succeeds.  Read as a stream of lines,
the text is faithful when it has one line for each call and the messages determine the keys
(`FaithfulOn`); `faithfulOn_iff` says for which keys it is. -/

namespace RedisMigrate

open Calendar RecordStream

structure BlockedCommand where
  env : LogEnv
  mod : Module
  argv : List RedisModuleString
  key : RedisModuleString
  reachable : moduleLts.Reachable mod
  /-- The argument at position `1` is the key. -/
  argv_key : argv[1]? = some key
  migrating : mod.isMigrating = true
  protects : mod.Protects key.bytes
  logfile : mod.mLog.logfile ≠ none
  /-- The clock is adjusted for the zone without overflow, and the year that it shows fits an
  `int`. -/
  clock : InTimeT (env.tvSec - env.timezone) ∧
    env.tvSec - env.timezone + 3600 * 1 < 86400 * daysBeforeYear (intMax + 1)

/-- What a call of the filter appends to the log file; `none` when it is undefined. -/
def filterText (env : LogEnv) (s : Module) (argv : List RedisModuleString) : Option Bytes :=
  (rmMigrateFilter s argv).bind fun r =>
    (r.logged.mapM fun call => (migrateLog env call).text).map List.flatten

/-- What a sequence of blocked commands appends to the log file. -/
def appendedText : List BlockedCommand → Option Bytes
  | [] => some []
  | b :: bs => (filterText b.env b.mod b.argv).bind fun text =>
      (appendedText bs).map fun rest => text ++ rest

namespace BlockedCommand

variable (b : BlockedCommand)

theorem blocks : b.mod.Blocks b.argv := ⟨b.migrating, b.key, b.argv_key, b.protects⟩

theorem adjusts : Adjusts b.env.tvSec b.env.timezone 1 := .of_daylight_one b.clock.1 b.clock.2

/-- What `migrateLogRaw` writes at the start of the line. -/
def pidPrefix : Bytes := LogLine.pidPrefix b.env.pid

/-- The message part of the line. -/
def message : Bytes := blockedMessage b.key.bytes

/-- A blocked command is logged in a line of its own. -/
theorem migrateLog_blockedCall : ∃ l, migrateLog b.env (b.mod.blockedCall b.key) = .line l ∧
    l.logfile = b.mod.mLog.logfile ∧ l.pid = b.env.pid ∧ l.mark = '*' ∧ l.msg = b.message := by
  obtain ⟨tm, htm⟩ := nolocksLocaltime_isSome b.adjusts b.clock.2
  have hlevel : ¬ llNotice < b.mod.mLog.loglevel := not_lt_of_ge (loglevel_le b.reachable)
  have hmark : levelMark llNotice = some '*' := rfl
  refine ⟨⟨b.mod.mLog.logfile, b.env.pid, tm, b.env.tvUsec.tdiv 1000, '*', b.message⟩, ?_, rfl, rfl,
    rfl, rfl⟩
  simp only [migrateLog, Module.blockedCall, migrateLogRaw, if_neg hlevel, htm, hmark]
  rfl

/-- The line starts with the pid and ends with the message, and has a newline inside exactly when
the message has one. -/
theorem filterText_eq : ∃ r, filterText b.env b.mod b.argv = some (r ++ [newline]) ∧
    b.pidPrefix <+: r ∧ b.message <:+ r ∧ (newline ∈ r ↔ newline ∈ b.message) := by
  obtain ⟨name, key, rest, hargv, -⟩ := b.blocks.argv
  obtain rfl : key = b.key := by
    have hkey := b.argv_key
    rw [hargv] at hkey
    simpa using hkey
  have hfilter := rmMigrateFilter_of_blocks (hargv ▸ b.blocks)
  obtain ⟨l, hl, -, hpid, hmark, hmsg⟩ := b.migrateLog_blockedCall
  have hshown : l.msg.takeWhile (· ≠ 0) = b.message := by
    rw [hmsg, message, takeWhile_blockedMessage]
  refine ⟨l.record, ?_, ?_, ?_, ?_⟩
  · rw [filterText, hargv, hfilter, Option.bind_some]
    simp [hl, LogWrite.text, LogLine.text]
  · rw [LogLine.record, hpid, List.append_assoc]
    exact List.prefix_append _ _
  · rw [LogLine.record, hshown]
    exact List.suffix_append _ _
  · rw [newline_mem_record (by rw [hmark]; decide), hshown]

end BlockedCommand

/-- The text of the sequence is a stream of its lines. -/
theorem appendedText_eq : ∃ record : BlockedCommand → Bytes,
    (∀ bs, appendedText bs = some (stream newline (bs.map record))) ∧
      ∀ b : BlockedCommand, b.pidPrefix <+: record b ∧ b.message <:+ record b ∧
        (newline ∈ record b ↔ newline ∈ b.message) := by
  choose record htext hpid hmsg hnewline using BlockedCommand.filterText_eq
  refine ⟨record, ?_, fun b => ⟨hpid b, hmsg b, hnewline b⟩⟩
  intro bs
  induction bs with
  | nil => rfl
  | cons b bs ih =>
      rw [appendedText, htext b, Option.bind_some, ih, Option.map_some, List.map_cons, stream_cons,
        List.append_assoc, List.singleton_append]

/-! ### One line for each command -/

/-- Split at newlines, the text is one line for each blocked command, in order, each from the pid
to the message of its command, and nothing after the last newline. -/
def OneLineEach (bs : List BlockedCommand) : Prop :=
  ∃ text lines, appendedText bs = some text ∧ text.splitOn newline = lines ++ [[]] ∧
    List.Forall₂ (fun b l => b.pidPrefix <+: l ∧ b.message <:+ l) bs lines

theorem oneLineEach_iff {bs : List BlockedCommand} :
    OneLineEach bs ↔ ∀ b ∈ bs, newline ∉ b.message := by
  obtain ⟨record, htext, hrecord⟩ := appendedText_eq
  have hclean : (∀ b ∈ bs, newline ∉ b.message) ↔ ∀ r ∈ bs.map record, newline ∉ r := by
    rw [List.forall_mem_map]
    exact forall₂_congr fun b _ => not_congr (hrecord b).2.2.symm
  rw [hclean]
  constructor
  · rintro ⟨text, lines, hsome, hsplit, hlines⟩
    obtain rfl := Option.some.inj ((htext bs).symm.trans hsome)
    apply (length_splitOn_stream_iff newline).mp
    rw [hsplit, List.length_append, List.length_singleton, List.length_map, hlines.length_eq]
  · intro h
    refine ⟨_, bs.map record, htext bs, splitOn_stream newline h, ?_⟩
    rw [List.forall₂_map_right_iff, List.forall₂_same]
    intro b _
    exact ⟨(hrecord b).1, (hrecord b).2.1⟩

/-! ### Faithful keys -/

/-- A command on `key` that is blocked: the request for `key` was the first one. -/
def blockedBy (key : Bytes) : BlockedCommand where
  env := ⟨1, 1688774400, 0, 0⟩
  mod := afterOne [104] key
  argv := [⟨0, ascii "set"⟩, ⟨1, key⟩]
  key := ⟨1, key⟩
  reachable := afterOne_reachable [104] key
  argv_key := rfl
  migrating := rfl
  protects := by
    obtain ⟨port, slot, ha⟩ := (afterOne_accepted [104] key).accepts
    have hm := (rmMigrateCommand_of_accepts ha).2.1
    rw [Module.Protects, afterOne, hm, findMigrating_of_lookup (Finmap.lookup_insert _),
      newRecord_hostLen]
    decide
  logfile := by
    obtain ⟨port, slot, ha⟩ := (afterOne_accepted [104] key).accepts
    rw [afterOne, rmMigrateCommand_eq_of_accepts ha, initLogObj_logfile]
    exact .inr rfl
  clock := by decide

/-- For blocked commands on keys of `K`, the text has one line for each command, and the messages
determine the keys. -/
structure FaithfulOn (K : Set Bytes) : Prop where
  lines : ∀ bs : List BlockedCommand, (∀ b ∈ bs, b.key.bytes ∈ K) → OneLineEach bs
  messages : ∀ bs bs' : List BlockedCommand, (∀ b ∈ bs, b.key.bytes ∈ K) →
    (∀ b ∈ bs', b.key.bytes ∈ K) → bs.map BlockedCommand.message = bs'.map BlockedCommand.message →
    bs.map (fun b => b.key.bytes) = bs'.map (fun b => b.key.bytes)

/-- Messages that determine one key determine a sequence of keys. -/
theorem keys_eq_of_messages_eq {K : Set Bytes}
    (hK : ∀ k ∈ K, ∀ k' ∈ K, LookAlike k k' → k = k') {bs bs' : List BlockedCommand}
    (h : ∀ b ∈ bs, b.key.bytes ∈ K) (h' : ∀ b ∈ bs', b.key.bytes ∈ K)
    (heq : bs.map BlockedCommand.message = bs'.map BlockedCommand.message) :
    bs.map (fun b => b.key.bytes) = bs'.map (fun b => b.key.bytes) := by
  induction bs generalizing bs' with
  | nil =>
      obtain rfl : bs' = [] := List.map_eq_nil_iff.mp heq.symm
      rfl
  | cons b bs ih =>
      cases bs' with
      | nil => cases heq
      | cons b' bs' =>
          rw [List.map_cons, List.map_cons, List.cons.injEq] at heq
          have hkey := hK _ (h b List.mem_cons_self) _ (h' b' List.mem_cons_self)
            (blockedMessage_eq_iff.mp heq.1)
          have hrest := ih (fun c hc => h c (List.mem_cons_of_mem _ hc))
            (fun c hc => h' c (List.mem_cons_of_mem _ hc)) heq.2
          rw [List.map_cons, List.map_cons, hkey, hrest]

theorem faithfulOn_of {K : Set Bytes} (hclean : ∀ k ∈ K, newline ∉ (shown k).take 1019)
    (hdistinct : ∀ k ∈ K, ∀ k' ∈ K, LookAlike k k' → k = k') : FaithfulOn K where
  lines := by
    intro bs hbs
    rw [oneLineEach_iff]
    intro b hb hn
    exact hclean _ (hbs b hb) (newline_mem_blockedMessage.mp hn)
  messages := fun _ _ => keys_eq_of_messages_eq hdistinct

/-- **For which keys the log is faithful**: none of them is shown with a newline before the
message is cut, and no two of them look alike. -/
theorem faithfulOn_iff (K : Set Bytes) :
    FaithfulOn K ↔ (∀ k ∈ K, newline ∉ (shown k).take 1019) ∧
      ∀ k ∈ K, ∀ k' ∈ K, LookAlike k k' → k = k' := by
  constructor
  · intro h
    have hmem : ∀ k ∈ K, ∀ b ∈ [blockedBy k], b.key.bytes ∈ K := by
      intro k hk b hb
      obtain rfl := List.mem_singleton.mp hb
      exact hk
    constructor
    · intro k hk hn
      have hline := oneLineEach_iff.mp (h.lines [blockedBy k] (hmem k hk)) (blockedBy k)
        (List.mem_singleton_self _)
      exact hline (newline_mem_blockedMessage.mpr hn)
    · intro k hk k' hk' hlook
      have hmsg : [blockedBy k].map BlockedCommand.message =
          [blockedBy k'].map BlockedCommand.message :=
        congrArg (fun m => [m]) (blockedMessage_eq_iff.mpr hlook)
      exact List.head_eq_of_cons_eq (h.messages _ _ (hmem k hk) (hmem k' hk') hmsg)
  · rintro ⟨hclean, hdistinct⟩
    exact faithfulOn_of hclean hdistinct

/-- Keys of at most `984` bytes without NUL and newline. -/
theorem faithfulOn_short :
    FaithfulOn {k | (0 : UInt8) ∉ k ∧ newline ∉ k ∧ k.length ≤ 984} := by
  have hshown : ∀ k : Bytes, (0 : UInt8) ∉ k → shown k = k := by
    intro k hk
    rw [shown, List.takeWhile_eq_self_iff]
    intro c hc
    rw [decide_eq_true_iff]
    rintro rfl
    exact hk hc
  apply faithfulOn_of
  · rintro k ⟨h0, hn, -⟩ hmem
    rw [hshown k h0] at hmem
    exact hn (List.mem_of_mem_take hmem)
  · rintro k ⟨h0, -, hlen⟩ k' ⟨h0', -, -⟩ hlook
    rcases hlook with h | ⟨h, -⟩
    · rwa [hshown k h0, hshown k' h0'] at h
    · rw [hshown k h0] at h
      omega

/-- The key `a`, newline, `b` is logged in two lines. -/
theorem newline_key_splits_record : ¬ FaithfulOn Set.univ := by
  intro h
  have hline := oneLineEach_iff.mp
    (h.lines [blockedBy [97, 10, 98]] (fun _ _ => Set.mem_univ _)) _ (List.mem_singleton_self _)
  apply hline
  show newline ∈ blockedMessage [97, 10, 98]
  rw [newline_mem_blockedMessage]
  decide

end RedisMigrate
