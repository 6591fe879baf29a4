import RedisMigrate.LocalTime
import RedisMigrate.ModuleApi

/-! # The log of the module

`migrateLog` formats a message into a buffer of `LOG_MAX_LEN` bytes and `migrateLogRaw` appends a
line with the process id, the local time and the level to the log file (`src/log.cpp`).
The line is kept as the values that it prints; `strftime` is taken to print the fields of its
`struct tm`, so a line's `Stamp` is read off them.

`migrateLogRaw` calls `nolocks_localtime` with daylight time always in force.
`stamp_eq_local_time_iff` says when that is right. -/

namespace RedisMigrate

open Calendar

def llDebug : ℤ := 0
def llNotice : ℤ := 2
def llWarning : ℤ := 3
def logMaxLen : ℕ := 1024

structure LogObj where
  logfile : Option CharPtr
  loglevel : ℤ
deriving DecidableEq, Repr

/-- What the process and the clock tell `migrateLogRaw`: `getpid`, `gettimeofday` and the offset
`timezone` of the zone (seconds west of UTC). -/
structure LogEnv where
  pid : ℤ
  tvSec : ℤ
  tvUsec : ℤ
  timezone : ℤ
deriving DecidableEq, Repr

/-- The values printed in one line, and the file that it is appended to. -/
structure LogLine where
  logfile : Option CharPtr
  pid : ℤ
  tm : Tm
  msec : ℤ
  mark : Char
  msg : Bytes
deriving DecidableEq, Repr

/-- What a call of `migrateLogRaw` does. -/
inductive LogWrite where
  | skipped
  | line (l : LogLine)
  | undefined
deriving DecidableEq, Repr

/-- `c[level]` for `const char *c = ".-*#"`, its terminating NUL included. -/
def levelMark (level : ℤ) : Option Char :=
  if level < 0 then none else ['.', '-', '*', '#', Char.ofNat 0][level.toNat]?

def migrateLogRaw (env : LogEnv) (mLog : LogObj) (level : ℤ) (msg : Bytes) : LogWrite :=
  if level < mLog.loglevel then .skipped
  else
    match nolocksLocaltime env.tvSec env.timezone 1, levelMark level with
    | some tm, some mark =>
        .line
          { logfile := mLog.logfile, pid := env.pid, tm, msec := env.tvUsec.tdiv 1000, mark, msg }
    | _, _ => .undefined

/-- `printf` formatting with `%s` directives (bytes `37`, `115`). -/
def formatArgs : Bytes → List Bytes → Bytes
  | 37 :: 115 :: fmt, a :: as => a ++ formatArgs fmt as
  | c :: fmt, as => c :: formatArgs fmt as
  | [], _ => []

/-- `vsnprintf` into a buffer of `size` bytes: the text, cut to leave room for the NUL. -/
def vsnprintf (size : ℕ) (fmt : Bytes) (args : List Bytes) : Bytes :=
  (formatArgs fmt args).take (size - 1)

/-- A call of `migrateLog`, with the pointers that fill the `%s` directives. -/
structure LogCall where
  mLog : LogObj
  level : ℤ
  fmt : String
  args : List CharPtr
deriving DecidableEq, Repr

def migrateLog (env : LogEnv) (call : LogCall) : LogWrite :=
  migrateLogRaw env call.mLog call.level
    (vsnprintf logMaxLen (ascii call.fmt) (call.args.map CharPtr.cString))

/-! ### The time stamp -/

/-- What `"%d %b %Y %H:%M:%S."` and `"%03d"` print; `%b` names the month with that index. -/
structure Stamp where
  day : ℤ
  month : ℕ
  year : ℤ
  hour : ℤ
  minute : ℤ
  second : ℤ
  millisecond : ℤ
deriving DecidableEq, Repr

def LogLine.stamp (l : LogLine) : Stamp where
  day := l.tm.mday
  month := l.tm.mon
  year := l.tm.year + 1900
  hour := l.tm.hour
  minute := l.tm.min
  second := l.tm.sec
  millisecond := l.msec

/-- The stamp of the civil time `c` and `usec` microseconds. -/
def civilStamp (c : CivilTime) (usec : ℤ) : Stamp where
  day := c.mday
  month := c.mon
  year := c.year
  hour := c.hour
  minute := c.min
  second := c.sec
  millisecond := usec / 1000

/-- The call writes a line whose stamp is the civil time of the instant `s`. -/
def StampedAt (w : LogWrite) (s usec : ℤ) : Prop :=
  ∃ l c, w = .line l ∧ c.seconds = s ∧ l.stamp = civilStamp c usec

theorem civilStamp_injective {c c' : CivilTime} {usec usec' : ℤ}
    (h : civilStamp c usec = civilStamp c' usec') : c = c' := by
  simp only [civilStamp, Stamp.mk.injEq] at h
  obtain ⟨h1, h2, h3, h4, h5, h6, -⟩ := h
  exact CivilTime.ext h3 (Fin.ext h2) h1 h4 h5 h6

/-- The levels that have a mark. -/
theorem levelMark_isSome {level : ℤ} (h0 : llDebug ≤ level) (h1 : level ≤ llWarning) :
    ∃ mark, levelMark level = some mark := by
  unfold llDebug at h0
  unfold llWarning at h1
  have hl : level = 0 ∨ level = 1 ∨ level = 2 ∨ level = 3 := by omega
  rcases hl with rfl | rfl | rfl | rfl <;> exact ⟨_, rfl⟩

theorem migrateLogRaw_eq_line {env : LogEnv} {mLog : LogObj} {level : ℤ} {msg : Bytes}
    {l : LogLine} (h : migrateLogRaw env mLog level msg = .line l) :
    nolocksLocaltime env.tvSec env.timezone 1 = some l.tm ∧ l.msec = env.tvUsec.tdiv 1000 := by
  unfold migrateLogRaw at h
  split_ifs at h
  split at h
  · next tm mark htm hmark =>
      obtain rfl := LogWrite.line.inj h
      exact ⟨htm, rfl⟩
  · cases h

/-- A line that is written shows the instant one hour east of standard time, whatever the zone
does, and that instant is in a year that fits an `int`. -/
theorem migrateLogRaw_stamp {env : LogEnv} {mLog : LogObj} {level : ℤ} {msg : Bytes} {l : LogLine}
    (h0 : 0 ≤ env.tvSec - env.timezone + 3600) (husec : 0 ≤ env.tvUsec)
    (h : migrateLogRaw env mLog level msg = .line l) :
    ∃ c, l.stamp = civilStamp c env.tvUsec ∧ c.seconds = env.tvSec - env.timezone + 3600 ∧
      c.year ≤ intMax := by
  obtain ⟨htm, hmsec⟩ := migrateLogRaw_eq_line h
  obtain ⟨c, hc, hs, hy⟩ := nolocksLocaltime_eq_some (by omega) htm
  refine ⟨c, ?_, by omega, hy⟩
  have hms : l.msec = env.tvUsec / 1000 := by rw [hmsec, Int.tdiv_eq_ediv_of_nonneg husec]
  simp only [LogLine.stamp, civilStamp, hc.mday, hc.mon, hc.year, hc.hour, hc.min, hc.sec, hms]

theorem migrateLogRaw_isLine {env : LogEnv} {mLog : LogObj} {level : ℤ} (msg : Bytes)
    (h0 : 0 ≤ env.tvSec - env.timezone + 3600)
    (hlt : env.tvSec - env.timezone + 3600 < 86400 * daysBeforeYear (intMax + 1))
    (hlog : mLog.loglevel ≤ level) (hlo : llDebug ≤ level) (hhi : level ≤ llWarning) :
    ∃ l, migrateLogRaw env mLog level msg = .line l := by
  obtain ⟨tm, htm, -⟩ := nolocksLocaltime_spec env.tvSec env.timezone 1 (by decide) (by omega)
    (by omega)
  obtain ⟨mark, hmark⟩ := levelMark_isSome hlo hhi
  unfold migrateLogRaw
  rw [if_neg (by omega), htm, hmark]
  exact ⟨_, rfl⟩

/-- **The stamp is the local time exactly in daylight time**: of an instant whose local year
fits an `int`, the line shows the civil time in the zone precisely when daylight saving is in
force. -/
theorem stamp_eq_local_time_iff (env : LogEnv) (mLog : LogObj) (level : ℤ) (msg : Bytes)
    (d : ℤ → ℤ) (hd : ∀ t, d t = 0 ∨ d t = 1)
    (husec : 0 ≤ env.tvUsec ∧ env.tvUsec ≤ 999999)
    (hlocal : 0 ≤ env.tvSec - env.timezone + 3600 * d env.tvSec)
    (hlog : mLog.loglevel ≤ level) (hlevel : llDebug ≤ level ∧ level ≤ llWarning) :
    StampedAt (migrateLogRaw env mLog level msg)
        (env.tvSec - env.timezone + 3600 * d env.tvSec) env.tvUsec ↔
      d env.tvSec = 1 ∧
        env.tvSec - env.timezone + 3600 * d env.tvSec < 86400 * daysBeforeYear (intMax + 1) := by
  have h0 : 0 ≤ env.tvSec - env.timezone + 3600 := by have := hd env.tvSec; omega
  constructor
  · rintro ⟨l, c, hl, hs, hst⟩
    obtain ⟨c', hst', hs', hy⟩ := migrateLogRaw_stamp h0 husec.1 hl
    obtain rfl := civilStamp_injective (hst.symm.trans hst')
    have hlt := CivilTime.year_lt_iff.mp (show c.year < intMax + 1 by omega)
    exact ⟨by omega, by omega⟩
  · rintro ⟨h1, hlt⟩
    rw [h1] at hlt ⊢
    obtain ⟨l, hl⟩ := migrateLogRaw_isLine msg h0 (by omega) hlog hlevel.1 hlevel.2
    obtain ⟨c, hst, hs, -⟩ := migrateLogRaw_stamp h0 husec.1 hl
    exact ⟨l, c, hl, by omega, hst⟩

/-- In July 2023 in a zone one hour west of UTC, with daylight time in force. -/
theorem stamp_summer :
    StampedAt (migrateLogRaw ⟨1, 1688774400, 250000, 3600⟩ ⟨none, llNotice⟩ llNotice [])
      1688774400 250000 :=
  (stamp_eq_local_time_iff ⟨1, 1688774400, 250000, 3600⟩ ⟨none, llNotice⟩ llNotice [] (fun _ => 1)
    (fun _ => .inr rfl) (by decide) (by decide) (by decide) (by decide)).mpr
    ⟨rfl, by decide⟩

/-- In January 2023 at Greenwich, daylight time is not in force and the line is an hour ahead. -/
theorem stamp_winter_ahead :
    ¬ ∀ (env : LogEnv) (mLog : LogObj) (level : ℤ) (msg : Bytes) (d : ℤ → ℤ),
      (∀ t, d t = 0 ∨ d t = 1) → 0 ≤ env.tvSec → 0 ≤ env.tvUsec ∧ env.tvUsec ≤ 999999 →
      0 ≤ env.tvSec - env.timezone + 3600 * d env.tvSec → mLog.loglevel ≤ level →
      llDebug ≤ level ∧ level ≤ llWarning →
      StampedAt (migrateLogRaw env mLog level msg)
        (env.tvSec - env.timezone + 3600 * d env.tvSec) env.tvUsec := by
  intro h
  obtain ⟨l, c, hl, hs, hst⟩ := h ⟨1, 1673784000, 0, 0⟩ ⟨none, llNotice⟩ llNotice [] (fun _ => 0)
    (fun _ => .inl rfl) (by decide) (by decide) (by decide) (by decide) (by decide)
  obtain ⟨c', hst', hs', -⟩ := migrateLogRaw_stamp (by decide) (by decide) hl
  obtain rfl := civilStamp_injective (hst.symm.trans hst')
  dsimp only at hs hs'
  omega

end RedisMigrate
