import RedisMigrate.Log
import Mathlib.Data.List.TakeWhile

/-! # The text of a log line

The bytes that `migrateLogRaw` appends for a line (`LogLine.text`), and the message that the
filter logs for a key (`blockedMessage`).  Three places decide where a string ends: `%s` and
the stream stop at a NUL, `vsnprintf` cuts at `LOG_MAX_LEN`, and the line ends with a newline.

* `newline_mem_record`: a newline inside a line comes from its message.
* `newline_mem_blockedMessage` and `blockedMessage_eq_iff`: which keys put one there, and which
  keys have the same message. -/

namespace RedisMigrate

def newline : UInt8 := 10

/-! ### Formatting -/

/-- The decimal digits of a number. -/
def digits (n : ℕ) : Bytes := (Nat.toDigits 10 n).map fun c => UInt8.ofNat c.toNat

/-- `%d`. -/
def decimal (i : ℤ) : Bytes := if i < 0 then 45 :: digits i.natAbs else digits i.natAbs

/-- `%0nd` for a width `n`. -/
def zeroPadded (width : ℕ) (i : ℤ) : Bytes :=
  if i < 0 then 45 :: (digits i.natAbs).leftpad (width - 1) 48
  else (digits i.natAbs).leftpad width 48

def monthNames : List String :=
  ["Jan", "Feb", "Mar", "Apr", "May", "Jun", "Jul", "Aug", "Sep", "Oct", "Nov", "Dec"]

/-- `strftime` with `"%d %b %Y %H:%M:%S."` into a buffer of `max` bytes, in the C locale; nothing
when the text and its NUL do not fit. -/
def strftime (max : ℕ) (tm : Tm) : Bytes :=
  let text := zeroPadded 2 tm.mday ++ ascii " " ++ ascii (monthNames[tm.mon]?.getD "?") ++
    ascii " " ++ decimal (tm.year + 1900) ++ ascii " " ++ zeroPadded 2 tm.hour ++ ascii ":" ++
    zeroPadded 2 tm.min ++ ascii ":" ++ zeroPadded 2 tm.sec ++ ascii "."
  if text.length < max then text else []

/-- `sizeof(buf)`. -/
def bufLen : ℕ := 64

namespace LogLine

/-- `buf`: the stamp and, as far as there is room, the milliseconds. -/
def buf (l : LogLine) : Bytes :=
  let stamp := strftime bufLen l.tm
  let off := stamp.length
  stamp ++ (zeroPadded 3 l.msec).take (bufLen - off - 1)

/-- The line up to its message starts with this. -/
def pidPrefix (pid : ℤ) : Bytes := decimal pid ++ ascii ":m "

/-- The line without `std::endl`. -/
def record (l : LogLine) : Bytes :=
  pidPrefix l.pid ++ (l.buf ++ ascii " " ++ [UInt8.ofNat l.mark.toNat] ++
    ascii " <redis-migrate> ") ++ l.msg.takeWhile (· ≠ 0)

def text (l : LogLine) : Bytes := l.record ++ [newline]

end LogLine

/-- What a call of `migrateLogRaw` appends when the file takes it; `none` when the call is
undefined. -/
def LogWrite.text : LogWrite → Option Bytes
  | skipped => some []
  | line l => some l.text
  | undefined => none

example : (migrateLogRaw ⟨1, 1688774400, 250000, 0⟩ ⟨none, 2⟩ 2 (ascii "ok")).text =
    some (ascii "1:m 08 Jul 2023 01:00:00.250 * <redis-migrate> ok\n") := by decide

/-! ### Newlines -/

theorem newline_notMem_digits (n : ℕ) : newline ∉ digits n := by
  intro h
  obtain ⟨c, hc, heq⟩ := List.mem_map.mp h
  have hdigit := Nat.isDigit_of_mem_toDigits (by omega) (by omega) hc
  simp only [Char.isDigit, ge_iff_le, Bool.and_eq_true, decide_eq_true_eq] at hdigit
  have h1 : 48 ≤ c.toNat := hdigit.1
  have h2 : c.toNat ≤ 57 := hdigit.2
  have hnat := congrArg UInt8.toNat heq
  rw [UInt8.toNat_ofNat'] at hnat
  have : newline.toNat = 10 := rfl
  omega

theorem newline_notMem_decimal (i : ℤ) : newline ∉ decimal i := by
  unfold decimal
  split_ifs
  · rw [List.mem_cons, not_or]
    exact ⟨by decide, newline_notMem_digits _⟩
  · exact newline_notMem_digits _

theorem newline_notMem_leftpad (width n : ℕ) : newline ∉ (digits n).leftpad width 48 := by
  rw [List.leftpad, List.mem_append, not_or]
  refine ⟨?_, newline_notMem_digits n⟩
  intro h
  exact absurd (List.mem_replicate.mp h).2 (by decide)

theorem newline_notMem_zeroPadded (width : ℕ) (i : ℤ) : newline ∉ zeroPadded width i := by
  unfold zeroPadded
  split_ifs
  · rw [List.mem_cons, not_or]
    exact ⟨by decide, newline_notMem_leftpad _ _⟩
  · exact newline_notMem_leftpad _ _

theorem newline_notMem_monthName (mon : ℕ) : newline ∉ ascii (monthNames[mon]?.getD "?") := by
  have hall : ∀ name ∈ monthNames, newline ∉ ascii name := by decide
  cases hmon : monthNames[mon]? with
  | none => exact by decide
  | some name => exact hall name (List.mem_of_getElem? hmon)

theorem newline_notMem_strftime (max : ℕ) (tm : Tm) : newline ∉ strftime max tm := by
  have hspace : newline ∉ ascii " " := by decide
  have hcolon : newline ∉ ascii ":" := by decide
  have hdot : newline ∉ ascii "." := by decide
  unfold strftime
  dsimp only
  split_ifs
  · simp only [List.mem_append, not_or]
    simp only [hspace, hcolon, hdot, newline_notMem_zeroPadded, newline_notMem_decimal,
      newline_notMem_monthName, not_false_eq_true, and_self]
  · exact List.not_mem_nil

theorem newline_notMem_buf (l : LogLine) : newline ∉ l.buf := by
  unfold LogLine.buf
  rw [List.mem_append, not_or]
  refine ⟨newline_notMem_strftime _ _, ?_⟩
  intro h
  exact newline_notMem_zeroPadded _ _ (List.mem_of_mem_take h)

/-- Only the message can put a newline into a line. -/
theorem newline_mem_record {l : LogLine} (hmark : UInt8.ofNat l.mark.toNat ≠ newline) :
    newline ∈ l.record ↔ newline ∈ l.msg.takeWhile (· ≠ 0) := by
  have hspace : newline ∉ ascii " " := by decide
  have hcolon : newline ∉ ascii ":m " := by decide
  have hname : newline ∉ ascii " <redis-migrate> " := by decide
  unfold LogLine.record LogLine.pidPrefix
  simp only [List.mem_append, List.mem_singleton, newline_notMem_decimal, newline_notMem_buf,
    hspace, hcolon, hname, hmark.symm, false_or, or_false]

/-! ### The message for a key -/

/-- What `%s` prints of a key. -/
def shown (key : Bytes) : Bytes := key.takeWhile (· ≠ 0)

/-- The message of the filter for a command on `key`. -/
def blockedMessage (key : Bytes) : Bytes :=
  vsnprintf logMaxLen (ascii "key:%s is migrating, do not allow change") [shown key]

def blockedSuffix : Bytes := ascii " is migrating, do not allow change"

theorem formatArgs_nil (fmt : Bytes) : formatArgs fmt [] = fmt := by
  induction fmt with
  | nil => rfl
  | cons c fmt ih => simp [formatArgs, ih]

/-- The buffer has room for `1019` bytes after `key:`. -/
theorem blockedMessage_eq (key : Bytes) :
    blockedMessage key = ascii "key:" ++ (shown key ++ blockedSuffix).take 1019 := by
  have hfmt : formatArgs (ascii "key:%s is migrating, do not allow change") [shown key] =
      ascii "key:" ++ (shown key ++ formatArgs blockedSuffix []) := rfl
  have hlen : (ascii "key:").length = 4 := by decide
  rw [blockedMessage, vsnprintf, hfmt, formatArgs_nil, List.take_append, hlen,
    List.take_of_length_le (by rw [hlen]; decide)]
  rfl

theorem zero_notMem_shown (key : Bytes) : 0 ∉ shown key := by
  intro h
  have := List.mem_takeWhile_imp h
  simp at this

/-- The stream prints the whole message. -/
theorem takeWhile_blockedMessage (key : Bytes) :
    (blockedMessage key).takeWhile (· ≠ 0) = blockedMessage key := by
  rw [List.takeWhile_eq_self_iff]
  intro c hc
  rw [decide_eq_true_iff]
  rintro rfl
  rw [blockedMessage_eq, List.mem_append] at hc
  rcases hc with hc | hc
  · revert hc
    decide
  · rcases List.mem_append.mp (List.mem_of_mem_take hc) with hc | hc
    · exact zero_notMem_shown key hc
    · revert hc
      decide

/-- A key puts a newline into its message when it has one before its first NUL and before the
message is cut. -/
theorem newline_mem_blockedMessage {key : Bytes} :
    newline ∈ blockedMessage key ↔ newline ∈ (shown key).take 1019 := by
  have hkey : newline ∉ ascii "key:" := by decide
  have hsuffix : newline ∉ blockedSuffix.take (1019 - (shown key).length) := by
    intro h
    have := List.mem_of_mem_take h
    revert this
    decide
  rw [blockedMessage_eq, List.mem_append, List.take_append, List.mem_append, or_iff_right hkey,
    or_iff_left hsuffix]

/-- Two keys that a reader of the log cannot tell apart: they agree up to the first NUL, or they
are so long there that the message is cut, and agree on what is left of it. -/
def LookAlike (key key' : Bytes) : Prop :=
  shown key = shown key' ∨
    985 ≤ (shown key).length ∧ 985 ≤ (shown key').length ∧
      (shown key ++ blockedSuffix).take 1019 = (shown key' ++ blockedSuffix).take 1019

theorem blockedSuffix_length : blockedSuffix.length = 34 := by decide

/-- A key that is shown with less than `985` bytes is shown in full. -/
theorem shown_eq_of_short {key key' : Bytes} (hshort : (shown key).length < 985)
    (h : (shown key ++ blockedSuffix).take 1019 = (shown key' ++ blockedSuffix).take 1019) :
    shown key = shown key' := by
  have hlen := congrArg List.length h
  simp only [List.length_take, List.length_append, blockedSuffix_length] at hlen
  rw [List.take_of_length_le (by rw [List.length_append, blockedSuffix_length]; omega),
    List.take_of_length_le (by rw [List.length_append, blockedSuffix_length]; omega)] at h
  exact List.append_cancel_right h

theorem blockedMessage_eq_iff {key key' : Bytes} :
    blockedMessage key = blockedMessage key' ↔ LookAlike key key' := by
  rw [blockedMessage_eq, blockedMessage_eq, List.append_cancel_left_eq]
  constructor
  · intro h
    by_cases h1 : (shown key).length < 985
    · exact .inl (shown_eq_of_short h1 h)
    · by_cases h2 : (shown key').length < 985
      · exact .inl (shown_eq_of_short h2 h.symm).symm
      · exact .inr ⟨by omega, by omega, h⟩
  · rintro (h | ⟨-, -, h⟩)
    · rw [h]
    · exact h

end RedisMigrate
