import Mathlib.Data.Nat.Basic

/-! # Streams of terminated records

A writer appends records to a stream and ends each with a separator; a reader splits the stream
at the separators.  `splitOn_stream` is the round trip, and `length_splitOn_stream_iff` says
that it needs exactly records without the separator: any other record is read as several. -/

namespace RecordStream

variable {α : Type*} (sep : α)

/-- The stream after the records were appended, each ended by the separator. -/
def stream (rs : List (List α)) : List α := (rs.map (· ++ [sep])).flatten

@[simp] theorem stream_cons (r : List α) (rs : List (List α)) :
    stream sep (r :: rs) = r ++ sep :: stream sep rs := by
  simp [stream]

variable [DecidableEq α]

/-- A stream without the separator inside its records is read back as these records. -/
theorem splitOn_stream {rs : List (List α)} (h : ∀ r ∈ rs, sep ∉ r) :
    (stream sep rs).splitOn sep = rs ++ [[]] := by
  induction rs with
  | nil => exact List.splitOn_nil sep
  | cons r rs ih =>
      have hr := h r List.mem_cons_self
      have hrs := ih (fun r' hr' => h r' (List.mem_cons_of_mem _ hr'))
      rw [stream_cons, List.splitOn_append_cons_self_of_not_mem hr, hrs, List.cons_append]

/-- A list is split into one piece more than it has separators. -/
theorem length_splitOn (l : List α) : (l.splitOn sep).length = l.count sep + 1 := by
  induction l with
  | nil => simp
  | cons a l ih =>
      rw [List.splitOn_cons_eq_if_modifyHead]
      by_cases ha : a = sep
      · subst ha
        rw [if_pos (beq_self_eq_true a), List.length_cons, ih, List.count_cons_self]
      · rw [if_neg (by simpa using ha), List.length_modifyHead, ih, List.count_cons_of_ne ha]

theorem count_stream (rs : List (List α)) :
    (stream sep rs).count sep = rs.length + rs.flatten.count sep := by
  induction rs with
  | nil => rfl
  | cons r rs ih =>
      rw [stream_cons, List.count_append, List.count_cons_self, ih, List.flatten_cons,
        List.count_append, List.length_cons]
      omega

/-- A stream is read as one piece for each record, and an empty one, exactly when no record has
the separator inside. -/
theorem length_splitOn_stream_iff {rs : List (List α)} :
    ((stream sep rs).splitOn sep).length = rs.length + 1 ↔ ∀ r ∈ rs, sep ∉ r := by
  constructor
  · intro h
    rw [length_splitOn, count_stream] at h
    have hnone : sep ∉ rs.flatten := List.count_eq_zero.mp (by omega)
    intro r hr hmem
    exact hnone (List.mem_flatten_of_mem hr hmem)
  · intro h
    rw [splitOn_stream sep h, List.length_append, List.length_singleton]

end RecordStream
