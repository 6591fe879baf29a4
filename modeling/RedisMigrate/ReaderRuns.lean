import RedisMigrate.Lts
import RedisMigrate.ReaderRefinement

/-! # Runs of the reader

A client feeds a reader what arrives, in pieces of any size, and asks it for replies whenever it
likes.  `sessionLts` is that system; a session keeps what was fed and what was delivered.

* `Session.Explained` is the invariant of the sessions: the reader is a decoder that has read
  `fed` and has produced `delivered`.
* `replies_schedule_independent`: the order of the calls and the sizes of the pieces change
  neither the replies nor the error. -/

namespace RedisMigrate

/-! ### One call of `redisReaderGetReply` -/

section getReply

variable {strtod : Strtod} {m : ℤ} {size : ℕ}

/-- Where the loop of `redisReaderGetReply` ends, for a reader that has read `fed` and produced
`outs`. -/
inductive LoopEnd (strtod : Strtod) (m : ℤ) (size : ℕ) (fed : Bytes) (outs : List RedisReply)
    (n : ℕ) : Option (RedisReader × Status) → Prop
  | abort : (replyDecoder strtod m).Explains [] fed outs (.failed .abort) →
      LoopEnd strtod m size fed outs n none
  | failed {r : RedisReader} {st : Status} {type : ReaderErr} {str : Bytes} :
      Failed r type str →
      (replyDecoder strtod m).Explains [] fed outs (.failed (.error type str)) →
      LoopEnd strtod m size fed outs n (some (r, st))
  | waiting {r : RedisReader} {st : Status} {frames : List Frame} {pending : Bytes} :
      Tracks m size r frames pending → pending.length ≤ n →
      (replyDecoder strtod m).next frames pending = .wait →
      (replyDecoder strtod m).Explains [] fed outs (.ready frames pending) →
      LoopEnd strtod m size fed outs n (some (r, st))
  | reply {r : RedisReader} {st : Status} {v : RedisReply} {rest : Bytes} :
      Idle m size r rest (some v) → rest.length ≤ n →
      (replyDecoder strtod m).Explains [] fed (outs ++ [v]) (.ready [] rest) →
      LoopEnd strtod m size fed outs n (some (r, st))

theorem LoopEnd.mono {fed : Bytes} {outs : List RedisReply} {n n' : ℕ} (hn : n ≤ n')
    {c : Option (RedisReader × Status)} (h : LoopEnd strtod m size fed outs n c) :
    LoopEnd strtod m size fed outs n' c := by
  cases h with
  | abort he => exact .abort he
  | failed hf he => exact .failed hf he
  | waiting ht hlen hw he => exact .waiting ht (hlen.trans hn) hw he
  | reply hi hlen he => exact .reply hi (hlen.trans hn) he

theorem Tracks.stack_ne_nil {r : RedisReader} {frames : List Frame} {pending : Bytes}
    (h : Tracks m size r frames pending) : r.stack ≠ [] := by
  cases h with
  | untyped _ hat => obtain ⟨cur, hstack, -⟩ := hat.task; simp [hstack]
  | typed _ hat _ => obtain ⟨cur, hstack, -⟩ := hat.task; simp [hstack]

theorem Tracks.buffered {r : RedisReader} {frames : List Frame} {pending : Bytes}
    (h : Tracks m size r frames pending) : Buffered m size r := by
  cases h with
  | untyped hb _ => exact hb
  | typed hb _ _ => exact hb

theorem loop_run_err (r : RedisReader) :
    (getReplyLoop strtod).run (r, .err) = some (r, .err) := Loop.run_leave rfl

theorem loop_run_idle {r : RedisReader} (h : r.stack = []) :
    (getReplyLoop strtod).run (r, .ok) = some (r, .ok) := by
  apply Loop.run_leave
  show getReplyTurn strtod (r, .ok) = _
  simp [getReplyTurn, h]

theorem loop_run_none {r : RedisReader} (hstack : r.stack ≠ [])
    (h : processItem strtod r = none) : (getReplyLoop strtod).run (r, .ok) = none := by
  apply Loop.run_undefined
  show getReplyTurn strtod (r, .ok) = _
  simp [getReplyTurn, hstack, h]

theorem loop_run_some {r : RedisReader} {c : RedisReader × Status} (hstack : r.stack ≠ [])
    (h : processItem strtod r = some c) :
    (getReplyLoop strtod).run (r, .ok) = (getReplyLoop strtod).run c := by
  apply Loop.run_again
  show getReplyTurn strtod (r, .ok) = _
  simp [getReplyTurn, hstack, h]

/-- The loop runs the decoder until it waits, fails or has a reply. -/
theorem getReplyLoop_end {fed : Bytes} {outs : List RedisReply} {frames : List Frame}
    {pending : Bytes} (hmax : pending.length ≤ seekMax)
    (he : (replyDecoder strtod m).Explains [] fed outs (.ready frames pending))
    {r : RedisReader} (h : Tracks m size r frames pending) :
    LoopEnd strtod m size fed outs pending.length ((getReplyLoop strtod).run (r, .ok)) := by
  induction frames, pending using (replyDecoder strtod m).drain_induct generalizing r with
  | hwait frames pending hn =>
      have hitem := processItem_follows strtod h hmax
      rw [hn] at hitem
      obtain ⟨r', hr', ht⟩ := hitem
      rw [loop_run_some h.stack_ne_nil hr', loop_run_err]
      exact .waiting ht le_rfl hn he
  | hfail frames pending e hn =>
      have hitem := processItem_follows strtod h hmax
      rw [hn] at hitem
      cases e with
      | abort =>
          rw [loop_run_none h.stack_ne_nil hitem]
          exact .abort (he.fail hn)
      | error type str =>
          obtain ⟨r', hr', hf⟩ := hitem
          rw [loop_run_some h.stack_ne_nil hr', loop_run_err]
          exact .failed hf (he.fail hn)
  | hadvance frames pending frames' o rest hn ih =>
      have hitem := processItem_follows strtod h hmax
      have hlt := (replyDecoder strtod m).consumes hn
      rw [hn] at hitem
      obtain ⟨r', hr', ha⟩ := hitem
      have he' := he.advance hn
      rw [loop_run_some h.stack_ne_nil hr']
      cases o with
      | none =>
          rw [Option.toList_none, List.append_nil] at he'
          exact (ih (by omega) he' ha).mono hlt.le
      | some v =>
          obtain rfl : frames' = [] := by
            obtain ⟨i, -, hplace⟩ := placeScan_advance hn
            exact place_some (hplace [])
          rw [loop_run_idle ha.stack]
          exact .reply ha hlt.le he'

theorem sdsrange_to_end {s : Bytes} {start : ℕ} (hs : s.length ≤ 9223372036854775807)
    (hle : start ≤ s.length) : sdsrange s start (-1) = some (s.drop start) := by
  unfold sdsrange
  dsimp only
  rw [if_neg (by omega)]
  by_cases hnil : (s.length : ℤ) = 0
  · rw [if_pos hnil]
    obtain rfl : s = [] := by
      apply List.eq_nil_of_length_eq_zero
      omega
    simp
  rw [if_neg hnil]
  have hstart : ¬ (start : ℤ) < 0 := by omega
  have hstop : ¬ (s.length : ℤ) + -1 < 0 := by omega
  simp only [hstart, hstop, if_false, Int.reduceNeg, Int.reduceLT, if_true]
  by_cases hend : start = s.length
  · have hgt : (start : ℤ) > (s.length : ℤ) + -1 := by omega
    rw [if_pos hgt, if_neg (by simp), hend, List.drop_length]
  · have hgt : ¬ (start : ℤ) > (s.length : ℤ) + -1 := by omega
    rw [if_neg hgt, if_pos (by omega), if_neg (by omega), if_neg (by omega)]
    rw [List.take_of_length_le]
    · simp
    · simp only [List.length_drop, Int.toNat_natCast]
      omega

/-- Discarding the consumed part of the buffer changes nothing for the decoder. -/
theorem discardConsumed_eq {r : RedisReader} (hb : Buffered m size r) (hsize : size ≤ seekMax) :
    ∃ buf pos len, discardConsumed r = some { r with buf, pos, len } ∧
      Buffered m size { r with buf, pos, len } ∧
      ({ r with buf, pos, len } : RedisReader).cursor = r.cursor := by
  unfold discardConsumed
  by_cases hpos : r.pos ≥ 1024
  · have hle := hb.pos_le
    have hbuf := hb.length
    have hlen := hb.len_le
    unfold seekMax at hsize
    rw [if_pos hpos, sdsrange_to_end (by omega) (by omega)]
    have hdrop : (r.buf.drop r.pos).length = r.len - r.pos := by rw [List.length_drop, hbuf]
    exact ⟨r.buf.drop r.pos, 0, (r.buf.drop r.pos).length, rfl,
      ⟨hb.noErr, rfl, Nat.zero_le _, by dsimp only; omega, hb.limit, hb.tasks⟩, rfl⟩
  · rw [if_neg hpos]
    exact ⟨r.buf, r.pos, r.len, rfl, hb, rfl⟩

theorem emitReply_tracks {r : RedisReader} {frames : List Frame} {pending : Bytes}
    (h : Tracks m size r frames pending) (hsize : size ≤ seekMax) :
    ∃ r', emitReply r = (r', .ok, none) ∧ Tracks m size r' frames pending := by
  obtain ⟨buf, pos, len, heq, hb, hcursor⟩ := discardConsumed_eq h.buffered hsize
  refine ⟨{ r with buf, pos, len }, ?_, ?_⟩
  · rw [emitReply, heq]
    dsimp only
    rw [if_neg h.stack_ne_nil]
  · cases h with
    | untyped _ hat =>
        rw [← hcursor]
        exact .untyped hb ⟨hat.task, hat.room, hat.aggregates, hat.reply⟩
    | typed _ hat hc =>
        rw [← hcursor]
        exact .typed hb ⟨hat.task, hat.room, hat.aggregates, hat.reply⟩ hc

theorem emitReply_idle {r : RedisReader} {pending : Bytes} {o : Option RedisReply}
    (h : Idle m size r pending o) (hsize : size ≤ seekMax) :
    ∃ r', emitReply r = (r', .ok, o) ∧ Idle m size r' pending none := by
  obtain ⟨buf, pos, len, heq, hb, hcursor⟩ := discardConsumed_eq h.buffered hsize
  refine ⟨{ r with buf, pos, len, reply := none }, ?_, ?_⟩
  · rw [emitReply, heq]
    dsimp only
    rw [if_pos h.stack, h.reply]
  · exact ⟨⟨hb.noErr, hb.length, hb.pos_le, hb.len_le, hb.limit, hb.tasks⟩, h.stack,
      hcursor.trans h.pending, rfl⟩

/-- The reader `r` has read `fed` and produced `outs`. -/
inductive Explained (strtod : Strtod) (m : ℤ) (r : RedisReader) (fed : Bytes)
    (outs : List RedisReply) : Prop
  | idle {pending : Bytes} : Idle m fed.length r pending none → pending.length ≤ fed.length →
      (replyDecoder strtod m).Explains [] fed outs (.ready [] pending) →
      Explained strtod m r fed outs
  | reading {frames : List Frame} {pending : Bytes} : Tracks m fed.length r frames pending →
      pending.length ≤ fed.length →
      (replyDecoder strtod m).Explains [] fed outs (.ready frames pending) →
      Explained strtod m r fed outs
  | failed {type : ReaderErr} {str : Bytes} : Failed r type str →
      (replyDecoder strtod m).Explains [] fed outs (.failed (.error type str)) →
      Explained strtod m r fed outs

/-- What a call of `redisReaderGetReply` does. -/
inductive GetReplyEnd (strtod : Strtod) (m : ℤ) (fed : Bytes) (outs : List RedisReply) :
    Option (RedisReader × Status × Option RedisReply) → Prop
  | abort : (replyDecoder strtod m).Explains [] fed outs (.failed .abort) →
      GetReplyEnd strtod m fed outs none
  | failed {r : RedisReader} {type : ReaderErr} {str : Bytes} : Failed r type str →
      (replyDecoder strtod m).Explains [] fed outs (.failed (.error type str)) →
      GetReplyEnd strtod m fed outs (some (r, .err, none))
  | waiting {r : RedisReader} {frames : List Frame} {pending : Bytes} : r.err = none →
      Explained strtod m r fed outs →
      (replyDecoder strtod m).next frames pending = .wait →
      (replyDecoder strtod m).Explains [] fed outs (.ready frames pending) →
      GetReplyEnd strtod m fed outs (some (r, .ok, none))
  | reply {r : RedisReader} {v : RedisReply} : r.err = none →
      Explained strtod m r fed (outs ++ [v]) → GetReplyEnd strtod m fed outs (some (r, .ok, some v))

theorem scanTyped_nil (type : ReplyType) : scanTyped strtod m type [] = .wait := by
  unfold scanTyped
  cases type.kind <;> rfl

/-- Without input the decoder waits. -/
theorem next_wait_of_empty {r : RedisReader} {frames : List Frame} {pending : Bytes}
    (h : Tracks m size r frames pending) (hlen : r.len = 0) :
    (replyDecoder strtod m).next frames pending = .wait := by
  have hcursor : r.cursor = [] := by
    apply List.eq_nil_of_length_eq_zero
    rw [h.buffered.length_cursor, hlen, Nat.zero_sub]
  show placeScan frames (nextItem strtod m pending) = .wait
  cases h with
  | untyped _ _ => rw [hcursor]; rfl
  | typed _ _ hc => rw [hcursor, nextItem, hc]; dsimp only; rw [scanTyped_nil]; rfl

/-- The end of the loop is the end of the call. -/
theorem LoopEnd.getReplyEnd {fed : Bytes} {outs : List RedisReply} {n : ℕ}
    {c : Option (RedisReader × Status)} (h : LoopEnd strtod m fed.length fed outs n c)
    (hn : n ≤ fed.length) (hsize : fed.length ≤ seekMax) :
    GetReplyEnd strtod m fed outs (endGetReply c) := by
  cases h with
  | abort he => exact .abort he
  | @failed r st type str hf he =>
      rw [endGetReply, if_pos (by rw [hf.err]; simp)]
      exact .failed hf he
  | @waiting r st frames pending ht hlen hw he =>
      obtain ⟨r', heq, ht'⟩ := emitReply_tracks ht hsize
      rw [endGetReply, if_neg (by rw [ht.buffered.noErr]; simp), heq]
      exact .waiting ht'.buffered.noErr (.reading ht' (hlen.trans hn) he) hw he
  | @reply r st v rest hi hlen he =>
      obtain ⟨r', heq, hi'⟩ := emitReply_idle hi hsize
      rw [endGetReply, if_neg (by rw [hi.buffered.noErr]; simp), heq]
      exact .reply hi'.buffered.noErr (.idle hi' (hlen.trans hn) he)

theorem getReply_end {r : RedisReader} {fed : Bytes} {outs : List RedisReply}
    (h : Explained strtod m r fed outs) (hsize : fed.length ≤ seekMax) :
    GetReplyEnd strtod m fed outs (redisReaderGetReply strtod r) := by
  -- A reader between two replies first makes a root task.
  have hreading (r' : RedisReader) {frames : List Frame} {pending : Bytes}
      (ht : Tracks m fed.length r' frames pending) (hle : pending.length ≤ fed.length)
      (he : (replyDecoder strtod m).Explains [] fed outs (.ready frames pending)) :=
    (getReplyLoop_end (hle.trans hsize) he ht).getReplyEnd hle hsize
  cases h with
  | failed hf he =>
      rw [redisReaderGetReply, if_pos (by rw [hf.err]; simp)]
      exact .failed hf he
  | idle hi hle he =>
      rw [redisReaderGetReply, if_neg (by rw [hi.buffered.noErr]; simp)]
      have ht : Tracks m fed.length { r with stack := [rootTask] } [] r.cursor :=
        .untyped ⟨hi.buffered.noErr, hi.buffered.length, hi.buffered.pos_le, hi.buffered.len_le,
          hi.buffered.limit, hi.buffered.tasks⟩
          ⟨⟨rootTask, rfl, rfl, rfl⟩, hi.buffered.tasks, by simp, hi.reply⟩
      rw [← hi.pending] at hle he
      by_cases hlen : r.len = 0
      · rw [if_pos hlen]
        exact .waiting hi.buffered.noErr (.idle hi (hi.pending ▸ hle) (hi.pending ▸ he))
          (next_wait_of_empty ht hlen) he
      · rw [if_neg hlen, if_pos hi.stack]
        exact hreading _ ht hle he
  | reading ht hle he =>
      rw [redisReaderGetReply, if_neg (by rw [ht.buffered.noErr]; simp)]
      by_cases hlen : r.len = 0
      · rw [if_pos hlen]
        exact .waiting ht.buffered.noErr (.reading ht hle he) (next_wait_of_empty ht hlen) he
      · rw [if_neg hlen, if_neg ht.stack_ne_nil]
        exact hreading _ ht hle he

/-- What a reader has delivered is the beginning of what the decoder makes of the stream. -/
theorem Explained.begins {r : RedisReader} {fed : Bytes} {outs : List RedisReply}
    (h : Explained strtod m r fed outs) : outs <+: ((replyDecoder strtod m).drain [] fed).1 := by
  cases h with
  | idle _ _ he => exact he.outputs_begin
  | reading _ _ he => exact he.outputs_begin
  | failed _ he => exact he.outputs_begin

/-- A call delivers the next reply of the stream, if that is complete. -/
theorem getReply_next {r : RedisReader} {fed : Bytes} {outs : List RedisReply}
    (h : Explained strtod m r fed outs) (hsize : fed.length ≤ seekMax)
    {c : RedisReader × Status × Option RedisReply} (hc : redisReaderGetReply strtod r = some c) :
    Explained strtod m c.1 fed (outs ++ c.2.2.toList) ∧
      (((replyDecoder strtod m).drain [] fed).1.drop outs.length).head? = c.2.2 ∧
      (c.2.1 = .err → c.2.2 = none) := by
  have hend := getReply_end h hsize
  rw [hc] at hend
  cases hend with
  | failed hf he => simpa [he.settled rfl] using Explained.failed hf he
  | waiting _ hex hw he => simpa [he.settled (Decoder.settle_wait hw)] using hex
  | @reply r v _ hex =>
      obtain ⟨more, hmore⟩ := hex.begins
      refine ⟨hex, ?_, nofun⟩
      rw [← hmore, List.append_assoc, List.drop_left]
      rfl

/-! ### One call of `redisReaderFeed` -/

/-- A buffer that is to be thrown away is empty, so feeding always appends. -/
theorem redisReaderFeed_eq {r : RedisReader} (hb : Buffered m size r) (buf : Bytes) (large : Bool) :
    (redisReaderFeed r buf large).1 =
      if buf = [] then r else { r with buf := r.buf ++ buf, len := r.len + buf.length } := by
  rw [redisReaderFeed, if_neg (by rw [hb.noErr]; simp)]
  cases buf with
  | nil => simp
  | cons c s =>
      have hlen := hb.length
      have hpos := hb.pos_le
      rw [if_pos (by simp), if_neg (List.cons_ne_nil c s)]
      by_cases hlarge : r.len = 0 ∧ large = true
      · have hbuf : r.buf = [] := List.eq_nil_of_length_eq_zero (hlen.trans hlarge.1)
        have hzero : r.pos = 0 := by omega
        simp [hlarge, hbuf, ← hzero]
      · rw [if_neg hlarge]
        simp [hlen]

theorem Buffered.feed {r : RedisReader} (hb : Buffered m size r) (buf : Bytes) :
    Buffered m (size + buf.length) { r with buf := r.buf ++ buf, len := r.len + buf.length } ∧
      ({ r with buf := r.buf ++ buf, len := r.len + buf.length } : RedisReader).cursor =
        r.cursor ++ buf := by
  have hlen := hb.length
  have hpos := hb.pos_le
  refine ⟨⟨hb.noErr, ?_, ?_, ?_, hb.limit, hb.tasks⟩, ?_⟩
  · rw [List.length_append, hlen]
  · exact hpos.trans (Nat.le_add_right _ _)
  · exact Nat.add_le_add_right hb.len_le _
  · have hle : r.pos ≤ r.buf.length := by omega
    exact List.drop_append_of_le_length hle

theorem feed_explained {r : RedisReader} {fed : Bytes} {outs : List RedisReply}
    (h : Explained strtod m r fed outs) (buf : Bytes) (large : Bool) :
    Explained strtod m (redisReaderFeed r buf large).1 (fed ++ buf) outs := by
  have hsum : (fed ++ buf).length = fed.length + buf.length := List.length_append
  cases h with
  | @failed type str hf he =>
      have hkeep : (redisReaderFeed r buf large).1 = r := by
        rw [redisReaderFeed, if_pos (by rw [hf.err]; simp)]
      rw [hkeep]
      exact .failed hf (he.feed buf)
  | @idle pending hi hle he =>
      rw [redisReaderFeed_eq hi.buffered]
      split_ifs with hnil
      · rw [hnil, List.append_nil]
        exact .idle hi hle he
      · obtain ⟨hb, hcursor⟩ := hi.buffered.feed buf
        rw [hi.pending] at hcursor
        refine .idle ?_ ?_ (he.feed buf)
        · rw [hsum]
          exact ⟨hb, hi.stack, hcursor, hi.reply⟩
        · rw [List.length_append, hsum]
          omega
  | @reading frames pending ht hle he =>
      rw [redisReaderFeed_eq ht.buffered]
      split_ifs with hnil
      · rw [hnil, List.append_nil]
        exact .reading ht hle he
      · obtain ⟨hb, hcursor⟩ := ht.buffered.feed buf
        refine .reading ?_ ?_ (he.feed buf)
        · rw [hsum]
          cases ht with
          | untyped _ hat =>
              rw [← hcursor]
              exact .untyped hb ⟨hat.task, hat.room, hat.aggregates, hat.reply⟩
          | typed _ hat hc =>
              rw [List.cons_append, ← hcursor]
              exact .typed hb ⟨hat.task, hat.room, hat.aggregates, hat.reply⟩ hc
        · rw [List.length_append, hsum]
          omega

end getReply

/-! ### Sessions -/

inductive ReaderCall where
  | feed (buf : Bytes) (large : Bool)
  | getReply

/-- A reader with what it was fed and what it has delivered. -/
structure Session where
  reader : RedisReader
  fed : Bytes
  delivered : List RedisReply

/-- The calls of one client; a client can set `maxelements` before the first one. -/
def sessionLts (strtod : Strtod) (maxelements : ℤ) : Lts Session ReaderCall where
  init s := s = ⟨{ redisReaderCreate with maxelements }, [], []⟩
  step s
    | .feed buf large => some ⟨(redisReaderFeed s.reader buf large).1, s.fed ++ buf, s.delivered⟩
    | .getReply => (redisReaderGetReply strtod s.reader).map fun c =>
        ⟨c.1, s.fed, s.delivered ++ c.2.2.toList⟩

section sessions

variable {strtod : Strtod} {m : ℤ}

/-- In every run a reader that was not fed too much is the decoder that has read the stream. -/
theorem session_explained {s : Session} (h : (sessionLts strtod m).Reachable s)
    (hsize : s.fed.length ≤ seekMax) : Explained strtod m s.reader s.fed s.delivered := by
  revert hsize
  refine h.induct (I := fun s => s.fed.length ≤ seekMax →
    Explained strtod m s.reader s.fed s.delivered) ?_ ?_
  · rintro s rfl -
    have htasks : 0 < readerStackSize := by decide
    exact .idle ⟨⟨rfl, rfl, le_rfl, le_rfl, rfl, htasks⟩, rfl, rfl, rfl⟩ le_rfl (.start [])
  · intro s a s' _ ih hstep hsize
    cases a with
    | feed buf large =>
        obtain rfl := Option.some.inj hstep
        have hlen : (s.fed ++ buf).length ≤ seekMax := hsize
        rw [List.length_append] at hlen
        exact feed_explained (ih (by omega)) buf large
    | getReply =>
        obtain ⟨c, hc, rfl⟩ := Option.map_eq_some_iff.mp hstep
        have hend := getReply_end (ih hsize) hsize
        rw [hc] at hend
        cases hend with
        | failed hf he =>
            dsimp only
            rw [Option.toList_none, List.append_nil]
            exact .failed hf he
        | waiting _ hex _ _ =>
            dsimp only
            rw [Option.toList_none, List.append_nil]
            exact hex
        | reply _ hex => exact hex

/-- A call of `redisReaderGetReply` has nothing more to deliver; `c` is what it returns. -/
def Settled (strtod : Strtod) (s : Session) (c : RedisReader × Status × Option RedisReply) : Prop :=
  redisReaderGetReply strtod s.reader = some c ∧ c.2.2 = none

/-- The end of the stream for a reader: the error that it has, or none. -/
def endError : Decoder.State (List Frame) UInt8 Fault → Option (ReaderErr × Bytes)
  | .ready _ _ => none
  | .failed (.error type str) => some (type, str.take 127)
  | .failed .abort => none

/-- A settled session has delivered what the decoder makes of the stream. -/
theorem Settled.drain {s : Session} {c : RedisReader × Status × Option RedisReply}
    (h : (sessionLts strtod m).Reachable s) (hsize : s.fed.length ≤ seekMax)
    (hs : Settled strtod s c) :
    ∃ final, (replyDecoder strtod m).drain [] s.fed = (s.delivered, final) ∧
      final ≠ .failed .abort ∧ c.1.err = endError final ∧ (c.2.1 = .err ↔ c.1.err ≠ none) := by
  have hend := getReply_end (session_explained h hsize) hsize
  obtain ⟨hc, hnone⟩ := hs
  rw [hc] at hend
  cases hend with
  | failed hf he =>
      refine ⟨_, he.settled rfl, by simp, hf.err, ?_⟩
      simp [hf.err]
  | @waiting r frames pending hnoErr _ hw he =>
      refine ⟨_, he.settled (Decoder.settle_wait hw), by simp, hnoErr, ?_⟩
      simp [hnoErr]
  | reply _ _ => cases hnone

/-- What a session has delivered is the beginning of what the decoder makes of the stream. -/
theorem delivered_le_drain {s : Session} (h : (sessionLts strtod m).Reachable s)
    (hsize : s.fed.length ≤ seekMax) :
    s.delivered <+: ((replyDecoder strtod m).drain [] s.fed).1 := by
  exact (session_explained h hsize).begins

/-- No schedule makes the reader fail an assertion on a stream that one schedule reads to
its end. -/
theorem getReply_isSome {s : Session} (h : (sessionLts strtod m).Reachable s)
    (hsize : s.fed.length ≤ seekMax)
    (hend : ((replyDecoder strtod m).drain [] s.fed).2 ≠ .failed .abort) :
    (redisReaderGetReply strtod s.reader).isSome := by
  have hget := getReply_end (session_explained h hsize) hsize
  cases hres : redisReaderGetReply strtod s.reader with
  | some c => rfl
  | none =>
      rw [hres] at hget
      cases hget with
      | abort he =>
          rw [he.settled rfl] at hend
          exact absurd rfl hend

/-- **The replies and the error do not depend on the schedule.**  When one session is settled on
a stream, every session on a beginning of the stream has delivered a beginning of its
replies; and every session on the same stream goes through without a failed assertion, and
ends with the same replies and the same error. -/
theorem replies_schedule_independent {s t : Session} (hs : (sessionLts strtod m).Reachable s)
    (ht : (sessionLts strtod m).Reachable t) (hfed : s.fed <+: t.fed)
    (hsize : t.fed.length ≤ 2147483648) {c : RedisReader × Status × Option RedisReply}
    (hc : Settled strtod t c) :
    s.delivered <+: t.delivered ∧
      (s.fed = t.fed → (redisReaderGetReply strtod s.reader).isSome ∧
        ∀ c', Settled strtod s c' →
          s.delivered = t.delivered ∧ c'.1.err = c.1.err ∧ c'.2.1 = c.2.1) := by
  have hsize' : s.fed.length ≤ seekMax := hfed.length_le.trans hsize
  obtain ⟨final, hdrain, hfinal, herr, hst⟩ := hc.drain ht hsize
  refine ⟨?_, ?_⟩
  · obtain ⟨x, hx⟩ := hfed
    have hmono := (replyDecoder strtod m).drain_mono [] s.fed x
    rw [hx, hdrain] at hmono
    exact (delivered_le_drain hs hsize').trans hmono
  · intro heq
    rw [← heq] at hdrain
    refine ⟨getReply_isSome hs hsize' (by rw [hdrain]; exact hfinal), ?_⟩
    intro c' hc'
    obtain ⟨final', hdrain', -, herr', hst'⟩ := hc'.drain hs hsize'
    rw [hdrain] at hdrain'
    obtain ⟨hdel, rfl⟩ := Prod.mk.inj hdrain'
    have herrs : c'.1.err = c.1.err := herr'.trans herr.symm
    refine ⟨hdel.symm, herrs, ?_⟩
    rw [herrs, ← hst] at hst'
    cases h1 : c'.2.1 <;> cases h2 : c.2.1 <;> simp_all

end sessions

/-- A `strtod` for streams without doubles. -/
def noDoubles : Strtod := fun _ => (none, 0)

/-- The session after some calls, with the default limit for aggregates. -/
def sessionAfter (calls : List ReaderCall) : Session :=
  ((sessionLts noDoubles readerMaxArrayElements).run ⟨redisReaderCreate, [], []⟩ calls).getD
    ⟨redisReaderCreate, [], []⟩

theorem sessionAfter_reachable {calls : List ReaderCall}
    (h : ((sessionLts noDoubles readerMaxArrayElements).run ⟨redisReaderCreate, [], []⟩
      calls).isSome) :
    (sessionLts noDoubles readerMaxArrayElements).Reachable (sessionAfter calls) := by
  obtain ⟨s, hs⟩ := Option.isSome_iff_exists.mp h
  rw [sessionAfter, hs]
  exact ⟨_, rfl, Lts.run_steps hs⟩

/-- `+OK` and the beginning of a second reply, in three pieces and in one. -/
def threePieces : List ReaderCall :=
  [.feed (ascii "+O") false, .getReply, .feed (ascii "K\x0d") true, .getReply,
    .feed (ascii "\n*2\x0d\n:1") false, .getReply]

def onePiece : List ReaderCall := [.feed (ascii "+OK\x0d\n*2\x0d\n:1") false, .getReply]

theorem replies_schedule_independent_pieces :
    (sessionAfter threePieces).delivered = (sessionAfter onePiece).delivered :=
  (((replies_schedule_independent (sessionAfter_reachable rfl) (sessionAfter_reachable rfl)
    List.prefix_rfl (by decide) ⟨rfl, rfl⟩).2 rfl).2 _ ⟨rfl, rfl⟩).1

end RedisMigrate
