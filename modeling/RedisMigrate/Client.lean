import RedisMigrate.CommandRoundTrip
import RedisMigrate.CommandSds

/-! # The client

`redisContext` of `hiredis/hiredis.c` with `redisNetRead` and `redisNetWrite` of `hiredis/net.c`.  A
step of `clientLts` is a call of the user, or one turn of the loops of `redisGetReply`; what the
socket does is chosen by the action.

* `wire_carries_commands`: the server can read the appended commands from what was written, in
  order and unchanged, whatever part of the buffer each write took.
* `replies_split_iff`: as long as what the handler for push messages and the caller get is kept
  apart. -/

namespace RedisMigrate

/-! ### The context -/

/-- `REDIS_ERR_*`. -/
inductive ContextErr where
  | io | eof | protocol | oom | timeout | other
deriving DecidableEq, Repr

/-- `EWOULDBLOCK`, `EINTR`, `ETIMEDOUT`, and the others. -/
inductive Errno where
  | wouldBlock | intr | timedOut | other
deriving DecidableEq, Repr

/-- `redisContext`.  The text of `strerror_r` is left empty; `pushCb` says whether there is a
handler. -/
structure RedisContext where
  err : Option (ContextErr × Bytes)
  block : Bool
  obuf : Bytes
  reader : RedisReader
  pushCb : Bool

def redisSetError (c : RedisContext) (type : ContextErr) (str : Bytes) : RedisContext :=
  { c with err := some (type, str.take 127) }

/-- "Try again later". -/
def Errno.retry (e : Errno) (block : Bool) : Bool := (e = .wouldBlock && !block) || e = .intr

/-- `send` took `n` bytes of `obuf`, or failed; the result of a call that has to be tried again
is still `-1`. -/
def redisNetWrite (c : RedisContext) : Except Errno ℕ → RedisContext × ℤ
  | .ok n => (c, n)
  | .error e => if e.retry c.block then (c, -1) else (redisSetError c .io [], -1)

/-- `recv` gave some bytes, none at the end of the stream, or failed; `none` is the result `-1`. -/
def redisNetRead (c : RedisContext) : Except Errno Bytes → RedisContext × Option Bytes
  | .ok [] => (redisSetError c .eof (ascii "Server closed the connection"), none)
  | .ok buf => (c, some buf)
  | .error e =>
      if e.retry c.block then (c, some [])
      else if e = .timedOut ∧ c.block then (redisSetError c .timeout (ascii "recv timeout"), none)
      else (redisSetError c .io [], none)

/-- The last part of `redisBufferWrite`: the status and `done`. -/
def writeDone (c : RedisContext) : RedisContext × Status × Bool := (c, .ok, c.obuf.isEmpty)

def redisBufferWrite (c : RedisContext) (r : Except Errno ℕ) : RedisContext × Status × Bool :=
  if c.err ≠ none then (c, .err, false)
  else if c.obuf.length > 0 then
    let (c, nwritten) := redisNetWrite c r
    if nwritten < 0 then (c, .err, false)
    else if nwritten > 0 then
      if nwritten = c.obuf.length then writeDone { c with obuf := [] }
      else match sdsrange c.obuf nwritten (-1) with
        | none => (redisSetError c .oom (ascii "Out of memory"), .err, false)
        | some obuf => writeDone { c with obuf }
    else writeDone c
  else writeDone c

def ReaderErr.contextErr : ReaderErr → ContextErr
  | .protocol => .protocol
  | .oom => .oom

/-- `__redisSetError(c, c->reader->err, c->reader->errstr)`. -/
def readerFailed (c : RedisContext) : RedisContext :=
  match c.reader.err with
  | none => c
  | some (type, str) => redisSetError c type.contextErr str

/-- `large`: the reader's buffer is so large that it is thrown away when it is empty. -/
def redisBufferRead (c : RedisContext) (r : Except Errno Bytes) (large : Bool) :
    RedisContext × Status :=
  if c.err ≠ none then (c, .err)
  else
    match redisNetRead c r with
    | (c, none) => (c, .err)
    | (c, some []) => (c, .ok)
    | (c, some buf) =>
        match redisReaderFeed c.reader buf large with
        | (reader, .ok) => ({ c with reader }, .ok)
        | (reader, .err) => (readerFailed { c with reader }, .err)

def redisGetReplyFromReader (strtod : Strtod) (c : RedisContext) :
    Option (RedisContext × Status × Option RedisReply) :=
  (redisReaderGetReply strtod c.reader).map fun r =>
    match r with
    | (reader, .ok, reply) => ({ c with reader }, .ok, reply)
    | (reader, .err, _) => (readerFailed { c with reader }, .err, none)

/-- `__redisAppendCommand`; the length is taken as a `size_t`. -/
def redisAppendCommandText (c : RedisContext) (cmd : Bytes) (len : ℤ) : Option RedisContext :=
  if 0 ≤ len then some { c with obuf := c.obuf ++ cmd.take len.toNat } else none

def redisIsPushReply : RedisReply → Bool
  | .array .push _ => true
  | _ => false

/-- Whether the handler takes a reply. -/
def redisHandledPushReply (c : RedisContext) (reply : RedisReply) : Bool :=
  c.pushCb && redisIsPushReply reply

def redisvAppendCommand (printf : Printf) (alloc : Allocator) (c : RedisContext) (format : Bytes)
    (va : List VaArg) : Option (RedisContext × Status) :=
  (redisvFormatCommand printf alloc format va).bind fun r =>
    match r with
    | .error .memory => some (redisSetError c .oom (ascii "Out of memory"), .err)
    | .error .format => some (redisSetError c .other (ascii "Invalid format string"), .err)
    | .ok (cmd, len) => (redisAppendCommandText c cmd len).map fun c => (c, .ok)

/-- A length of `-1` is taken for a lack of memory, whatever it comes from. -/
def redisAppendCommandArgv (c : RedisContext) (argv : List Bytes) (argvlen : Option (List ℕ)) :
    Option (RedisContext × Status) :=
  (redisFormatSdsCommandArgv true argv argvlen).bind fun r =>
    match r with
    | .error _ => some (redisSetError c .oom (ascii "Out of memory"), .err)
    | .ok (cmd, len) =>
        if len = -1 then some (redisSetError c .oom (ascii "Out of memory"), .err)
        else (redisAppendCommandText c cmd len).map fun c => (c, .ok)

/-! ### Runs -/

/-- Where `redisGetReply` is. -/
inductive ClientPc where
  | idle
  | flushing
  | reading
  | polling
deriving DecidableEq, Repr

/-- The client with what it has appended, written and read, what its reader has delivered, and
what became of it. -/
structure Client where
  ctx : RedisContext
  pc : ClientPc
  cmds : List (List Bytes)
  wire : Bytes
  fed : Bytes
  delivered : List RedisReply
  handled : List RedisReply
  returned : List RedisReply

inductive ClientCall where
  | appendFormat (format : Bytes) (va : List VaArg)
  | appendArgv (argv : List Bytes) (argvlen : Option (List ℕ))
  | getReply
  | write (r : Except Errno ℕ)
  | read (r : Except Errno Bytes) (large : Bool)
  | poll

section runs

variable (strtod : Strtod) (printf : Printf) (alloc : Allocator)

/-- The arguments that a format is meant to give. -/
def formatArguments (format : Bytes) (va : List VaArg) : Option (List Bytes) :=
  (cString format).bind fun c => (renderWords printf (words (tokens c).1) va).map Prod.fst

/-- After an append with the arguments `args`. -/
def Client.append (s : Client) (r : RedisContext × Status) (args : List Bytes) : Client :=
  { s with ctx := r.1, cmds := if r.2 = .ok then s.cmds ++ [args] else s.cmds }

/-- What the socket took of the buffer; nothing is sent after an error. -/
def bytesTaken (c : RedisContext) : Except Errno ℕ → ℕ
  | .ok n => if c.err = none then n else 0
  | .error _ => 0

/-- What the socket gave. -/
def bytesGot (c : RedisContext) : Except Errno Bytes → Bytes
  | .ok buf => if c.err = none then buf else []
  | .error _ => []

/-- Where `redisGetReply` goes on after a write; a direct call returns. -/
def pcAfterWrite : ClientPc → Status → Bool → ClientPc
  | .flushing, .ok, true => .reading
  | .flushing, .ok, false => .flushing
  | _, _, _ => .idle

def pcAfterRead : ClientPc → Status → ClientPc
  | .reading, .ok => .polling
  | _, _ => .idle

/-- `redisBufferWrite`; `send` cannot take more than there is. -/
def Client.write (s : Client) (r : Except Errno ℕ) : Option Client :=
  let c := redisBufferWrite s.ctx r
  let n := bytesTaken s.ctx r
  if n ≤ s.ctx.obuf.length then
    some { s with
      ctx := c.1
      pc := pcAfterWrite s.pc c.2.1 c.2.2
      wire := s.wire ++ s.ctx.obuf.take n }
  else none

/-- `redisBufferRead`. -/
def Client.read (s : Client) (r : Except Errno Bytes) (large : Bool) : Client :=
  let c := redisBufferRead s.ctx r large
  { s with ctx := c.1, pc := pcAfterRead s.pc c.2, fed := s.fed ++ bytesGot s.ctx r }

/-- A reply that is returned to the caller. -/
def Client.return (s : Client) (v : RedisReply) : Client :=
  { s with pc := .idle, returned := s.returned ++ [v] }

/-- The turn of the inner loop of `redisGetReply`. -/
def Client.poll (s : Client) : Option Client :=
  (redisGetReplyFromReader strtod s.ctx).map fun r =>
    let s := { s with ctx := r.1, delivered := s.delivered ++ r.2.2.toList }
    match r.2 with
    | (.err, _) => { s with pc := .idle }
    | (.ok, none) => { s with pc := .reading }
    | (.ok, some v) =>
        if redisHandledPushReply s.ctx v then { s with handled := s.handled ++ [v] }
        else s.return v

/-- The beginning of `redisGetReply`. -/
def Client.getReply (s : Client) : Option Client :=
  (redisGetReplyFromReader strtod s.ctx).map fun r =>
    let s := { s with ctx := r.1, delivered := s.delivered ++ r.2.2.toList }
    match r.2 with
    | (.err, _) => s
    | (.ok, none) => if s.ctx.block then { s with pc := .flushing } else s
    | (.ok, some v) => s.return v

/-- The calls of one thread.  `redisBufferWrite` and `redisBufferRead` can also be
called directly. -/
def clientLts : Lts Client ClientCall where
  init s := ∃ block pushCb,
    s = ⟨⟨none, block, [], redisReaderCreate, pushCb⟩, .idle, [], [], [], [], [], []⟩
  step s
    | .appendFormat format va =>
        if s.pc = .idle then
          (redisvAppendCommand printf alloc s.ctx format va).map fun r =>
            s.append r ((formatArguments printf format va).getD [])
        else none
    | .appendArgv argv argvlen =>
        if s.pc = .idle then
          (redisAppendCommandArgv s.ctx argv argvlen).map fun r =>
            s.append r ((argTexts argv argvlen).getD [])
        else none
    | .getReply => if s.pc = .idle then s.getReply strtod else none
    | .write r => if s.pc = .idle ∨ s.pc = .flushing then s.write r else none
    | .read r large => if s.pc = .idle ∨ s.pc = .reading then some (s.read r large) else none
    | .poll => if s.pc = .polling then s.poll strtod else none

end runs

/-! ### The output buffer -/

theorem redisBufferWrite_obuf (c : RedisContext) (r : Except Errno ℕ)
    (hn : bytesTaken c r ≤ c.obuf.length) (hlen : c.obuf.length ≤ 9223372036854775807) :
    (redisBufferWrite c r).1.obuf = c.obuf.drop (bytesTaken c r) := by
  unfold redisBufferWrite
  by_cases herr : c.err = none
  · rw [if_neg (by simp [herr])]
    by_cases hpos : c.obuf.length > 0
    · rw [if_pos hpos]
      cases r with
      | error e =>
          unfold redisNetWrite
          dsimp only
          cases e.retry c.block with
          | true => simp [bytesTaken]
          | false => simp [bytesTaken, redisSetError]
      | ok n =>
          simp only [bytesTaken, herr, if_true] at hn ⊢
          unfold redisNetWrite
          dsimp only
          rw [if_neg (by omega)]
          by_cases h0 : n = 0
          · subst h0
            simp [writeDone]
          · rw [if_pos (by omega)]
            by_cases hall : n = c.obuf.length
            · rw [if_pos (by omega), hall, List.drop_length]
              rfl
            · rw [if_neg (by omega), sdsrange_to_end hlen hn]
              rfl
    · have hnil : c.obuf = [] := List.eq_nil_of_length_eq_zero (by omega)
      rw [if_neg hpos]
      simp [writeDone, hnil]
  · rw [if_pos herr]
    cases r with
    | error e => simp [bytesTaken]
    | ok n => simp [bytesTaken, herr]

/-- What an append does: it sets an error, or puts the text of a command behind the buffer.  The
text is the right one for a command whose length fits an `int`. -/
inductive Appends (c : RedisContext) (args : Option (List Bytes)) : RedisContext × Status → Prop
  | failed (type : ContextErr) (str : Bytes) : Appends c args (redisSetError c type str, .err)
  | done {a : List Bytes} {text : Bytes} : args = some a →
      (((commandText a).length : ℤ) < intMax → text = commandText a) →
      Appends c args ({ c with obuf := c.obuf ++ text }, .ok)

section append

variable {printf : Printf} {alloc : Allocator} {c : RedisContext} {r : RedisContext × Status}

theorem redisvAppendCommand_appends {format : Bytes} {va : List VaArg}
    (h : redisvAppendCommand printf alloc c format va = some r) :
    Appends c (formatArguments printf format va) r := by
  obtain ⟨res, hres, h⟩ := Option.bind_eq_some_iff.mp h
  cases res with
  | error e =>
      cases e with
      | memory => cases h; exact .failed _ _
      | format => cases h; exact .failed _ _
  | ok cmd =>
      obtain ⟨cmd, len⟩ := cmd
      cases hc : cString format with
      | none => simp [redisvFormatCommand, hc] at hres
      | some f =>
          obtain ⟨-, args, unused, hargs, -, -, rfl, rfl⟩ := (redisvFormatCommand_ok_iff hc).mp hres
          dsimp only at h
          rw [redisAppendCommandText, if_pos (by omega), Int.toNat_natCast, List.take_left] at h
          cases h
          exact .done (a := args) (by simp [formatArguments, hc, hargs]) fun _ => rfl

theorem redisAppendCommandArgv_appends {argv : List Bytes} {argvlen : Option (List ℕ)}
    (h : redisAppendCommandArgv c argv argvlen = some r) : Appends c (argTexts argv argvlen) r := by
  obtain ⟨res, hres, h⟩ := Option.bind_eq_some_iff.mp h
  cases hargs : argTexts argv argvlen with
  | none => simp [redisFormatSdsCommandArgv, hargs] at hres
  | some args =>
      cases res with
      | error e => cases h; exact .failed _ _
      | ok cmd =>
          obtain ⟨cmd, len⟩ := cmd
          dsimp only at h
          by_cases hlen : len = -1
          · rw [if_pos hlen] at h
            cases h
            exact .failed _ _
          · rw [if_neg hlen, redisAppendCommandText] at h
            by_cases hpos : 0 ≤ len
            · rw [if_pos hpos] at h
              cases h
              refine .done rfl fun hshort => ?_
              rw [redisFormatSdsCommandArgv_short hargs hshort] at hres
              cases hres
              rw [Int.toNat_natCast, List.take_length]
            · rw [if_neg hpos] at h
              cases h

end append

/-- Every command was taken, and what was written and what is in the buffer are their texts. -/
def Client.Carried (s : Client) : Prop :=
  s.wire ++ s.ctx.obuf = s.cmds.flatMap commandText

theorem Carried.append {s : Client} (hs : s.Carried) {args : Option (List Bytes)}
    {r : RedisContext × Status} (h : Appends s.ctx args r)
    (hshort : ∀ a ∈ (s.append r (args.getD [])).cmds, ((commandText a).length : ℤ) < intMax) :
    (s.append r (args.getD [])).Carried := by
  unfold Client.Carried at hs ⊢
  cases h with
  | failed type str => exact hs
  | @done a text hargs htext =>
      subst hargs
      have hshort' := hshort a (by simp [Client.append])
      rw [htext hshort']
      simp only [Client.append, if_true, Option.getD_some, List.flatMap_append,
        List.flatMap_singleton, ← hs, List.append_assoc]

/-- A call that fails delivers nothing. -/
theorem getReply_err {strtod : Strtod} {r : RedisReader}
    {c : RedisReader × Status × Option RedisReply}
    (h : redisReaderGetReply strtod r = some c) (hc : c.2.1 = .err) : c.2.2 = none := by
  have hend : ∀ l, endGetReply l = some c → c.2.2 = none := by
    intro l hl
    cases l with
    | none => cases hl
    | some e =>
        unfold endGetReply emitReply at hl
        dsimp only at hl
        split_ifs at hl
        · cases hl; rfl
        · cases hd : discardConsumed e.1 with
          | none =>
              rw [hd] at hl
              cases hl
              rfl
          | some r' =>
              rw [hd] at hl
              dsimp only at hl
              split_ifs at hl
              · cases hl; cases hc
              · cases hl; cases hc
  unfold redisReaderGetReply at h
  split_ifs at h
  · cases h; rfl
  · cases h; rfl
  · exact hend _ h
  · exact hend _ h

theorem redisReaderFeed_nil (r : RedisReader) (large : Bool) :
    (redisReaderFeed r [] large).1 = r := by
  unfold redisReaderFeed
  by_cases h : r.err ≠ none
  · rw [if_pos h]
  · rw [if_neg h, if_neg (by simp)]

theorem readerFailed_eq (c : RedisContext) : ∃ err, readerFailed c = { c with err } := by
  unfold readerFailed
  cases c.reader.err with
  | none => exact ⟨c.err, rfl⟩
  | some e => exact ⟨_, rfl⟩

/-- A read feeds what it got to the reader and can set an error. -/
theorem redisBufferRead_eq (c : RedisContext) (r : Except Errno Bytes) (large : Bool) :
    ∃ err, (redisBufferRead c r large).1 =
      { c with err, reader := (redisReaderFeed c.reader (bytesGot c r) large).1 } := by
  unfold redisBufferRead
  by_cases herr : c.err = none
  · rw [if_neg (by simp [herr])]
    cases r with
    | error e =>
        rw [bytesGot, redisReaderFeed_nil, redisNetRead]
        split_ifs
        · exact ⟨c.err, rfl⟩
        · exact ⟨_, rfl⟩
        · exact ⟨_, rfl⟩
    | ok buf =>
        rw [bytesGot, if_pos herr]
        cases buf with
        | nil =>
            rw [redisReaderFeed_nil]
            exact ⟨_, rfl⟩
        | cons b bs =>
            show ∃ err, (match redisReaderFeed c.reader (b :: bs) large with
              | (reader, .ok) => (({ c with reader }, .ok) : RedisContext × Status)
              | (reader, .err) => (readerFailed { c with reader }, .err)).1 = _
            cases hfeed : redisReaderFeed c.reader (b :: bs) large with
            | mk reader st =>
                cases st with
                | ok => exact ⟨c.err, rfl⟩
                | err => exact readerFailed_eq { c with reader }
  · have hgot : bytesGot c r = [] := by
      cases r with
      | error e => rfl
      | ok buf => rw [bytesGot, if_neg herr]
    rw [if_pos herr, hgot, redisReaderFeed_nil]
    exact ⟨c.err, rfl⟩

/-- A write changes nothing but the buffer and the error. -/
theorem redisBufferWrite_eq (c : RedisContext) (r : Except Errno ℕ) :
    ∃ err obuf, (redisBufferWrite c r).1 = { c with err, obuf } := by
  have hnet : ∃ err, (redisNetWrite c r).1 = { c with err } := by
    cases r with
    | ok n => exact ⟨c.err, rfl⟩
    | error e =>
        unfold redisNetWrite
        dsimp only
        split_ifs
        · exact ⟨c.err, rfl⟩
        · exact ⟨_, rfl⟩
  obtain ⟨err, hnet⟩ := hnet
  unfold redisBufferWrite
  split_ifs
  · exact ⟨c.err, c.obuf, rfl⟩
  · dsimp only
    rw [hnet]
    split_ifs
    · exact ⟨err, c.obuf, rfl⟩
    · exact ⟨err, [], rfl⟩
    · cases sdsrange c.obuf (redisNetWrite c r).2 (-1) with
      | none => exact ⟨_, c.obuf, rfl⟩
      | some obuf => exact ⟨err, obuf, rfl⟩
    · exact ⟨err, c.obuf, rfl⟩
  · exact ⟨c.err, c.obuf, rfl⟩

/-- A reply is taken from the reader, and the context can get its error. -/
theorem redisGetReplyFromReader_eq {strtod : Strtod} {c : RedisContext}
    {r : RedisContext × Status × Option RedisReply}
    (h : redisGetReplyFromReader strtod c = some r) :
    ∃ r', redisReaderGetReply strtod c.reader = some r' ∧
      ((r'.2.1 = .ok ∧ r = ({ c with reader := r'.1 }, r'.2)) ∨
        r'.2.1 = .err ∧ ∃ err, r = ({ c with err, reader := r'.1 }, .err, none)) := by
  obtain ⟨r', hr', rfl⟩ := Option.map_eq_some_iff.mp h
  obtain ⟨reader, st, o⟩ := r'
  refine ⟨_, hr', ?_⟩
  cases st with
  | ok => exact .inl ⟨rfl, rfl⟩
  | err =>
      obtain ⟨err, heq⟩ := readerFailed_eq { c with reader }
      refine .inr ⟨rfl, err, ?_⟩
      dsimp only
      rw [heq]

/-! ### What a step does -/

/-- What the two places that ask the reader have in common. -/
structure Asks (strtod : Strtod) (s s' : Client) (o : Option RedisReply) : Prop where
  asked : ∃ st, redisReaderGetReply strtod s.ctx.reader = some (s'.ctx.reader, st, o)
  obuf : s'.ctx.obuf = s.ctx.obuf
  pushCb : s'.ctx.pushCb = s.ctx.pushCb
  cmds : s'.cmds = s.cmds
  wire : s'.wire = s.wire
  fed : s'.fed = s.fed
  delivered : s'.delivered = s.delivered ++ o.toList

section steps

variable {strtod : Strtod} {printf : Printf} {alloc : Allocator} {s s' : Client}

/-- A reply that the reader has at the beginning of `redisGetReply` goes to the caller. -/
theorem getReply_asks (h : s.getReply strtod = some s') :
    ∃ o, Asks strtod s s' o ∧ s'.handled = s.handled ∧ s'.returned = s.returned ++ o.toList := by
  obtain ⟨r, hr, rfl⟩ := Option.map_eq_some_iff.mp h
  obtain ⟨c, hc, ⟨hst, rfl⟩ | ⟨hst, err, rfl⟩⟩ := redisGetReplyFromReader_eq hr
  · obtain ⟨reader, st, o⟩ := c
    obtain rfl : st = .ok := hst
    cases o with
    | none =>
        refine ⟨none, ?_⟩
        dsimp only
        split_ifs
        · exact ⟨⟨⟨_, hc⟩, rfl, rfl, rfl, rfl, rfl, rfl⟩, rfl, by simp⟩
        · exact ⟨⟨⟨_, hc⟩, rfl, rfl, rfl, rfl, rfl, rfl⟩, rfl, by simp⟩
    | some v => exact ⟨some v, ⟨⟨_, hc⟩, rfl, rfl, rfl, rfl, rfl, rfl⟩, rfl, rfl⟩
  · have ho := getReply_err hc hst
    obtain ⟨reader, st, o⟩ := c
    obtain rfl : o = none := ho
    exact ⟨none, ⟨⟨_, hc⟩, rfl, rfl, rfl, rfl, rfl, rfl⟩, rfl, by simp⟩

/-- A reply of the inner loop goes to the handler if there is one for it. -/
theorem poll_asks (h : s.poll strtod = some s') :
    ∃ o, Asks strtod s s' o ∧
      s'.handled = s.handled ++ o.toList.filter (redisHandledPushReply s.ctx) ∧
      s'.returned = s.returned ++ o.toList.filter fun v => !redisHandledPushReply s.ctx v := by
  obtain ⟨r, hr, rfl⟩ := Option.map_eq_some_iff.mp h
  obtain ⟨c, hc, ⟨hst, rfl⟩ | ⟨hst, err, rfl⟩⟩ := redisGetReplyFromReader_eq hr
  · obtain ⟨reader, st, o⟩ := c
    obtain rfl : st = .ok := hst
    cases o with
    | none => exact ⟨none, ⟨⟨_, hc⟩, rfl, rfl, rfl, rfl, rfl, rfl⟩, by simp, by simp⟩
    | some v =>
        refine ⟨some v, ?_⟩
        dsimp only
        split_ifs with hpush
        · have hb : redisHandledPushReply s.ctx v = true := hpush
          exact ⟨⟨⟨_, hc⟩, rfl, rfl, rfl, rfl, rfl, rfl⟩, by simp [hb], by simp [hb]⟩
        · have hb : redisHandledPushReply s.ctx v = false := Bool.eq_false_iff.mpr hpush
          exact ⟨⟨⟨_, hc⟩, rfl, rfl, rfl, rfl, rfl, rfl⟩, by simp [Client.return, hb],
            by simp [Client.return, hb]⟩
  · have ho := getReply_err hc hst
    obtain ⟨reader, st, o⟩ := c
    obtain rfl : o = none := ho
    exact ⟨none, ⟨⟨_, hc⟩, rfl, rfl, rfl, rfl, rfl, rfl⟩, by simp, by simp⟩

/-- The inversion of a step: the calls that append, that write, that read, and that ask. -/
inductive ClientStep (strtod : Strtod) (s s' : Client) : ClientCall → Prop
  | append {call : ClientCall} {args : Option (List Bytes)} {r : RedisContext × Status} :
      Appends s.ctx args r → s' = s.append r (args.getD []) → ClientStep strtod s s' call
  | write {r : Except Errno ℕ} : bytesTaken s.ctx r ≤ s.ctx.obuf.length →
      s' = { s with
        ctx := (redisBufferWrite s.ctx r).1
        pc := s'.pc
        wire := s.wire ++ s.ctx.obuf.take (bytesTaken s.ctx r) } → ClientStep strtod s s' (.write r)
  | read {r : Except Errno Bytes} {large : Bool} : s' = s.read r large →
      ClientStep strtod s s' (.read r large)
  | getReply : s.getReply strtod = some s' → ClientStep strtod s s' .getReply
  | poll : s.poll strtod = some s' → ClientStep strtod s s' .poll

theorem client_step {call : ClientCall}
    (h : (clientLts strtod printf alloc).step s call = some s') : ClientStep strtod s s' call := by
  cases call with
  | appendFormat format va =>
      obtain ⟨-, h⟩ := Option.ite_none_right_eq_some.mp h
      obtain ⟨r, hr, rfl⟩ := Option.map_eq_some_iff.mp h
      exact .append (redisvAppendCommand_appends hr) rfl
  | appendArgv argv argvlen =>
      obtain ⟨-, h⟩ := Option.ite_none_right_eq_some.mp h
      obtain ⟨r, hr, rfl⟩ := Option.map_eq_some_iff.mp h
      exact .append (redisAppendCommandArgv_appends hr) rfl
  | getReply => exact .getReply (Option.ite_none_right_eq_some.mp h).2
  | write r =>
      obtain ⟨-, h⟩ := Option.ite_none_right_eq_some.mp h
      obtain ⟨hle, h⟩ := Option.ite_none_right_eq_some.mp h
      cases h
      exact .write hle rfl
  | read r large =>
      obtain ⟨-, h⟩ := Option.ite_none_right_eq_some.mp h
      cases h
      exact .read rfl
  | poll => exact .poll (Option.ite_none_right_eq_some.mp h).2

/-! ### What is on the wire -/

/-- No command is forgotten. -/
theorem Client.cmds_step {call : ClientCall} (h : ClientStep strtod s s' call) :
    s.cmds <+: s'.cmds := by
  cases h with
  | append ha heq =>
      subst heq
      unfold Client.append
      dsimp only
      split_ifs
      · exact List.prefix_append _ _
      · exact List.prefix_rfl
  | write _ heq => exact heq ▸ List.prefix_rfl
  | read heq => exact heq ▸ List.prefix_rfl
  | getReply hg =>
      obtain ⟨o, ha, -⟩ := getReply_asks hg
      exact ha.cmds ▸ List.prefix_rfl
  | poll hg =>
      obtain ⟨o, ha, -⟩ := poll_asks hg
      exact ha.cmds ▸ List.prefix_rfl

/-- The texts of the commands so far fit a string. -/
structure Client.Short (s : Client) : Prop where
  short : ∀ args ∈ s.cmds, ((commandText args).length : ℤ) < intMax
  size : (s.cmds.flatMap commandText).length ≤ 9223372036854775807

theorem Client.Short.mono (h : s'.Short) (hle : s.cmds <+: s'.cmds) : s.Short := by
  obtain ⟨more, hmore⟩ := hle
  refine ⟨fun args hargs => h.short args (hmore ▸ List.mem_append_left _ hargs), ?_⟩
  have hsize := h.size
  rw [← hmore, List.flatMap_append, List.length_append] at hsize
  omega

theorem Client.Carried.step {call : ClientCall} (hs : s.Carried)
    (h : ClientStep strtod s s' call) (hshort : s'.Short) : s'.Carried := by
  have hasks : ∀ {o}, Asks strtod s s' o → s'.Carried := by
    intro o ha
    unfold Client.Carried at hs ⊢
    rw [ha.wire, ha.obuf, ha.cmds, hs]
  have hlen := (hshort.mono (Client.cmds_step h)).size
  cases h with
  | append ha heq =>
      subst heq
      exact Carried.append hs ha hshort.short
  | @write r hle heq =>
      unfold Client.Carried at hs ⊢
      rw [← hs, List.length_append] at hlen
      rw [heq, redisBufferWrite_obuf s.ctx r hle (by omega), List.append_assoc,
        List.take_append_drop, hs]
  | @read r large heq =>
      obtain ⟨err, hread⟩ := redisBufferRead_eq s.ctx r large
      unfold Client.Carried at hs ⊢
      rw [heq, Client.read, hread, ← hs]
  | getReply hg =>
      obtain ⟨o, ha, -⟩ := getReply_asks hg
      exact hasks ha
  | poll hg =>
      obtain ⟨o, ha, -⟩ := poll_asks hg
      exact hasks ha

theorem carried (hs : (clientLts strtod printf alloc).Reachable s) (hshort : s.Short) :
    s.Carried := by
  revert hshort
  refine hs.induct (I := fun s => s.Short → s.Carried) ?_ ?_
  · rintro s ⟨block, pushCb, rfl⟩ -
    rfl
  · intro s call s' _ ih hstep hshort
    have h := client_step hstep
    exact (ih (hshort.mono (Client.cmds_step h))).step h hshort

/-- **The wire carries the commands.**  What was written and what is still in the buffer are the
texts of the commands that were appended, and a reader at the other end of the wire gets the
commands, from the first on: it has no error, each command that is complete in what it was fed is
delivered, and when the buffer was flushed and everything has arrived these are all. -/
theorem wire_carries_commands (hs : (clientLts strtod printf alloc).Reachable s) (hshort : s.Short)
    {server : Strtod} {m : ℤ} {t : Session} (ht : (sessionLts server m).Reachable t)
    (hm : m > 0 → intMax ≤ m) (hfed : t.fed <+: s.wire) (hsize : t.fed.length ≤ 2147483648) :
    s.wire ++ s.ctx.obuf = s.cmds.flatMap commandText ∧
    (redisReaderGetReply server t.reader).isSome ∧ ∀ c, Settled server t c → c.2.1 = .ok ∧
      ∃ n, n ≤ s.cmds.length ∧ t.delivered = (s.cmds.take n).map asReply ∧
        (∀ k, k ≤ s.cmds.length → ((s.cmds.take k).flatMap commandText <+: t.fed ↔ k ≤ n)) ∧
        (t.fed = s.wire → s.ctx.obuf = [] → n = s.cmds.length) := by
  have hcarried : s.wire ++ s.ctx.obuf = s.cmds.flatMap commandText := carried hs hshort
  have hbegins : t.fed <+: s.cmds.flatMap commandText :=
    hcarried ▸ hfed.trans (List.prefix_append _ _)
  obtain ⟨hsome, hread⟩ := commands_read_back ht hshort.short hm hbegins hsize
  refine ⟨hcarried, hsome, fun c hc => ?_⟩
  obtain ⟨hok, n, hn, hdel, hcomplete⟩ := hread c hc
  refine ⟨hok, n, hn, hdel, hcomplete, fun hall hnil => ?_⟩
  have hflushed : s.wire = s.cmds.flatMap commandText := by
    rw [← hcarried, hnil, List.append_nil]
  have hle := (hcomplete s.cmds.length le_rfl).mp (by
    simp only [List.take_length, hall, hflushed, List.prefix_rfl])
  omega

/-! ### The replies -/

theorem Client.fed_step {call : ClientCall} (h : ClientStep strtod s s' call) :
    s.fed <+: s'.fed ∧ s'.ctx.pushCb = s.ctx.pushCb := by
  cases h with
  | append ha heq =>
      subst heq
      cases ha with
      | failed type str => exact ⟨List.prefix_rfl, rfl⟩
      | done _ _ => exact ⟨List.prefix_rfl, rfl⟩
  | @write r _ heq =>
      obtain ⟨err, obuf, hwrite⟩ := redisBufferWrite_eq s.ctx r
      rw [heq, hwrite]
      exact ⟨List.prefix_rfl, rfl⟩
  | @read r large heq =>
      obtain ⟨err, hread⟩ := redisBufferRead_eq s.ctx r large
      rw [heq, Client.read, hread]
      exact ⟨List.prefix_append _ _, rfl⟩
  | getReply hg =>
      obtain ⟨o, ha, -⟩ := getReply_asks hg
      rw [ha.fed]
      exact ⟨List.prefix_rfl, ha.pushCb⟩
  | poll hg =>
      obtain ⟨o, ha, -⟩ := poll_asks hg
      rw [ha.fed]
      exact ⟨List.prefix_rfl, ha.pushCb⟩

theorem Asks.explained {o : Option RedisReply} (h : Asks strtod s s' o)
    (hs : Explained strtod readerMaxArrayElements s.ctx.reader s.fed s.delivered)
    (hsize : s.fed.length ≤ seekMax) :
    Explained strtod readerMaxArrayElements s'.ctx.reader s'.fed s'.delivered := by
  obtain ⟨st, hst⟩ := h.asked
  rw [h.fed, h.delivered]
  exact (getReply_next hs hsize hst).1

/-- In every run the reader of the client has read what the client was fed. -/
theorem client_explained (hs : (clientLts strtod printf alloc).Reachable s)
    (hsize : s.fed.length ≤ seekMax) :
    Explained strtod readerMaxArrayElements s.ctx.reader s.fed s.delivered := by
  revert hsize
  refine hs.induct (I := fun s => s.fed.length ≤ seekMax →
    Explained strtod readerMaxArrayElements s.ctx.reader s.fed s.delivered) ?_ ?_
  · rintro s ⟨block, pushCb, rfl⟩ -
    have hstart :
        (sessionLts strtod readerMaxArrayElements).Reachable ⟨redisReaderCreate, [], []⟩ :=
      .of_init rfl
    exact session_explained hstart (Nat.zero_le _)
  · intro s call s' _ ih hstep hsize
    have h := client_step hstep
    have hex := ih ((Client.fed_step h).1.length_le.trans hsize)
    cases h with
    | append ha heq =>
        subst heq
        cases ha with
        | failed type str => exact hex
        | done _ _ => exact hex
    | @write r _ heq =>
        obtain ⟨err, obuf, hwrite⟩ := redisBufferWrite_eq s.ctx r
        rw [heq, hwrite]
        exact hex
    | @read r large heq =>
        obtain ⟨err, hread⟩ := redisBufferRead_eq s.ctx r large
        rw [heq, Client.read, hread]
        exact feed_explained hex _ large
    | getReply hg =>
        obtain ⟨o, ha, -⟩ := getReply_asks hg
        exact ha.explained hex (ha.fed ▸ hsize)
    | poll hg =>
        obtain ⟨o, ha, -⟩ := poll_asks hg
        exact ha.explained hex (ha.fed ▸ hsize)

/-- The handler got the push messages, and the caller the other replies, each in order. -/
structure Client.Split (s : Client) : Prop where
  handled : s.handled = s.delivered.filter redisIsPushReply
  returned : s.returned = s.delivered.filter fun v => !redisIsPushReply v

/-- The next reply has arrived, and it is a push message. -/
def Client.pushNext (strtod : Strtod) (s : Client) : Bool :=
  (((replyDecoder strtod readerMaxArrayElements).drain [] s.fed).1.drop
    s.delivered.length).head?.any redisIsPushReply

def ClientCall.isGetReply : ClientCall → Bool
  | .getReply => true
  | _ => false

theorem Asks.next {o : Option RedisReply} (h : Asks strtod s s' o)
    (hs : Explained strtod readerMaxArrayElements s.ctx.reader s.fed s.delivered)
    (hsize : s.fed.length ≤ seekMax) : s.pushNext strtod = o.any redisIsPushReply := by
  obtain ⟨st, hst⟩ := h.asked
  rw [Client.pushNext, (getReply_next hs hsize hst).2.1]

/-- A call of `redisGetReply` keeps the replies apart exactly when no push message is next. -/
theorem split_getReply (h : s.getReply strtod = some s') (hs : s.Split)
    (hex : Explained strtod readerMaxArrayElements s.ctx.reader s.fed s.delivered)
    (hsize : s.fed.length ≤ seekMax) : s'.Split ↔ ¬ s.pushNext strtod := by
  obtain ⟨o, ha, hhandled, hreturned⟩ := getReply_asks h
  rw [ha.next hex hsize]
  cases o with
  | none =>
      have hsplit : s'.Split := by
        refine ⟨?_, ?_⟩
        · rw [hhandled, ha.delivered, Option.toList_none, List.append_nil, hs.handled]
        · rw [hreturned, ha.delivered, Option.toList_none, List.append_nil, List.append_nil,
            hs.returned]
      simp [hsplit]
  | some v =>
      cases hv : redisIsPushReply v with
      | true =>
          have hnot : ¬ s'.Split := by
            intro hsplit
            have hlen := congrArg List.length hsplit.handled
            rw [hhandled, ha.delivered, List.filter_append, hs.handled] at hlen
            simp [hv] at hlen
          simp [hnot, hv]
      | false =>
          have hsplit : s'.Split := by
            refine ⟨?_, ?_⟩
            · rw [hhandled, ha.delivered, List.filter_append, hs.handled]
              simp [hv]
            · rw [hreturned, ha.delivered, List.filter_append, hs.returned]
              simp [hv]
          simp [hsplit, hv]

theorem Client.Split.step {call : ClientCall} (h : ClientStep strtod s s' call) (hs : s.Split)
    (hcb : s.ctx.pushCb = true)
    (hex : Explained strtod readerMaxArrayElements s.ctx.reader s.fed s.delivered)
    (hsize : s.fed.length ≤ seekMax) (hcall : ¬ (call.isGetReply ∧ s.pushNext strtod)) :
    s'.Split := by
  cases h with
  | append _ heq =>
      subst heq
      exact ⟨hs.handled, hs.returned⟩
  | write _ heq => rw [heq]; exact ⟨hs.handled, hs.returned⟩
  | read heq => rw [heq]; exact ⟨hs.handled, hs.returned⟩
  | getReply hg => exact (split_getReply hg hs hex hsize).mpr fun hpush => hcall ⟨rfl, hpush⟩
  | poll hg =>
      obtain ⟨o, ha, hhandled, hreturned⟩ := poll_asks hg
      have hpush : redisHandledPushReply s.ctx = redisIsPushReply := by
        funext v
        rw [redisHandledPushReply, hcb, Bool.true_and]
      rw [hpush] at hhandled hreturned
      refine ⟨?_, ?_⟩
      · rw [hhandled, ha.delivered, List.filter_append, hs.handled]
      · rw [hreturned, ha.delivered, List.filter_append, hs.returned]

theorem split_of_restrict (hs : ((clientLts strtod printf alloc).restrict fun s call =>
      ¬ (call.isGetReply ∧ s.pushNext strtod)).Reachable s)
    (hcb : s.ctx.pushCb = true) (hsize : s.fed.length ≤ seekMax) : s.Split := by
  revert hcb hsize
  refine hs.induct (I := fun s => s.ctx.pushCb = true → s.fed.length ≤ seekMax → s.Split) ?_ ?_
  · rintro s ⟨block, pushCb, rfl⟩ - -
    exact ⟨rfl, rfl⟩
  · intro s call s' hr ih hstep hcb hsize
    obtain ⟨hcall, hstep⟩ := Lts.restrict_step_eq_some.mp hstep
    have h := client_step hstep
    obtain ⟨hfed, hpushCb⟩ := Client.fed_step h
    have hsize' := hfed.length_le.trans hsize
    rw [hpushCb] at hcb
    exact (ih hcb hsize').step h hcb (client_explained hr.of_restrict hsize') hsize' hcall

/-- **Push messages and replies stay apart exactly while** `redisGetReply` is not called when a push
message is next in what has arrived: in a run without such a call the handler gets every push
message and the caller every other reply, in order, and the first such call returns a push
message to the caller. -/
theorem replies_split_iff :
    (∀ s, ((clientLts strtod printf alloc).restrict fun s call =>
        ¬ (call.isGetReply ∧ s.pushNext strtod)).Reachable s →
      s.ctx.pushCb = true → s.fed.length ≤ 2147483648 →
      s.delivered <+: ((replyDecoder strtod readerMaxArrayElements).drain [] s.fed).1 ∧ s.Split) ∧
    ∀ s s', (clientLts strtod printf alloc).Reachable s → s.fed.length ≤ 2147483648 → s.Split →
      (clientLts strtod printf alloc).step s .getReply = some s' →
      (s'.Split ↔ ¬ s.pushNext strtod) ∧ (s.pushNext strtod →
        ∃ v, redisIsPushReply v ∧ s'.returned = s.returned ++ [v]) := by
  refine ⟨fun s hs hcb hsize => ?_, fun s s' hs hsize hsplit hstep => ?_⟩
  · exact ⟨(client_explained hs.of_restrict hsize).begins, split_of_restrict hs hcb hsize⟩
  · have hg : s.getReply strtod = some s' := (Option.ite_none_right_eq_some.mp hstep).2
    have hex := client_explained hs hsize
    refine ⟨split_getReply hg hsplit hex hsize, fun hpush => ?_⟩
    obtain ⟨o, ha, -, hreturned⟩ := getReply_asks hg
    rw [ha.next hex hsize] at hpush
    cases o with
    | none => cases hpush
    | some v => exact ⟨v, hpush, hreturned⟩

end steps

/-! ### Two commands in two writes -/

/-- The client after some calls. -/
def clientAfter (pushCb : Bool) (calls : List ClientCall) : Option Client :=
  (clientLts noDoubles (fun format _ => format) .plenty).run
    ⟨⟨none, true, [], redisReaderCreate, pushCb⟩, .idle, [], [], [], [], [], []⟩ calls

theorem clientAfter_reachable {pushCb : Bool} {calls : List ClientCall}
    (h : (clientAfter pushCb calls).isSome) :
    (clientLts noDoubles (fun format _ => format) .plenty).Reachable
      ((clientAfter pushCb calls).get h) := by
  refine Lts.Reachable.of_run ?_ h
  exact ⟨true, pushCb, rfl⟩

def twoPings : List ClientCall :=
  [.appendArgv [ascii "PING"] (some [4]), .write (.ok 5), .appendArgv [ascii "PING"] (some [4]),
    .write (.ok 20)]

/-- A server that was given what both writes sent. -/
def onePing : List ReaderCall :=
  [.feed (ascii "*1\x0d\n$") false,
    .feed (ascii "4\x0d\nPING\x0d\n*1\x0d\n$4\x0d\nPI") false, .getReply, .getReply]

theorem wire_carries_commands_pings :
    (redisReaderGetReply noDoubles (sessionAfter onePing).reader).isSome :=
  (wire_carries_commands (s := (clientAfter false twoPings).get rfl) (clientAfter_reachable rfl)
    ⟨by decide, by decide⟩ (t := sessionAfter onePing) (sessionAfter_reachable rfl) (by decide)
    (by decide) (by decide)).2.1

/-- The client with a push handler after some calls, where no `redisGetReply` finds a
push message. -/
def splitAfter (calls : List ClientCall) : Option Client :=
  ((clientLts noDoubles (fun format _ => format) .plenty).restrict fun s call =>
    ¬ (call.isGetReply ∧ s.pushNext noDoubles)).run
    ⟨⟨none, true, [], redisReaderCreate, true⟩, .idle, [], [], [], [], [], []⟩ calls

theorem splitAfter_reachable {calls : List ClientCall} (h : (splitAfter calls).isSome) :
    ((clientLts noDoubles (fun format _ => format) .plenty).restrict fun s call =>
      ¬ (call.isGetReply ∧ s.pushNext noDoubles)).Reachable ((splitAfter calls).get h) := by
  refine Lts.Reachable.of_run ?_ h
  exact ⟨true, true, rfl⟩

/-- A reply and a push message have arrived, and the reply was returned. -/
def pushBehindReply : List ClientCall :=
  [.read (.ok (ascii "+OK\x0d\n>1\x0d\n:1\x0d\n")) false, .getReply]

/-- The push message that came with a reply is taken for the next reply. -/
theorem replies_split_iff_push :
    ((splitAfter pushBehindReply).get rfl).Split ∧
      ¬ ((clientAfter true (pushBehindReply ++ [.getReply])).get rfl).Split :=
  have hsplit : ((splitAfter pushBehindReply).get rfl).Split :=
    (replies_split_iff.1 _ (splitAfter_reachable rfl) rfl (by decide)).2
  ⟨hsplit, fun h => (replies_split_iff.2 _ _ (splitAfter_reachable rfl).of_restrict (by decide)
    hsplit
    (show _ = some ((clientAfter true (pushBehindReply ++ [.getReply])).get rfl) from rfl)).1.mp h
      (by decide)⟩

end RedisMigrate
