import RedisMigrate.Client
import RedisMigrate.CommandArguments
import RedisMigrate.Dict

/-! # The asynchronous client

`redisAsyncContext` of `hiredis/async.c`.  The functions of the library and the callbacks of the
user call each other, so a state has the stack of the calls that are not finished: `go` is what the
library does next in the call on top, and the user makes calls at top level, in a reply callback
(`callback`), or in a connect or disconnect callback (`hook`, for which `REDIS_IN_CALLBACK` is not
set).  A call at the end of a function replaces its caller.

A function and its private data are numbers, and a callback can do what its user can do.  The hooks
of the event library and `dataCleanup` are left out: the event loop may call the handlers at any
time.  What the memory, the socket and the event loop do is chosen by the action. -/

namespace RedisMigrate

/-! ### The context -/

/-- `redisCallback`; `fn` can be `NULL`. -/
structure RedisCallback where
  fn : Option ℕ
  pendingSubs : ℤ
  privdata : ℕ
deriving DecidableEq, Repr

/-- `{NULL, NULL, 0, NULL}`. -/
def RedisCallback.null : RedisCallback := ⟨none, 0, 0⟩

/-- The values of the dictionaries; a value is `NULL` when there was no memory for its copy. -/
abbrev CallbackDict : Type := Dict Bytes (Option RedisCallback)

/-- `ac->sub`; a dictionary that was released is `none`. -/
structure RedisSubscriptions where
  invalid : List RedisCallback
  channels : Option CallbackDict
  patterns : Option CallbackDict

/-- `redisAsyncContext` with the flags of its `c`. -/
structure RedisAsyncContext where
  c : RedisContext
  connected : Bool
  disconnecting : Bool
  freeing : Bool
  inCallback : Bool
  subscribed : Bool
  monitoring : Bool
  noAutoFree : Bool
  err : Option (ContextErr × Bytes)
  replies : List RedisCallback
  sub : RedisSubscriptions
  pushCb : Bool
  onConnect : Bool
  onDisconnect : Bool

/-- What is on the stack. -/
inductive AsyncFrame where
  | callback
  | hook
  | processing (cb : RedisCallback)
  | afterReply (cb : RedisCallback)
  | connecting (write : Bool)
  | connectFailed
  | reading
  | writing
  | timeout
  | freeReplies
  | freeInvalid
  | freeSubs (pvariant : Bool) (it : Option (DictIterator Bytes))
  | freeHook
  | freeEnd

/-- Why the process ends: an assertion of `__redisAsyncDisconnect`, of `redisProcessCallbacks`, of
`__redisGetSubscribeCallback`, on the text of a command, or of the reader; a dictionary that does
not fit; memory that was freed; a callback that is `NULL`. -/
inductive AsyncCrash where
  | pendingCallbacks
  | notSubscribed
  | badMessage
  | badCommand
  | reader
  | dict
  | useAfterFree
  | nullCallback
deriving DecidableEq, Repr

/-- A context with the calls on it, and what happened to it: the commands that were appended, with
the regular callback that was pushed for each; the callbacks that were shifted, with the reply that
they got; the replies that the reader delivered, and those for which there was no regular
callback; what was written and read.  `teardownOpen` says that `__redisAsyncFree` began while
commands were still accepted, and `hookFreed` that it was called by a connect or disconnect
callback. -/
structure Async where
  ac : RedisAsyncContext
  stack : List AsyncFrame
  live : Bool
  crash : Option AsyncCrash
  cmds : List (Bytes × Option RedisCallback)
  shifted : List (RedisCallback × Option RedisReply)
  delivered : List RedisReply
  unsolicited : List RedisReply
  wire : Bytes
  fed : Bytes
  teardownOpen : Bool
  hookFreed : Bool

def Async.fail (s : Async) (why : AsyncCrash) : Async := { s with crash := some why }

def Async.push (s : Async) (f : AsyncFrame) : Async := { s with stack := f :: s.stack }

/-! ### Callbacks -/

/-- `__redisPushCallback`. -/
def redisPushCallback (malloc : Bool) (list : List RedisCallback) (source : RedisCallback) :
    List RedisCallback :=
  if malloc then list ++ [source] else list

/-- `__redisRunCallback`, and `__redisRunPushCallback`, up to the call of the function. -/
def Async.runCallback (s : Async) (isNull : Bool) : Async :=
  if isNull then s
  else { s with ac := { s.ac with inCallback := true }, stack := .callback :: s.stack }

/-- `__redisShiftCallback(&ac->replies,&cb)`: the callback is taken with a reply. -/
def Async.shiftReply (s : Async) (cb : RedisCallback) (rest : List RedisCallback)
    (reply : Option RedisReply) : Async :=
  { s with ac := { s.ac with replies := rest }, shifted := s.shifted ++ [(cb, reply)] }

/-! ### The end of a context -/

/-- `__redisAsyncFree`. -/
def Async.startFree (s : Async) : Async :=
  { s with
    stack := .freeReplies :: s.stack
    teardownOpen := s.teardownOpen || !(s.ac.disconnecting || s.ac.freeing)
    hookFreed := s.hookFreed || (s.stack.head? matches some .hook) }

/-- The end of `__redisAsyncDisconnect`. -/
def Async.autoFree (s : Async) : Async := if s.ac.noAutoFree then s else s.startFree

/-- `__redisAsyncDisconnect`. -/
def Async.disconnect (s : Async) : Async :=
  let s := { s with ac := { s.ac with err := s.ac.c.err } }
  if s.ac.err = none then
    if s.ac.replies = [] then s.autoFree else s.fail .pendingCallbacks
  else Async.autoFree { s with ac := { s.ac with disconnecting := true } }

/-- `redisAsyncFree`. -/
def Async.userFree (s : Async) : Async :=
  let s := { s with ac := { s.ac with freeing := true } }
  if s.ac.inCallback then s else s.startFree

/-- `redisAsyncDisconnect`. -/
def Async.userDisconnect (s : Async) : Async :=
  let s := { s with ac := { s.ac with disconnecting := true, noAutoFree := false } }
  if s.ac.inCallback = false ∧ s.ac.replies = [] then s.disconnect else s

/-! ### Subscriptions -/

/-- `callbackHash`. -/
def callbackHash (key : Bytes) : UInt32 := dictGenHashFunction key

def RedisSubscriptions.dict (sub : RedisSubscriptions) (pvariant : Bool) : Option CallbackDict :=
  if pvariant then sub.patterns else sub.channels

def RedisSubscriptions.setDict (sub : RedisSubscriptions) (pvariant : Bool)
    (d : Option CallbackDict) : RedisSubscriptions :=
  if pvariant then { sub with patterns := d } else { sub with channels := d }

/-- Both dictionaries have no entries. -/
def RedisSubscriptions.isEmpty (sub : RedisSubscriptions) : Bool :=
  sub.channels.any (fun d => d.used = 0) && sub.patterns.any (fun d => d.used = 0)

/-- The memory for one channel: its name, its entry, and the copy of the callback. -/
structure ChannelMemory where
  name : Bool
  entry : DictMemory
  dup : Bool

/-- How the loop over the channels of a command ends. -/
inductive SubscribeEnd where
  | done (d : CallbackDict)
  | oom (d : CallbackDict)
  | crash (why : AsyncCrash)

/-- `while ((p = nextArgument(p,&astr,&alen)) != NULL)`; `cb` goes from one channel to the next. -/
def subscribeChannels : List (Option Bytes) → Bool → (ℕ → ChannelMemory) → RedisCallback →
    CallbackDict → SubscribeEnd
  | [], ended, _, _, d => if ended then .done d else .crash .badCommand
  | none :: _, _, _, _, d => .oom d
  | some sname :: names, ended, mem, cb, d =>
      if (mem 0).name then
        match dictFind callbackHash d sname with
        | none => .crash .dict
        | some (some none) => .crash .nullCallback
        | some entry =>
            let cb :=
              match entry with
              | some (some existcb) => { cb with pendingSubs := existcb.pendingSubs + 1 }
              | _ => cb
            match dictReplace callbackHash (mem 0).entry d sname
                (if (mem 0).dup then some cb else none) with
            | none => .crash .dict
            | some (d, _) => subscribeChannels names ended (fun i => mem (i + 1)) cb d
      else .oom d

/-- The bytes of a `REDIS_REPLY_STRING`. -/
def RedisReply.stringBytes : RedisReply → Option Bytes
  | .string .string str => some str
  | _ => none

/-- `reply->element[i]`, for a type that has elements. -/
def RedisReply.elementAt (i : ℕ) : RedisReply → Option RedisReply
  | .array _ element => (element[i]?).join
  | _ => none

/-- `redisIsSubscribeReply`; it is asked about push messages only. -/
def redisIsSubscribeReply (reply : RedisReply) : Option Bool :=
  match reply with
  | .array _ [] => some false
  | .array _ (none :: _) => none
  | .array _ (some e :: _) =>
      match e.stringBytes with
      | none => some false
      | some text =>
          if text.length < 7 then some false
          else
            let off := (tolower (text.headD 0) = 112 : Bool).toNat
            let str := text.drop off
            let len := text.length - off
            some (strncaseeq str (ascii "subscribe") len || strncaseeq str (ascii "message") len)
  | _ => some false

/-- `redisIsSpontaneousPushReply`. -/
def redisIsSpontaneousPushReply (reply : RedisReply) : Option Bool :=
  if redisIsPushReply reply then (redisIsSubscribeReply reply).map (!·) else some false

/-- The counter of an entry that `__redisGetSubscribeCallback` found. -/
def countSubscribe (stem : Bytes) (cb : RedisCallback) : RedisCallback :=
  if strcaseeq stem (ascii "subscribe") then { cb with pendingSubs := cb.pendingSubs - 1 } else cb

/-- The value of an entry is changed in its place. -/
def storeCallback (d : CallbackDict) (sname : Bytes) (cb : RedisCallback) : CallbackDict :=
  { d with table := Buckets.set (dictSlot callbackHash d.sizemask) d.table sname (some cb) }

/-- What an unsubscribe message does; `none` is a failed assertion. -/
def unsubscribed (ac : RedisAsyncContext) (reply : RedisReply) (pvariant : Bool) (sname : Bytes)
    (cb : RedisCallback) (d : CallbackDict) : Option RedisAsyncContext :=
  (if cb.pendingSubs = 0 then (dictDelete callbackHash d sname).map Prod.fst else some d).bind
    fun d =>
      match reply.elementAt 2 with
      | some (.integer integer) =>
          let sub := ac.sub.setDict pvariant (some d)
          some { ac with sub, subscribed := ac.subscribed && !(integer = 0 && sub.isEmpty) }
      | _ => none

/-- `__redisGetSubscribeCallback` for the message `stype` about `sname`; `dstcb` stays as it is
when the channel has no callback. -/
def getChannelCallback (ac : RedisAsyncContext) (reply : RedisReply) (stype sname : Bytes)
    (dstcb : RedisCallback) : Except AsyncCrash (RedisAsyncContext × RedisCallback) :=
  let pvariant : Bool := tolower (stype.headD 0) = 112
  let stem := stype.drop pvariant.toNat
  match ac.sub.dict pvariant with
  | none => .error .useAfterFree
  | some d =>
      match dictFind callbackHash d sname with
      | none => .error .dict
      | some none => .ok (ac, dstcb)
      | some (some none) => .error .nullCallback
      | some (some (some cb)) =>
          let cb := countSubscribe stem cb
          let d := storeCallback d sname cb
          if strcaseeq stem (ascii "unsubscribe") then
            match unsubscribed ac reply pvariant sname cb d with
            | none => .error .badMessage
            | some ac => .ok (ac, cb)
          else .ok ({ ac with sub := ac.sub.setDict pvariant (some d) }, cb)

/-- Shift the callback of an invalid command. -/
def getInvalidCallback (ac : RedisAsyncContext) (dstcb : RedisCallback) :
    RedisAsyncContext × RedisCallback :=
  match ac.sub.invalid with
  | [] => (ac, dstcb)
  | cb :: rest => ({ ac with sub := { ac.sub with invalid := rest } }, cb)

/-- `__redisGetSubscribeCallback`; its status is not looked at. -/
def redisGetSubscribeCallback (malloc : Bool) (ac : RedisAsyncContext) (reply : RedisReply)
    (dstcb : RedisCallback) : Except AsyncCrash (RedisAsyncContext × RedisCallback) :=
  match reply with
  | .array type element =>
      if type = .array ∨ type = .push then
        match (reply.elementAt 0).bind RedisReply.stringBytes,
            (reply.elementAt 1).bind RedisReply.stringBytes with
        | some stype, some name =>
            if element.length < 2 then .error .badMessage
            else if malloc then getChannelCallback ac reply stype name dstcb
            else .ok ({ ac with c := redisSetError ac.c .oom (ascii "Out of memory") }, dstcb)
        | _, _ => .error .badMessage
      else .ok (getInvalidCallback ac dstcb)
  | _ => .ok (getInvalidCallback ac dstcb)

/-! ### Replies -/

/-- The text of a reply of the type `REDIS_REPLY_ERROR`. -/
def RedisReply.errorBytes : RedisReply → Option Bytes
  | .string .error str => some str
  | _ => none

/-- The callback `cb` is run with a reply; the loop goes on afterwards. -/
def Async.runReply (s : Async) (cb : RedisCallback) : Async :=
  if cb.fn = none then s.push (.processing cb) else (s.push (.afterReply cb)).runCallback false

/-- A reply for which no regular callback waits. -/
def Async.noRegular (s : Async) (cb : RedisCallback) (reply : RedisReply) (malloc : Bool) : Async :=
  let s := { s with unsolicited := s.unsolicited ++ [reply] }
  match reply.errorBytes with
  | some str =>
      Async.disconnect { s with
        ac := { s.ac with c := redisSetError s.ac.c .other (str.takeWhile (· ≠ 0)) } }
  | none =>
      if s.ac.subscribed || s.ac.monitoring then
        if s.ac.subscribed then
          match redisGetSubscribeCallback malloc s.ac reply cb with
          | .error why => s.fail why
          | .ok (ac, cb) => Async.runReply { s with ac } cb
        else s.runReply cb
      else s.fail .notSubscribed

/-- What the loop of `redisProcessCallbacks` does with a reply. -/
def Async.dispatch (s : Async) (cb : RedisCallback) (reply : RedisReply) (malloc : Bool) : Async :=
  let s := { s with delivered := s.delivered ++ [reply] }
  match redisIsSpontaneousPushReply reply with
  | none => s.fail .badMessage
  | some true => (s.push (.processing cb)).runCallback (!s.ac.pushCb)
  | some false =>
      match s.ac.replies with
      | cb :: rest => (s.shiftReply cb rest (some reply)).runReply cb
      | [] => s.noRegular cb reply malloc

/-- A turn of the loop of `redisProcessCallbacks`.  `malloc` is for its only allocation: that of
the name of a channel, or that of the callback of `MONITOR`, which is pushed again. -/
def Async.processReply (strtod : Strtod) (s : Async) (cb : RedisCallback) (malloc : Bool) : Async :=
  match redisGetReplyFromReader strtod s.ac.c with
  | none => s.fail .reader
  | some (c, .err, _) => Async.disconnect { s with ac := { s.ac with c } }
  | some (c, .ok, none) =>
      let s := { s with ac := { s.ac with c } }
      if s.ac.disconnecting ∧ s.ac.c.obuf = [] ∧ s.ac.replies = [] then s.disconnect
      else if s.ac.monitoring then
        { s with ac := { s.ac with replies := redisPushCallback malloc s.ac.replies cb } }
      else s
  | some (c, .ok, some reply) =>
      Async.dispatch { s with ac := { s.ac with c } } cb reply malloc

/-! ### Commands -/

structure CommandMemory where
  push : Bool
  channels : ℕ → ChannelMemory

/-- `__redisAppendCommand`, for a command with the regular callback `cb`. -/
def Async.append (s : Async) (cmd : Bytes) (len : ℕ) (cb : Option RedisCallback) : Async :=
  { s with
    ac := { s.ac with c := { s.ac.c with obuf := s.ac.c.obuf ++ cmd.take len } }
    cmds := s.cmds ++ [(cmd.take len, cb)] }

/-- A command with a regular callback.  A callback that there is no memory for is left out. -/
def Async.appendRegular (s : Async) (cmd : Bytes) (len : ℕ) (malloc : Bool) (cb : RedisCallback) :
    Async :=
  Async.append { s with ac := { s.ac with replies := redisPushCallback malloc s.ac.replies cb } }
    cmd len (if malloc then some cb else none)

/-- `__redisAsyncCommand`. -/
def Async.command (s : Async) (fn : Option ℕ) (privdata : ℕ) (cmd : Bytes) (len : ℕ)
    (mem : CommandMemory) : Async :=
  if s.ac.disconnecting || s.ac.freeing then s
  else
    let cb : RedisCallback := ⟨fn, 1, privdata⟩
    match asyncKind cmd with
    | none => s.fail .badCommand
    | some (.subscribe pvariant names) =>
        match s.ac.sub.dict pvariant with
        | none => s.fail .useAfterFree
        | some d =>
            match subscribeChannels names.1 names.2 mem.channels cb d with
            | .crash why => s.fail why
            | .oom d =>
                { s with ac := { s.ac with
                  c := redisSetError s.ac.c .oom (ascii "Out of memory")
                  subscribed := true
                  sub := s.ac.sub.setDict pvariant (some d) } }
            | .done d =>
                Async.append { s with ac := { s.ac with
                  subscribed := true
                  sub := s.ac.sub.setDict pvariant (some d) } } cmd len none
    | some .unsubscribe => if s.ac.subscribed then s.append cmd len none else s
    | some .monitor =>
        Async.appendRegular { s with ac := { s.ac with monitoring := true } } cmd len mem.push cb
    | some .regular =>
        if s.ac.subscribed then
          Async.append { s with ac := { s.ac with sub := { s.ac.sub with
            invalid := redisPushCallback mem.push s.ac.sub.invalid cb } } } cmd len none
        else s.appendRegular cmd len mem.push cb

/-! ### The event loop -/

/-- What `redisCheckConnectDone` finds; `noDelay` is the outcome of `redisSetTcpNoDelay`. -/
inductive ConnectDone where
  | failed
  | pending
  | completed (noDelay : Bool)
deriving DecidableEq, Repr

/-- `__redisAsyncHandleConnectFailure`, with the error that the socket has. -/
def Async.connectFailure (s : Async) : Async :=
  let s := { s with ac := { s.ac with c := redisSetError s.ac.c .io [] } }
  if s.ac.onConnect then (s.push .connectFailed).push .hook else s.disconnect

/-- `redisAsyncRead` or `redisAsyncWrite`. -/
def ioFrame (write : Bool) : AsyncFrame := if write then .writing else .reading

/-- `redisAsyncHandleRead` or `redisAsyncHandleWrite`, with `__redisAsyncHandleConnect`. -/
def Async.handleIo (s : Async) (write : Bool) (conn : ConnectDone) : Async :=
  if s.ac.connected then s.push (ioFrame write)
  else
    match conn with
    | .failed => s.connectFailure
    | .pending => s
    | .completed false => s.connectFailure
    | .completed true =>
        if s.ac.onConnect then (s.push (.connecting write)).push .hook
        else Async.push { s with ac := { s.ac with connected := true } } (ioFrame write)

/-- `redisAsyncHandleTimeout`, up to its loop. -/
def Async.handleTimeout (s : Async) : Async :=
  if s.ac.connected ∧ s.ac.replies = [] then s
  else
    let s :=
      if s.ac.c.err = none then
        { s with ac := { s.ac with c := redisSetError s.ac.c .timeout (ascii "Timeout") } }
      else s
    if ¬ s.ac.connected ∧ s.ac.onConnect then (s.push .timeout).push .hook else s.push .timeout

/-- `redisAsyncRead`. -/
def Async.read (s : Async) (r : Except Errno Bytes) (large : Bool) : Async :=
  let c := redisBufferRead s.ac.c r large
  let s := { s with ac := { s.ac with c := c.1 }, fed := s.fed ++ bytesGot s.ac.c r }
  match c.2 with
  | .err => s.disconnect
  | .ok => s.push (.processing .null)

/-- `redisAsyncWrite`; `send` cannot take more than there is. -/
def Async.write (s : Async) (r : Except Errno ℕ) : Option Async :=
  let c := redisBufferWrite s.ac.c r
  let n := bytesTaken s.ac.c r
  if n ≤ s.ac.c.obuf.length then
    let s := { s with ac := { s.ac with c := c.1 }, wire := s.wire ++ s.ac.c.obuf.take n }
    match c.2.1 with
    | .err => some s.disconnect
    | .ok => some s
  else none

/-! ### Going on -/

/-- A callback that gets no reply, from a function that then goes on at `f`. -/
def Async.runNull (s : Async) (f : AsyncFrame) (cb : RedisCallback) : Async :=
  (s.push f).runCallback (cb.fn = none)

/-- The loop of `redisAsyncHandleTimeout`, and the first one of `__redisAsyncFree`. -/
def Async.drainReplies (s : Async) (f : AsyncFrame) (done : Async → Async) : Async :=
  match s.ac.replies with
  | cb :: rest => (s.shiftReply cb rest none).runNull f cb
  | [] => done s

/-- The part of `__redisAsyncFree` for a dictionary. -/
def Async.freeSubs (s : Async) (pvariant : Bool) (it : Option (DictIterator Bytes))
    (malloc : Bool) : Async :=
  let release := Async.push { s with ac := { s.ac with sub := s.ac.sub.setDict pvariant none } }
    (if pvariant then .freeHook else .freeSubs true none)
  match s.ac.sub.dict pvariant with
  | none => s.fail .useAfterFree
  | some d =>
      match it with
      | none =>
          if malloc then s.push (.freeSubs pvariant (some (dictGetIterator Bytes))) else release
      | some it =>
          match dictNext d it with
          | (_, none) => release
          | (_, some ⟨_, none⟩) => s.fail .nullCallback
          | (it, some ⟨_, some cb⟩) => s.runNull (.freeSubs pvariant (some it)) cb

/-- What a function does next; its frame is not on the stack of `s`. -/
def Async.goOn (strtod : Strtod) (s : Async) (malloc : Bool) : AsyncFrame → Option Async
  | .callback => none
  | .hook => none
  | .reading => none
  | .writing => none
  | .processing cb => some (s.processReply strtod cb malloc)
  | .afterReply cb => some (if s.ac.freeing then s.startFree else s.push (.processing cb))
  | .connecting write =>
      some (Async.push { s with ac := { s.ac with connected := true } } (ioFrame write))
  | .connectFailed => some s.disconnect
  | .timeout => some (s.drainReplies .timeout Async.disconnect)
  | .freeReplies => some (s.drainReplies .freeReplies fun s => s.push .freeInvalid)
  | .freeInvalid =>
      match s.ac.sub.invalid with
      | cb :: rest =>
          let s := { s with ac := { s.ac with sub := { s.ac.sub with invalid := rest } } }
          some (s.runNull .freeInvalid cb)
      | [] => some (s.push (.freeSubs false none))
  | .freeSubs pvariant it => some (s.freeSubs pvariant it malloc)
  | .freeHook =>
      some (if s.ac.onDisconnect ∧ s.ac.connected then (s.push .freeEnd).push .hook
        else s.push .freeEnd)
  | .freeEnd => some { s with live := false }

/-! ### Runs -/

inductive AsyncCall where
  | formatted (fn : Option ℕ) (privdata : ℕ) (cmd : Bytes) (len : ℕ) (mem : CommandMemory)
  | argv (fn : Option ℕ) (privdata : ℕ) (argv : List Bytes) (argvlen : Option (List ℕ))
      (mem : CommandMemory)
  | format (fn : Option ℕ) (privdata : ℕ) (format : Bytes) (va : List VaArg) (mem : CommandMemory)
  | free
  | disconnect
  | setConnectCallback
  | setDisconnectCallback
  | setPushCallback (fn : Bool)
  | handleRead (conn : ConnectDone)
  | handleWrite (conn : ConnectDone)
  | handleTimeout
  | read (r : Except Errno Bytes) (large : Bool)
  | write (r : Except Errno ℕ)
  | go (malloc : Bool)
  | ret

/-- The user can make a call: at top level, or in a callback. -/
def Async.userTurn (s : Async) : Bool :=
  s.live &&
    match s.stack with
    | [] => true
    | .callback :: _ => true
    | .hook :: _ => true
    | _ => false

section runs

variable (strtod : Strtod) (printf : Printf) (alloc : Allocator)

/-- `__redisAsyncCommand` for what a format function returned. -/
def Async.commandOf (s : Async) (fn : Option ℕ) (privdata : ℕ) (mem : CommandMemory) :
    Except FormatErr (Bytes × ℤ) → Async
  | .error _ => s
  | .ok (cmd, len) => if len < 0 then s else s.command fn privdata cmd len.toNat mem

/-- `redisvAsyncCommand`. -/
def Async.commandFormat (s : Async) (fn : Option ℕ) (privdata : ℕ) (format : Bytes)
    (va : List VaArg) (mem : CommandMemory) : Option Async :=
  (redisvFormatCommand printf alloc format va).map (s.commandOf fn privdata mem)

/-- `redisAsyncCommandArgv`. -/
def Async.commandArgv (s : Async) (fn : Option ℕ) (privdata : ℕ) (argv : List Bytes)
    (argvlen : Option (List ℕ)) (mem : CommandMemory) : Option Async :=
  (redisFormatSdsCommandArgv true argv argvlen).map (s.commandOf fn privdata mem)

/-- The calls of the user. -/
def Async.userCall (s : Async) : AsyncCall → Option Async
  | .formatted fn privdata cmd len mem => some (s.command fn privdata cmd len mem)
  | .argv fn privdata argv argvlen mem => s.commandArgv fn privdata argv argvlen mem
  | .format fn privdata format va mem => s.commandFormat printf alloc fn privdata format va mem
  | .free => some s.userFree
  | .disconnect => some s.userDisconnect
  | .setConnectCallback => some { s with ac := { s.ac with onConnect := true } }
  | .setDisconnectCallback => some { s with ac := { s.ac with onDisconnect := true } }
  | .setPushCallback fn => some { s with ac := { s.ac with pushCb := fn } }
  | _ => none

/-- The event loop calls a handler when no other call is under way. -/
def Async.eventCall (s : Async) : AsyncCall → Option Async
  | .handleRead conn => some (s.handleIo false conn)
  | .handleWrite conn => some (s.handleIo true conn)
  | .handleTimeout => some s.handleTimeout
  | _ => none

/-- The call on top goes on, or a callback returns.  All look at the context then, except for the
callbacks of the user that run without `REDIS_IN_CALLBACK`. -/
def Async.topCall (s : Async) : AsyncFrame → AsyncCall → Option Async
  | .hook, .ret => some s
  | f, call =>
      (resume f call).map fun t => if s.live then t else s.fail .useAfterFree
where
  resume : AsyncFrame → AsyncCall → Option Async
    | .callback, .ret => some { s with ac := { s.ac with inCallback := false } }
    | .reading, .read r large => some (s.read r large)
    | .writing, .write r => s.write r
    | f, .go malloc => s.goOn strtod malloc f
    | _, _ => none

def Async.stackCall (s : Async) (call : AsyncCall) : Option Async :=
  match s.stack with
  | [] => none
  | f :: rest => Async.topCall strtod { s with stack := rest } f call

/-- The context after `redisAsyncInitialize`. -/
def redisAsyncInitialize (noAutoFree : Bool) : RedisAsyncContext :=
  ⟨⟨none, false, [], redisReaderCreate, false⟩, false, false, false, false, false, false,
    noAutoFree, none, [], ⟨[], some (dictReset _ _), some (dictReset _ _)⟩, false, false, false⟩

def asyncLts : Lts Async AsyncCall where
  init s := ∃ noAutoFree,
    s = ⟨redisAsyncInitialize noAutoFree, [], true, none, [], [], [], [], [], [], false, false⟩
  step s call :=
    if s.crash = none then
      match call with
      | .formatted .. | .argv .. | .format .. | .free | .disconnect | .setConnectCallback
      | .setDisconnectCallback | .setPushCallback _ =>
          if s.userTurn then s.userCall printf alloc call else none
      | .handleRead _ | .handleWrite _ | .handleTimeout =>
          if s.live ∧ s.stack = [] then s.eventCall call else none
      | .read .. | .write _ | .go _ | .ret => s.stackCall strtod call
    else none

end runs

end RedisMigrate
