import RedisMigrate.ReplyDecoder

/-! # The reader follows the decoder

The task array, the cursor and the reply under construction of a `redisReader` are a
representation of the state of `replyDecoder` (`Tracks`): the tasks below the current one are the
open aggregates, the reply is the tree of what they have so far with `NULL` in the other places
(`treeOf`), and a type byte that was read ahead belongs to the unconsumed input.
`processItem_follows` says that one call of `processItem` does what the decoder does.

The length of the unread input has to fit the `int` in which `seekNewline` keeps it. -/

namespace RedisMigrate

/-! ### The open aggregates as tasks and as a tree -/

/-- `idx` of the task of the next item. -/
def itemIdx : List Frame → ℤ
  | [] => -1
  | f :: _ => f.done.length

/-- The path to the place of the next item. -/
def slotPath : List Frame → List ℕ
  | [] => []
  | f :: fs => slotPath fs ++ [f.done.length]

def frameTasks : List Frame → List RedisReadTask
  | [] => []
  | f :: fs => ⟨some f.type, f.total, itemIdx fs, some (slotPath fs)⟩ :: frameTasks fs

@[simp] theorem frameTasks_nil : frameTasks [] = [] := rfl

@[simp] theorem frameTasks_cons (f : Frame) (fs : List Frame) :
    frameTasks (f :: fs) =
      ⟨some f.type, f.total, itemIdx fs, some (slotPath fs)⟩ :: frameTasks fs := rfl

/-- The elements of an open aggregate, with `slot` in the place of the next one. -/
def Frame.elements (f : Frame) (slot : Option RedisReply) : List (Option RedisReply) :=
  f.done.map some ++ slot :: List.replicate f.missing none

@[simp] theorem Frame.length_elements (f : Frame) (slot : Option RedisReply) :
    (f.elements slot).length = f.total := by
  simp only [elements, total, List.length_append, List.length_map, List.length_cons,
    List.length_replicate]
  omega

theorem Frame.getElem?_elements (f : Frame) (slot : Option RedisReply) :
    (f.elements slot)[f.done.length]? = some slot := by
  simp [elements]

theorem Frame.set_elements (f : Frame) (slot slot' : Option RedisReply) :
    (f.elements slot).set f.done.length slot' = f.elements slot' := by
  simp [elements]

/-- The reply under construction, with `slot` in the place of the next item. -/
def treeOf : List Frame → Option RedisReply → Option RedisReply
  | [], slot => slot
  | f :: fs, slot => treeOf fs (some (.array f.type (f.elements slot)))

@[simp] theorem treeOf_nil (slot : Option RedisReply) : treeOf [] slot = slot := rfl

@[simp] theorem treeOf_cons (f : Frame) (fs : List Frame) (slot : Option RedisReply) :
    treeOf (f :: fs) slot = treeOf fs (some (.array f.type (f.elements slot))) := rfl

theorem treeOf_isSome (frames : List Frame) (v : RedisReply) :
    ∃ root, treeOf frames (some v) = some root := by
  induction frames generalizing v with
  | nil => exact ⟨v, rfl⟩
  | cons f fs ih => exact ih _

/-- An assignment below the place of the next item happens in the object that is there. -/
theorem setElement_treeOf (types : List ReplyType) (obj : RedisReply) (idx : ℤ)
    {root child : RedisReply} {frames : List Frame} (path : List ℕ)
    (h : treeOf frames (some child) = some root) :
    setElement types obj idx root (slotPath frames ++ path) =
      (setElement types obj idx child path).bind fun child => treeOf frames (some child) := by
  induction frames generalizing child path with
  | nil =>
      obtain rfl : child = root := Option.some.inj h
      simp [slotPath]
  | cons f fs ih =>
      rw [slotPath, List.append_assoc, List.singleton_append, ih _ h, setElement,
        f.getElem?_elements]
      dsimp only
      cases setElement types obj idx child path with
      | none => rfl
      | some child' => simp [f.set_elements]

/-- What `fill` leaves is the tree with the new reply in its place. -/
theorem treeOf_fill (frames : List Frame) (v : RedisReply) :
    treeOf frames (some v) = match fill frames v with
      | (_, some w) => some w
      | (frames', none) => treeOf frames' none := by
  induction frames generalizing v with
  | nil => rfl
  | cons f fs ih =>
      rw [treeOf_cons, fill]
      cases hm : f.missing with
      | zero =>
          have helems : f.elements (some v) = (f.done ++ [v]).map some := by
            simp [Frame.elements, hm]
          rw [helems]
          exact ih _
      | succ m =>
          have helems : f.elements (some v) = Frame.elements ⟨f.type, f.done ++ [v], m⟩ none := by
            simp [Frame.elements, hm, List.replicate_succ]
          rw [helems]
          rfl

/-- `moveToNextTask` closes the aggregates that `fill` closes. -/
theorem moveToNextTask_frameTasks {frames : List Frame} {cur : RedisReadTask}
    (hidx : cur.idx = itemIdx frames) (hagg : ∀ f ∈ frames, f.type ∈ aggregateTypes)
    (v : RedisReply) :
    match fill frames v with
    | (_, some _) => moveToNextTask (cur :: frameTasks frames) = some []
    | (frames', none) => ∃ cur' : RedisReadTask, cur'.type = none ∧ cur'.idx = itemIdx frames' ∧
        moveToNextTask (cur :: frameTasks frames) = some (cur' :: frameTasks frames') := by
  induction frames generalizing cur v with
  | nil => simp [fill, moveToNextTask]
  | cons f fs ih =>
      have htype : some f.type ∈ aggregateTypes.map some := by
        simpa using hagg f (by simp)
      rw [frameTasks_cons, moveToNextTask, if_pos htype, fill]
      have hcur : cur.idx = f.done.length := hidx
      cases hm : f.missing with
      | zero =>
          have hlast : cur.idx = (f.total : ℤ) - 1 := by
            rw [hcur, Frame.total, hm]
            omega
          dsimp only
          rw [if_pos hlast]
          exact ih rfl (fun g hg => hagg g (List.mem_cons_of_mem _ hg)) _
      | succ m =>
          have hmore : cur.idx ≠ (f.total : ℤ) - 1 := by
            rw [hcur, Frame.total, hm]
            omega
          have hlt : cur.idx < (f.total : ℤ) := by
            rw [hcur, Frame.total]
            omega
          dsimp only
          rw [if_neg hmore, if_pos hlt]
          have htotal : f.total = Frame.total ⟨f.type, f.done ++ [v], m⟩ := by
            simp only [Frame.total, hm, List.length_append, List.length_singleton]
            omega
          refine ⟨_, rfl, ?_, by rw [frameTasks_cons, htotal]⟩
          simp [itemIdx, hcur]

/-- Closing aggregates keeps their types. -/
theorem fill_aggregates {frames : List Frame} (hagg : ∀ f ∈ frames, f.type ∈ aggregateTypes)
    (v : RedisReply) : ∀ f ∈ (fill frames v).1, f.type ∈ aggregateTypes := by
  induction frames generalizing v with
  | nil => simp [fill]
  | cons f fs ih =>
      have hfs : ∀ g ∈ fs, g.type ∈ aggregateTypes := fun g hg => hagg g (List.mem_cons_of_mem _ hg)
      rw [fill]
      cases f.missing with
      | zero => exact ih hfs _
      | succ m =>
          intro g hg
          cases List.mem_cons.mp hg with
          | inl h => rw [h]; exact hagg f (by simp)
          | inr h => exact hfs g h

theorem length_fill_le (frames : List Frame) (v : RedisReply) :
    (fill frames v).1.length ≤ frames.length := by
  induction frames generalizing v with
  | nil => simp [fill]
  | cons f fs ih =>
      rw [fill]
      cases f.missing with
      | zero => exact (ih _).trans (Nat.le_succ _)
      | succ m => exact le_rfl

theorem length_frameTasks (frames : List Frame) : (frameTasks frames).length = frames.length := by
  induction frames with
  | nil => rfl
  | cons f fs ih => rw [frameTasks_cons, List.length_cons, List.length_cons, ih]

/-! ### The relation -/

/-- A reader without an error, whose buffer is what `pos` and `len` say and not longer than
`size`. -/
structure Buffered (maxelements : ℤ) (size : ℕ) (r : RedisReader) : Prop where
  noErr : r.err = none
  length : r.buf.length = r.len
  pos_le : r.pos ≤ r.len
  len_le : r.len ≤ size
  limit : r.maxelements = maxelements
  tasks : 0 < r.tasks

theorem Buffered.length_cursor {m : ℤ} {size : ℕ} {r : RedisReader} (h : Buffered m size r) :
    r.cursor.length = r.len - r.pos := by
  rw [RedisReader.cursor, List.length_drop, h.length]

/-- Going forward in the buffer. -/
theorem Buffered.skip {m : ℤ} {size : ℕ} {r : RedisReader} (h : Buffered m size r) {n : ℕ}
    (hn : n ≤ r.cursor.length) : Buffered m size { r with pos := r.pos + n } := by
  have hlen := h.length_cursor
  have hpos := h.pos_le
  exact ⟨h.noErr, h.length, by dsimp only; omega, h.len_le, h.limit, h.tasks⟩

theorem cursor_skip (r : RedisReader) (n : ℕ) :
    ({ r with pos := r.pos + n } : RedisReader).cursor = r.cursor.drop n := by
  simp [RedisReader.cursor, List.drop_drop]

/-- The tasks and the reply of a reader that is to read an item inside `frames`. -/
structure AtItem (r : RedisReader) (frames : List Frame) (type : Option ReplyType) : Prop where
  task : ∃ cur, r.stack = cur :: frameTasks frames ∧ cur.idx = itemIdx frames ∧ cur.type = type
  room : frames.length < r.tasks
  aggregates : ∀ f ∈ frames, f.type ∈ aggregateTypes
  reply : r.reply = treeOf frames none

theorem AtItem.skip {r : RedisReader} {frames : List Frame} {type : Option ReplyType}
    (h : AtItem r frames type) (n : ℕ) : AtItem { r with pos := r.pos + n } frames type :=
  ⟨h.task, h.room, h.aggregates, h.reply⟩

/-- The reader `r` is at an item inside `frames` and has the input `pending` before it; a type byte
that was read belongs to it. -/
inductive Tracks (m : ℤ) (size : ℕ) (r : RedisReader) (frames : List Frame) : Bytes → Prop
  | untyped : Buffered m size r → AtItem r frames none → Tracks m size r frames r.cursor
  | typed {c : UInt8} {type : ReplyType} : Buffered m size r → AtItem r frames (some type) →
      typeOfByte c = some type → Tracks m size r frames (c :: r.cursor)

/-- The reader `r` is between two replies, with `o` as the reply that it holds. -/
structure Idle (m : ℤ) (size : ℕ) (r : RedisReader) (pending : Bytes) (o : Option RedisReply) :
    Prop where
  buffered : Buffered m size r
  stack : r.stack = []
  pending : r.cursor = pending
  reply : r.reply = o

/-- After an item: inside `frames`, or at the end of the reply `o`. -/
def After (m : ℤ) (size : ℕ) (r : RedisReader) (frames : List Frame) (o : Option RedisReply)
    (pending : Bytes) : Prop :=
  match o with
  | none => Tracks m size r frames pending
  | some v => Idle m size r pending (some v)

/-- What `redisReaderSetError` leaves. -/
structure Failed (r : RedisReader) (type : ReaderErr) (str : Bytes) : Prop where
  err : r.err = some (type, str.take 127)
  empty : r.buf = [] ∧ r.pos = 0 ∧ r.len = 0
  stack : r.stack = []
  reply : r.reply = none

/-- The result `res` of a call is what the decoder does. -/
def Follows (m : ℤ) (size : ℕ) (res : Option (RedisReader × Status)) (frames : List Frame)
    (pending : Bytes) (next : Decoder.Next (List Frame) UInt8 RedisReply Fault) : Prop :=
  match next with
  | .wait => ∃ r', res = some (r', .err) ∧ Tracks m size r' frames pending
  | .fail (.error type str) => ∃ r', res = some (r', .err) ∧ Failed r' type str
  | .fail .abort => res = none
  | .advance frames' o rest => ∃ r', res = some (r', .ok) ∧ After m size r' frames' o rest

/-- The longest input whose length minus one is an `int`. -/
def seekMax : ℕ := 2147483648

/-! ### Storing an object -/

/-- The types of parents for which the assertion of the reply function of `v` holds. -/
def linkTypes (v : RedisReply) : List ReplyType :=
  if v.Unpushable then [.array, .map, .set] else aggregateTypes

theorem mem_linkTypes {v : RedisReply} {type : ReplyType} (h : type ∈ aggregateTypes) :
    type ∈ linkTypes v ↔ ¬ (type = .push ∧ v.Unpushable) := by
  unfold linkTypes aggregateTypes at *
  split_ifs with hv <;> cases type <;> simp_all

/-- Linking an object puts it in the place of the next item. -/
theorem linkObject_eq {r : RedisReader} {frames : List Frame} {type : Option ReplyType}
    (h : AtItem r frames type) (v : RedisReply) :
    linkObject (linkTypes v) v r =
      if InPush frames ∧ v.Unpushable then none
      else
        some (v, { r with reply := if frames = [] then r.reply else treeOf frames (some v) }) := by
  obtain ⟨cur, hstack, hidx, -⟩ := h.task
  cases frames with
  | nil =>
      have hpush : ¬ (InPush [] ∧ v.Unpushable) := by
        rintro ⟨⟨f, fs, hnil, -⟩, -⟩
        cases hnil
      have hroot : linkObject (linkTypes v) v r = some (v, r) := by
        unfold linkObject
        rw [hstack]
        rfl
      rw [if_neg hpush, hroot]
      rfl
  | cons f fs =>
      obtain ⟨root, hroot⟩ := treeOf_isSome fs (.array f.type (f.elements none))
      have hreply : r.reply = some root := h.reply.trans hroot
      have hpush : InPush (f :: fs) ∧ v.Unpushable ↔ f.type = .push ∧ v.Unpushable := by
        constructor
        · rintro ⟨⟨_, _, heq, ht⟩, hv⟩
          cases heq
          exact ⟨ht, hv⟩
        · rintro ⟨ht, hv⟩
          exact ⟨⟨f, fs, rfl, ht⟩, hv⟩
      have hset := setElement_treeOf (linkTypes v) v cur.idx [] hroot
      rw [List.append_nil, setElement] at hset
      rw [linkObject, hstack, frameTasks_cons, hreply]
      dsimp only
      rw [hset]
      have hmem := mem_linkTypes (v := v) (h.aggregates f (by simp))
      have hbounds : 0 ≤ cur.idx ∧ cur.idx < ((f.elements none).length : ℤ) := by
        rw [hidx, Frame.length_elements, itemIdx, Frame.total]
        omega
      by_cases hp : f.type = .push ∧ v.Unpushable
      · have hnot :
            ¬ (f.type ∈ linkTypes v ∧ 0 ≤ cur.idx ∧ cur.idx < ((f.elements none).length : ℤ)) :=
          fun hc => hmem.mp hc.1 hp
        rw [if_neg hnot, if_pos (hpush.mpr hp)]
        rfl
      · rw [if_pos ⟨hmem.mpr hp, hbounds⟩, if_neg (fun hc => hp (hpush.mp hc))]
        have hnat : cur.idx.toNat = f.done.length := by rw [hidx]; rfl
        rw [hnat, f.set_elements, if_neg (List.cons_ne_nil f fs)]
        obtain ⟨root', hroot'⟩ := treeOf_isSome fs (.array f.type (f.elements (some v)))
        simp [hroot']

/-- What a reader keeps when it stores an object. -/
structure SameInput (r r' : RedisReader) : Prop where
  err : r'.err = r.err
  buf : r'.buf = r.buf
  pos : r'.pos = r.pos
  len : r'.len = r.len
  maxelements : r'.maxelements = r.maxelements
  tasks : r'.tasks = r.tasks

theorem SameInput.buffered {m : ℤ} {size : ℕ} {r r' : RedisReader} (h : SameInput r r')
    (hb : Buffered m size r) :
    Buffered m size r' :=
  ⟨h.err.trans hb.noErr, by rw [h.buf, h.len]; exact hb.length,
    by rw [h.pos, h.len]; exact hb.pos_le,
    by rw [h.len]; exact hb.len_le, h.maxelements.trans hb.limit, by rw [h.tasks]; exact hb.tasks⟩

theorem SameInput.cursor {r r' : RedisReader} (h : SameInput r r') : r'.cursor = r.cursor := by
  rw [RedisReader.cursor, h.buf, h.pos]
  rfl

/-- A reply that its parent takes is stored in its place, and the reader goes to the next task. -/
theorem finishItem_eq {r : RedisReader} {frames : List Frame} {type : Option ReplyType}
    {cur : RedisReadTask} (h : AtItem r frames type) (hstack : r.stack = cur :: frameTasks frames)
    {v : RedisReply} (hpush : ¬ (InPush frames ∧ v.Unpushable)) :
    finishItem (linkObject (linkTypes v) v r) =
      (moveToNextTask (cur :: frameTasks frames)).map fun stack =>
        ({ r with reply := treeOf frames (some v), stack }, .ok) := by
  rw [linkObject_eq h v, if_neg hpush, finishItem]
  dsimp only
  have hlen : r.stack.length = frames.length + 1 := by
    rw [hstack, List.length_cons, length_frameTasks]
  rw [hlen]
  cases frames with
  | nil => simp [hstack]
  | cons f fs => simp [hstack]

/-- Storing a reply does what `place` does. -/
theorem finishItem_follows {m : ℤ} {size : ℕ} {r : RedisReader} {frames : List Frame}
    {type : Option ReplyType} (hb : Buffered m size r) (h : AtItem r frames type) (v : RedisReply)
    (pending : Bytes) :
    Follows m size (finishItem (linkObject (linkTypes v) v r)) frames pending
      (place frames (.leaf v) r.cursor) := by
  obtain ⟨cur, hstack, hidx, -⟩ := h.task
  rw [place]
  split_ifs with hpush
  · rw [linkObject_eq h v, if_pos hpush]
    rfl
  rw [finishItem_eq h hstack hpush]
  have hnext := moveToNextTask_frameTasks hidx h.aggregates v
  have htree := treeOf_fill frames v
  have hagg := fill_aggregates h.aggregates v
  have hlen := length_fill_le frames v
  cases hfill : fill frames v with
  | mk frames' o =>
      rw [hfill] at hnext htree hagg hlen
      cases o with
      | some w =>
          obtain rfl : frames' = [] := by
            have := fill_some hfill
            exact this
          rw [hnext]
          refine ⟨_, rfl, ?_⟩
          have hsame : SameInput r { r with reply := treeOf frames (some v), stack := [] } :=
            ⟨rfl, rfl, rfl, rfl, rfl, rfl⟩
          exact ⟨hsame.buffered hb, rfl, hsame.cursor, htree⟩
      | none =>
          obtain ⟨cur', htype, hidx', hmove⟩ := hnext
          rw [hmove]
          refine ⟨_, rfl, ?_⟩
          have hsame : SameInput r { r with
              reply := treeOf frames (some v), stack := cur' :: frameTasks frames' } :=
            ⟨rfl, rfl, rfl, rfl, rfl, rfl⟩
          show Tracks m size _ frames' r.cursor
          rw [← hsame.cursor]
          exact .untyped (hsame.buffered hb)
            ⟨⟨cur', rfl, hidx', htype⟩, hlen.trans_lt h.room, hagg, htree⟩

/-! ### Lines -/

theorem seekNewlineFrom_eq {n : ℤ} {k : ℕ} {s : Bytes} (hn : n = k + s.length - 1) :
    seekNewlineFrom n k s = (splitLine s).map fun lr => k + lr.1.length := by
  induction s generalizing k with
  | nil => rfl
  | cons c s ih =>
      rw [seekNewlineFrom, splitLine]
      rw [List.length_cons] at hn
      cases s with
      | nil =>
          rw [List.length_nil] at hn
          rw [if_neg (by omega), if_neg (by simp)]
          rfl
      | cons d s =>
          rw [List.length_cons] at hn
          rw [if_pos (by omega)]
          split_ifs with hc
          · simp
          · rw [ih (by rw [List.length_cons]; omega), Option.map_map]
            congr 1
            funext lr
            simp only [Function.comp_apply, List.length_cons]
            omega

theorem intOfSize_sub_one {len : ℕ} (h : len ≤ seekMax) :
    intOfSize (BitVec.ofNat 64 len - 1) = (len : ℤ) - 1 := by
  unfold seekMax at h
  rw [intOfSize, BitVec.toInt_eq_toNat_cond, BitVec.toNat_setWidth, BitVec.toNat_sub,
    BitVec.toNat_ofNat]
  by_cases h0 : len = 0
  · subst h0
    decide
  · have hone : (1 : BitVec 64).toNat = 1 := rfl
    rw [hone]
    split_ifs <;> omega

theorem seekNewline_eq {m : ℤ} {size : ℕ} {r : RedisReader} (hb : Buffered m size r)
    (hmax : r.cursor.length ≤ seekMax) :
    seekNewline r.cursor (r.len - r.pos) = (splitLine r.cursor).map fun lr => lr.1.length := by
  have hlen := hb.length_cursor
  rw [seekNewline, ← hlen, intOfSize_sub_one hmax, seekNewlineFrom_eq (by omega)]
  simp

theorem readLine_eq {m : ℤ} {size : ℕ} {r : RedisReader} (hb : Buffered m size r)
    (hmax : r.cursor.length ≤ seekMax) :
    readLine r = (splitLine r.cursor).map fun lr =>
      (lr.1, { r with pos := r.pos + (lr.1.length + 2) }) := by
  rw [readLine, seekNewline_eq hb hmax, Option.map_map]
  cases h : splitLine r.cursor with
  | none => rfl
  | some lr =>
      obtain ⟨p, rest⟩ := lr
      have htake : r.cursor.take p.length = p := by
        rw [splitLine_eq h, List.append_assoc, List.take_left']
        rfl
      simp [htake]

/-- The reader after the line `p`. -/
theorem skip_line {m : ℤ} {size : ℕ} {r : RedisReader} (hb : Buffered m size r) {p rest : Bytes}
    (h : splitLine r.cursor = some (p, rest)) :
    Buffered m size { r with pos := r.pos + (p.length + 2) } ∧
      ({ r with pos := r.pos + (p.length + 2) } : RedisReader).cursor = rest := by
  have hlen := splitLine_length h
  refine ⟨hb.skip (by omega), ?_⟩
  rw [cursor_skip, splitLine_eq h, List.drop_left']
  simp

theorem failItem_follows (m : ℤ) (size : ℕ) (r : RedisReader) (str : String) (frames : List Frame)
    (pending : Bytes) :
    Follows m size (failItem r str) frames pending (placeScan frames (.bad str)) :=
  ⟨_, rfl, rfl, ⟨rfl, rfl, rfl⟩, rfl, rfl⟩

/-- The objects of the lines that are not numbers or booleans. -/
theorem createStringObject_eq {type : ReplyType}
    (h : type ∈ [ReplyType.error, .status, .string, .verb])
    (str : Bytes) (r : RedisReader) :
    createStringObject type str r =
      linkObject (linkTypes (bulkReply type str)) (bulkReply type str) r := by
  rw [createStringObject, if_pos h, bulkReply]
  split_ifs <;> rfl

section items

variable (strtod : Strtod) {m : ℤ} {size : ℕ} {r : RedisReader} {frames : List Frame}
  {cur : RedisReadTask}
  {type : ReplyType} {c : UInt8}

theorem processLineItem_follows (hb : Buffered m size r) (h : AtItem r frames (some type))
    (hcur : cur.type = some type) (hkind : type.kind = .line) (hc : typeOfByte c = some type)
    (hmax : r.cursor.length ≤ seekMax) :
    Follows m size (processLineItem strtod cur r) frames (c :: r.cursor)
      (placeScan frames (scanLine strtod type r.cursor)) := by
  rw [processLineItem, readLine_eq hb hmax, scanLine]
  cases hline : splitLine r.cursor with
  | none => exact ⟨r, rfl, .typed hb h hc⟩
  | some lr =>
      obtain ⟨p, rest⟩ := lr
      obtain ⟨hb', hcursor⟩ := skip_line hb hline
      have hstore (v : RedisReply) := finishItem_follows hb' (h.skip _) v (c :: r.cursor)
      rw [hcursor] at hstore
      simp only [Option.map_some, hcur]
      cases type with
      | integer =>
          dsimp only [lineReply]
          cases string2ll p with
          | none => exact failItem_follows ..
          | some v => exact hstore (.integer v)
      | double =>
          dsimp only [lineReply]
          cases readDouble strtod p with
          | inr str => exact failItem_follows ..
          | inl d => exact hstore (.double d p)
      | nil => exact hstore .nil
      | bool => exact hstore (.bool _)
      | error =>
          dsimp only [lineReply]
          rw [createStringObject_eq (by simp)]
          exact hstore (.string .error p)
      | status =>
          dsimp only [lineReply]
          rw [createStringObject_eq (by simp)]
          exact hstore (.string .status p)
      | string | verb | array | map | set | push | attr | bignum => cases hkind

/-! ### Bulk strings -/

theorem bulkString_follows (hb : Buffered m size r) (h : AtItem r frames (some type))
    (hcur : cur.type = some type) (hkind : type.kind = .bulk) (hc : typeOfByte c = some type)
    {p rest : Bytes} (hline : splitLine r.cursor = some (p, rest)) (len : ℕ) :
    Follows m size (bulkString cur p.length len r) frames (c :: r.cursor)
      (placeScan frames (scanString type len rest)) := by
  have hlen := splitLine_length hline
  have hcursor := splitLine_eq hline
  have hpos := hb.pos_le
  have hunread := hb.length_cursor
  have hdrop : r.cursor.drop (p.length + 2) = rest := by
    rw [hcursor, List.drop_left']
    simp
  have hget : r.cursor[p.length + 5]? = rest[3]? := by
    rw [← hdrop, List.getElem?_drop]
  have hroom : r.pos + (p.length + 2 + (len + 2)) ≤ r.len ↔ len + 2 ≤ rest.length := by omega
  simp only [bulkString, scanString, hroom, hcur, Option.some.injEq, hget, hdrop]
  by_cases hfits : len + 2 ≤ rest.length
  · rw [if_pos hfits, if_pos hfits]
    split_ifs with hverb
    · exact failItem_follows ..
    · have hb' : Buffered m size { r with pos := r.pos + (p.length + 2 + (len + 2)) } :=
        hb.skip (by omega)
      have hcursor' : ({ r with pos := r.pos + (p.length + 2 + (len + 2)) } : RedisReader).cursor =
          rest.drop (len + 2) := by
        rw [cursor_skip, ← List.drop_drop, hdrop]
      have htype : type ∈ [ReplyType.error, .status, .string, .verb] := by
        cases type <;> simp_all [ReplyType.kind]
      have hstore := finishItem_follows hb' (h.skip _) (bulkReply type (rest.take len))
        (c :: r.cursor)
      rw [hcursor'] at hstore
      rw [createStringObject_eq htype]
      exact hstore
  · rw [if_neg hfits, if_neg hfits]
    exact ⟨r, rfl, .typed hb h hc⟩

theorem processBulkItem_follows (hb : Buffered m size r) (h : AtItem r frames (some type))
    (hcur : cur.type = some type) (hkind : type.kind = .bulk) (hc : typeOfByte c = some type)
    (hmax : r.cursor.length ≤ seekMax) :
    Follows m size (processBulkItem cur r) frames (c :: r.cursor)
      (placeScan frames (scanBulk type r.cursor)) := by
  rw [processBulkItem, seekNewline_eq hb hmax, scanBulk]
  cases hline : splitLine r.cursor with
  | none => exact ⟨r, rfl, .typed hb h hc⟩
  | some lr =>
      obtain ⟨p, rest⟩ := lr
      have htake : r.cursor.take p.length = p := by
        rw [splitLine_eq hline, List.append_assoc, List.take_left']
        rfl
      simp only [Option.map_some, htake]
      cases string2ll p with
      | none => exact failItem_follows ..
      | some len =>
          dsimp only
          split_ifs
          · exact failItem_follows ..
          · obtain ⟨hb', hcursor⟩ := skip_line hb hline
            have hstore := finishItem_follows hb' (h.skip _) .nil (c :: r.cursor)
            rw [hcursor] at hstore
            exact hstore
          · exact bulkString_follows hb h hcur hkind hc hline len.toNat

/-! ### Aggregates -/

theorem mem_aggregateTypes_of_kind (h : type.kind = .aggregate) : type ∈ aggregateTypes := by
  cases type <;> simp_all [ReplyType.kind, aggregateTypes]

theorem linkTypes_array (t : ReplyType) (element : List (Option RedisReply)) :
    linkTypes (.array t element) = aggregateTypes := by
  rw [linkTypes, if_neg]
  simp [RedisReply.Unpushable]

theorem elements_none (t : ReplyType) (missing : ℕ) :
    Frame.elements ⟨t, [], missing⟩ none = List.replicate (missing + 1) none := by
  simp [Frame.elements, List.replicate_succ]

/-- The path of an aggregate is the place in which it is read. -/
theorem objectPath_eq (hidx : cur.idx = itemIdx frames) :
    objectPath cur (frameTasks frames) = some (slotPath frames) := by
  cases frames with
  | nil => rfl
  | cons f fs =>
      rw [frameTasks_cons, objectPath, hidx]
      rfl

/-- The stack of tasks after an aggregate with `missing + 1` elements was opened. -/
theorem openAggregate_tasks (hidx : cur.idx = itemIdx frames) (hcur : cur.type = some type)
    (missing : ℕ) :
    ({ cur with
        elements := ((missing + 1 : ℕ) : ℤ), obj := objectPath cur (frameTasks frames) } :
      RedisReadTask) :: frameTasks frames = frameTasks (⟨type, [], missing⟩ :: frames) := by
  rw [objectPath_eq hidx, frameTasks_cons, hidx, hcur, Frame.total]
  simp [Nat.add_comm]

theorem openAggregate_follows (hb : Buffered m size r) (h : AtItem r frames (some type))
    (hstack : r.stack = cur :: frameTasks frames) (hidx : cur.idx = itemIdx frames)
    (hcur : cur.type = some type) (hkind : type.kind = .aggregate)
    (hroom : frames.length + 1 < r.tasks)
    (elements : ℤ) (pending : Bytes) :
    Follows m size (openAggregate type elements cur (frameTasks frames) r) frames pending
      (placeScan frames
        (if 2305843009213693951 < elements then .fail .oom (ascii "Out of memory")
        else if elements > 0 then .item (.aggregate type (elements.toNat - 1)) r.cursor
        else .item (.leaf (.array type [])) r.cursor)) := by
  rw [openAggregate]
  by_cases hbig : 2305843009213693951 < elements
  · rw [if_pos hbig, if_pos hbig]
    exact ⟨_, rfl, rfl, ⟨rfl, rfl, rfl⟩, rfl, rfl⟩
  rw [if_neg hbig, if_neg hbig]
  by_cases hpos : elements > 0
  · rw [if_pos hpos, if_pos hpos]
    obtain ⟨missing, rfl⟩ : ∃ missing : ℕ, elements = ((missing + 1 : ℕ) : ℤ) :=
      ⟨elements.toNat - 1, by omega⟩
    have hobj := linkObject_eq h (.array type (List.replicate (missing + 1) none))
    rw [linkTypes_array, if_neg (by simp [RedisReply.Unpushable])] at hobj
    rw [createArrayObject, Int.toNat_natCast, hobj]
    dsimp only
    rw [length_frameTasks, if_pos hroom]
    refine ⟨_, rfl, ?_⟩
    have hsame (stack : List RedisReadTask) (reply : Option RedisReply) :
        SameInput r { r with stack, reply } := ⟨rfl, rfl, rfl, rfl, rfl, rfl⟩
    show Tracks m size _ (⟨type, [], missing⟩ :: frames) r.cursor
    rw [← (hsame _ _).cursor]
    refine .untyped ((hsame _ _).buffered hb) ⟨?_, hroom, ?_, ?_⟩
    · exact ⟨elementTask, by rw [openAggregate_tasks hidx hcur], rfl, rfl⟩
    · intro f hf
      cases List.mem_cons.mp hf with
      | inl h0 => rw [h0]; exact mem_aggregateTypes_of_kind hkind
      | inr hf => exact h.aggregates f hf
    · rw [treeOf_cons, elements_none]
      cases frames with
      | nil => rfl
      | cons f fs => simp
  · rw [if_neg hpos, if_neg hpos, createArrayObject]
    have hstore := finishItem_follows hb h (.array type []) pending
    rw [linkTypes_array] at hstore
    exact hstore

theorem processAggregateItem_follows (hb : Buffered m size r) (h : AtItem r frames (some type))
    (hstack : r.stack = cur :: frameTasks frames) (hidx : cur.idx = itemIdx frames)
    (hcur : cur.type = some type) (hkind : type.kind = .aggregate) (hc : typeOfByte c = some type)
    (hmax : r.cursor.length ≤ seekMax) :
    Follows m size (processAggregateItem cur (frameTasks frames) r) frames (c :: r.cursor)
      (placeScan frames (scanAggregate m type r.cursor)) := by
  rw [processAggregateItem]
  -- From here on `r` has room for another task.
  obtain ⟨r₀, hr₀, hb₀, h₀, hstack₀, hcursor₀, hroom₀⟩ : ∃ r₀, r₀ =
      (if (frameTasks frames).length = r.tasks - 1 then redisReaderGrow r else r) ∧
      Buffered m size r₀ ∧ AtItem r₀ frames (some type) ∧ r₀.stack = cur :: frameTasks frames ∧
      r₀.cursor = r.cursor ∧ frames.length + 1 < r₀.tasks := by
    have hroom := h.room
    rw [length_frameTasks]
    by_cases hfull : frames.length = r.tasks - 1
    · have htasks : (redisReaderGrow r).tasks = r.tasks + 9 := rfl
      refine ⟨redisReaderGrow r, by rw [if_pos hfull], ?_, ?_, hstack, rfl, by omega⟩
      · exact ⟨hb.noErr, hb.length, hb.pos_le, hb.len_le, hb.limit, by omega⟩
      · exact ⟨h.task, by omega, h.aggregates, h.reply⟩
    · exact ⟨r, by rw [if_neg hfull], hb, h, hstack, rfl, by omega⟩
  rw [← hr₀, ← hcursor₀, readLine_eq hb₀ (by rwa [hcursor₀]), scanAggregate]
  cases hline : splitLine r₀.cursor with
  | none => exact ⟨r₀, rfl, .typed hb₀ h₀ hc⟩
  | some lr =>
      obtain ⟨p, rest⟩ := lr
      obtain ⟨hb', hcursor⟩ := skip_line hb₀ hline
      have hlimit := hb₀.limit
      subst hlimit
      simp only [Option.map_some, hcur]
      cases string2ll p with
      | none => exact failItem_follows ..
      | some elements =>
          dsimp only
          by_cases hrange : elements < -1 ∨ (r₀.maxelements > 0 ∧ elements > r₀.maxelements)
          · rw [if_pos hrange, if_pos hrange]
            exact failItem_follows ..
          rw [if_neg hrange, if_neg hrange]
          by_cases hnil : elements = -1
          · rw [if_pos hnil, if_pos hnil]
            have hstore := finishItem_follows hb' (h₀.skip _) .nil (c :: r₀.cursor)
            rw [hcursor] at hstore
            exact hstore
          · rw [if_neg hnil, if_neg hnil]
            have hopen := openAggregate_follows hb' (h₀.skip _) hstack₀ hidx hcur hkind hroom₀
              (elementCount type elements) (c :: r₀.cursor)
            rw [hcursor] at hopen
            exact hopen

/-! ### Every item -/

theorem processTyped_follows (hb : Buffered m size r) (h : AtItem r frames (some type))
    (hstack : r.stack = cur :: frameTasks frames) (hidx : cur.idx = itemIdx frames)
    (hcur : cur.type = some type) (hc : typeOfByte c = some type)
    (hmax : r.cursor.length ≤ seekMax) :
    Follows m size (processTyped strtod cur (frameTasks frames) r) frames (c :: r.cursor)
      (placeScan frames (scanTyped strtod m type r.cursor)) := by
  unfold scanTyped processTyped
  rw [hcur]
  cases hkind : type.kind with
  | line =>
      have hline := processLineItem_follows strtod hb h hcur hkind hc hmax
      cases type with
      | error | status | integer | double | nil | bool => exact hline
      | _ => cases hkind
  | bulk =>
      have hbulk := processBulkItem_follows hb h hcur hkind hc hmax
      cases type with
      | string | verb => exact hbulk
      | _ => cases hkind
  | aggregate =>
      have hagg := processAggregateItem_follows hb h hstack hidx hcur hkind hc hmax
      cases type with
      | array | map | set | push => exact hagg
      | _ => cases hkind
  | unknown => exact absurd hkind (kind_of_typeOfByte c type hc)

end items

/-- **One call of `processItem` does what the decoder does.** -/
theorem processItem_follows (strtod : Strtod) {m : ℤ} {size : ℕ} {r : RedisReader}
    {frames : List Frame}
    {pending : Bytes} (h : Tracks m size r frames pending) (hmax : pending.length ≤ seekMax) :
    Follows m size (processItem strtod r) frames pending
      ((replyDecoder strtod m).next frames pending) := by
  show Follows m size (processItem strtod r) frames pending
    (placeScan frames (nextItem strtod m pending))
  cases h with
  | @typed c type hb hat hc =>
      obtain ⟨cur, hstack, hidx, hcur⟩ := hat.task
      rw [List.length_cons] at hmax
      rw [processItem, hstack]
      dsimp only
      have hne : ¬ cur.type = none := by rw [hcur]; simp
      rw [if_neg hne, nextItem, hc]
      exact processTyped_follows strtod hb hat hstack hidx hcur hc (by omega)
  | untyped hb hat =>
      obtain ⟨cur, hstack, hidx, hcur⟩ := hat.task
      have hlen := hb.length_cursor
      rw [processItem, hstack]
      dsimp only
      rw [if_pos hcur, readBytes]
      cases hcursor : r.cursor with
      | nil =>
          rw [hcursor, List.length_nil] at hlen
          rw [if_neg (by omega)]
          refine ⟨r, rfl, ?_⟩
          rw [← hcursor]
          exact .untyped hb hat
      | cons c s =>
          rw [hcursor, List.length_cons] at hlen hmax
          rw [if_pos (by omega)]
          dsimp only
          rw [nextItem]
          cases hc : typeOfByte c with
          | none => exact ⟨_, rfl, rfl, ⟨rfl, rfl, rfl⟩, rfl, rfl⟩
          | some type =>
              dsimp only
              have hs : ({ r with pos := r.pos + 1 } : RedisReader).cursor = s := by
                rw [cursor_skip, hcursor]
                rfl
              have hb' : Buffered m size { r with
                  pos := r.pos + 1
                  stack := { cur with type := some type } :: frameTasks frames } := by
                have hskip := hb.skip (n := 1) (by rw [hcursor, List.length_cons]; omega)
                exact ⟨hskip.noErr, hskip.length, hskip.pos_le, hskip.len_le, hskip.limit,
                  hskip.tasks⟩
              have hat' : AtItem { r with
                  pos := r.pos + 1, stack := { cur with type := some type } :: frameTasks frames }
                  frames (some type) :=
                ⟨⟨_, rfl, hidx, rfl⟩, hat.room, hat.aggregates, hat.reply⟩
              have htyped := processTyped_follows strtod hb' hat' rfl hidx rfl hc
              rw [show RedisReader.cursor { r with
                pos := r.pos + 1, stack := { cur with type := some type } :: frameTasks frames } = s
                from hs] at htyped
              exact htyped (by omega)

end RedisMigrate
