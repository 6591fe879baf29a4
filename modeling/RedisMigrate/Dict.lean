import RedisMigrate.Buckets
import RedisMigrate.CommandFormat

/-! # The hash table of hiredis

`hiredis/dict.c`.  A chain is the list of its entries, and a pointer to an entry is the key of the
entry.  An operation returns `none` where the code fails an assertion or leaves the table.

* `dict_refines_map`: a dict keeps its invariant (`Dict.Fits`) and is a finite map; every call is
  safe, and its result is the result of the same call of the map.
* `dict_iterates`: an iterator visits every key once. -/

namespace RedisMigrate

/-- `dictEntry`. -/
abbrev DictEntry (K V : Type*) := (_ : K) × V

/-- `dict`, without its `type`. -/
structure Dict (K V : Type*) where
  table : List (List (DictEntry K V))
  size : ℕ
  sizemask : ℕ
  used : ℕ

/-- What `calloc` and `malloc` do during a call; no block is larger than `PTRDIFF_MAX`. -/
structure DictMemory where
  calloc : ℕ → Bool
  malloc : Bool
  calloc_le : ∀ n, calloc n = true → n * 8 ≤ 9223372036854775807

def DictMemory.plenty : DictMemory := ⟨fun n => n * 8 ≤ 9223372036854775807, true, by simp⟩

def dictHtInitialSize : ℕ := 4

/-- `hash * 33 + c` for every byte. -/
def dictGenHashFunction (buf : Bytes) : UInt32 :=
  buf.foldl (fun hash c => ((hash <<< 5) + hash) + c.toUInt32) 5381

/-- `_dictReset`. -/
def dictReset (K V : Type*) : Dict K V := ⟨[], 0, 0, 0⟩

/-- `i` is doubled until it reaches `size`. -/
def dictNextPowerLoop (size : ℕ) : ℕ → ℕ → ℕ
  | 0, i => i
  | fuel + 1, i => if i ≥ size then i else dictNextPowerLoop size fuel (i * 2)

/-- `_dictNextPower`. -/
def dictNextPower (size : ℕ) : ℕ :=
  if size ≥ 9223372036854775807 then 9223372036854775807
  else dictNextPowerLoop size 64 dictHtInitialSize

section operations

variable {K V : Type*} (hash : K → UInt32)

/-- `dictHashKey(ht, key) & sizemask`. -/
def dictSlot (sizemask : ℕ) (key : K) : ℕ := (hash key).toNat &&& sizemask

/-- The chains of the old table into the new one, as long as `ht->used` is positive. -/
def dictRehash (sizemask : ℕ) : List (List (DictEntry K V)) → ℕ → List (List (DictEntry K V)) →
    List (List (DictEntry K V)) × ℕ
  | [], used, n => (n, used)
  | chain :: table, used, n =>
      if used > 0 then
        dictRehash sizemask table (used - chain.length)
          (chain.foldl (Buckets.put (dictSlot hash sizemask)) n)
      else (n, used)

def dictExpand (mem : DictMemory) (ht : Dict K V) (size : ℕ) : Option (Dict K V × Status) :=
  let realsize := dictNextPower size
  if ht.used > size then some (ht, .err)
  else if mem.calloc realsize then
    let n := dictRehash hash (realsize - 1) ht.table ht.used (List.replicate realsize [])
    if n.2 = 0 then some (⟨n.1, realsize, realsize - 1, ht.used⟩, .ok) else none
  else some (ht, .err)

/-- `_dictExpandIfNeeded`. -/
def dictExpandIfNeeded (mem : DictMemory) (ht : Dict K V) : Option (Dict K V × Status) :=
  if ht.size = 0 then dictExpand hash mem ht dictHtInitialSize
  else if ht.used = ht.size then dictExpand hash mem ht (ht.size * 2)
  else some (ht, .ok)

variable [DecidableEq K]

/-- `_dictKeyIndex`; the slot is returned as an `int`. -/
def dictKeyIndex (mem : DictMemory) (ht : Dict K V) (key : K) : Option (Dict K V × ℤ) :=
  (dictExpandIfNeeded hash mem ht).bind fun r =>
    match r with
    | (ht, .err) => some (ht, -1)
    | (ht, .ok) =>
        let h := dictSlot hash ht.sizemask key
        (ht.table[h]?).map fun chain =>
          if (chain.dlookup key).isSome then (ht, -1) else (ht, wrapInt h)

/-- `val` is what `dictSetHashVal` stores, after `valDup`. -/
def dictAdd (mem : DictMemory) (ht : Dict K V) (key : K) (val : V) : Option (Dict K V × Status) :=
  (dictKeyIndex hash mem ht key).bind fun r =>
    let (ht, index) := r
    if index = -1 then some (ht, .err)
    else if mem.malloc then
      if 0 ≤ index ∧ index < ht.table.length then
        some ({ ht with
          table := ht.table.modify index.toNat (⟨key, val⟩ :: ·)
          used := ht.used + 1 }, .ok)
      else none
    else some (ht, .err)

/-- The value in the entry of a key; `none` inside is `NULL`. -/
def dictFind (ht : Dict K V) (key : K) : Option (Option V) :=
  if ht.size = 0 then some none
  else (ht.table[dictSlot hash ht.sizemask key]?).map fun chain => chain.dlookup key

/-- The result says whether the key was added from scratch. -/
def dictReplace (mem : DictMemory) (ht : Dict K V) (key : K) (val : V) : Option (Dict K V × Bool) :=
  (dictAdd hash mem ht key val).bind fun r =>
    match r with
    | (ht, .ok) => some (ht, true)
    | (ht, .err) =>
        (dictFind hash ht key).map fun entry =>
          match entry with
          | none => (ht, false)
          | some _ =>
              ({ ht with table := Buckets.set (dictSlot hash ht.sizemask) ht.table key val }, false)

def dictDelete (ht : Dict K V) (key : K) : Option (Dict K V × Status) :=
  if ht.size = 0 then some (ht, .err)
  else
    (ht.table[dictSlot hash ht.sizemask key]?).map fun chain =>
      if (chain.dlookup key).isSome then
        ({ ht with
          table := Buckets.cut (dictSlot hash ht.sizemask) ht.table key
          used := ht.used - 1 }, .ok)
      else (ht, .err)

end operations

/-! ### Iterators -/

/-- `dictIterator`. -/
structure DictIterator (K : Type*) where
  index : ℤ
  entry : Option K
  nextEntry : Option K

def dictGetIterator (K : Type*) : DictIterator K := ⟨-1, none, none⟩

section iterator

variable {K V : Type*} [DecidableEq K]

/-- The chain from an entry on. -/
def Dict.chainFrom (ht : Dict K V) : Option K → List (DictEntry K V)
  | none => []
  | some key => (ht.table.map fun chain => chain.dropWhile fun e => e.1 ≠ key).flatten

/-- The turns of the loop in `dictNext`; `(signed)iter->ht->size` is an `int`. -/
def dictNextLoop (ht : Dict K V) : ℕ → DictIterator K → DictIterator K × Option (DictEntry K V)
  | 0, iter => (iter, none)
  | fuel + 1, iter =>
      let index := if iter.entry = none then iter.index + 1 else iter.index
      if iter.entry = none ∧ wrapInt ht.size ≤ index then ({ iter with index }, none)
      else
        let chain :=
          if iter.entry = none then (ht.table[index.toNat]?).getD []
          else ht.chainFrom iter.nextEntry
        match chain with
        | [] => dictNextLoop ht fuel { iter with index, entry := none }
        | e :: rest => (⟨index, some e.1, rest.head?.map Sigma.fst⟩, some e)

def dictNext (ht : Dict K V) (iter : DictIterator K) : DictIterator K × Option (DictEntry K V) :=
  dictNextLoop ht (ht.table.length + 2) iter

/-- `while ((de = dictNext(it)) != NULL)`. -/
def dictVisits (ht : Dict K V) : ℕ → DictIterator K → List (DictEntry K V)
  | 0, _ => []
  | fuel + 1, iter =>
      match dictNext ht iter with
      | (_, none) => []
      | (iter, some e) => e :: dictVisits ht fuel iter

end iterator

/-! ### What the operations keep -/

section wf

variable {K V : Type*} {hash : K → UInt32}

/-- Every entry stands in the slot of its key, no key occurs twice, `used` counts the entries, and
there are at most as many entries as slots. -/
structure Dict.Wf (hash : K → UInt32) (ht : Dict K V) : Prop where
  length_table : ht.table.length = ht.size
  sizemask_eq : ht.sizemask = ht.size - 1
  size_eq : ht.size = 0 ∨ ∃ n, 2 ≤ n ∧ ht.size = 2 ^ n
  placed : Buckets.Placed (dictSlot hash ht.sizemask) ht.table
  used_eq : ht.used = ht.table.flatten.length
  used_le : ht.used ≤ ht.size

theorem Dict.Wf.reset : (dictReset K V).Wf hash where
  length_table := rfl
  sizemask_eq := rfl
  size_eq := .inl rfl
  placed := .empty 0
  used_eq := rfl
  used_le := Nat.le_refl _

theorem dictSlot_lt (n : ℕ) (key : K) : dictSlot hash (2 ^ n - 1) key < 2 ^ n := by
  rw [dictSlot, Nat.and_two_pow_sub_one_eq_mod]
  exact Nat.mod_lt _ (Nat.two_pow_pos n)

theorem Dict.Wf.slot_lt {ht : Dict K V} (h : ht.Wf hash) (h0 : ht.size ≠ 0) (key : K) :
    dictSlot hash ht.sizemask key < ht.table.length := by
  obtain ⟨n, -, hn⟩ := h.size_eq.resolve_left h0
  rw [h.length_table, h.sizemask_eq, hn]
  exact dictSlot_lt n key

/-- The chain of a key. -/
theorem Dict.Wf.chain {ht : Dict K V} (h : ht.Wf hash) (h0 : ht.size ≠ 0) (key : K) :
    ∃ chain, ht.table[dictSlot hash ht.sizemask key]? = some chain :=
  ⟨_, List.getElem?_eq_getElem (h.slot_lt h0 key)⟩

theorem Dict.Wf.flatten_eq_nil {ht : Dict K V} (h : ht.Wf hash) (h0 : ht.size = 0) :
    ht.table.flatten = [] := by
  have hle := h.used_le
  have hlen := h.used_eq
  exact List.eq_nil_of_length_eq_zero (by omega)

theorem dictNextPowerLoop_spec {size fuel m : ℕ} (h : size ≤ 2 ^ (m + fuel)) :
    ∃ n, m ≤ n ∧ dictNextPowerLoop size fuel (2 ^ m) = 2 ^ n ∧ size ≤ 2 ^ n ∧
      ∀ k, m ≤ k → size ≤ 2 ^ k → n ≤ k := by
  induction fuel generalizing m with
  | zero => exact ⟨m, le_rfl, rfl, h, fun _ hk _ => hk⟩
  | succ fuel ih =>
      rw [dictNextPowerLoop]
      by_cases hge : size ≤ 2 ^ m
      · exact ⟨m, le_rfl, if_pos hge, hge, fun _ hk _ => hk⟩
      · rw [if_neg hge, ← Nat.pow_succ]
        obtain ⟨n, hmn, heq, hle, hmin⟩ := ih (by rwa [Nat.succ_add])
        refine ⟨n, by omega, heq, hle, fun k hk hsize => hmin k ?_ hsize⟩
        by_contra hlt
        obtain rfl : k = m := by omega
        exact hge hsize

/-- The next power is the least power of two from `4` on that is large enough. -/
theorem dictNextPower_spec {size : ℕ} (h : size < 9223372036854775807) :
    ∃ n, 2 ≤ n ∧ dictNextPower size = 2 ^ n ∧ size ≤ 2 ^ n ∧
      ∀ k, 2 ≤ k → size ≤ 2 ^ k → n ≤ k := by
  rw [dictNextPower, if_neg (by omega)]
  exact dictNextPowerLoop_spec (m := 2) (by omega)

/-- The next power of a power of two, which is not too large, is the power itself. -/
theorem dictNextPower_two_pow {n : ℕ} (hn : 2 ≤ n) (hlt : 2 ^ n < 9223372036854775807) :
    dictNextPower (2 ^ n) = 2 ^ n := by
  obtain ⟨k, -, heq, hle, hmin⟩ := dictNextPower_spec hlt
  have hkn : k ≤ n := hmin n hn le_rfl
  have hnk : n ≤ k := (Nat.pow_le_pow_iff_right (show 1 < 2 by omega)).mp hle
  rw [heq, le_antisymm hkn hnk]

/-- All entries are moved. -/
theorem dictRehash_eq (sizemask : ℕ) (table n : List (List (DictEntry K V))) :
    dictRehash hash sizemask table table.flatten.length n =
      (table.flatten.foldl (Buckets.put (dictSlot hash sizemask)) n, 0) := by
  induction table generalizing n with
  | nil => rfl
  | cons chain table ih =>
      rw [dictRehash, List.flatten_cons, List.length_append, List.foldl_append]
      by_cases hpos : chain.length + table.flatten.length > 0
      · rw [if_pos hpos, Nat.add_sub_cancel_left, ih]
      · obtain rfl : chain = [] := List.eq_nil_of_length_eq_zero (by omega)
        have hrest : table.flatten = [] := List.eq_nil_of_length_eq_zero (by omega)
        simp [hrest]

/-- What `_dictExpandIfNeeded` does: a table that is empty or full gets the next size, with the
same entries, or stays as it is when there is no memory. -/
inductive Expanded (hash : K → UInt32) (ht : Dict K V) (mem : DictMemory) :
    Dict K V × Status → Prop
  | failed {n : ℕ} : ht.used = ht.size → 2 ^ n ≤ max 4 (ht.size * 2) → mem.calloc (2 ^ n) = false →
      Expanded hash ht mem (ht, .err)
  | done {ht' : Dict K V} : ht'.Wf hash → ht'.table.flatten.Perm ht.table.flatten →
      ht'.used < ht'.size →
      ht'.size = ht.size ∨ ht.used = ht.size ∧ ht'.size ≤ max 4 (ht.size * 2) →
      Expanded hash ht mem (ht', .ok)

/-- The table that rehashing leaves. -/
theorem Dict.Wf.rehash {ht : Dict K V} (h : ht.Wf hash) {n : ℕ} (hn : 2 ≤ n)
    (hle : ht.used ≤ 2 ^ n) :
    ∃ table,
      dictRehash hash (2 ^ n - 1) ht.table ht.used (List.replicate (2 ^ n) []) = (table, 0) ∧
      (Dict.mk table (2 ^ n) (2 ^ n - 1) ht.used).Wf hash ∧
      table.flatten.Perm ht.table.flatten := by
  have hidx : ∀ k, dictSlot hash (2 ^ n - 1) k < 2 ^ n := dictSlot_lt n
  obtain ⟨hplaced, hlen, hperm⟩ := Buckets.place_perm hidx h.placed.nodupKeys
  refine ⟨Buckets.place (dictSlot hash (2 ^ n - 1)) (2 ^ n) ht.table.flatten, ?_, ?_, hperm⟩
  · rw [h.used_eq, dictRehash_eq]
    rfl
  · exact ⟨hlen, rfl, .inr ⟨n, hn, rfl⟩, hplaced, by rw [h.used_eq, hperm.length_eq], hle⟩

theorem DictMemory.calloc_eq_false (mem : DictMemory) {n : ℕ} (h : 9223372036854775807 ≤ n) :
    mem.calloc n = false := by
  by_contra hne
  have hcalloc := mem.calloc_le n (by simpa using hne)
  omega

theorem dictExpand_expanded {ht : Dict K V} (h : ht.Wf hash) (mem : DictMemory) {n : ℕ} (hn : 2 ≤ n)
    (hfull : ht.used = ht.size) (hlt : ht.used < 2 ^ n) (hle : 2 ^ n ≤ max 4 (ht.size * 2)) :
    ∃ r, dictExpand hash mem ht (2 ^ n) = some r ∧ Expanded hash ht mem r := by
  rw [dictExpand, if_neg (by omega)]
  by_cases hbig : 2 ^ n < 9223372036854775807
  · rw [dictNextPower_two_pow hn hbig]
    cases hmem : mem.calloc (2 ^ n) with
    | false => exact ⟨_, by rw [if_neg (by simp)], .failed hfull hle hmem⟩
    | true =>
        obtain ⟨table, htable, hwf, hperm⟩ := h.rehash hn hlt.le
        rw [if_pos rfl, htable, if_pos rfl]
        exact ⟨_, rfl, .done hwf hperm hlt (.inr ⟨hfull, hle⟩)⟩
  · have hno : ∀ m, 9223372036854775807 ≤ m → mem.calloc m = false :=
      fun _ => mem.calloc_eq_false
    have hnext : dictNextPower (2 ^ n) = 9223372036854775807 := by
      rw [dictNextPower, if_pos (by omega)]
    rw [hnext]
    exact ⟨_, by rw [if_neg (by simp [hno _ (le_refl _)])], .failed hfull hle (hno _ (by omega))⟩

theorem dictExpandIfNeeded_expanded {ht : Dict K V} (h : ht.Wf hash) (mem : DictMemory) :
    ∃ r, dictExpandIfNeeded hash mem ht = some r ∧ Expanded hash ht mem r := by
  have hused := h.used_le
  rw [dictExpandIfNeeded]
  by_cases h0 : ht.size = 0
  · rw [if_pos h0]
    exact dictExpand_expanded h mem (n := 2) (by omega) (by omega) (by omega) (by omega)
  · rw [if_neg h0]
    obtain ⟨n, hn, hsize⟩ := h.size_eq.resolve_left h0
    by_cases hfull : ht.used = ht.size
    · rw [if_pos hfull, hsize, ← Nat.pow_succ]
      have hpow : 2 ^ (n + 1) = ht.size * 2 := by rw [hsize, Nat.pow_succ]
      exact dictExpand_expanded h mem (by omega) hfull (by omega) (by omega)
    · rw [if_neg hfull]
      exact ⟨_, rfl, .done h (.refl _) (by omega) (.inl rfl)⟩

end wf

/-! ### A dict is a finite map -/

/-- The calls of the table, with the memory that each of them finds. -/
inductive DictCall (K V : Type*) where
  | add (key : K) (val : V) (mem : DictMemory)
  | replace (key : K) (val : V) (mem : DictMemory)
  | delete (key : K)
  | find (key : K)
  | clear

inductive DictRet (V : Type*) where
  | status (ok : Bool)
  | entry (val : Option V)

/-- There is memory for an entry, and for a table of at most 2³⁰ slots. -/
def DictMemory.Suffices (mem : DictMemory) : Prop :=
  mem.malloc = true ∧ ∀ n ≤ 1073741824, mem.calloc n = true

section refinement

variable {K V : Type*} [DecidableEq K]

/-- The entries, without their order. -/
def Dict.map (ht : Dict K V) : Finmap fun _ : K => V := ht.table.flatten.toFinmap

/-- What a call does to a finite map. -/
inductive MapCall (m : Finmap fun _ : K => V) :
    DictCall K V → DictRet V → (Finmap fun _ : K => V) → Prop
  | addNew {k v mem} : k ∉ m → MapCall m (.add k v mem) (.status true) (m.insert k v)
  | addPresent {k v mem} : k ∈ m → MapCall m (.add k v mem) (.status false) m
  | addFailed {k v mem} : k ∉ m → ¬ mem.Suffices → MapCall m (.add k v mem) (.status false) m
  | replaceNew {k v mem} : k ∉ m → MapCall m (.replace k v mem) (.status true) (m.insert k v)
  | replacePresent {k v mem} : k ∈ m →
      MapCall m (.replace k v mem) (.status false) (m.insert k v)
  | replaceFailed {k v mem} : k ∉ m → ¬ mem.Suffices →
      MapCall m (.replace k v mem) (.status false) m
  | deletePresent {k} : k ∈ m → MapCall m (.delete k) (.status true) (m.erase k)
  | deleteAbsent {k} : k ∉ m → MapCall m (.delete k) (.status false) m
  | find {k} : MapCall m (.find k) (.entry (m.lookup k)) m
  | clear : MapCall m .clear (.status true) ∅

/-- A history of calls, with their results, that leads from the empty map to `m`. -/
inductive MapRun : List (DictCall K V × DictRet V) → (Finmap fun _ : K => V) → Prop
  | nil : MapRun [] ∅
  | snoc {log m c r m'} : MapRun log m → MapCall m c r m' → MapRun (log ++ [(c, r)]) m'

variable (hash : K → UInt32)

def dictCall (ht : Dict K V) : DictCall K V → Option (Dict K V × DictRet V)
  | .add key val mem => (dictAdd hash mem ht key val).map fun r => (r.1, .status (r.2 = .ok))
  | .replace key val mem => (dictReplace hash mem ht key val).map fun r => (r.1, .status r.2)
  | .delete key => (dictDelete hash ht key).map fun r => (r.1, .status (r.2 = .ok))
  | .find key => (dictFind hash ht key).map fun entry => (ht, .entry entry)
  | .clear => some (dictReset K V, .status true)

/-- A table with the calls that were made. -/
structure DictRun (K V : Type*) where
  dict : Dict K V
  log : List (DictCall K V × DictRet V)

/-- The calls on a new table, as long as it has fewer than 2³⁰ entries before each of them. -/
def dictLts : Lts (DictRun K V) (DictCall K V) where
  init s := s = ⟨dictReset K V, []⟩
  step s c :=
    if s.dict.used < 1073741824 then
      (dictCall hash s.dict c).map fun r => ⟨r.1, s.log ++ [(c, r.2)]⟩
    else none

end refinement

section calls

variable {K V : Type*} [DecidableEq K] {hash : K → UInt32} {ht : Dict K V}

theorem Dict.mem_map {key : K} : key ∈ ht.map ↔ key ∈ ht.table.flatten.keys :=
  Buckets.mem_toFinmap

theorem Dict.Wf.map_eq (h : ht.Wf hash) {ht' : Dict K V}
    (hperm : ht'.table.flatten.Perm ht.table.flatten) : ht'.map = ht.map :=
  Buckets.toFinmap_perm h.placed.nodupKeys hperm

theorem Dict.Wf.dlookup_chain (h : ht.Wf hash) {key : K} {chain : List (DictEntry K V)}
    (hchain : ht.table[dictSlot hash ht.sizemask key]? = some chain) :
    chain.dlookup key = ht.map.lookup key := by
  rw [h.placed.dlookup_bucket hchain, Dict.map, Finmap.dlookup_list_toFinmap]

/-- A key is looked up in its chain. -/
theorem Dict.Wf.find_eq (h : ht.Wf hash) (key : K) :
    dictFind hash ht key = some (ht.map.lookup key) := by
  rw [dictFind]
  by_cases h0 : ht.size = 0
  · rw [if_pos h0, Dict.map, h.flatten_eq_nil h0]
    rfl
  · obtain ⟨chain, hchain⟩ := h.chain h0 key
    rw [if_neg h0, hchain, Option.map_some, h.dlookup_chain hchain]

/-- What `_dictKeyIndex` does: the table may get its next size, and the index is that of the slot
of the key unless the key is there or there is no memory. -/
inductive Indexed (hash : K → UInt32) (ht : Dict K V) (mem : DictMemory) (key : K) :
    Dict K V × ℤ → Prop
  | refused {ht'} : ht'.Wf hash → ht'.map = ht.map → ht'.size ≤ 1073741824 →
      (key ∉ ht.map → ¬ mem.Suffices) → Indexed hash ht mem key (ht', -1)
  | slot {ht'} : ht'.Wf hash → ht'.map = ht.map → ht'.size ≤ 1073741824 → ht'.used < ht'.size →
      key ∉ ht.map → Indexed hash ht mem key (ht', dictSlot hash ht'.sizemask key)

theorem Dict.Wf.keyIndex (h : ht.Wf hash) (hsize : ht.size ≤ 1073741824)
    (hused : ht.used < 1073741824) (mem : DictMemory) (key : K) :
    ∃ r, dictKeyIndex hash mem ht key = some r ∧ Indexed hash ht mem key r := by
  have hgrow : max 4 (ht.size * 2) ≤ 1073741824 ∨ ht.used ≠ ht.size := by
    by_cases hfull : ht.used = ht.size
    · left
      cases h.size_eq with
      | inl h0 => omega
      | inr hpow =>
          obtain ⟨n, -, hn⟩ := hpow
          have hlt : n < 30 := by
            rw [hfull, hn] at hused
            exact (Nat.pow_lt_pow_iff_right (show 1 < 2 by omega)).mp (show 2 ^ n < 2 ^ 30 by omega)
          have hle : 2 ^ n ≤ 2 ^ 29 := Nat.pow_le_pow_right (by omega) (by omega)
          omega
    · exact .inr hfull
  obtain ⟨r, hr, hexp⟩ := dictExpandIfNeeded_expanded h mem
  rw [dictKeyIndex, hr, Option.bind_some]
  cases hexp with
  | failed hfull hn hmem =>
      refine ⟨_, rfl, .refused h rfl hsize fun _ hs => ?_⟩
      rw [hs.2 _ (by omega)] at hmem
      cases hmem
  | @done ht' hwf hperm hlt hbound =>
      have hsize' : ht'.size ≤ 1073741824 := by omega
      have hmap := h.map_eq hperm
      obtain ⟨chain, hchain⟩ := hwf.chain (by omega) key
      have hslot : wrapInt (dictSlot hash ht'.sizemask key) = dictSlot hash ht'.sizemask key := by
        have hltk := hwf.slot_lt (by omega) key
        rw [hwf.length_table] at hltk
        unfold wrapInt
        omega
      dsimp only
      rw [hchain, Option.map_some, hwf.dlookup_chain hchain, hmap, hslot]
      by_cases hkey : (ht.map.lookup key).isSome
      · rw [if_pos hkey]
        exact ⟨_, rfl, .refused hwf hmap hsize' fun hk => absurd (Finmap.lookup_isSome.mp hkey) hk⟩
      · rw [if_neg hkey]
        exact ⟨_, rfl, .slot hwf hmap hsize' hlt fun hk => hkey (Finmap.lookup_isSome.mpr hk)⟩

/-- What every call keeps. -/
structure Dict.Fits (hash : K → UInt32) (ht : Dict K V) : Prop where
  wf : ht.Wf hash
  size_le : ht.size ≤ 1073741824

/-- The entry of a new key at the head of its chain. -/
theorem Dict.Wf.link (h : ht.Wf hash) {key : K} (val : V) (hnew : key ∉ ht.map)
    (hused : ht.used < ht.size) :
    ∃ ht', ht' = { ht with
        table := Buckets.put (dictSlot hash ht.sizemask) ht.table ⟨key, val⟩
        used := ht.used + 1 } ∧
      ht'.Wf hash ∧ ht'.map = ht.map.insert key val := by
  have hslot := h.slot_lt (by omega) key
  have hperm := h.placed.put_perm (e := ⟨key, val⟩) hslot
  have hplaced := h.placed.put (e := ⟨key, val⟩) hslot fun hmem => hnew (Dict.mem_map.mpr hmem)
  refine ⟨_, rfl, ⟨?_, h.sizemask_eq, h.size_eq, hplaced, ?_, hused⟩, ?_⟩
  · rw [Buckets.length_put, h.length_table]
  · rw [hperm.length_eq, List.length_cons, h.used_eq]
  · rw [Dict.map, Buckets.toFinmap_perm _ hperm, Finmap.toFinmap_cons, Dict.map]
    exact (List.perm_nodupKeys hperm).mp hplaced.nodupKeys

/-- What `dictAdd` does. -/
inductive Added (hash : K → UInt32) (ht : Dict K V) (mem : DictMemory) (key : K) (val : V) :
    Dict K V × Status → Prop
  | refused {ht'} : ht'.Fits hash → ht'.map = ht.map → (key ∉ ht.map → ¬ mem.Suffices) →
      Added hash ht mem key val (ht', .err)
  | added {ht'} : ht'.Fits hash → ht'.map = ht.map.insert key val → key ∉ ht.map →
      Added hash ht mem key val (ht', .ok)

theorem Dict.Fits.add (h : ht.Fits hash) (hused : ht.used < 1073741824) (mem : DictMemory)
    (key : K) (val : V) :
    ∃ r, dictAdd hash mem ht key val = some r ∧ Added hash ht mem key val r := by
  obtain ⟨r, hr, hidx⟩ := h.wf.keyIndex h.size_le hused mem key
  rw [dictAdd, hr, Option.bind_some]
  cases hidx with
  | refused hwf hmap hsize hmem => exact ⟨_, rfl, .refused ⟨hwf, hsize⟩ hmap hmem⟩
  | @slot ht' hwf hmap hsize hlt hnew =>
      have hslot := hwf.slot_lt (by omega) key
      dsimp only
      rw [if_neg (by omega)]
      cases hmalloc : mem.malloc with
      | false =>
          refine ⟨_, if_neg (by simp), .refused ⟨hwf, hsize⟩ hmap fun _ hs => ?_⟩
          rw [hs.1] at hmalloc
          cases hmalloc
      | true =>
          obtain ⟨ht'', rfl, hwf', hmap'⟩ := hwf.link val (hmap ▸ hnew) hlt
          rw [if_pos rfl, if_pos ⟨by omega, by omega⟩, Int.toNat_natCast]
          exact ⟨_, rfl, .added ⟨hwf', hsize⟩ (hmap ▸ hmap') hnew⟩

theorem Dict.Fits.replace (h : ht.Fits hash) (hused : ht.used < 1073741824) (mem : DictMemory)
    (key : K) (val : V) :
    ∃ r, dictReplace hash mem ht key val = some r ∧ r.1.Fits hash ∧
      MapCall ht.map (.replace key val mem) (.status r.2) r.1.map := by
  obtain ⟨r, hr, hadd⟩ := h.add hused mem key val
  rw [dictReplace, hr, Option.bind_some]
  cases hadd with
  | added hfits hmap hnew => exact ⟨_, rfl, hfits, hmap ▸ .replaceNew hnew⟩
  | @refused ht' hfits hmap hmem =>
      dsimp only
      rw [hfits.wf.find_eq, Option.map_some, hmap]
      cases hl : ht.map.lookup key with
      | none =>
          have hnew : key ∉ ht.map := Finmap.lookup_eq_none.mp hl
          refine ⟨_, rfl, hfits, ?_⟩
          dsimp only
          rw [hmap]
          exact .replaceFailed hnew (hmem hnew)
      | some old =>
          have hkey : key ∈ ht.map := Finmap.mem_of_lookup_eq_some hl
          have hkeys : key ∈ ht'.table.flatten.keys := Dict.mem_map.mp (hmap ▸ hkey)
          have hslot : dictSlot hash ht'.sizemask key < ht'.table.length := by
            refine hfits.wf.slot_lt (fun h0 => ?_) key
            rw [hfits.wf.flatten_eq_nil h0] at hkeys
            simp at hkeys
          have hflat := hfits.wf.placed.set_flatten hslot val
          have hlen : (ht'.table.flatten.kreplace key val).length = ht'.table.flatten.length :=
            List.length_lookmap _ _
          refine ⟨_, rfl, ⟨⟨?_, hfits.wf.sizemask_eq, hfits.wf.size_eq,
            hfits.wf.placed.set hslot val, ?_, hfits.wf.used_le⟩, hfits.size_le⟩, ?_⟩
          · rw [Buckets.length_set, hfits.wf.length_table]
          · rw [hflat, hlen, hfits.wf.used_eq]
          · have hset :
                (Buckets.set (dictSlot hash ht'.sizemask) ht'.table key val).flatten.toFinmap =
                  ht.map.insert key val := by
              rw [hflat, Buckets.toFinmap_kreplace val hkeys, ← hmap, Dict.map]
            dsimp only [Dict.map] at hset ⊢
            rw [hset]
            exact .replacePresent hkey

theorem Dict.Fits.delete (h : ht.Fits hash) (key : K) :
    ∃ r, dictDelete hash ht key = some r ∧ r.1.Fits hash ∧
      MapCall ht.map (.delete key) (.status (r.2 = .ok)) r.1.map := by
  rw [dictDelete]
  by_cases h0 : ht.size = 0
  · have habsent : key ∉ ht.map := by
      rw [Dict.mem_map, h.wf.flatten_eq_nil h0]
      simp
    rw [if_pos h0]
    exact ⟨_, rfl, h, .deleteAbsent habsent⟩
  · obtain ⟨chain, hchain⟩ := h.wf.chain h0 key
    rw [if_neg h0, hchain, Option.map_some, h.wf.dlookup_chain hchain]
    by_cases hkey : (ht.map.lookup key).isSome
    · have hmem : key ∈ ht.map := Finmap.lookup_isSome.mp hkey
      have hslot := h.wf.slot_lt h0 key
      have hflat := h.wf.placed.cut_flatten hslot
      have hlen : (ht.table.flatten.kerase key).length = ht.used - 1 := by
        have hkeys := congrArg List.length (List.keys_kerase (a := key) (l := ht.table.flatten))
        rw [List.length_erase_of_mem (Dict.mem_map.mp hmem)] at hkeys
        simp only [List.keys, List.length_map] at hkeys
        rw [h.wf.used_eq, hkeys]
      have hle := h.wf.used_le
      rw [if_pos hkey]
      refine ⟨_, rfl, ⟨⟨?_, h.wf.sizemask_eq, h.wf.size_eq, h.wf.placed.cut hslot, ?_,
        (Nat.sub_le _ _).trans hle⟩, h.size_le⟩, ?_⟩
      · rw [Buckets.length_cut, h.wf.length_table]
      · rw [hflat, hlen]
      · dsimp only [Dict.map]
        rw [hflat, Buckets.toFinmap_kerase h.wf.placed.nodupKeys]
        exact .deletePresent hmem
    · rw [if_neg hkey]
      exact ⟨_, rfl, h, .deleteAbsent fun hk => hkey (Finmap.lookup_isSome.mpr hk)⟩

/-- Every call of a table that fits is safe, and does what it does to a map. -/
theorem Dict.Fits.call (h : ht.Fits hash) (hused : ht.used < 1073741824) (c : DictCall K V) :
    ∃ r, dictCall hash ht c = some r ∧ r.1.Fits hash ∧ MapCall ht.map c r.2 r.1.map := by
  cases c with
  | add key val mem =>
      obtain ⟨r, hr, hadd⟩ := h.add hused mem key val
      rw [dictCall, hr, Option.map_some]
      cases hadd with
      | added hfits hmap hnew => exact ⟨_, rfl, hfits, hmap ▸ .addNew hnew⟩
      | refused hfits hmap hmem =>
          refine ⟨_, rfl, hfits, ?_⟩
          dsimp only
          rw [hmap]
          by_cases hkey : key ∈ ht.map
          · exact .addPresent hkey
          · exact .addFailed hkey (hmem hkey)
  | replace key val mem =>
      obtain ⟨r, hr, hfits, hmap⟩ := h.replace hused mem key val
      exact ⟨_, by rw [dictCall, hr, Option.map_some], hfits, hmap⟩
  | delete key =>
      obtain ⟨r, hr, hfits, hmap⟩ := h.delete key
      exact ⟨_, by rw [dictCall, hr, Option.map_some], hfits, hmap⟩
  | find key => exact ⟨_, by rw [dictCall, h.wf.find_eq, Option.map_some], h, .find⟩
  | clear =>
      refine ⟨_, rfl, ⟨.reset, Nat.zero_le _⟩, ?_⟩
      have hempty : (dictReset K V).map = ∅ := rfl
      rw [hempty]
      exact .clear

theorem dict_fits {s : DictRun K V} (h : (dictLts hash).Reachable s) :
    s.dict.Fits hash ∧ MapRun s.log s.dict.map := by
  refine h.induct (I := fun s => s.dict.Fits hash ∧ MapRun s.log s.dict.map) ?_ ?_
  · intro s hs
    obtain rfl : s = ⟨dictReset K V, []⟩ := hs
    exact ⟨⟨.reset, Nat.zero_le _⟩, .nil⟩
  · intro s c s' _ hI hs
    by_cases hused : s.dict.used < 1073741824
    · obtain ⟨r, hr, hfits, hmap⟩ := hI.1.call hused c
      obtain rfl : ⟨r.1, s.log ++ [(c, r.2)]⟩ = s' := by
        simpa [dictLts, hused, hr] using hs
      exact ⟨hfits, .snoc hI.2 hmap⟩
    · simp [dictLts, hused] at hs

end calls

/-- Five channels, so that the table grows, and one of them removed. -/
def grownDictCalls : List (DictCall Bytes ℕ) :=
  [.add (ascii "a") 1 .plenty, .add (ascii "b") 2 .plenty, .add (ascii "c") 3 .plenty,
    .add (ascii "d") 4 .plenty, .replace (ascii "e") 5 .plenty, .delete (ascii "b")]

def grownDict : DictRun Bytes ℕ :=
  ((dictLts dictGenHashFunction).run ⟨dictReset Bytes ℕ, []⟩ grownDictCalls).get (by decide)

section iteration

variable {K V : Type*} [DecidableEq K] {hash : K → UInt32} {ht : Dict K V}

/-- The entries that an iterator has still to visit. -/
inductive IteratesOver (ht : Dict K V) : DictIterator K → List (DictEntry K V) → Prop
  | slot (i : ℕ) (x : Option K) :
      IteratesOver ht ⟨i - 1, none, x⟩ (ht.table.drop i).flatten
  | chain {i : ℕ} {pre rest : List (DictEntry K V)} {e : DictEntry K V} :
      ht.table[i]? = some (pre ++ e :: rest) →
      IteratesOver ht ⟨i, some e.1, rest.head?.map Sigma.fst⟩
        (rest ++ (ht.table.drop (i + 1)).flatten)

theorem dropWhile_ne_eq_nil {key : K} {chain : List (DictEntry K V)} (h : key ∉ chain.keys) :
    (chain.dropWhile fun e => e.1 ≠ key) = [] := by
  rw [List.dropWhile_eq_nil_iff]
  intro e he
  simp only [ne_eq, decide_not, Bool.not_eq_eq_eq_not, Bool.not_true, decide_eq_false_iff_not]
  exact fun heq => h (heq ▸ List.mem_keys_of_mem he)

/-- The key of an entry leads to the rest of its chain. -/
theorem Dict.Wf.chainFrom_eq (h : ht.Wf hash) {i : ℕ} {pre rest : List (DictEntry K V)}
    {e : DictEntry K V} (hi : ht.table[i]? = some (pre ++ e :: rest)) :
    ht.chainFrom (some e.1) = e :: rest := by
  obtain ⟨hlt, hget⟩ := List.getElem?_eq_some_iff.mp hi
  have htable : ht.table = ht.table.take i ++ (pre ++ e :: rest) :: ht.table.drop (i + 1) := by
    rw [← hget, List.getElem_cons_drop, List.take_append_drop]
  have hnd := h.placed.nodupKeys
  rw [htable] at hnd
  rw [List.flatten_append, List.flatten_cons, List.append_assoc, List.cons_append,
    ← List.append_assoc, List.nodupKeys_middle, List.nodupKeys_cons, List.keys_append,
    List.keys_append, List.keys_append] at hnd
  have hkey : ∀ chain : List (DictEntry K V),
      chain ∈ ht.table.take i ∨ chain = pre ∨ chain ∈ ht.table.drop (i + 1) → e.1 ∉ chain.keys := by
    intro chain hchain hmem
    obtain ⟨e', he', heq⟩ := List.mem_map.mp hmem
    have hin : ∀ l : List (List (DictEntry K V)), chain ∈ l → e.1 ∈ l.flatten.keys := fun l hl =>
      heq ▸ List.mem_keys_of_mem (List.mem_flatten.mpr ⟨chain, hl, he'⟩)
    apply hnd.1
    simp only [List.mem_append]
    cases hchain with
    | inl htake => exact .inl (.inl (hin _ htake))
    | inr hor =>
        cases hor with
        | inl hpre => exact .inl (.inr (hpre ▸ hmem))
        | inr hdrop => exact .inr (.inr (hin _ hdrop))
  have hout : ∀ table : List (List (DictEntry K V)), (∀ chain ∈ table, e.1 ∉ chain.keys) →
      (table.map fun chain => chain.dropWhile fun e' => e'.1 ≠ e.1).flatten = [] := by
    intro table htab
    rw [List.flatten_eq_nil_iff]
    intro l hl
    obtain ⟨chain, hchain, rfl⟩ := List.mem_map.mp hl
    exact dropWhile_ne_eq_nil (htab chain hchain)
  rw [Dict.chainFrom, htable, List.map_append, List.map_cons, List.flatten_append,
    List.flatten_cons, hout _ fun chain hc => hkey chain (.inl hc),
    hout _ fun chain hc => hkey chain (.inr (.inr hc)), List.nil_append, List.append_nil,
    List.dropWhile_append, dropWhile_ne_eq_nil (hkey pre (.inr (.inl rfl)))]
  simp

omit [DecidableEq K] in
theorem Dict.Fits.wrapInt_size (h : ht.Fits hash) : wrapInt ht.size = ht.table.length := by
  have hsize := h.size_le
  have hlen := h.wf.length_table
  unfold wrapInt
  omega

/-- From between two slots the iterator goes to the next entry. -/
theorem dictNextLoop_slot (h : ht.Fits hash) {fuel i : ℕ} (x : Option K) (hpos : 0 < fuel)
    (hfuel : ht.table.length < i + fuel) :
    ∃ iter, dictNextLoop ht fuel ⟨i - 1, none, x⟩ = (iter, (ht.table.drop i).flatten.head?) ∧
      IteratesOver ht iter (ht.table.drop i).flatten.tail := by
  induction fuel generalizing i with
  | zero => omega
  | succ fuel ih =>
      rw [dictNextLoop]
      dsimp only
      rw [if_pos rfl, h.wrapInt_size, Int.sub_add_cancel]
      by_cases hend : ht.table.length ≤ i
      · have hlast : IteratesOver ht _ _ := .slot (i + 1) x
        rw [Nat.cast_add_one, Int.add_sub_cancel, List.drop_of_length_le (by omega)] at hlast
        rw [if_pos ⟨rfl, by omega⟩, List.drop_of_length_le hend]
        exact ⟨_, rfl, hlast⟩
      · have hlt : i < ht.table.length := by omega
        rw [if_neg (by omega), if_pos rfl, Int.toNat_natCast, List.getElem?_eq_getElem hlt,
          Option.getD_some, List.drop_eq_getElem_cons hlt, List.flatten_cons]
        cases hchain : ht.table[i] with
        | nil =>
            have hnext := ih (i := i + 1) (by omega) (by omega)
            rw [Nat.cast_add_one, Int.add_sub_cancel] at hnext
            exact hnext
        | cons e rest =>
            refine ⟨_, rfl, ?_⟩
            have hi : ht.table[i]? = some ([] ++ e :: rest) := by
              rw [List.getElem?_eq_getElem hlt, hchain]
              rfl
            exact .chain hi

/-- `dictNext` returns the first of the entries that are left. -/
theorem dictNext_eq (h : ht.Fits hash) {iter : DictIterator K} {l : List (DictEntry K V)}
    (hit : IteratesOver ht iter l) :
    ∃ iter', dictNext ht iter = (iter', l.head?) ∧ IteratesOver ht iter' l.tail := by
  cases hit with
  | slot i x => exact dictNextLoop_slot h x (by omega) (by omega)
  | @chain i pre rest e hi =>
      rw [dictNext, dictNextLoop]
      dsimp only
      rw [if_neg (by simp), if_neg (by simp), if_neg (by simp)]
      cases rest with
      | nil =>
          have hnext := @dictNextLoop_slot _ _ _ _ _ h (ht.table.length + 1) (i + 1) none (by omega)
            (by omega)
          rw [Nat.cast_add_one, Int.add_sub_cancel] at hnext
          exact hnext
      | cons e' rest =>
          have hi' : ht.table[i]? = some ((pre ++ [e]) ++ e' :: rest) := by simpa using hi
          rw [List.head?_cons, Option.map_some, h.wf.chainFrom_eq hi']
          exact ⟨_, rfl, .chain hi'⟩

theorem dictVisits_eq (h : ht.Fits hash) {fuel : ℕ} {iter : DictIterator K}
    {l : List (DictEntry K V)} (hit : IteratesOver ht iter l) (hfuel : l.length < fuel) :
    dictVisits ht fuel iter = l := by
  induction fuel generalizing iter l with
  | zero => omega
  | succ fuel ih =>
      obtain ⟨iter', hnext, hit'⟩ := dictNext_eq h hit
      rw [dictVisits, hnext]
      cases l with
      | nil => rfl
      | cons e l =>
          rw [List.length_cons] at hfuel
          simp only [List.head?_cons]
          rw [ih hit' (by simpa using hfuel), List.tail_cons]

omit [DecidableEq K] in
theorem dictGetIterator_iterates (ht : Dict K V) :
    IteratesOver ht (dictGetIterator K) ht.table.flatten :=
  .slot 0 none

/-- **Every key once.**  After any calls an iterator visits the entries of the map, each key once,
and ends. -/
theorem dict_iterates {s : DictRun K V} (h : (dictLts hash).Reachable s) :
    (dictVisits s.dict (s.dict.used + 1) (dictGetIterator K)).NodupKeys ∧
      (dictVisits s.dict (s.dict.used + 1) (dictGetIterator K)).toFinmap = s.dict.map := by
  have hfits := (dict_fits h).1
  have hlen := hfits.wf.used_eq
  rw [dictVisits_eq hfits (dictGetIterator_iterates s.dict) (by omega)]
  exact ⟨hfits.wf.placed.nodupKeys, rfl⟩

theorem dict_iterates_grown :
    (dictVisits grownDict.dict (grownDict.dict.used + 1) (dictGetIterator Bytes)).NodupKeys ∧
      (dictVisits grownDict.dict (grownDict.dict.used + 1) (dictGetIterator Bytes)).toFinmap =
        grownDict.dict.map :=
  dict_iterates (Lts.Reachable.of_run (L := dictLts dictGenHashFunction) rfl (by decide))

end iteration

end RedisMigrate
