import Mathlib.Data.Finmap

/-! # Tables of buckets

A table is a list of buckets, and an entry is a key with its value.  `Placed` says that every
entry stands in the bucket that `index` gives for its key, and that no key occurs twice.  Then
the bucket of a key is all that has to be searched (`dlookup_bucket`), and an operation on the
bucket of a key is the same operation on the whole table: `put`, `set` and `cut` keep `Placed` and
do to the entries what `kinsert`, `kreplace` and `kerase` do to a list of them.  `place` builds a
table of any number of buckets from a list of entries (`place_perm`). -/

namespace Buckets

variable {K : Type*} {β : K → Type*}

structure Placed (index : K → ℕ) (table : List (List (Sigma β))) : Prop where
  bucket : ∀ i b, table[i]? = some b → ∀ e ∈ b, index e.1 = i
  nodupKeys : table.flatten.NodupKeys

/-- The entry `e` at the head of its bucket. -/
def put (index : K → ℕ) (table : List (List (Sigma β))) (e : Sigma β) : List (List (Sigma β)) :=
  table.modify (index e.1) (e :: ·)

/-- The entries one after the other into `n` empty buckets. -/
def place (index : K → ℕ) (n : ℕ) (entries : List (Sigma β)) : List (List (Sigma β)) :=
  entries.foldl (put index) (List.replicate n [])

section

variable {index : K → ℕ} {table : List (List (Sigma β))} {k : K}

theorem Placed.empty (n : ℕ) : Placed index (List.replicate n ([] : List (Sigma β))) where
  bucket i b hb e he := by
    rw [List.eq_of_mem_replicate (List.mem_of_getElem? hb)] at he
    cases he
  nodupKeys := by simp

/-- The table around the bucket of a key: the key does not occur outside of the bucket, and to
modify the bucket is to replace it there. -/
theorem Placed.split (h : Placed index table) (hk : index k < table.length) :
    ∃ pre b post, table = pre ++ b :: post ∧ table[index k]? = some b ∧
      k ∉ pre.flatten.keys ∧ k ∉ post.flatten.keys ∧
      ∀ f, table.modify (index k) f = pre ++ f b :: post := by
  have hout : ∀ i b, table[i]? = some b → i ≠ index k → k ∉ b.keys := by
    intro i b hb hi hmem
    obtain ⟨e, he, rfl⟩ := List.mem_map.mp hmem
    exact hi (h.bucket i b hb e he).symm
  refine ⟨table.take (index k), table[index k], table.drop (index k + 1), ?_, by simp, ?_, ?_,
    fun f => List.modify_eq_take_cons_drop hk⟩
  · rw [List.getElem_cons_drop, List.take_append_drop]
  · intro hmem
    obtain ⟨e, he, hek⟩ := List.mem_map.mp hmem
    obtain ⟨b, hb, heb⟩ := List.mem_flatten.mp he
    obtain ⟨i, hi⟩ := List.mem_iff_getElem?.mp hb
    have hlt : i < index k := by
      by_contra hge
      rw [List.getElem?_take_eq_none (by omega)] at hi
      cases hi
    rw [List.getElem?_take_of_lt hlt] at hi
    exact hout i b hi (by omega) (List.mem_map.mpr ⟨e, heb, hek⟩)
  · intro hmem
    obtain ⟨e, he, hek⟩ := List.mem_map.mp hmem
    obtain ⟨b, hb, heb⟩ := List.mem_flatten.mp he
    obtain ⟨i, hi⟩ := List.mem_iff_getElem?.mp hb
    rw [List.getElem?_drop] at hi
    exact hout _ b hi (by omega) (List.mem_map.mpr ⟨e, heb, hek⟩)

/-- A new bucket for a key is as good as the old one when it has no other keys. -/
theorem Placed.modify (h : Placed index table) {f : List (Sigma β) → List (Sigma β)}
    (hf : ∀ b, ∀ e ∈ f b, e ∈ b ∨ e.1 = k)
    (hnd : (table.modify (index k) f).flatten.NodupKeys) :
    Placed index (table.modify (index k) f) where
  bucket i b hb e he := by
    rw [List.getElem?_modify] at hb
    obtain ⟨b', hb', rfl⟩ := Option.map_eq_some_iff.mp hb
    by_cases hi : index k = i
    · rw [if_pos hi] at he
      cases hf b' e he with
      | inl hmem => exact h.bucket i b' hb' e hmem
      | inr hek => rw [hek, hi]
    · rw [if_neg hi] at he
      exact h.bucket i b' hb' e he
  nodupKeys := hnd

theorem Placed.put_perm (h : Placed index table) {e : Sigma β} (hk : index e.1 < table.length) :
    (put index table e).flatten.Perm (e :: table.flatten) := by
  obtain ⟨pre, b, post, htable, -, -, -, hmod⟩ := h.split hk
  rw [put, hmod, htable]
  simp only [List.flatten_append, List.flatten_cons, List.cons_append]
  exact List.perm_middle

theorem Placed.put (h : Placed index table) {e : Sigma β} (hk : index e.1 < table.length)
    (hnew : e.1 ∉ table.flatten.keys) : Placed index (put index table e) := by
  refine h.modify ?_ ?_
  · intro b e' he'
    cases List.mem_cons.mp he' with
    | inl heq => exact .inr (by rw [heq])
    | inr hmem => exact .inl hmem
  · have hperm := h.put_perm hk
    rw [Buckets.put] at hperm
    rw [List.perm_nodupKeys hperm, List.nodupKeys_cons]
    exact ⟨hnew, h.nodupKeys⟩

@[simp] theorem length_put (index : K → ℕ) (table : List (List (Sigma β))) (e : Sigma β) :
    (Buckets.put index table e).length = table.length := by
  simp [Buckets.put]

/-- Entries put into a table one after the other. -/
theorem Placed.foldl_put (h : Placed index table) {entries : List (Sigma β)}
    (hidx : ∀ k, index k < table.length) (hnd : (entries ++ table.flatten).NodupKeys) :
    Placed index (entries.foldl (Buckets.put index) table) ∧
      (entries.foldl (Buckets.put index) table).length = table.length ∧
      (entries.foldl (Buckets.put index) table).flatten.Perm (entries ++ table.flatten) := by
  induction entries generalizing table with
  | nil => exact ⟨h, rfl, .refl _⟩
  | cons e entries ih =>
      rw [List.cons_append, List.nodupKeys_cons] at hnd
      have hnew : e.1 ∉ table.flatten.keys := by
        intro hmem
        exact hnd.1 (by rw [List.keys_append]; exact List.mem_append_right _ hmem)
      have hperm : (entries ++ (Buckets.put index table e).flatten).Perm
          (e :: (entries ++ table.flatten)) :=
        (List.Perm.append_left entries (h.put_perm (hidx e.1))).trans List.perm_middle
      obtain ⟨hp, hl, hfl⟩ := ih (h.put (hidx e.1) hnew) (by simpa using hidx)
        ((List.perm_nodupKeys hperm).mpr (List.nodupKeys_cons.mpr hnd))
      exact ⟨hp, by rw [List.foldl_cons, hl, length_put], hfl.trans hperm⟩

/-- What is placed in empty buckets. -/
theorem place_perm {n : ℕ} (hidx : ∀ k, index k < n) {entries : List (Sigma β)}
    (hnd : entries.NodupKeys) :
    Placed index (place index n entries) ∧ (place index n entries).length = n ∧
      (place index n entries).flatten.Perm entries := by
  have hempty : Placed index (List.replicate n ([] : List (Sigma β))) := .empty n
  have h := @Placed.foldl_put _ _ _ _ hempty entries (by simpa using hidx) (by simpa using hnd)
  simpa [place] using h

section

variable [DecidableEq K]

/-- The value of a key, changed. -/
def set (index : K → ℕ) (table : List (List (Sigma β))) (k : K) (v : β k) : List (List (Sigma β)) :=
  table.modify (index k) (List.kreplace k v)

/-- The entry of a key, unlinked. -/
def cut (index : K → ℕ) (table : List (List (Sigma β))) (k : K) : List (List (Sigma β)) :=
  table.modify (index k) (List.kerase k)

@[simp] theorem length_set (index : K → ℕ) (table : List (List (Sigma β))) (k : K) (v : β k) :
    (set index table k v).length = table.length := by
  simp [set]

@[simp] theorem length_cut (index : K → ℕ) (table : List (List (Sigma β))) (k : K) :
    (cut index table k).length = table.length := by
  simp [cut]

/-- A key is looked up in its bucket. -/
theorem Placed.dlookup_bucket (h : Placed index table) {b : List (Sigma β)}
    (hb : table[index k]? = some b) : b.dlookup k = table.flatten.dlookup k := by
  obtain ⟨hlt, -⟩ := List.getElem?_eq_some_iff.mp hb
  obtain ⟨pre, b', post, htable, hb', hpre, hpost, -⟩ := h.split hlt
  obtain rfl : b = b' := Option.some.inj (hb.symm.trans hb')
  rw [htable, List.flatten_append, List.flatten_cons, List.dlookup_append, List.dlookup_append,
    List.dlookup_eq_none.mpr hpre, List.dlookup_eq_none.mpr hpost]
  simp

theorem kreplace_cons_eq (l : List (Sigma β)) (e : Sigma β) (v : β e.1) :
    (e :: l).kreplace e.1 v = ⟨e.1, v⟩ :: l :=
  List.lookmap_cons_some _ _ (if_pos rfl)

theorem kreplace_cons_ne (l : List (Sigma β)) {e : Sigma β} {k : K} (v : β k) (h : k ≠ e.1) :
    (e :: l).kreplace k v = e :: l.kreplace k v :=
  List.lookmap_cons_none _ _ (if_neg h)

theorem kreplace_append_right (l₁ l₂ : List (Sigma β)) {k : K} (v : β k) (h : k ∉ l₁.keys) :
    (l₁ ++ l₂).kreplace k v = l₁ ++ l₂.kreplace k v := by
  induction l₁ with
  | nil => rfl
  | cons e l₁ ih =>
      rw [List.keys_cons, List.mem_cons, not_or] at h
      rw [List.cons_append, kreplace_cons_ne _ _ h.1, ih h.2, List.cons_append]

theorem kreplace_append_left (l₁ l₂ : List (Sigma β)) {k : K} (v : β k) (h : k ∉ l₂.keys) :
    (l₁ ++ l₂).kreplace k v = l₁.kreplace k v ++ l₂ := by
  have hself : ∀ l : List (Sigma β), k ∉ l.keys → l.kreplace k v = l := by
    intro l hl
    exact List.kreplace_of_forall_not k v fun _ hb => List.notMem_keys.mp hl _ hb
  induction l₁ with
  | nil => rw [List.nil_append, hself l₂ h, hself [] (by simp), List.nil_append]
  | cons e l₁ ih =>
      by_cases hk : k = e.1
      · subst hk
        rw [List.cons_append, kreplace_cons_eq, kreplace_cons_eq, List.cons_append]
      · rw [List.cons_append, kreplace_cons_ne _ _ hk, ih, kreplace_cons_ne _ _ hk,
          List.cons_append]

theorem mem_kreplace {l : List (Sigma β)} {k : K} {v : β k} {e : Sigma β}
    (h : e ∈ l.kreplace k v) : e ∈ l ∨ e.1 = k := by
  induction l with
  | nil => simp [List.kreplace] at h
  | cons e' l ih =>
      by_cases hk : k = e'.1
      · subst hk
        rw [kreplace_cons_eq] at h
        cases List.mem_cons.mp h with
        | inl heq => exact .inr (by rw [heq])
        | inr hmem => exact .inl (List.mem_cons_of_mem _ hmem)
      · rw [kreplace_cons_ne _ _ hk] at h
        cases List.mem_cons.mp h with
        | inl heq => exact .inl (heq ▸ List.mem_cons_self)
        | inr hmem => exact (ih hmem).imp_left (List.mem_cons_of_mem _)

theorem dlookup_kreplace {l : List (Sigma β)} {k : K} (v : β k) (h : k ∈ l.keys) :
    (l.kreplace k v).dlookup k = some v := by
  induction l with
  | nil => simp at h
  | cons e l ih =>
      by_cases hk : k = e.1
      · subst hk
        rw [kreplace_cons_eq, List.dlookup_cons_eq]
      · rw [kreplace_cons_ne _ _ hk, List.dlookup_cons_ne _ _ hk]
        rw [List.keys_cons, List.mem_cons] at h
        exact ih (h.resolve_left hk)

theorem dlookup_kreplace_ne {l : List (Sigma β)} {k k' : K} (v : β k) (h : k' ≠ k) :
    (l.kreplace k v).dlookup k' = l.dlookup k' := by
  induction l with
  | nil => rfl
  | cons e l ih =>
      by_cases hk : k = e.1
      · subst hk
        rw [kreplace_cons_eq, List.dlookup_cons_ne l e h, List.dlookup_cons_ne l ⟨e.1, v⟩ h]
      · rw [kreplace_cons_ne _ _ hk]
        by_cases hk' : k' = e.1
        · subst hk'
          rw [List.dlookup_cons_eq, List.dlookup_cons_eq]
        · rw [List.dlookup_cons_ne _ _ hk', List.dlookup_cons_ne _ _ hk', ih]

/-! ### As finite maps -/

theorem toFinmap_perm {l l' : List (Sigma β)} (hnd : l'.NodupKeys) (h : l.Perm l') :
    l.toFinmap = l'.toFinmap := by
  apply Finmap.ext_lookup
  intro x
  rw [Finmap.dlookup_list_toFinmap, Finmap.dlookup_list_toFinmap]
  exact List.perm_dlookup x ((List.perm_nodupKeys h).mpr hnd) h

theorem toFinmap_kreplace {l : List (Sigma β)} {k : K} (v : β k) (h : k ∈ l.keys) :
    (l.kreplace k v).toFinmap = l.toFinmap.insert k v := by
  apply Finmap.ext_lookup
  intro x
  rw [Finmap.dlookup_list_toFinmap]
  by_cases hx : x = k
  · subst hx
    rw [dlookup_kreplace v h, Finmap.lookup_insert]
  · rw [dlookup_kreplace_ne v hx, Finmap.lookup_insert_of_ne _ hx, Finmap.dlookup_list_toFinmap]

theorem toFinmap_kerase {l : List (Sigma β)} (hnd : l.NodupKeys) (k : K) :
    (l.kerase k).toFinmap = l.toFinmap.erase k := by
  apply Finmap.ext_lookup
  intro x
  rw [Finmap.dlookup_list_toFinmap]
  by_cases hx : x = k
  · subst hx
    rw [List.dlookup_kerase x hnd, Finmap.lookup_erase]
  · rw [List.dlookup_kerase_ne hx, Finmap.lookup_erase_ne hx, Finmap.dlookup_list_toFinmap]

theorem mem_toFinmap {l : List (Sigma β)} {k : K} : k ∈ l.toFinmap ↔ k ∈ l.keys := by
  rw [← Finmap.lookup_isSome, Finmap.dlookup_list_toFinmap, List.dlookup_isSome]

theorem Placed.set_flatten (h : Placed index table) (hk : index k < table.length) (v : β k) :
    (set index table k v).flatten = table.flatten.kreplace k v := by
  obtain ⟨pre, b, post, htable, -, hpre, hpost, hmod⟩ := h.split hk
  rw [set, hmod, htable, List.flatten_append, List.flatten_cons, List.flatten_append,
    List.flatten_cons, kreplace_append_right _ _ _ hpre, kreplace_append_left _ _ _ hpost]

theorem Placed.set (h : Placed index table) (hk : index k < table.length) (v : β k) :
    Placed index (set index table k v) := by
  refine h.modify (fun b e he => mem_kreplace he) ?_
  have hfl := h.set_flatten hk v
  rw [Buckets.set] at hfl
  rw [hfl, List.kreplace_nodupKeys]
  exact h.nodupKeys

theorem Placed.cut_flatten (h : Placed index table) (hk : index k < table.length) :
    (cut index table k).flatten = table.flatten.kerase k := by
  obtain ⟨pre, b, post, htable, -, hpre, hpost, hmod⟩ := h.split hk
  rw [cut, hmod, htable, List.flatten_append, List.flatten_cons, List.flatten_append,
    List.flatten_cons, List.kerase_append_right hpre]
  congr 1
  by_cases hb : k ∈ b.keys
  · rw [List.kerase_append_left hb]
  · rw [List.kerase_append_right hb, List.kerase_of_notMem_keys hb,
      List.kerase_of_notMem_keys hpost]

theorem Placed.cut (h : Placed index table) (hk : index k < table.length) :
    Placed index (cut index table k) := by
  refine h.modify (fun b e he => .inl ((List.kerase_sublist k b).subset he)) ?_
  have hfl := h.cut_flatten hk
  rw [Buckets.cut] at hfl
  rw [hfl]
  exact h.nodupKeys.kerase k

end

end

end Buckets
