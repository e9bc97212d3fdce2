import Mathlib

/-!
# Maps as sorted association lists

`SortedMap κ ν` is a finite map kept as a list of entries with strictly
increasing keys, so that iterating over it yields the entries in key order.
`insert` replaces the value of a key that is already there.  A map is
determined by its lookups (`ext_find?`).
-/

/-- A finite map, kept as entries in strictly increasing key order. -/
structure SortedMap (κ ν : Type*) [LinearOrder κ] where
  entries : List (κ × ν)
  sorted : entries.Pairwise fun first second => first.1 < second.1

namespace SortedMap

variable {κ ν : Type*} [LinearOrder κ]

instance [DecidableEq ν] : DecidableEq (SortedMap κ ν) := fun first second =>
  decidable_of_iff (first.entries = second.entries) (by
    cases first
    cases second
    simp)

/-- The map without entries. -/
def empty : SortedMap κ ν := ⟨[], .nil⟩

instance : EmptyCollection (SortedMap κ ν) := ⟨empty⟩

instance : Inhabited (SortedMap κ ν) := ⟨empty⟩

/-- The number of entries. -/
def size (m : SortedMap κ ν) : ℕ := m.entries.length

/-- The keys, in increasing order. -/
def keys (m : SortedMap κ ν) : List κ := m.entries.map Prod.fst

/-- The value stored under a key in a list of entries. -/
def lookup (k : κ) : List (κ × ν) → Option ν
  | [] => none
  | (k', v) :: rest => if k = k' then some v else lookup k rest

/-- The value stored under a key. -/
def find? (m : SortedMap κ ν) (k : κ) : Option ν := lookup k m.entries

/-- Insert into a sorted list of entries, replacing the value of an equal key. -/
def insertEntry (k : κ) (v : ν) : List (κ × ν) → List (κ × ν)
  | [] => [(k, v)]
  | (k', v') :: rest =>
      if k < k' then (k, v) :: (k', v') :: rest
      else if k = k' then (k, v) :: rest
      else (k', v') :: insertEntry k v rest

theorem mem_insertEntry {k : κ} {v : ν} {entries : List (κ × ν)} {entry : κ × ν}
    (h : entry ∈ insertEntry k v entries) : entry = (k, v) ∨ entry ∈ entries := by
  induction entries with
  | nil => simpa [insertEntry] using h
  | cons head rest ih =>
      unfold insertEntry at h
      split_ifs at h with hlt heq
      · simpa using h
      · rcases List.mem_cons.mp h with rfl | h
        · exact .inl rfl
        · exact .inr (List.mem_cons_of_mem _ h)
      · rcases List.mem_cons.mp h with rfl | h
        · exact .inr List.mem_cons_self
        · exact (ih h).imp_right (List.mem_cons_of_mem _)

theorem pairwise_insertEntry {k : κ} {v : ν} {entries : List (κ × ν)}
    (h : entries.Pairwise fun first second => first.1 < second.1) :
    (insertEntry k v entries).Pairwise fun first second => first.1 < second.1 := by
  induction entries with
  | nil => simp [insertEntry]
  | cons head rest ih =>
      rw [List.pairwise_cons] at h
      unfold insertEntry
      split_ifs with hlt heq
      · refine List.pairwise_cons.mpr ⟨?_, List.pairwise_cons.mpr h⟩
        intro entry hentry
        rcases List.mem_cons.mp hentry with rfl | hentry
        · exact hlt
        · exact hlt.trans (h.1 entry hentry)
      · refine List.pairwise_cons.mpr ⟨?_, h.2⟩
        intro entry hentry
        show k < entry.1
        rw [heq]
        exact h.1 entry hentry
      · refine List.pairwise_cons.mpr ⟨?_, ih h.2⟩
        intro entry hentry
        rcases mem_insertEntry hentry with rfl | hentry
        · exact lt_of_le_of_ne (not_lt.mp hlt) (Ne.symm heq)
        · exact h.1 entry hentry

/-- Store a value under a key. -/
def insert (m : SortedMap κ ν) (k : κ) (v : ν) : SortedMap κ ν :=
  ⟨insertEntry k v m.entries, pairwise_insertEntry m.sorted⟩

@[simp] theorem entries_empty : (∅ : SortedMap κ ν).entries = [] := rfl

@[simp] theorem size_empty : (∅ : SortedMap κ ν).size = 0 := rfl

@[simp] theorem find?_empty (k : κ) : (∅ : SortedMap κ ν).find? k = none := rfl

/-- Drop the value of a key. -/
def erase (m : SortedMap κ ν) (k : κ) : SortedMap κ ν :=
  ⟨m.entries.filter fun entry => entry.1 ≠ k, m.sorted.filter _⟩

theorem lookup_filter_ne (k : κ) (entries : List (κ × ν)) (k' : κ) :
    lookup k' (entries.filter fun entry => entry.1 ≠ k) =
      if k' = k then none else lookup k' entries := by
  induction entries with
  | nil => simp [lookup]
  | cons head rest ih =>
      obtain ⟨key, value⟩ := head
      by_cases hkey : key = k
      · rw [List.filter_cons_of_neg (by simp [hkey]), ih, lookup, ← hkey]
        split_ifs <;> rfl
      · rw [List.filter_cons_of_pos (by simp [hkey]), lookup, ih, lookup]
        by_cases hhead : k' = key
        · simp [hhead, hkey]
        · simp [hhead]

theorem find?_erase (m : SortedMap κ ν) (k k' : κ) :
    (m.erase k).find? k' = if k' = k then none else m.find? k' :=
  lookup_filter_ne k m.entries k'

/-! ## Lookup after insertion -/

theorem lookup_insertEntry (k : κ) (v : ν) (entries : List (κ × ν)) (k' : κ) :
    lookup k' (insertEntry k v entries) = if k' = k then some v else lookup k' entries := by
  induction entries with
  | nil => simp [insertEntry, lookup]
  | cons head rest ih =>
      obtain ⟨key, value⟩ := head
      rcases lt_trichotomy k key with hlt | rfl | hgt
      · simp only [insertEntry, if_pos hlt]
        rfl
      · simp only [insertEntry, lt_irrefl, if_false, if_true]
        by_cases hk : k' = k <;> simp [lookup, hk]
      · simp only [insertEntry, if_neg hgt.not_gt, if_neg hgt.ne']
        by_cases hkey : k' = key
        · simp [lookup, hkey, hgt.ne]
        · simp [lookup, hkey, ih]

@[simp] theorem find?_insert_self (m : SortedMap κ ν) (k : κ) (v : ν) :
    (m.insert k v).find? k = some v := by
  simp [find?, insert, lookup_insertEntry]

theorem find?_insert (m : SortedMap κ ν) (k : κ) (v : ν) (k' : κ) :
    (m.insert k v).find? k' = if k' = k then some v else m.find? k' :=
  lookup_insertEntry k v m.entries k'

theorem lookup_eq_none_of_forall_lt {k : κ} {entries : List (κ × ν)}
    (h : ∀ entry ∈ entries, k < entry.1) : lookup k entries = none := by
  induction entries with
  | nil => rfl
  | cons head rest ih =>
      have hne : k ≠ head.1 := (h head List.mem_cons_self).ne
      rw [lookup, if_neg hne]
      exact ih fun entry hentry => h entry (List.mem_cons_of_mem _ hentry)

/-- What is found is an entry. -/
theorem lookup_eq_some_iff {entries : List (κ × ν)}
    (h : entries.Pairwise fun first second => first.1 < second.1) {k : κ} {v : ν} :
    lookup k entries = some v ↔ (k, v) ∈ entries := by
  induction entries with
  | nil => simp [lookup]
  | cons head rest ih =>
      obtain ⟨key, value⟩ := head
      rw [List.pairwise_cons] at h
      rw [lookup, List.mem_cons]
      by_cases hkey : k = key
      · subst hkey
        have hnot : (k, v) ∉ rest := fun hmem => (h.1 _ hmem).ne rfl
        simp [hnot, eq_comm]
      · rw [if_neg hkey, ih h.2]
        simp [hkey]

theorem find?_eq_some_iff (m : SortedMap κ ν) {k : κ} {v : ν} :
    m.find? k = some v ↔ (k, v) ∈ m.entries := lookup_eq_some_iff m.sorted

/-- A key below the least one is missing. -/
theorem lookup_cons_eq_none_of_lt {key key' : κ} (value' : ν) {rest : List (κ × ν)}
    (hlt : key < key') (hrest : ∀ entry ∈ rest, key' < entry.1) :
    lookup key ((key', value') :: rest) = none := by
  refine lookup_eq_none_of_forall_lt fun entry hentry => ?_
  rcases List.mem_cons.mp hentry with rfl | hentry
  · exact hlt
  · exact hlt.trans (hrest entry hentry)

/-- Two sorted entry lists with the same lookups are equal. -/
theorem entries_ext {first second : List (κ × ν)}
    (hfirst : first.Pairwise fun a b => a.1 < b.1)
    (hsecond : second.Pairwise fun a b => a.1 < b.1)
    (h : ∀ k, lookup k first = lookup k second) : first = second := by
  induction first generalizing second with
  | nil =>
      cases second with
      | nil => rfl
      | cons head rest =>
          have := h head.1
          simp [lookup] at this
  | cons head rest ih =>
      obtain ⟨key, value⟩ := head
      rw [List.pairwise_cons] at hfirst
      cases second with
      | nil =>
          have := h key
          simp [lookup] at this
      | cons head' rest' =>
          obtain ⟨key', value'⟩ := head'
          rw [List.pairwise_cons] at hsecond
          -- the least keys agree: the smaller one is missing on the other side
          have hkey : key = key' := by
            rcases lt_trichotomy key key' with hlt | heq | hgt
            · have hmissing := lookup_cons_eq_none_of_lt value' hlt hsecond.1
              rw [← h key] at hmissing
              simp [lookup] at hmissing
            · exact heq
            · have hmissing := lookup_cons_eq_none_of_lt value hgt hfirst.1
              rw [h key'] at hmissing
              simp [lookup] at hmissing
          subst hkey
          have hvalue : value = value' := by simpa [lookup] using h key
          subst hvalue
          have hrest : rest = rest' := by
            refine ih hfirst.2 hsecond.2 fun k => ?_
            by_cases hk : k = key
            · subst hk
              rw [lookup_eq_none_of_forall_lt hfirst.1, lookup_eq_none_of_forall_lt hsecond.1]
            · simpa [lookup, hk] using h k
          rw [hrest]

/-- **Extensionality.**  A map is determined by its lookups. -/
theorem ext_find? {first second : SortedMap κ ν} (h : ∀ k, first.find? k = second.find? k) :
    first = second := by
  cases first with
  | mk entries sorted =>
      cases second with
      | mk entries' sorted' =>
          have : entries = entries' := entries_ext sorted sorted' h
          subst this
          rfl

/-! ## Keys and size -/

theorem mem_keys_iff {m : SortedMap κ ν} {k : κ} : k ∈ m.keys ↔ (m.find? k).isSome := by
  unfold keys find?
  induction m.entries with
  | nil => simp [lookup]
  | cons head rest ih =>
      by_cases hk : k = head.1
      · simp [lookup, hk]
      · simp [lookup, hk, ← ih]

theorem keys_nodup (m : SortedMap κ ν) : m.keys.Nodup := by
  unfold keys
  rw [List.Nodup, List.pairwise_map]
  exact m.sorted.imp fun hlt => ne_of_lt hlt

theorem size_eq_card_keys (m : SortedMap κ ν) : m.size = m.keys.toFinset.card := by
  rw [List.toFinset_card_of_nodup m.keys_nodup]
  simp [size, keys]

/-- Maps with the same keys have the same size. -/
theorem size_eq_of_isSome_find? {first second : SortedMap κ ν}
    (h : ∀ k, (first.find? k).isSome = (second.find? k).isSome) : first.size = second.size := by
  rw [size_eq_card_keys, size_eq_card_keys]
  congr 1
  ext k
  rw [List.mem_toFinset, List.mem_toFinset, mem_keys_iff, mem_keys_iff, h k]

theorem toFinset_keys_insert (m : SortedMap κ ν) (k : κ) (v : ν) :
    (m.insert k v).keys.toFinset = Insert.insert k m.keys.toFinset := by
  ext key
  rw [Finset.mem_insert, List.mem_toFinset, List.mem_toFinset, mem_keys_iff, mem_keys_iff,
    find?_insert]
  by_cases h : key = k <;> simp [h]

/-! ## Maps from lists of entries -/

/-- Store the entries of a list one after another. -/
def insertAll (m : SortedMap κ ν) (entries : List (κ × ν)) : SortedMap κ ν :=
  entries.foldl (fun current entry => current.insert entry.1 entry.2) m

@[simp] theorem insertAll_nil (m : SortedMap κ ν) : m.insertAll [] = m := rfl

@[simp] theorem insertAll_cons (m : SortedMap κ ν) (entry : κ × ν) (entries : List (κ × ν)) :
    m.insertAll (entry :: entries) = (m.insert entry.1 entry.2).insertAll entries := rfl

theorem insertAll_append (m : SortedMap κ ν) (first second : List (κ × ν)) :
    m.insertAll (first ++ second) = (m.insertAll first).insertAll second := by
  simp [insertAll]

/-- The values that a list of entries holds under a key, in the order of the list. -/
def valuesAt (k : κ) (entries : List (κ × ν)) : List ν :=
  (entries.filter fun entry => decide (entry.1 = k)).map Prod.snd

/-- The number of different keys in a list of entries. -/
def keyCount (entries : List (κ × ν)) : ℕ := (entries.map Prod.fst).toFinset.card

theorem keyCount_le (entries : List (κ × ν)) : keyCount entries ≤ entries.length :=
  (List.toFinset_card_le _).trans_eq (List.length_map _)

theorem keyCount_of_nodup {entries : List (κ × ν)} (h : (entries.map Prod.fst).Nodup) :
    keyCount entries = entries.length := by
  rw [keyCount, List.toFinset_card_of_nodup h, List.length_map]

@[simp] theorem valuesAt_nil (k : κ) : valuesAt k ([] : List (κ × ν)) = [] := rfl

theorem valuesAt_append (k : κ) (first second : List (κ × ν)) :
    valuesAt k (first ++ second) = valuesAt k first ++ valuesAt k second := by
  simp [valuesAt]

theorem valuesAt_singleton_self (k : κ) (v : ν) : valuesAt k [(k, v)] = [v] := by
  simp [valuesAt]

theorem valuesAt_singleton_of_ne {k k' : κ} (h : k' ≠ k) (v : ν) : valuesAt k [(k', v)] = [] := by
  simp [valuesAt, h]

theorem mem_valuesAt {k : κ} {v : ν} {entries : List (κ × ν)} :
    v ∈ valuesAt k entries ↔ (k, v) ∈ entries := by
  simp [valuesAt]

/-- Where no key is repeated, an entry is the only one with its key. -/
theorem valuesAt_eq_of_nodup {entries : List (κ × ν)} (hnodup : (entries.map Prod.fst).Nodup)
    {k : κ} {v : ν} (h : (k, v) ∈ entries) : valuesAt k entries = [v] := by
  induction entries with
  | nil => simp at h
  | cons entry entries ih =>
      rw [List.map_cons, List.nodup_cons] at hnodup
      rcases List.mem_cons.mp h with rfl | hmem
      · have hrest : valuesAt k entries = [] := by
          rw [List.eq_nil_iff_forall_not_mem]
          intro w hw
          exact hnodup.1 (List.mem_map.mpr ⟨(k, w), mem_valuesAt.mp hw, rfl⟩)
        rw [← List.singleton_append, valuesAt_append, valuesAt_singleton_self, hrest]
        rfl
      · have hne : entry.1 ≠ k := by
          rintro rfl
          exact hnodup.1 (List.mem_map.mpr ⟨_, hmem, rfl⟩)
        rw [← List.singleton_append, valuesAt_append, ih hnodup.2 hmem,
          show [entry] = [(entry.1, entry.2)] from rfl, valuesAt_singleton_of_ne hne]
        rfl

/-- The value under a key is the one of its last entry, if there is one. -/
theorem find?_insertAll (m : SortedMap κ ν) (entries : List (κ × ν)) (k : κ) :
    (m.insertAll entries).find? k = (valuesAt k entries).getLast?.or (m.find? k) := by
  induction entries using List.reverseRecOn with
  | nil => simp
  | append_singleton entries entry ih =>
      rw [insertAll_append, valuesAt_append]
      simp only [insertAll_cons, insertAll_nil, find?_insert, ih]
      by_cases h : entry.1 = k
      · simp [valuesAt, h]
      · simp [valuesAt, h, Ne.symm h]

theorem toFinset_keys_insertAll (m : SortedMap κ ν) (entries : List (κ × ν)) :
    (m.insertAll entries).keys.toFinset =
      m.keys.toFinset ∪ (entries.map Prod.fst).toFinset := by
  induction entries generalizing m with
  | nil => simp
  | cons entry entries ih =>
      rw [insertAll_cons, ih, toFinset_keys_insert]
      ext key
      simp only [Finset.mem_union, Finset.mem_insert, List.map_cons, List.toFinset_cons]
      tauto

theorem size_insertAll_empty (entries : List (κ × ν)) :
    ((∅ : SortedMap κ ν).insertAll entries).size = keyCount entries := by
  rw [size_eq_card_keys, toFinset_keys_insertAll]
  simp [keyCount, keys]

/-- A map is made of its entries. -/
theorem insertAll_entries (m : SortedMap κ ν) : (∅ : SortedMap κ ν).insertAll m.entries = m := by
  apply ext_find?
  intro k
  rw [find?_insertAll, find?_empty, Option.or_none]
  cases hfind : m.find? k with
  | none =>
      have hempty : valuesAt k m.entries = [] := by
        rw [List.eq_nil_iff_forall_not_mem]
        intro v hv
        rw [mem_valuesAt, ← find?_eq_some_iff, hfind] at hv
        cases hv
      rw [hempty]
      rfl
  | some v =>
      rw [valuesAt_eq_of_nodup m.keys_nodup ((find?_eq_some_iff m).mp hfind)]
      rfl
/-- The entry under a key, picked out by any test for the key. -/
theorem filter_of_valuesAt {k : κ} {v : ν} {entries : List (κ × ν)} {p : κ × ν → Bool}
    (hp : ∀ entry ∈ entries, p entry = true ↔ entry.1 = k) (h : valuesAt k entries = [v]) :
    entries.filter p = [(k, v)] := by
  unfold valuesAt at h
  have hfilter : entries.filter p = entries.filter fun entry => decide (entry.1 = k) := by
    apply List.filter_congr
    intro entry hentry
    rw [Bool.eq_iff_iff, hp entry hentry, decide_eq_true_eq]
  obtain ⟨entry, hentry, rfl⟩ := List.map_eq_singleton_iff.mp h
  have hmem : entry ∈ entries.filter fun entry => decide (entry.1 = k) := by
    rw [hentry]
    exact List.mem_singleton_self _
  have hkey : entry.1 = k := by simpa using (List.mem_filter.mp hmem).2
  rw [hfilter, hentry, ← hkey]

theorem size_insert_le (m : SortedMap κ ν) (k : κ) (v : ν) : (m.insert k v).size ≤ m.size + 1 := by
  rw [size_eq_card_keys, size_eq_card_keys, toFinset_keys_insert]
  exact Finset.card_insert_le _ _

/-- The number of entries in a list that a later one with the same key replaces. -/
def replacedCount : List (κ × ν) → ℕ
  | [] => 0
  | entry :: rest => (if entry.1 ∈ rest.map Prod.fst then 1 else 0) + replacedCount rest

/-- Every entry of a list is the last one with its key, or is replaced. -/
theorem keyCount_add_replacedCount (entries : List (κ × ν)) :
    keyCount entries + replacedCount entries = entries.length := by
  induction entries with
  | nil => rfl
  | cons entry entries ih =>
      rw [List.length_cons, ← ih, replacedCount]
      unfold keyCount
      rw [List.map_cons, List.toFinset_cons]
      split_ifs with hmem
      · rw [Finset.insert_eq_of_mem (List.mem_toFinset.mpr hmem)]
        omega
      · rw [Finset.card_insert_of_notMem fun h => hmem (List.mem_toFinset.mp h)]
        omega
end SortedMap
