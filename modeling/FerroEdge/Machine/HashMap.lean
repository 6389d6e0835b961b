import Mathlib.Data.List.AList

/-!
# Hash maps

A hash map is an association list with unique keys, Mathlib's `AList`.  The list is the
order in which an iterator visits the entries.  A hash map promises no order, so nothing that
is proved about every map may depend on where `insert` puts a new entry.

Besides `lookup`, `insert` and `erase` a program uses `get_mut` on one entry (`modify`),
`iter_mut` over all of them (`mapValues`) and `entry(k).or_insert(d)` (`upsert`).
-/

namespace Machine

/-- A hash map, with its entries in iteration order. -/
abbrev HashMap (K V : Type*) := AList (fun _ : K => V)

namespace HashMap

variable {K V : Type*}

/-- The values in iteration order. -/
def values (m : HashMap K V) : List V := m.entries.map fun e => e.2

/-- Change every value, as a loop over `iter_mut` does. -/
def mapValues (f : V → V) (m : HashMap K V) : HashMap K V :=
  ⟨m.entries.map fun e => ⟨e.1, f e.2⟩, by
    rw [List.NodupKeys, List.keys, List.map_map]
    exact m.nodupKeys⟩

variable [DecidableEq K] {k k' : K} {v : V} {m m' : HashMap K V}

/-- Change the value of one key, as an assignment through `get_mut` does. -/
def modify (k : K) (f : V → V) (m : HashMap K V) : HashMap K V :=
  match m.lookup k with
  | some v => m.replace k (f v)
  | none => m

/-- Change the value of one key, which is `d` when it was absent. -/
def upsert (k : K) (d : V) (f : V → V) (m : HashMap K V) : HashMap K V :=
  m.insert k (f ((m.lookup k).getD d))

theorem lookup_insert_if : (m.insert k v).lookup k' = if k' = k then some v else m.lookup k' := by
  by_cases h : k' = k
  · rw [if_pos h, h, AList.lookup_insert]
  · rw [if_neg h, AList.lookup_insert_ne h]

theorem mem_values : v ∈ m.values ↔ ∃ k, m.lookup k = some v := by
  rw [values, List.mem_map]
  constructor
  · rintro ⟨⟨k, w⟩, hmem, rfl⟩
    exact ⟨k, AList.mem_lookup_iff.mpr hmem⟩
  · rintro ⟨k, hk⟩
    exact ⟨⟨k, v⟩, AList.mem_lookup_iff.mp hk, rfl⟩

/-- A value under a new key is one more value. -/
theorem countP_values_insert (p : V → Bool) (h : k ∉ m) :
    (values (m.insert k v)).countP p = m.values.countP p + if p v then 1 else 0 := by
  rw [values, AList.entries_insert_of_notMem h, List.map_cons, List.countP_cons]
  rfl

/-- The values with a property are counted by their keys. -/
theorem countP_values (p : V → Bool) (m : HashMap K V) :
    m.values.countP p = m.keys.countP fun k => (m.lookup k).any p := by
  have hkeys : m.keys = m.entries.map Sigma.fst := rfl
  rw [values, hkeys, List.countP_map, List.countP_map]
  refine List.countP_congr fun e he => ?_
  have hlookup : m.lookup e.1 = some e.2 := AList.mem_lookup_iff.mpr he
  simp [hlookup]

/-- Maps with the same entries have the same keys. -/
theorem perm_keys (h : ∀ k, m.lookup k = m'.lookup k) : m.keys.Perm m'.keys := by
  refine (List.perm_ext_iff_of_nodup m.keys_nodup m'.keys_nodup).mpr fun k => ?_
  rw [← AList.mem_keys, ← AList.mem_keys, ← AList.lookup_isSome, ← AList.lookup_isSome, h k]

theorem lookup_mapValues (f : V → V) : (m.mapValues f).lookup k = (m.lookup k).map f :=
  List.dlookup_map₂ (f := fun _ => f) k

theorem lookup_replace {w : V} (h : m.lookup k = some v) :
    (m.replace k w).lookup k' = if k' = k then some w else m.lookup k' := by
  obtain ⟨l, hl⟩ := m
  simp only [AList.lookup, AList.replace] at h ⊢
  induction l with
  | nil => cases h
  | cons e l ih =>
      obtain ⟨a, u⟩ := e
      have hcons : (⟨a, u⟩ :: l : List (Sigma fun _ : K => V)).kreplace k w
          = if k = a then ⟨k, w⟩ :: l else ⟨a, u⟩ :: l.kreplace k w := by
        by_cases hka : k = a
        · subst hka
          rw [if_pos rfl]
          exact List.lookmap_cons_some _ _ (by simp)
        · rw [if_neg hka]
          exact List.lookmap_cons_none _ _ (by simp [hka])
      rw [hcons]
      by_cases hka : k = a
      · subst hka
        rw [if_pos rfl]
        by_cases hk : k' = k
        · subst hk
          rw [if_pos rfl, List.dlookup_cons_eq]
        · rw [if_neg hk, List.dlookup_cons_ne _ _ hk, List.dlookup_cons_ne _ _ hk]
      · rw [if_neg hka]
        rw [List.dlookup_cons_ne _ _ hka] at h
        by_cases hk : k' = a
        · subst hk
          rw [List.dlookup_cons_eq, List.dlookup_cons_eq, if_neg (fun h' => hka h'.symm)]
        · rw [List.dlookup_cons_ne _ _ hk, List.dlookup_cons_ne _ _ hk]
          exact ih (List.nodupKeys_cons.mp hl).2 h

theorem lookup_modify (f : V → V) :
    (m.modify k f).lookup k' = if k' = k then (m.lookup k).map f else m.lookup k' := by
  unfold modify
  cases h : m.lookup k with
  | none =>
      by_cases hk : k' = k
      · subst hk
        simpa using h
      · simp [hk]
  | some v => exact lookup_replace h

theorem lookup_upsert {d : V} (f : V → V) :
    (m.upsert k d f).lookup k' = if k' = k then some (f ((m.lookup k).getD d)) else m.lookup k' :=
  lookup_insert_if

end HashMap

end Machine
