import Mathlib.Data.List.Nodup

/-!
# Bounded maps with least-recently-used eviction

An `Lru` holds at most `cap` entries, the most recently used one first.  A hit through
`getMut` and an insertion through `put` move the entry to the front, and an insertion of a new
key into a full map drops the last entry.

The keys are distinct and the bound holds in every value of the type.
-/

namespace Machine

structure Lru (K V : Type*) where
  cap : Nat
  /-- The entries, the most recently used one first. -/
  entries : List (K × V)
  cap_pos : 0 < cap
  nodupKeys : (entries.map Prod.fst).Nodup
  bounded : entries.length ≤ cap

namespace Lru

variable {K V : Type*} [DecidableEq K] {k k' : K} {v v' : V} {l : Lru K V}

/-- The entries of other keys. -/
def without (k : K) (entries : List (K × V)) : List (K × V) := entries.filter fun e => e.1 ≠ k

theorem mem_without {entries : List (K × V)} {e : K × V} :
    e ∈ without k entries ↔ e ∈ entries ∧ e.1 ≠ k := by
  simp [without]

/-- No key is lost when the entry of one is replaced. -/
theorem exists_mem_cons_without {entries : List (K × V)} {e : K × V} (h : e ∈ entries) :
    ∃ v', (e.1, v') ∈ (k, v) :: without k entries := by
  by_cases hk : e.1 = k
  · exact ⟨v, hk ▸ List.mem_cons_self⟩
  · exact ⟨e.2, List.mem_cons_of_mem _ (mem_without.mpr ⟨h, hk⟩)⟩

theorem without_eq_self {entries : List (K × V)} (h : ∀ e ∈ entries, e.1 ≠ k) :
    without k entries = entries :=
  List.filter_eq_self.mpr fun e he => decide_eq_true (h e he)

theorem nodup_cons_without {entries rest : List (K × V)} (h : (entries.map Prod.fst).Nodup)
    (hrest : rest.Sublist (without k entries)) :
    (((k, v) :: rest).map Prod.fst).Nodup := by
  rw [List.map_cons, List.nodup_cons]
  constructor
  · intro hk
    obtain ⟨e, he, hek⟩ := List.mem_map.mp hk
    exact (mem_without.mp (hrest.subset he)).2 hek
  · exact h.sublist ((hrest.trans List.filter_sublist).map Prod.fst)

/-- An order of the keys in which the entries stand is kept when a key is taken to the front. -/
theorem pairwise_cons_without {R R' : K → K → Prop} {entries rest : List (K × V)}
    (h : entries.Pairwise fun e e' => R e'.1 e.1) (hrest : rest.Sublist (without k entries))
    (hfront : ∀ a, a ≠ k → R' a k) (hkeep : ∀ a b, a ≠ k → R a b → R' a b) :
    ((k, v) :: rest).Pairwise fun e e' => R' e'.1 e.1 := by
  have hne : ∀ e ∈ rest, e.1 ≠ k := fun e he => (mem_without.mp (hrest.subset he)).2
  rw [List.pairwise_cons]
  refine ⟨fun e he => hfront e.1 (hne e he), ?_⟩
  have hold := h.sublist (hrest.trans List.filter_sublist)
  exact hold.imp_of_mem fun _ he' hR => hkeep _ _ (hne _ he') hR

/-- The empty map with room for `cap` entries. -/
def new (cap : Nat) (h : 0 < cap) : Lru K V := ⟨cap, [], h, List.nodup_nil, Nat.zero_le _⟩

def len (l : Lru K V) : Nat := l.entries.length

/-- The value of a key, without using it. -/
def peek (l : Lru K V) (k : K) : Option V := (l.entries.find? fun e => e.1 = k).map Prod.snd

/-- The least recently used entry. -/
def peekLru (l : Lru K V) : Option (K × V) := l.entries.getLast?

theorem mem_of_peek (h : l.peek k = some v) : (k, v) ∈ l.entries := by
  obtain ⟨⟨k', v'⟩, hfind, rfl⟩ := Option.map_eq_some_iff.mp h
  have hk := List.find?_some hfind
  rw [decide_eq_true_eq] at hk
  exact hk ▸ List.mem_of_find?_eq_some hfind

theorem peek_eq_none : l.peek k = none ↔ ∀ v, (k, v) ∉ l.entries := by
  rw [peek, Option.map_eq_none_iff, List.find?_eq_none]
  constructor
  · intro h v hv
    exact h (k, v) hv (decide_eq_true rfl)
  · intro h e he hk
    exact h e.2 (of_decide_eq_true hk ▸ he)

theorem isSome_peek : (l.peek k).isSome ↔ ∃ v, (k, v) ∈ l.entries := by
  rw [← Option.ne_none_iff_isSome, Ne, peek_eq_none]
  simp

/-- An entry comes once, so it can be taken to the front. -/
theorem perm_cons_without {entries : List (K × V)} (hn : (entries.map Prod.fst).Nodup)
    (h : (k, v) ∈ entries) : entries.Perm ((k, v) :: without k entries) := by
  induction entries with
  | nil => cases h
  | cons e rest ih =>
      rw [List.map_cons, List.nodup_cons] at hn
      cases h with
      | head =>
          have hrest : without k rest = rest :=
            without_eq_self fun e he hk => hn.1 (List.mem_map.mpr ⟨e, he, hk⟩)
          have hcons : without k ((k, v) :: rest) = without k rest := by simp [without]
          rw [hcons, hrest]
      | tail _ h =>
          have hne : e.1 ≠ k := by
            intro hk
            exact hn.1 (List.mem_map.mpr ⟨(k, v), h, hk.symm⟩)
          have hcons : without k (e :: rest) = e :: without k rest := by
            simp [without, hne]
          rw [hcons]
          exact ((ih hn.2 h).cons e).trans (List.Perm.swap _ _ _)

/-- An entry is the one of the key or one of the others. -/
theorem mem_entries_of_peek (hp : l.peek k = some v) {e : K × V} :
    e ∈ l.entries ↔ e = (k, v) ∨ e ∈ without k l.entries := by
  rw [(perm_cons_without l.nodupKeys (mem_of_peek hp)).mem_iff, List.mem_cons]

theorem peek_iff_mem : l.peek k = some v ↔ (k, v) ∈ l.entries := by
  refine ⟨mem_of_peek, fun h => ?_⟩
  cases hp : l.peek k with
  | none => exact absurd h (peek_eq_none.mp hp v)
  | some v' =>
      obtain hhead | hrest := (mem_entries_of_peek hp).mp h
      · rw [(Prod.mk.inj hhead).2]
      · exact absurd rfl (mem_without.mp hrest).2

theorem without_of_peek_none (h : l.peek k = none) : without k l.entries = l.entries :=
  without_eq_self fun e he hk => peek_eq_none.mp h e.2 (hk ▸ he)

theorem length_without_lt (h : l.peek k = some v) :
    (without k l.entries).length < l.entries.length :=
  List.length_filter_lt_length_iff_exists.mpr ⟨(k, v), mem_of_peek h, by simp⟩

/-- Use the value of a key and change it. -/
def getMut (l : Lru K V) (k : K) (f : V → V) : Lru K V :=
  match h : l.peek k with
  | none => l
  | some v =>
      { l with
        entries := (k, f v) :: without k l.entries
        nodupKeys := nodup_cons_without l.nodupKeys (List.Sublist.refl _)
        bounded := Nat.le_trans (length_without_lt h) l.bounded }

def pop (l : Lru K V) (k : K) : Lru K V :=
  { l with
    entries := without k l.entries
    nodupKeys := l.nodupKeys.sublist (List.filter_sublist.map Prod.fst)
    bounded := Nat.le_trans (List.length_filter_le _ _) l.bounded }

def put (l : Lru K V) (k : K) (v : V) : Lru K V :=
  { l with
    entries := (k, v) :: (without k l.entries).take (l.cap - 1)
    nodupKeys := nodup_cons_without l.nodupKeys (List.take_sublist _ _)
    bounded := by
      have hpos := l.cap_pos
      have hlen := List.length_take_le (l.cap - 1) (without k l.entries)
      rw [List.length_cons]
      omega }

/-! ## The entries after an operation -/

theorem entries_getMut {f : V → V} (h : l.peek k = some v) :
    (l.getMut k f).entries = (k, f v) :: without k l.entries := by
  unfold getMut
  split
  case h_1 hnone => rw [h] at hnone; cases hnone
  case h_2 v' hv =>
    rw [h] at hv
    cases hv
    rfl

theorem entries_put :
    (l.put k v).entries = (k, v) :: (without k l.entries).take (l.cap - 1) := rfl

theorem cap_getMut {f : V → V} : (l.getMut k f).cap = l.cap := by
  unfold getMut
  split <;> rfl

/-- An insertion replaces the entry of its key, adds one, or drops the least recently used
entry for the one it adds. -/
theorem put_cases (k : K) (v : V) (l : Lru K V) :
    (∃ v', l.peek k = some v' ∧ (l.put k v).entries = (k, v) :: without k l.entries) ∨
    (l.peek k = none ∧ l.len ≠ l.cap ∧ (l.put k v).entries = (k, v) :: l.entries) ∨
    (l.peek k = none ∧ l.len = l.cap ∧ ∃ e init, l.peekLru = some e ∧
      l.entries = init ++ [e] ∧ (l.put k v).entries = (k, v) :: init) := by
  have hpos := l.cap_pos
  have hbound := l.bounded
  rw [entries_put]
  cases hp : l.peek k with
  | some v' =>
      have hlen := length_without_lt hp
      rw [List.take_of_length_le (by omega)]
      exact Or.inl ⟨v', rfl, rfl⟩
  | none =>
      rw [without_of_peek_none hp]
      by_cases hfull : l.len = l.cap
      · have hne : l.entries ≠ [] := List.ne_nil_of_length_pos (by rw [len] at hfull; omega)
        refine Or.inr (Or.inr ⟨rfl, hfull, l.entries.getLast hne, l.entries.dropLast,
          List.getLast?_eq_some_getLast hne, (List.dropLast_append_getLast hne).symm, ?_⟩)
        rw [List.dropLast_eq_take, ← hfull]
        rfl
      · have hlen : l.entries.length ≤ l.cap - 1 := by rw [len] at hfull; omega
        rw [List.take_of_length_le hlen]
        exact Or.inr (Or.inl ⟨rfl, hfull, rfl⟩)

/-! ## What is in the map after an operation -/

theorem mem_getMut {f : V → V} (h : (k', v') ∈ (l.getMut k f).entries) :
    (k', v') ∈ l.entries ∨ ∃ v, (k', v) ∈ l.entries ∧ v' = f v := by
  unfold getMut at h
  split at h
  case h_1 => exact Or.inl h
  case h_2 v hv =>
    cases h with
    | head => exact Or.inr ⟨v, mem_of_peek hv, rfl⟩
    | tail _ h => exact Or.inl (mem_without.mp h).1

theorem mem_pop (h : (k', v') ∈ (l.pop k).entries) : (k', v') ∈ l.entries :=
  (mem_without.mp h).1

theorem mem_put (h : (k', v') ∈ (l.put k v).entries) :
    (k', v') = (k, v) ∨ (k', v') ∈ l.entries := by
  cases h with
  | head => exact Or.inl rfl
  | tail _ h => exact Or.inr (mem_without.mp (List.mem_of_mem_take h)).1

end Lru

end Machine
