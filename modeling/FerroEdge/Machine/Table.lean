import Mathlib.Algebra.GroupWithZero.Nat
import Mathlib.Data.List.Basic
import Mathlib.Data.List.Forall2
import Mathlib.Data.List.Induction

/-!
# Tables of processes

The state of a concurrent system holds a list of processes, named by their position.  A step
replaces one of them or appends new ones, and none is ever removed.  The lemmas here say what
a process of the table after such a step was before it, and how the number of processes with
a property changes.  A process that joins others waits until each of them has a result, and gets
the results in the order in which it names the others.
-/

namespace Machine

variable {P : Type*} {l : List P} {i j : Nat} {a b c : P}

/-- A process of a table after a replacement is the new one or was there before. -/
theorem getElem?_set_inv (h : (l.set i b)[j]? = some c) :
    (j = i ∧ c = b) ∨ (j ≠ i ∧ l[j]? = some c) := by
  rw [List.getElem?_set] at h
  by_cases hij : i = j
  · rw [if_pos hij] at h
    split at h
    · exact Or.inl ⟨hij.symm, (Option.some.inj h).symm⟩
    · cases h
  · rw [if_neg hij] at h
    exact Or.inr ⟨fun hji => hij hji.symm, h⟩

/-- A process of a table after one is added is the new one or was there before. -/
theorem getElem?_snoc_inv (h : (l ++ [b])[j]? = some c) :
    (j = l.length ∧ c = b) ∨ (j < l.length ∧ l[j]? = some c) := by
  rw [List.getElem?_append] at h
  by_cases hj : j < l.length
  · rw [if_pos hj] at h
    exact Or.inr ⟨hj, h⟩
  · rw [if_neg hj, List.getElem?_singleton] at h
    split at h
    · exact Or.inl ⟨by omega, (Option.some.inj h).symm⟩
    · cases h

/-- Adding a process leaves every name as it is, except the one that had no process before. -/
theorem getElem?_snoc_frame (l : List P) (b : P) (i : Nat) :
    (l ++ [b])[i]? = l[i]? ∨ l[i]? = none ∧ (l ++ [b])[i]? = some b := by
  rw [List.getElem?_append]
  split
  case isTrue => exact Or.inl rfl
  case isFalse hlen =>
    rw [List.getElem?_eq_none (Nat.le_of_not_lt hlen)]
    cases i - l.length <;> simp

theorem getElem?_set_self (h : l[i]? = some a) : (l.set i b)[i]? = some b := by
  obtain ⟨hi, -⟩ := List.getElem?_eq_some_iff.mp h
  rw [List.getElem?_set, if_pos rfl, if_pos hi]

theorem getElem?_set_append_self {k : List P} (h : l[i]? = some a) :
    (l.set i b ++ k)[i]? = some b := by
  have hset := getElem?_set_self (b := b) h
  rwa [List.getElem?_append_left (List.getElem?_eq_some_iff.mp hset).1]

/-- A property of every process of a table is decided by looking at each. -/
instance decidableForallProcess (l : List P) (Q : Nat → P → Prop) [∀ i a, Decidable (Q i a)] :
    Decidable (∀ i a, l[i]? = some a → Q i a) :=
  decidable_of_iff (∀ i, (hi : i < l.length) → Q i l[i])
    ⟨fun h i a ha => by
      obtain ⟨hi, rfl⟩ := List.getElem?_eq_some_iff.mp ha
      exact h i hi,
    fun h i hi => h i l[i] (List.getElem?_eq_getElem hi)⟩

/-- Replacing a process moves the count by the difference of the two. -/
theorem countP_set_add (p : P → Bool) (h : l[i]? = some a) :
    (l.set i b).countP p + (if p a then 1 else 0) = l.countP p + (if p b then 1 else 0) := by
  obtain ⟨hi, rfl⟩ := List.getElem?_eq_some_iff.mp h
  rw [List.countP_set hi]
  have hpos : p l[i] = true → 0 < l.countP p := fun hp =>
    List.countP_pos_iff.mpr ⟨l[i], List.getElem_mem hi, hp⟩
  by_cases hp : p l[i] = true
  · have := hpos hp
    simp only [hp, if_true]
    omega
  · simp [hp]

/-- Replacing a process moves the sum by the difference of the two. -/
theorem sum_map_set_add (f : P → Nat) (h : l[i]? = some a) :
    ((l.set i b).map f).sum + f a = (l.map f).sum + f b := by
  induction l generalizing i with
  | nil => cases h
  | cons c l ih =>
      cases i with
      | zero =>
          cases h
          simp only [List.set_cons_zero, List.map_cons, List.sum_cons]
          omega
      | succ i =>
          have hrest := ih (i := i) h
          simp only [List.set_cons_succ, List.map_cons, List.sum_cons]
          omega

/-- Replacing a process exchanges what it holds. -/
theorem filterMap_set_perm {B : Type*} (f : P → Option B) (h : l[i]? = some a) :
    ((f a).toList ++ (l.set i b).filterMap f).Perm ((f b).toList ++ l.filterMap f) := by
  have hcons : ∀ (c : P) (l : List P), (c :: l).filterMap f = (f c).toList ++ l.filterMap f := by
    intro c l
    cases hc : f c <;> simp [hc]
  induction l generalizing i with
  | nil => cases h
  | cons c l ih =>
      cases i with
      | zero =>
          cases h
          rw [List.set_cons_zero, hcons, hcons]
          exact List.perm_append_comm_assoc _ _ _
      | succ i =>
          rw [List.set_cons_succ, hcons, hcons]
          refine (List.perm_append_comm_assoc _ _ _).trans ?_
          exact ((ih (i := i) h).append_left _).trans (List.perm_append_comm_assoc _ _ _)

/-- Where a property of a process implies one of its companion in a second table, apart from some
processes that have gone, the companions with those are not fewer. -/
theorem countP_le_add {Q : Type*} {l : List P} {l' : List Q} {p : P → Bool} {q : Q → Bool}
    {gone : List Nat} (hlen : l.length = l'.length)
    (h : ∀ (i : Nat) a b, l[i]? = some a → l'[i]? = some b → p a = true →
      q b = true ∨ i ∈ gone) :
    l.countP p ≤ l'.countP q + gone.length := by
  induction l using List.reverseRecOn generalizing l' gone with
  | nil => exact Nat.zero_le _
  | append_singleton l a ih =>
      obtain rfl | ⟨l', b, rfl⟩ := List.eq_nil_or_concat' l'
      · simp at hlen
      have hlen' : l.length = l'.length := by simpa using hlen
      have hlast := h l.length a b (by simp) (by simp [hlen'])
      have hinit : ∀ (i : Nat) a b, l[i]? = some a → l'[i]? = some b → p a = true →
          i ≠ l.length ∧ (q b = true ∨ i ∈ gone) := by
        intro i a b ha hb hp
        have hi : i < l.length := (List.getElem?_eq_some_iff.mp ha).1
        refine ⟨Nat.ne_of_lt hi, h i a b ?_ ?_ hp⟩
        · rwa [List.getElem?_append_left hi]
        · rwa [List.getElem?_append_left (hlen' ▸ hi)]
      simp only [List.countP_append, List.countP_singleton]
      by_cases hp : p a = true
      · rw [if_pos hp]
        obtain hq | hgone := hlast hp
        · have hrest := ih hlen' fun i a b ha hb hp => (hinit i a b ha hb hp).2
          rw [if_pos hq]
          omega
        · -- The last process has gone, and is none of the others.
          have hrest := ih hlen' fun i a b ha hb hp =>
            (hinit i a b ha hb hp).2.imp_right
              (List.mem_erase_of_ne (hinit i a b ha hb hp).1).mpr
          rw [List.length_erase_of_mem hgone] at hrest
          have hpos := List.length_pos_of_mem hgone
          omega
      · have hrest := ih hlen' fun i a b ha hb hp => (hinit i a b ha hb hp).2
        rw [if_neg hp]
        omega

/-- Where a property of a process implies one of its companion in a second table, the companions
are not fewer. -/
theorem countP_le_countP {Q : Type*} {l : List P} {l' : List Q} {p : P → Bool} {q : Q → Bool}
    (hlen : l.length = l'.length)
    (h : ∀ (i : Nat) a b, l[i]? = some a → l'[i]? = some b → p a = true → q b = true) :
    l.countP p ≤ l'.countP q :=
  countP_le_add hlen fun i a b ha hb hp =>
    Or.inl (b := i ∈ ([] : List Nat)) (h i a b ha hb hp)

/-! ## Joins -/

section Joins

variable {A B C : Type*} {f : A → Option B} {names : List A}

/-- A join hands back the result of each process in its place. -/
theorem forall₂_of_mapM {results : List B} (h : names.mapM f = some results) :
    List.Forall₂ (fun j v => f j = some v) names results := by
  induction names generalizing results with
  | nil =>
      cases h
      exact .nil
  | cons j names ih =>
      simp only [List.mapM_cons, bind, Option.bind_eq_some_iff] at h
      obtain ⟨v, hv, vs, hvs, heq⟩ := h
      cases heq
      exact .cons hv (ih hvs)

/-- A join ends as soon as every process has a result. -/
theorem exists_mapM (h : ∀ j ∈ names, (f j).isSome = true) :
    ∃ results, names.mapM f = some results := by
  induction names with
  | nil => exact ⟨[], rfl⟩
  | cons j names ih =>
      obtain ⟨v, hv⟩ := Option.isSome_iff_exists.mp (h j List.mem_cons_self)
      obtain ⟨vs, hvs⟩ := ih fun k hk => h k (List.mem_cons_of_mem j hk)
      exact ⟨v :: vs, by rw [List.mapM_cons, hv, hvs]; rfl⟩

theorem forall₂_trans {R : A → B → Prop} {S : B → C → Prop} {T : A → C → Prop} {l : List A}
    {l' : List B} {l'' : List C} (hT : ∀ a b c, R a b → S b c → T a c)
    (h : List.Forall₂ R l l') (h' : List.Forall₂ S l' l'') : List.Forall₂ T l l'' := by
  induction h generalizing l'' with
  | nil =>
      cases h'
      exact .nil
  | cons hab _ ih =>
      cases h' with
      | cons hbc hrest => exact .cons (hT _ _ _ hab hbc) (ih hrest)

end Joins

end Machine
