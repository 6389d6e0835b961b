import FerroEdge.Machine.Url
import Mathlib.Data.String.Basic

/-!
# Sorting by a comparator

`sortBy` is the stable sort of a list by a comparator.  Among elements of which no two compare
as equal its result is strictly increasing, and it does not depend on the order in which the
elements come.

Strings are compared by their UTF-8 bytes.  UTF-8 keeps the order of the characters, so this is
the lexicographic order of strings (`strCmp_eq_compare`).
-/

namespace Machine

open Url

/-- The stable sort by a comparator. -/
def sortBy {α : Type*} (cmp : α → α → Ordering) (l : List α) : List α :=
  l.mergeSort fun a b => (cmp a b).isLE

/-- Strings compared by their bytes. -/
def strCmp (a b : String) : Ordering := compareOfLessAndEq (utf8 a.toList) (utf8 b.toList)

/-! ## The sorted list -/

section SortBy

variable {α : Type*} {cmp : α → α → Ordering} {l l' : List α}

theorem sortBy_perm (cmp : α → α → Ordering) (l : List α) : (sortBy cmp l).Perm l :=
  List.mergeSort_perm l _

variable [Std.TransCmp cmp]

theorem sortBy_sorted : (sortBy cmp l).Pairwise fun a b => (cmp a b).isLE = true := by
  refine List.pairwise_mergeSort (fun a b c => Std.TransCmp.isLE_trans) (fun a b => ?_) l
  have hswap : cmp b a = (cmp a b).swap := Std.OrientedCmp.eq_swap
  rw [hswap]
  cases cmp a b <;> rfl

theorem perm_pairwise_ne (hperm : l.Perm l') :
    (l.Pairwise fun a b => cmp a b ≠ .eq) ↔ l'.Pairwise fun a b => cmp a b ≠ .eq :=
  hperm.pairwise_iff fun hne heq => hne (Std.OrientedCmp.eq_symm heq)

theorem sortBy_increasing (h : l.Pairwise fun a b => cmp a b ≠ .eq) :
    (sortBy cmp l).Pairwise fun a b => cmp a b = .lt := by
  have hne := (perm_pairwise_ne (sortBy_perm cmp l)).mpr h
  refine (sortBy_sorted.and hne).imp ?_
  rintro a b ⟨hle, hne⟩
  cases hcmp : cmp a b with
  | lt => rfl
  | eq => exact absurd hcmp hne
  | gt => rw [hcmp] at hle; cases hle

/-- The sorted list is one of the elements, whatever order they come in. -/
theorem sortBy_eq_of_perm (h : l.Pairwise fun a b => cmp a b ≠ .eq) (hperm : l.Perm l') :
    sortBy cmp l = sortBy cmp l' := by
  have hperm' : (sortBy cmp l).Perm (sortBy cmp l') :=
    ((sortBy_perm cmp l).trans hperm).trans (sortBy_perm cmp l').symm
  refine hperm'.eq_of_pairwise (fun a b _ _ hab hba => ?_) (sortBy_increasing h)
    (sortBy_increasing ((perm_pairwise_ne hperm).mp h))
  rw [Std.OrientedCmp.gt_of_lt hab] at hba
  cases hba

end SortBy

/-! ## The place of an element in a sorted list -/

section Place

variable {α : Type*} [LinearOrder α] {l : List α} {i : Nat}

/-- More than `i` elements are at most as large as the one at `i`. -/
theorem lt_countP_le (h : l.Pairwise (· ≤ ·)) (hi : i < l.length) :
    i < l.countP fun a => a ≤ l[i] := by
  have hall : ∀ a ∈ l.take (i + 1), decide (a ≤ l[i]) = true := by
    intro a ha
    obtain ⟨j, hj, rfl⟩ := List.mem_take_iff_getElem.mp ha
    rw [decide_eq_true_eq]
    rcases Nat.lt_or_eq_of_le (show j ≤ i by omega) with hlt | rfl
    · exact List.pairwise_iff_getElem.mp h j i (by omega) hi hlt
    · exact le_refl _
  have hcount := (List.take_sublist (i + 1) l).countP_le (p := fun a => decide (a ≤ l[i]))
  rw [List.countP_eq_length.mpr hall, List.length_take] at hcount
  omega

/-- At most `i` elements are smaller than the one at `i`. -/
theorem countP_lt_le (h : l.Pairwise (· ≤ ·)) (hi : i < l.length) :
    l.countP (fun a => a < l[i]) ≤ i := by
  have hnone : (l.drop i).countP (fun a => decide (a < l[i])) = 0 := by
    rw [List.countP_eq_zero]
    intro a ha
    obtain ⟨j, hj, rfl⟩ := List.mem_drop_iff_getElem.mp ha
    rw [decide_eq_true_eq, not_lt]
    rcases Nat.eq_zero_or_pos j with rfl | hpos
    · simp
    · exact List.pairwise_iff_getElem.mp h i (i + j) hi (by omega) (by omega)
  calc l.countP (fun a => decide (a < l[i]))
      = (l.take i).countP (fun a => decide (a < l[i])) +
          (l.drop i).countP (fun a => decide (a < l[i])) := by
        rw [← List.countP_append, List.take_append_drop]
    _ ≤ i := by
        rw [hnone]
        exact Nat.le_trans List.countP_le_length (List.length_take_le _ _)

end Place

/-! ## Strings -/

/-- The scalar values of four bytes are compared digit by digit. -/
theorem scalar_lt {v w : Nat} (h : v < w) (hw : w < 0x110000) (p : Prop) :
    (v / 262144 % 8 + 240) % 2 ^ 8 < (w / 262144 % 8 + 240) % 2 ^ 8 ∨
    (v / 262144 % 8 + 240) % 2 ^ 8 = (w / 262144 % 8 + 240) % 2 ^ 8 ∧
      ((v / 4096 % 64 + 128) % 2 ^ 8 < (w / 4096 % 64 + 128) % 2 ^ 8 ∨
      (v / 4096 % 64 + 128) % 2 ^ 8 = (w / 4096 % 64 + 128) % 2 ^ 8 ∧
        ((v / 64 % 64 + 128) % 2 ^ 8 < (w / 64 % 64 + 128) % 2 ^ 8 ∨
        (v / 64 % 64 + 128) % 2 ^ 8 = (w / 64 % 64 + 128) % 2 ^ 8 ∧
          ((v % 64 + 128) % 2 ^ 8 < (w % 64 + 128) % 2 ^ 8 ∨
          (v % 64 + 128) % 2 ^ 8 = (w % 64 + 128) % 2 ^ 8 ∧ p))) := by
  have hdigits : ∀ n < 0x110000,
      ∃ i j k l, n / 262144 % 8 = i ∧ n / 4096 % 64 = j ∧ n / 64 % 64 = k ∧ n % 64 = l ∧
        i < 8 ∧ j < 64 ∧ k < 64 ∧ l < 64 ∧ n = i * 262144 + j * 4096 + k * 64 + l := by
    intro n hn
    exact ⟨_, _, _, _, rfl, rfl, rfl, rfl, by omega⟩
  obtain ⟨i, j, k, l, hi, hj, hk, hl, hv⟩ := hdigits v (Nat.lt_trans h hw)
  obtain ⟨i', j', k', l', hi', hj', hk', hl', hw'⟩ := hdigits w hw
  rw [hi, hj, hk, hl, hi', hj', hk', hl']
  clear hdigits hi hj hk hl hi' hj' hk' hl'
  omega

theorem utf8EncodeChar_lt {c d : Char} (h : c < d) (x y : List UInt8) :
    String.utf8EncodeChar c ++ x < String.utf8EncodeChar d ++ y := by
  have hlt : c.val.toNat < d.val.toNat := h
  have hd : d.val.toNat < 0x110000 := by
    rcases d.valid with h | h
    · exact Nat.lt_trans h (by decide)
    · exact h.2
  rw [String.utf8EncodeChar, String.utf8EncodeChar]
  generalize c.val.toNat = v at *
  generalize d.val.toNat = w at *
  by_cases hfour : 65535 < v
  · have hvs : ¬ v ≤ 127 ∧ ¬ v ≤ 2047 ∧ ¬ v ≤ 65535 := by omega
    have hws : ¬ w ≤ 127 ∧ ¬ w ≤ 2047 ∧ ¬ w ≤ 65535 := by omega
    simp only [hvs, hws, if_false, List.cons_append, List.nil_append, List.cons_lt_cons_iff,
      UInt8.lt_iff_toNat_lt, ← UInt8.toNat_inj, UInt8.toNat_ofNat']
    exact scalar_lt hlt hd _
  · split_ifs
    all_goals
      simp only [List.cons_append, List.nil_append, List.cons_lt_cons_iff, UInt8.lt_iff_toNat_lt,
        ← UInt8.toNat_inj, UInt8.toNat_ofNat']
      omega

theorem utf8_lt {a b : List Char} (h : a < b) : utf8 a < utf8 b := by
  induction a generalizing b with
  | nil =>
      cases b with
      | nil => exact absurd h (List.lt_irrefl _)
      | cons d b =>
          have hne : String.utf8EncodeChar d ≠ [] := String.utf8EncodeChar_ne_nil
          obtain ⟨byte, rest, hd⟩ := List.exists_cons_of_ne_nil hne
          rw [utf8_cons, hd]
          exact List.nil_lt_cons _ _
  | cons c a ih =>
      cases b with
      | nil => exact absurd h (List.not_lt_nil _)
      | cons d b =>
          rw [utf8_cons, utf8_cons]
          rcases List.cons_lt_cons_iff.mp h with hlt | ⟨rfl, hlt⟩
          · exact utf8EncodeChar_lt hlt _ _
          · exact List.append_left_lt (ih hlt)

theorem utf8_lt_iff {a b : List Char} : utf8 a < utf8 b ↔ a < b := by
  constructor
  · intro h
    by_contra hnot
    rcases List.le_iff_lt_or_eq.mp (List.not_lt.mp hnot) with hlt | heq
    · exact List.lt_asymm h (utf8_lt hlt)
    · rw [heq] at h
      exact List.lt_irrefl _ h
  · exact utf8_lt

theorem strCmp_lt_iff {a b : String} : strCmp a b = .lt ↔ a < b := by
  rw [strCmp, compareOfLessAndEq_eq_lt, utf8_lt_iff, String.lt_iff_toList_lt]

/-- Comparing bytes is comparing characters. -/
theorem strCmp_eq_compare (a b : String) : strCmp a b = compare a b := by
  have hcompare : compare a b = compareOfLessAndEq a b := rfl
  have hinj : utf8 a.toList = utf8 b.toList ↔ a = b := by
    constructor
    · intro h
      by_contra hne
      rcases lt_or_gt_of_ne hne with hlt | hlt
      · exact List.lt_irrefl _ (h ▸ utf8_lt (String.lt_iff_toList_lt.mp hlt))
      · exact List.lt_irrefl _ (h ▸ utf8_lt (String.lt_iff_toList_lt.mp hlt))
    · intro h
      rw [h]
  rw [hcompare, strCmp, compareOfLessAndEq, compareOfLessAndEq]
  simp only [utf8_lt_iff, String.lt_iff_toList_lt, hinj]

end Machine
