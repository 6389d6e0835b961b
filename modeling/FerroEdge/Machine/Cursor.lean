import Mathlib.Data.Int.CardIntervalMod
import Mathlib.Data.List.Induction

/-!
# A cursor that goes round a list

A cursor picks the entries of a list one after the other and starts again at the end.  The
picks are *balanced*: as long as the entries are distinct, the same number of picks apart from
one falls on each of them (`Rotates.count_eq`), and no entry is picked twice before every other
one was (`Rotates.nodup_window`).
-/

namespace Machine

variable {α : Type*} {l picks : List α} {start : Nat} {x : α}

/-- The picks of a cursor over `l` whose first pick is at `start`. -/
def Rotates (l : List α) (start : Nat) (picks : List α) : Prop :=
  ∀ j, j < picks.length → picks[j]? = l[(start + j) % l.length]?

namespace Rotates

theorem nil : Rotates l start [] := nofun

theorem snoc (h : Rotates l start picks) (hx : l[(start + picks.length) % l.length]? = some x) :
    Rotates l start (picks ++ [x]) := by
  intro j hj
  rw [List.length_append, List.length_singleton] at hj
  obtain hlt | heq := Nat.lt_succ_iff_lt_or_eq.mp hj
  · rw [List.getElem?_append_left hlt]
    exact h j hlt
  · rw [heq, hx]
    simp

theorem init (h : Rotates l start (picks ++ [x])) : Rotates l start picks := by
  intro j hj
  rw [← h j (by simp; omega), List.getElem?_append_left hj]

theorem last (h : Rotates l start (picks ++ [x])) :
    l[(start + picks.length) % l.length]? = some x := by
  rw [← h picks.length (by simp)]
  simp

/-- Two picks at a distance below the length of the list are different. -/
theorem ne_of_lt (h : Rotates l start picks) (hl : l.Nodup) {i j : Nat} (hij : i < j)
    (hj : j < picks.length) (hlen : j < i + l.length) : picks[i]? ≠ picks[j]? := by
  have hpos : 0 < l.length := by omega
  rw [h i (by omega), h j hj]
  intro heq
  have hmod : start + i ≡ start + j [MOD l.length] :=
    (List.getElem?_inj (Nat.mod_lt _ hpos) hl).mp heq
  have hdvd := (Nat.modEq_iff_dvd' (Nat.le_of_lt hij)).mp (Nat.ModEq.add_left_cancel' start hmod)
  have hle := Nat.le_of_dvd (by omega) hdvd
  omega

/-- No entry is picked twice in a row of picks as long as the list. -/
theorem nodup_window (h : Rotates l start picks) (hl : l.Nodup) (i : Nat) :
    ((picks.drop i).take l.length).Nodup := by
  refine List.nodup_iff_getElem?_ne_getElem?.mpr fun a b hab hb => ?_
  rw [List.length_take, List.length_drop] at hb
  rw [List.getElem?_take_of_lt (by omega), List.getElem?_take_of_lt (by omega),
    List.getElem?_drop, List.getElem?_drop]
  exact h.ne_of_lt hl (by omega) (by omega) (by omega)

variable [DecidableEq α]

/-- The entry at position `v` is picked by every pick that falls on `v`. -/
theorem count_eq_count (h : Rotates l start picks) (hl : l.Nodup) {v : Nat}
    (hv : l[v]? = some x) :
    picks.count x = Nat.count (fun j => (start + j) % l.length = v) picks.length := by
  obtain ⟨hlt, -⟩ := List.getElem?_eq_some_iff.mp hv
  induction picks using List.reverseRecOn with
  | nil => rfl
  | append_singleton picks y ih =>
      have hy := h.last
      have heq : y = x ↔ (start + picks.length) % l.length = v := by
        rw [← Option.some.injEq, ← hy, ← hv]
        exact List.getElem?_inj (Nat.mod_lt _ (by omega)) hl
      rw [List.count_append, ih h.init, List.length_append, List.length_singleton, Nat.count_succ,
        List.count_singleton]
      simp only [beq_iff_eq, heq]

/-- The picks are spread evenly over the entries. -/
theorem count_eq (h : Rotates l start picks) (hl : l.Nodup) (hx : x ∈ l) :
    picks.count x = picks.length / l.length ∨
    picks.count x = (picks.length + l.length - 1) / l.length := by
  obtain ⟨v, hv⟩ := List.mem_iff_getElem?.mp hx
  obtain ⟨hlt, -⟩ := List.getElem?_eq_some_iff.mp hv
  have hpos : 0 < l.length := by omega
  -- The numbers of the picks that fall on `v` form one class modulo the length.
  have hclass : ∀ j, (start + j) % l.length = v ↔
      j ≡ v + (l.length - start % l.length) [MOD l.length] := by
    intro j
    have hstart : start + (l.length - start % l.length) ≡ 0 [MOD l.length] := by
      have hmod := Nat.mod_lt start hpos
      have hdiv := Nat.div_add_mod start l.length
      rw [Nat.modEq_zero_iff_dvd]
      refine ⟨start / l.length + 1, ?_⟩
      rw [Nat.mul_add, Nat.mul_one]
      omega
    have hj : start + j + (l.length - start % l.length) ≡ j [MOD l.length] := by
      rw [Nat.add_right_comm]
      exact (hstart.add_right j).trans (by rw [Nat.zero_add])
    calc (start + j) % l.length = v
      _ ↔ start + j ≡ v [MOD l.length] := by rw [Nat.ModEq, Nat.mod_eq_of_lt hlt]
      _ ↔ start + j + (l.length - start % l.length) ≡
            v + (l.length - start % l.length) [MOD l.length] :=
          ⟨fun hm => hm.add_right _, fun hm => Nat.ModEq.add_right_cancel' _ hm⟩
      _ ↔ j ≡ v + (l.length - start % l.length) [MOD l.length] :=
          ⟨fun hm => hj.symm.trans hm, fun hm => hj.trans hm⟩
  rw [h.count_eq_count hl hv]
  simp only [hclass, Nat.count_modEq_card _ hpos]
  split
  next hlast =>
    have hdiv := Nat.div_add_mod picks.length l.length
    have hmod := Nat.mod_lt picks.length hpos
    refine .inr (Nat.div_eq_of_lt_le ?_ ?_).symm
    · rw [Nat.add_mul, Nat.mul_comm, Nat.one_mul]
      omega
    · rw [Nat.add_mul, Nat.add_mul, Nat.mul_comm, Nat.one_mul]
      omega
  next => exact .inl (Nat.add_zero _)

end Rotates

end Machine
