import FerroEdge.Machine.RwLock

/-!
# A mutex beside a readers-writer lock

The processes of a machine under a readers-writer lock may also take steps under a mutex.  The
mutex is never kept past a step, and a process asks for one of the locks at a time.  It may ask
for the mutex while it keeps a guard of the first lock, but not the other way round.

`Mutexed.guarded` is the machine under its first lock, as a machine for the second one.  Its
`lockedStep` is the machine under both locks, so the rules of one lock apply to both.

* `Mutexed.Inv`: who waits for which lock and who has it, kept by every step and when a process
  goes away (`Inv.drop`).
* `Mutexed.deadlockFree`: where every process that keeps a guard of the first lock goes on under
  the mutex, nobody waits for itself and the two locks never block together.
-/

namespace Machine

variable {S E : Type*}

/-- The process whose step an event under a lock is. -/
def LockEvent.actor (actor : E → Option Nat) : LockEvent E → Option Nat
  | .move e => actor e
  | .request _ | .grant => none

/-- A mutex for the processes of a machine under a readers-writer lock. -/
structure Mutexed (G : Guarded S E) where
  /-- The process takes its next step under the mutex. -/
  awaits : S → Nat → Bool
  /-- A process goes on awaiting the mutex while others take steps. -/
  awaits_frame {s t : S} {e : E} {i : Nat} :
    G.step s e = some t → G.actor e ≠ some i → awaits s i = true → awaits t i = true
  /-- A process awaits one of the locks. -/
  apart {s : S} {i : Nat} : awaits s i = true → G.awaits s i = none
  /-- A step under the mutex never blocks. -/
  ready {s : S} {i : Nat} :
    awaits s i = true → ∃ e t, G.actor e = some i ∧ G.step s e = some t

namespace Mutexed

open Guarded

variable {G : Guarded S E} (M : Mutexed G)

/-- The machine under its first lock, as a machine for the mutex. -/
def guarded : Guarded (Locked S) (LockEvent E) where
  step := G.lockedStep
  actor := LockEvent.actor G.actor
  awaits L i := if M.awaits L.state i then some .write else none
  keeps _ _ := none
  awaits_frame := by
    intro L L' e i m hs hact ha
    split at ha
    case isTrue haw =>
      rw [if_pos, ha]
      cases lockedStep_inv hs with
      | request => exact haw
      | grant => exact haw
      | ambient _ ht => exact M.awaits_frame ht hact haw
      | move _ _ ht => exact M.awaits_frame ht hact haw
    case isFalse => cases ha
  keeps_frame := fun _ _ => rfl
  ready := by
    intro L i m ha
    split at ha
    case isTrue haw =>
      obtain ⟨e, t, hact, ht⟩ := M.ready haw
      obtain ⟨L', hL'⟩ : ∃ L', G.lockedStep L (.move e) = some L' :=
        Option.isSome_iff_exists.mp (by simp [lockedStep, hact, M.apart haw, ht])
      exact ⟨.move e, L', hact, hL'⟩
    case isFalse => cases ha

/-- The machine under both locks. -/
abbrev step : Locked (Locked S) → LockEvent (LockEvent E) → Option (Locked (Locked S)) :=
  M.guarded.lockedStep

/-- What can happen next although `i` waits: a guard is granted, or another process that has a
guard takes its step or asks for the mutex. -/
inductive GoesOn (B : Locked (Locked S)) (i : Nat) : Prop where
  | grant : (M.step B (.move .grant)).isSome = true → GoesOn B i
  | grantMutex : (M.step B .grant).isSome = true → GoesOn B i
  | move {j : Nat} {e : E} :
      j ≠ i → B.state.lock.holding j = true ∨ B.lock.holding j = true → G.actor e = some j →
      (M.step B (.move (.move e))).isSome = true → GoesOn B i
  | ask {j : Nat} :
      j ≠ i → B.state.lock.holding j = true → (M.step B (.request j)).isSome = true → GoesOn B i

/-- A process that waits for the first lock has no guard of either, one that waits for the mutex
does not have it, and while some process waits, the locks go on. -/
structure DeadlockFree (B : Locked (Locked S)) : Prop where
  first : ∀ i, B.state.lock.waiting i = true →
    B.state.lock.holding i = false ∧ B.lock.holding i = false
  mutex : ∀ i, B.lock.waiting i = true → B.lock.holding i = false
  goesOn : ∀ i, B.state.lock.waiting i = true ∨ B.lock.waiting i = true → M.GoesOn B i

variable {M} {B : Locked (Locked S)} {i j : Nat}

theorem awaits_of_some {L : Locked S} {m : Mode} (h : M.guarded.awaits L i = some m) :
    M.awaits L.state i = true := by
  by_contra hn
  rw [guarded] at h
  dsimp only at h
  rw [if_neg hn] at h
  cases h

/-- The process with the mutex awaits no guard of the first lock. -/
theorem awaits_of_entered (hM : LockInv M.guarded B) (h : B.lock.entered j = true) :
    M.awaits B.state.state j = true := by
  obtain ⟨m, hm⟩ := RwLock.entered_iff.mp h
  exact awaits_of_some (hM.granted j m hm)

theorem holding_of_entered {l : RwLock} (h : l.entered j = true) : l.holding j = true := by
  rw [RwLock.holding, List.any_append, Bool.or_eq_true]
  exact Or.inl h

/-- The process with the mutex can take its step. -/
theorem move_enabled (hM : LockInv M.guarded B) (h : B.lock.entered j = true) :
    ∃ e, G.actor e = some j ∧ (M.step B (.move (.move e))).isSome = true := by
  obtain ⟨ev, hact, hen⟩ := hM.move_enabled h
  cases ev with
  | move e => exact ⟨e, hact, hen⟩
  | request => cases hact
  | grant => cases hact

/-- A step under the first lock of a process that does not await the mutex, or of none. -/
theorem step_enabled {ev : LockEvent E} (h : (G.lockedStep B.state ev).isSome = true)
    (hfree : ∀ j, ev.actor G.actor = some j → M.awaits B.state.state j = false) :
    (M.step B (.move ev)).isSome = true := by
  obtain ⟨L, hL⟩ := Option.isSome_iff_exists.mp h
  have hstep : M.guarded.step B.state ev = some L := hL
  cases hact : ev.actor G.actor with
  | none =>
      have hact' : M.guarded.actor ev = none := hact
      simp [step, lockedStep, hact', hstep]
  | some j =>
      have hact' : M.guarded.actor ev = some j := hact
      have hawaits : M.guarded.awaits B.state j = none := by simp [guarded, hfree j hact]
      simp [step, lockedStep, hact', hawaits, hstep]

theorem progress_mutex (hM : LockInv M.guarded B) (hw : B.lock.waiting i = true) :
    (M.step B .grant).isSome = true ∨
    ∃ j e, j ≠ i ∧ B.lock.entered j = true ∧ G.actor e = some j ∧
      (M.step B (.move (.move e))).isSome = true := by
  obtain hgrant | ⟨j, -, hji, hent, -, -⟩ := hM.progress (fun _ => rfl) hw
  · exact Or.inl hgrant
  · obtain ⟨e, hact, hen⟩ := move_enabled hM hent
    exact Or.inr ⟨j, e, hji, hent, hact, hen⟩

/-- A process that waits for the first lock does not await the mutex. -/
theorem not_awaits_of_waiting (hG : LockInv G B.state) (hw : B.state.lock.waiting i = true) :
    M.awaits B.state.state i = false := by
  rw [← Bool.not_eq_true]
  intro haw
  obtain ⟨m, hm⟩ := RwLock.waiting_iff.mp hw
  have hnone := M.apart haw
  rw [hG.queue i m hm] at hnone
  cases hnone

/-- A process that keeps a guard of the first lock while another one waits for it. -/
theorem goesOn_of_keeps (hG : LockInv G B.state) (hM : LockInv M.guarded B)
    (hw : B.state.lock.waiting i = true) (hhold : B.state.lock.holding j = true)
    (haw : M.awaits B.state.state j = true) : M.GoesOn B i := by
  have hne : ∀ k, M.awaits B.state.state k = true → k ≠ i := by
    rintro k hk rfl
    rw [not_awaits_of_waiting hG hw] at hk
    cases hk
  cases hent : B.lock.entered j with
  | true =>
      obtain ⟨e, hact, hen⟩ := move_enabled hM hent
      exact .move (hne j haw) (Or.inl hhold) hact hen
  | false =>
      cases hwait : B.lock.waiting j with
      | true =>
          obtain hgrant | ⟨k, e, -, hk, hact, hen⟩ := progress_mutex hM hwait
          · exact .grantMutex hgrant
          · exact .move (hne k (awaits_of_entered hM hk)) (Or.inr (holding_of_entered hk)) hact hen
      | false =>
          refine .ask (hne j haw) hhold ?_
          simp [step, lockedStep, guarded, haw, hent, hwait]

theorem progress_first (hG : LockInv G B.state) (hM : LockInv M.guarded B)
    (hlast : ∀ j m, G.keeps B.state.state j = some m → M.awaits B.state.state j = true)
    (hw : B.state.lock.waiting i = true) : M.GoesOn B i := by
  cases hgr : B.state.lock.granted with
  | cons g granted =>
      have hmem : (g.1, g.2) ∈ B.state.lock.granted := hgr ▸ List.mem_cons_self
      have hent : B.state.lock.entered g.1 = true := RwLock.entered_iff.mpr ⟨g.2, hmem⟩
      obtain ⟨e, hact, hen⟩ := hG.move_enabled hent
      refine .move ?_ (Or.inl (holding_of_entered hent)) hact (step_enabled hen ?_)
      · intro hgi
        rw [hgi, hG.apart i hw] at hent
        cases hent
      · intro j hj
        obtain rfl : j = g.1 := Option.some.inj (hj.symm.trans hact)
        rw [← Bool.not_eq_true]
        intro haw
        have hnone := M.apart haw
        rw [hG.granted _ g.2 hmem] at hnone
        cases hnone
  | nil =>
      cases hk : B.state.lock.kept with
      | cons g kept =>
          have hmem : (g.1, g.2) ∈ B.state.lock.kept := hk ▸ List.mem_cons_self
          have hhold : B.state.lock.holding g.1 = true := by simp [RwLock.holding, hk]
          exact goesOn_of_keeps hG hM hw hhold (hlast g.1 g.2 ((hG.kept g.1 g.2).mp hmem))
      | nil =>
          obtain ⟨m, hm⟩ := RwLock.waiting_iff.mp hw
          cases hq : B.state.lock.queue with
          | nil => simp [hq] at hm
          | cons g queue =>
              have hgrant : (G.lockedStep B.state .grant).isSome = true := by
                cases hmode : g.2 <;> simp [lockedStep, hq, RwLock.admits, hmode, hgr, hk]
              exact .grant (step_enabled hgrant fun j hj => by cases hj)

/-- Who waits for either lock and who has it. -/
structure Inv (M : Mutexed G) (B : Locked (Locked S)) : Prop where
  first : LockInv G B.state
  mutex : LockInv M.guarded B

theorem Inv.init {s : S} (h : ∀ i, G.keeps s i = none) : M.Inv ⟨⟨s, .free⟩, .free⟩ :=
  ⟨.init h, .init fun _ => rfl⟩

/-- A step under both locks is one under the first lock, or one of the mutex alone. -/
theorem step_first {B' : Locked (Locked S)} {ev : LockEvent (LockEvent E)}
    (h : M.step B ev = some B') :
    (∃ e, ev = .move e ∧ G.lockedStep B.state e = some B'.state) ∨
    (∀ e, ev ≠ .move e) ∧ B'.state = B.state := by
  cases lockedStep_inv h with
  | request => exact Or.inr ⟨fun e he => (by cases he), rfl⟩
  | grant => exact Or.inr ⟨fun e he => (by cases he), rfl⟩
  | ambient _ ht => exact Or.inl ⟨_, rfl, ht⟩
  | move _ _ ht => exact Or.inl ⟨_, rfl, ht⟩

theorem Inv.step {B' : Locked (Locked S)} {ev : LockEvent (LockEvent E)} (hI : M.Inv B)
    (h : M.step B ev = some B') : M.Inv B' := by
  refine ⟨?_, hI.mutex.step h⟩
  obtain ⟨e, -, hs⟩ | ⟨-, hsame⟩ := step_first h
  · exact hI.first.step hs
  · rw [hsame]
    exact hI.first

/-- A process goes away, and the others stay as they are. -/
theorem Inv.drop {t : S} (hI : M.Inv B) (hself : G.keeps t i = none)
    (hother : ∀ j, j ≠ i → G.awaits t j = G.awaits B.state.state j ∧
      G.keeps t j = G.keeps B.state.state j ∧ M.awaits t j = M.awaits B.state.state j) :
    M.Inv ⟨⟨t, B.state.lock.drop i⟩, B.lock.drop i⟩ := by
  refine ⟨hI.first.drop hself fun j hj => ?_, hI.mutex.drop rfl fun j hj => ?_⟩
  · obtain ⟨hawaits, hkeeps, -⟩ := hother j hj
    exact ⟨hawaits, hkeeps⟩
  · obtain ⟨-, -, hmutex⟩ := hother j hj
    exact ⟨by simp only [guarded, hmutex], rfl⟩

/-- Where every process that keeps a guard of the first lock goes on under the mutex, the two
locks are free of deadlock. -/
theorem deadlockFree (hI : M.Inv B)
    (hlast : ∀ j m, G.keeps B.state.state j = some m → M.awaits B.state.state j = true) :
    M.DeadlockFree B := by
  obtain ⟨hG, hM⟩ := hI
  have hmutex : ∀ i, B.lock.holding i = true → M.awaits B.state.state i = true := by
    intro i hhold
    rw [RwLock.holding, List.any_append, Bool.or_eq_true] at hhold
    cases hhold with
    | inl hent => exact awaits_of_entered hM hent
    | inr hkept =>
        obtain ⟨⟨j, m⟩, hj, -⟩ := List.any_eq_true.mp hkept
        cases (hM.kept j m).mp hj
  refine ⟨fun i hw => ⟨?_, ?_⟩, fun i hw => ?_, fun i hw => ?_⟩
  · rw [← Bool.not_eq_true]
    intro hhold
    obtain ⟨m, hk⟩ := hG.keeps_of_holding hw hhold
    have haw := hlast i m hk
    rw [not_awaits_of_waiting hG hw] at haw
    cases haw
  · rw [← Bool.not_eq_true]
    intro hhold
    have haw := hmutex i hhold
    rw [not_awaits_of_waiting hG hw] at haw
    cases haw
  · rw [← Bool.not_eq_true]
    intro hhold
    obtain ⟨m, hk⟩ := hM.keeps_of_holding hw hhold
    cases hk
  · cases hw with
    | inl hw => exact progress_first hG hM hlast hw
    | inr hw =>
        obtain hgrant | ⟨j, e, hji, hent, hact, hen⟩ := progress_mutex hM hw
        · exact .grantMutex hgrant
        · exact .move hji (Or.inr (holding_of_entered hent)) hact hen

end Mutexed

end Machine
