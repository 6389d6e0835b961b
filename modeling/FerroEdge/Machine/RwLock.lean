import Mathlib.Data.List.Nodup
import FerroEdge.Machine.Run

/-!
# Machines under a readers-writer lock

Processes that share a state take some of their steps under a guard of one lock.  A guard is
requested, granted and given back after the step, and a step may also *keep* its guard past
its end.  The lock is fair: requests wait in one queue, and only the oldest can be granted,
a read guard when no write guard is out and a write guard when no guard is out.

`Guarded` describes such a machine without the lock.  `Guarded.lockedStep` adds the lock.

* `Guarded.project`: a run under the lock is a run of the machine, so what holds in every
  run of the machine holds under the lock.
* `Guarded.lockInv`: who waits for a guard and who has one.
* `LockInv.keeps_of_holding` and `LockInv.progress`: where no guard is kept, nobody waits
  for itself and the lock never blocks.
* `SelfBlocked.forever`: where a process waits for a guard that it has kept, the lock blocks
  for good.
* `Exclusive`: a write guard is out alone, so a process that awaits one while it has kept a
  guard takes no step (`LockInv.blocked`).
* `RwLock.drop`: a process may go away at any time, and its guards and requests with it.
-/

namespace Machine

variable {S E : Type*}

/-- The two kinds of guard. -/
inductive Mode where
  | read
  | write
deriving DecidableEq, Repr

/-- A machine whose processes, named by numbers, take steps under a guard. -/
structure Guarded (S E : Type*) where
  step : S → E → Option S
  /-- The process whose step an event is. -/
  actor : E → Option Nat
  /-- The guard under which a process takes its next step. -/
  awaits : S → Nat → Option Mode
  /-- The guard that a process has kept. -/
  keeps : S → Nat → Option Mode
  /-- A process goes on awaiting its guard while others take steps. -/
  awaits_frame {s t : S} {e : E} {i : Nat} {m : Mode} :
    step s e = some t → actor e ≠ some i → awaits s i = some m → awaits t i = some m
  /-- A process goes on keeping what it keeps while others take steps. -/
  keeps_frame {s t : S} {e : E} {i : Nat} :
    step s e = some t → actor e ≠ some i → keeps t i = keeps s i
  /-- A step under a guard never blocks. -/
  ready {s : S} {i : Nat} {m : Mode} :
    awaits s i = some m → ∃ e t, actor e = some i ∧ step s e = some t

/-- The guards that are out and the requests that wait, oldest first. -/
structure RwLock where
  /-- Guards granted for the next step of their process. -/
  granted : List (Nat × Mode)
  /-- Guards kept past the step they were granted for. -/
  kept : List (Nat × Mode)
  queue : List (Nat × Mode)

namespace RwLock

def free : RwLock := ⟨[], [], []⟩

/-- A guard of this kind can be handed out. -/
def admits (l : RwLock) : Mode → Bool
  | .read => (l.granted ++ l.kept).all fun g => g.2 == .read
  | .write => (l.granted ++ l.kept).isEmpty

/-- The process has a guard for its next step. -/
def entered (l : RwLock) (i : Nat) : Bool := l.granted.any fun g => g.1 == i

/-- The process waits for a guard. -/
def waiting (l : RwLock) (i : Nat) : Bool := l.queue.any fun g => g.1 == i

/-- The process has some guard. -/
def holding (l : RwLock) (i : Nat) : Bool := (l.granted ++ l.kept).any fun g => g.1 == i

/-- The process gives back its guards, except one that it keeps. -/
def release (l : RwLock) (i : Nat) (keep : Option Mode) : RwLock where
  granted := l.granted.filter fun g => g.1 != i
  kept := l.kept.filter (fun g => g.1 != i) ++ (keep.map (i, ·)).toList
  queue := l.queue

/-- The process is gone, and with it its guards and its request. -/
def drop (l : RwLock) (i : Nat) : RwLock where
  granted := l.granted.filter fun g => g.1 != i
  kept := l.kept.filter fun g => g.1 != i
  queue := l.queue.filter fun g => g.1 != i

theorem entered_iff {l : RwLock} {i : Nat} : l.entered i = true ↔ ∃ m, (i, m) ∈ l.granted := by
  simp [entered]

theorem waiting_iff {l : RwLock} {i : Nat} : l.waiting i = true ↔ ∃ m, (i, m) ∈ l.queue := by
  simp [waiting]

end RwLock

/-- A state together with the lock. -/
structure Locked (S : Type*) where
  state : S
  lock : RwLock

inductive LockEvent (E : Type*) where
  | request (i : Nat)
  | grant
  | move (e : E)

namespace Guarded

variable (G : Guarded S E)

def lockedStep (L : Locked S) : LockEvent E → Option (Locked S)
  | .request i =>
      match G.awaits L.state i with
      | none => none
      | some m =>
          if L.lock.entered i || L.lock.waiting i then none
          else some { L with lock.queue := L.lock.queue ++ [(i, m)] }
  | .grant =>
      match L.lock.queue with
      | [] => none
      | (i, m) :: queue =>
          if L.lock.admits m then
            some { L with lock := ⟨(i, m) :: L.lock.granted, L.lock.kept, queue⟩ }
          else none
  | .move e =>
      match G.actor e with
      | none => (G.step L.state e).map fun t => { L with state := t }
      | some i =>
          if G.awaits L.state i = none ∨ L.lock.entered i then
            (G.step L.state e).map fun t => ⟨t, L.lock.release i (G.keeps t i)⟩
          else none

/-- The steps under the lock by their kind. -/
inductive LockedStep (L : Locked S) : LockEvent E → Locked S → Prop where
  | request {i : Nat} {m : Mode} :
      G.awaits L.state i = some m → L.lock.entered i = false → L.lock.waiting i = false →
      LockedStep L (.request i) { L with lock.queue := L.lock.queue ++ [(i, m)] }
  | grant {i : Nat} {m : Mode} {queue : List (Nat × Mode)} :
      L.lock.queue = (i, m) :: queue → L.lock.admits m = true →
      LockedStep L .grant { L with lock := ⟨(i, m) :: L.lock.granted, L.lock.kept, queue⟩ }
  | ambient {e : E} {t : S} :
      G.actor e = none → G.step L.state e = some t →
      LockedStep L (.move e) { L with state := t }
  | move {e : E} {i : Nat} {t : S} :
      G.actor e = some i → (G.awaits L.state i = none ∨ L.lock.entered i = true) →
      G.step L.state e = some t →
      LockedStep L (.move e) ⟨t, L.lock.release i (G.keeps t i)⟩

variable {G} {L L' : Locked S} {e : LockEvent E}

theorem lockedStep_inv (h : G.lockedStep L e = some L') : G.LockedStep L e L' := by
  cases e with
  | request i =>
      simp only [lockedStep] at h
      cases ha : G.awaits L.state i with
      | none => simp [ha] at h
      | some m =>
          simp only [ha] at h
          split at h
          case isTrue => cases h
          case isFalse hn =>
            cases h
            rw [Bool.or_eq_true, not_or, Bool.not_eq_true, Bool.not_eq_true] at hn
            exact .request ha hn.1 hn.2
  | grant =>
      simp only [lockedStep] at h
      cases hq : L.lock.queue with
      | nil => simp [hq] at h
      | cons g queue =>
          simp only [hq] at h
          split at h
          case isTrue hadm =>
            cases h
            exact .grant hq hadm
          case isFalse => cases h
  | move e =>
      simp only [lockedStep] at h
      cases ha : G.actor e with
      | none =>
          simp only [ha, Option.map_eq_some_iff] at h
          obtain ⟨t, ht, rfl⟩ := h
          exact .ambient ha ht
      | some i =>
          simp only [ha] at h
          split at h
          case isTrue hen =>
            obtain ⟨t, ht, rfl⟩ := Option.map_eq_some_iff.mp h
            exact .move ha hen ht
          case isFalse => cases h

/-! ## The lock refines the machine -/

/-- The move of the machine that a move under the lock makes. -/
def innerMove : Move (Locked S) (LockEvent E) → Option (Move S E)
  | ⟨L, .move e, L'⟩ => some ⟨L.state, e, L'.state⟩
  | _ => none

/-- A run under the lock is a run of the machine. -/
theorem project {L₀ : Locked S} {ms : List (Move (Locked S) (LockEvent E))}
    (h : Run G.lockedStep L₀ ms L) :
    Run G.step L₀.state (ms.filterMap innerMove) L.state := by
  induction h with
  | nil => exact .nil
  | snoc _ hs ih =>
      rw [List.filterMap_append]
      cases lockedStep_inv hs with
      | request => exact (List.append_nil _).symm ▸ ih
      | grant => exact (List.append_nil _).symm ▸ ih
      | ambient _ ht => exact ih.snoc ht
      | move _ _ ht => exact ih.snoc ht

/-! ## Who waits and who holds -/

/-- Requests and granted guards belong to processes that await such a guard, kept guards to
processes that keep one, and no process waits twice or waits with its guard granted. -/
structure LockInv (G : Guarded S E) (L : Locked S) : Prop where
  queue : ∀ i m, (i, m) ∈ L.lock.queue → G.awaits L.state i = some m
  granted : ∀ i m, (i, m) ∈ L.lock.granted → G.awaits L.state i = some m
  kept : ∀ i m, (i, m) ∈ L.lock.kept ↔ G.keeps L.state i = some m
  apart : ∀ i, L.lock.waiting i = true → L.lock.entered i = false
  once : (L.lock.queue.map Prod.fst).Nodup

theorem LockInv.init {s : S} (h : ∀ i, G.keeps s i = none) : LockInv G ⟨s, .free⟩ where
  queue := by simp [RwLock.free]
  granted := by simp [RwLock.free]
  kept := by simp [RwLock.free, h]
  apart := by simp [RwLock.free, RwLock.waiting]
  once := by simp [RwLock.free]

theorem LockInv.request {i : Nat} {m : Mode} (hI : LockInv G L)
    (ha : G.awaits L.state i = some m) (hne : L.lock.entered i = false)
    (hnw : L.lock.waiting i = false) :
    LockInv G { L with lock.queue := L.lock.queue ++ [(i, m)] } := by
  refine ⟨?_, hI.granted, hI.kept, ?_, ?_⟩
  · intro j m' hj
    rw [List.mem_append, List.mem_singleton] at hj
    cases hj with
    | inl hj => exact hI.queue j m' hj
    | inr hj =>
        cases hj
        exact ha
  · intro j hj
    obtain ⟨m', hj⟩ := RwLock.waiting_iff.mp hj
    rw [List.mem_append, List.mem_singleton] at hj
    cases hj with
    | inl hj => exact hI.apart j (RwLock.waiting_iff.mpr ⟨m', hj⟩)
    | inr hj =>
        cases hj
        exact hne
  · have hni : i ∉ L.lock.queue.map Prod.fst := by
      intro hi
      obtain ⟨⟨j, m'⟩, hj, rfl⟩ := List.mem_map.mp hi
      rw [RwLock.waiting_iff.mpr ⟨m', hj⟩] at hnw
      cases hnw
    rw [List.map_append, List.map_singleton, ← List.concat_eq_append]
    exact List.Nodup.concat hni hI.once

theorem LockInv.grant {i : Nat} {m : Mode} {queue : List (Nat × Mode)} (hI : LockInv G L)
    (hq : L.lock.queue = (i, m) :: queue) :
    LockInv G { L with lock := ⟨(i, m) :: L.lock.granted, L.lock.kept, queue⟩ } := by
  have hmem : ∀ g, g ∈ queue → g ∈ L.lock.queue := fun g hg => hq ▸ List.mem_cons_of_mem _ hg
  have hnd := hI.once
  rw [hq, List.map_cons, List.nodup_cons] at hnd
  refine ⟨fun j m' hj => hI.queue j m' (hmem _ hj), ?_, hI.kept, ?_, hnd.2⟩
  · intro j m' hj
    rw [List.mem_cons] at hj
    cases hj with
    | inl hj =>
        cases hj
        exact hI.queue i m (hq ▸ List.mem_cons_self)
    | inr hj => exact hI.granted j m' hj
  · intro j hj
    obtain ⟨m', hj⟩ := RwLock.waiting_iff.mp hj
    have hold := hI.apart j (RwLock.waiting_iff.mpr ⟨m', hmem _ hj⟩)
    have hji : i ≠ j := fun hij => hnd.1 (List.mem_map.mpr ⟨(j, m'), hj, hij.symm⟩)
    simpa [RwLock.entered, hji] using hold

/-- A process that waits does not move. -/
theorem LockInv.notMem_queue {i : Nat} (hI : LockInv G L)
    (hen : G.awaits L.state i = none ∨ L.lock.entered i = true) (m : Mode) :
    (i, m) ∉ L.lock.queue := by
  intro hm
  cases hen with
  | inl hnone =>
      rw [hI.queue i m hm] at hnone
      cases hnone
  | inr hent =>
      rw [hI.apart i (RwLock.waiting_iff.mpr ⟨m, hm⟩)] at hent
      cases hent

theorem LockInv.move {e : E} {i : Nat} {t : S} (hI : LockInv G L) (hact : G.actor e = some i)
    (hen : G.awaits L.state i = none ∨ L.lock.entered i = true)
    (ht : G.step L.state e = some t) : LockInv G ⟨t, L.lock.release i (G.keeps t i)⟩ := by
  -- The requests and guards of the other processes stay as they are.
  have hother : ∀ j, j ≠ i → G.actor e ≠ some j := by
    intro j hj hji
    rw [hact, Option.some.injEq] at hji
    exact hj hji.symm
  refine ⟨?_, ?_, ?_, ?_, hI.once⟩
  · intro j m hj
    have hji : j ≠ i := fun hji => hI.notMem_queue hen m (hji ▸ hj)
    exact G.awaits_frame ht (hother j hji) (hI.queue j m hj)
  · intro j m hj
    simp only [RwLock.release, List.mem_filter, bne_iff_ne] at hj
    exact G.awaits_frame ht (hother j hj.2) (hI.granted j m hj.1)
  · intro j m
    simp only [RwLock.release, List.mem_append, List.mem_filter, bne_iff_ne,
      Option.mem_toList, Option.map_eq_some_iff]
    by_cases hji : j = i
    · subst hji
      simp
    · rw [G.keeps_frame ht (hother j hji), ← hI.kept j m]
      simp [hji, Ne.symm hji]
  · intro j hj
    have hold := hI.apart j hj
    rw [RwLock.entered, List.any_eq_false] at hold ⊢
    exact fun g hg => hold g (List.mem_filter.mp hg).1

theorem LockInv.step (hI : LockInv G L) (h : G.lockedStep L e = some L') : LockInv G L' := by
  cases lockedStep_inv h with
  | request ha hne hnw => exact hI.request ha hne hnw
  | grant hq hadm => exact hI.grant hq
  | ambient hact ht =>
      refine ⟨fun i m hi => ?_, fun i m hi => ?_, fun i m => ?_, hI.apart, hI.once⟩
      · exact G.awaits_frame ht (by simp [hact]) (hI.queue i m hi)
      · exact G.awaits_frame ht (by simp [hact]) (hI.granted i m hi)
      · rw [G.keeps_frame ht (by simp [hact])]
        exact hI.kept i m
  | move hact hen ht => exact hI.move hact hen ht

theorem lockInv {s₀ : S} {ms : List (Move (Locked S) (LockEvent E))}
    (h : Run G.lockedStep ⟨s₀, .free⟩ ms L) (h0 : ∀ i, G.keeps s₀ i = none) : LockInv G L :=
  h.always (LockInv.init h0) fun _ _ _ hI hs => hI.step hs

/-! ## Progress -/

/-- A process that waits while it holds a guard has kept that guard. -/
theorem LockInv.keeps_of_holding (hI : LockInv G L) {i : Nat} (hw : L.lock.waiting i = true)
    (hh : L.lock.holding i = true) : ∃ m, G.keeps L.state i = some m := by
  rw [RwLock.holding, List.any_append, Bool.or_eq_true] at hh
  cases hh with
  | inl hent =>
      rw [show L.lock.granted.any (fun g => g.1 == i) = L.lock.entered i from rfl,
        hI.apart i hw] at hent
      cases hent
  | inr hkept =>
      obtain ⟨⟨j, m⟩, hj, hji⟩ := List.any_eq_true.mp hkept
      rw [beq_iff_eq] at hji
      subst hji
      exact ⟨m, (hI.kept j m).mp hj⟩

/-- A process with a granted guard can take its step. -/
theorem LockInv.move_enabled (hI : LockInv G L) {j : Nat} (hj : L.lock.entered j = true) :
    ∃ e, G.actor e = some j ∧ (G.lockedStep L (.move e)).isSome = true := by
  obtain ⟨m, hm⟩ := RwLock.entered_iff.mp hj
  obtain ⟨e, t, hact, ht⟩ := G.ready (hI.granted j m hm)
  exact ⟨e, hact, by simp [lockedStep, hact, hj, ht]⟩

/-- Where no process keeps a guard and some process waits, the oldest request can be granted
or a process that does not wait can take its step and give its guard back. -/
theorem LockInv.progress (hI : LockInv G L) (hk : ∀ i, G.keeps L.state i = none) {i : Nat}
    (hw : L.lock.waiting i = true) :
    (G.lockedStep L .grant).isSome = true ∨
    ∃ j e, j ≠ i ∧ L.lock.entered j = true ∧ G.actor e = some j ∧
      (G.lockedStep L (.move e)).isSome = true := by
  have hkept : L.lock.kept = [] := by
    apply List.eq_nil_iff_forall_not_mem.mpr
    rintro ⟨j, m⟩ hj
    have hkj := (hI.kept j m).mp hj
    rw [hk j] at hkj
    cases hkj
  cases hg : L.lock.granted with
  | nil =>
      obtain ⟨m, hm⟩ := RwLock.waiting_iff.mp hw
      cases hq : L.lock.queue with
      | nil => simp [hq] at hm
      | cons g queue =>
          left
          cases hmode : g.2 <;> simp [lockedStep, hq, RwLock.admits, hmode, hg, hkept]
  | cons g granted =>
      right
      have hent : L.lock.entered g.1 = true := RwLock.entered_iff.mpr ⟨g.2, hg ▸ List.mem_cons_self⟩
      obtain ⟨e, hact, hen⟩ := hI.move_enabled hent
      refine ⟨g.1, e, ?_, hent, hact, hen⟩
      intro hgi
      rw [hgi, hI.apart i hw] at hent
      cases hent

/-! ## A process that waits for itself -/

/-- The oldest request is for a write guard, by a process that has kept a guard. -/
def SelfBlocked (L : Locked S) (i : Nat) : Prop :=
  (∃ queue, L.lock.queue = (i, .write) :: queue) ∧ ∃ m, (i, m) ∈ L.lock.kept

theorem SelfBlocked.step {i : Nat} (hI : LockInv G L) (hb : SelfBlocked L i)
    (h : G.lockedStep L e = some L') : SelfBlocked L' i ∧ e ≠ .grant := by
  obtain ⟨⟨queue, hq⟩, m, hm⟩ := hb
  cases lockedStep_inv h with
  | @request j m' ha hne hnw => exact ⟨⟨⟨queue ++ [(j, m')], by simp [hq]⟩, m, hm⟩, by simp⟩
  | grant hq' hadm =>
      -- The kept guard is out, so the write guard is not granted.
      rw [hq, List.cons.injEq] at hq'
      obtain ⟨heq, -⟩ := hq'
      cases heq
      rw [RwLock.admits, List.isEmpty_iff, List.append_eq_nil_iff] at hadm
      rw [hadm.2] at hm
      cases hm
  | ambient => exact ⟨⟨⟨queue, hq⟩, m, hm⟩, by simp⟩
  | @move e j t hact hen ht =>
      have hmem : (i, Mode.write) ∈ L.lock.queue := hq ▸ List.mem_cons_self
      have hji : i ≠ j := by
        intro hij
        subst hij
        cases hen with
        | inl hnone =>
            rw [hI.queue i .write hmem] at hnone
            cases hnone
        | inr hent =>
            rw [hI.apart i (RwLock.waiting_iff.mpr ⟨_, hmem⟩)] at hent
            cases hent
      exact ⟨⟨⟨queue, hq⟩, m, by simp [RwLock.release, hm, hji]⟩, by simp⟩

/-- Once a process waits for itself, no guard is ever granted again. -/
theorem SelfBlocked.forever {i : Nat} {L₀ : Locked S}
    {ms : List (Move (Locked S) (LockEvent E))} (hI : LockInv G L₀) (hb : SelfBlocked L₀ i)
    (h : Run G.lockedStep L₀ ms L) : ∀ m ∈ ms, m.ev ≠ .grant := by
  intro m hm
  have hpre : LockInv G m.pre ∧ SelfBlocked m.pre i :=
    (h.invariant_mem (I := fun L => LockInv G L ∧ SelfBlocked L i) (C := fun _ => True)
      ⟨hI, hb⟩ (fun _ _ _ hI _ hs => ⟨hI.1.step hs, (SelfBlocked.step hI.1 hI.2 hs).1⟩)
      (fun _ _ => trivial) m hm).1
  exact (SelfBlocked.step hpre.1 hpre.2 (h.step_of_mem hm)).2

/-! ## Write guards -/

/-- A granted write guard is the only guard that is out. -/
def Exclusive (L : Locked S) : Prop :=
  ∀ i, (i, Mode.write) ∈ L.lock.granted → L.lock.granted = [(i, .write)] ∧ L.lock.kept = []

/-- Only a step under a guard can keep one. -/
def KeepsGranted (G : Guarded S E) : Prop :=
  ∀ s e t i, G.actor e = some i → G.awaits s i = none → G.step s e = some t → G.keeps t i = none

theorem Exclusive.init (s : S) : Exclusive ⟨s, .free⟩ := by
  intro i hi
  cases hi

/-- A granted write guard was granted alone, and after it nothing is granted. -/
theorem Exclusive.of_admits {i : Nat} {m : Mode} {queue : List (Nat × Mode)}
    (hadm : L.lock.admits m = true) :
    Exclusive { L with lock := ⟨(i, m) :: L.lock.granted, L.lock.kept, queue⟩ } := by
  cases m with
  | write =>
      rw [RwLock.admits, List.isEmpty_iff, List.append_eq_nil_iff] at hadm
      intro j hj
      rw [hadm.1, List.mem_singleton] at hj
      cases hj
      exact ⟨by rw [hadm.1], hadm.2⟩
  | read =>
      -- The guards that are out are read guards, and so is the new one.
      rw [RwLock.admits, List.all_append, Bool.and_eq_true, List.all_eq_true] at hadm
      intro j hj
      rw [List.mem_cons] at hj
      cases hj with
      | inl hj => cases hj
      | inr hj => cases hadm.1 _ hj

theorem Exclusive.move {e : E} {i : Nat} {t : S} (hG : KeepsGranted G) (hE : Exclusive L)
    (hact : G.actor e = some i) (hen : G.awaits L.state i = none ∨ L.lock.entered i = true)
    (ht : G.step L.state e = some t) : Exclusive ⟨t, L.lock.release i (G.keeps t i)⟩ := by
  intro j hj
  simp only [RwLock.release, List.mem_filter, bne_iff_ne] at hj
  obtain ⟨hgranted, hkept⟩ := hE j hj.1
  -- The guard of `j` is the only one, so `i` moves without any.
  have hnone : G.awaits L.state i = none := by
    refine hen.resolve_right fun hent => ?_
    obtain ⟨m, hm⟩ := RwLock.entered_iff.mp hent
    rw [hgranted, List.mem_singleton] at hm
    cases hm
    exact hj.2 rfl
  constructor
  · simp [RwLock.release, hgranted, hj.2]
  · simp [RwLock.release, hkept, hG _ _ _ _ hact hnone ht]

theorem Exclusive.step (hG : KeepsGranted G) (hE : Exclusive L)
    (h : G.lockedStep L e = some L') : Exclusive L' := by
  cases lockedStep_inv h with
  | request => exact hE
  | grant _ hadm => exact .of_admits hadm
  | ambient => exact hE
  | move hact hen ht => exact hE.move hG hact hen ht

/-- A process that awaits a write guard while it keeps a guard is not granted it. -/
theorem LockInv.blocked {i : Nat} {m : Mode} (hI : LockInv G L) (hE : Exclusive L)
    (hk : G.keeps L.state i = some m) (ha : G.awaits L.state i = some .write) :
    L.lock.entered i = false := by
  rw [← Bool.not_eq_true, RwLock.entered_iff]
  rintro ⟨m', hm'⟩
  have hmode := hI.granted i m' hm'
  rw [ha] at hmode
  cases hmode
  have hkept := (hI.kept i m).mpr hk
  rw [(hE i hm').2] at hkept
  cases hkept

/-! ## Processes that go away -/

theorem LockInv.drop {i : Nat} {t : S} (hI : LockInv G L) (hself : G.keeps t i = none)
    (hother : ∀ j, j ≠ i →
      G.awaits t j = G.awaits L.state j ∧ G.keeps t j = G.keeps L.state j) :
    LockInv G ⟨t, L.lock.drop i⟩ := by
  refine ⟨?_, ?_, ?_, ?_, ?_⟩
  · intro j m hj
    simp only [RwLock.drop, List.mem_filter, bne_iff_ne] at hj
    exact (hother j hj.2).1.trans (hI.queue j m hj.1)
  · intro j m hj
    simp only [RwLock.drop, List.mem_filter, bne_iff_ne] at hj
    exact (hother j hj.2).1.trans (hI.granted j m hj.1)
  · intro j m
    simp only [RwLock.drop, List.mem_filter, bne_iff_ne]
    by_cases hji : j = i
    · subst hji
      simp [hself]
    · simp [hji, (hother j hji).2, hI.kept j m]
  · intro j hj
    obtain ⟨m, hm⟩ := RwLock.waiting_iff.mp hj
    have hold := hI.apart j (RwLock.waiting_iff.mpr ⟨m, (List.mem_filter.mp hm).1⟩)
    rw [RwLock.entered, List.any_eq_false] at hold ⊢
    exact fun g hg => hold g (List.mem_filter.mp hg).1
  · exact hI.once.sublist (List.filter_sublist.map Prod.fst)

theorem Exclusive.drop (hE : Exclusive L) (t : S) (i : Nat) : Exclusive ⟨t, L.lock.drop i⟩ := by
  intro j hj
  simp only [RwLock.drop, List.mem_filter, bne_iff_ne] at hj
  obtain ⟨hgranted, hkept⟩ := hE j hj.1
  simp [RwLock.drop, hgranted, hkept, hj.2]

end Guarded

end Machine
