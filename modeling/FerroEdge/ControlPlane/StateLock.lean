import Mathlib.Data.Fintype.EquivFin
import FerroEdge.ControlPlane.System
import FerroEdge.Machine.RwLock

/-!
# The lock of the state

Every access to `AppState` goes through one `RwLock`.  Almost every statement that takes a
guard gives it back before the next `await`.  The exception is the assignment at the end of a
queue wait: its read guard is a temporary that lives until the end of the statement, and the
statement awaits the write guard.

`guarded` puts the control plane under the lock.  `stateLock_deadlockFree` says that no run
waits for the lock while it holds it, and that the lock makes progress, as long as no dispatch
enters a queue wait, that is, as long as a node is eligible whenever a dispatch asks for one.
`queueWait_deadlock` is the run in which none is: the dispatch waits for itself.
-/

namespace FerroEdge.ControlPlane

open Machine

/-! ## Who takes which guard -/

def DispatchPc.awaits : DispatchPc → Option Mode
  | .submit | .select | .giveUp | .enqueue | .dequeueWrite _ | .countRetry _
  | .recordSuccess _ _ | .storeSuccess _ _ | .recordFailure _ | .exhausted => some .write
  | .dequeueRead | .clonePool _ => some .read
  | .queueSleep _ | .lockPool _ | .inFlight _ _ | .backoff _ | .capacitySleep _ | .done => none

/-- The guard that is still held at an `await`. -/
def DispatchPc.keeps : DispatchPc → Option Mode
  | .dequeueWrite _ => some .read
  | _ => none

def Proc.awaits (X : Externals) : Proc → Option Mode
  | .dispatch r => r.pc.awaits
  | .submit _ _ body => if body.readsRegistry X then some .read else none
  | .batch ⟨_, _, _, .resolving (item :: _)⟩ =>
      if item.readsRegistry X then some .read else none
  | .register _ => some .write
  | .upload (.store _ _) => some .write
  | .upload (.collect _) => some .read
  | .round .snapshot => some .read
  | .round (.write ..) => some .write
  | .reader => some .read
  | _ => none

def Proc.keeps : Proc → Option Mode
  | .dispatch r => r.pc.keeps
  | _ => none

variable {X : Externals} {env : Env} {s t : Sys} {e : Event}

/-! ## The discipline -/

theorem DispatchRun.step_isSome (now : Nat) (env : Env) (sh : Shared) {r : DispatchRun} {m : Mode}
    (h : r.pc.awaits = some m) : ∃ res, r.step X now env sh = some res := by
  apply Option.isSome_iff_exists.mp
  cases hpc : r.pc <;> simp only [hpc, DispatchPc.awaits, reduceCtorEq] at h <;>
    simp only [DispatchRun.step, hpc, Option.isSome_some]

theorem Sys.exists_fresh (s : Sys) : ∃ id, s.fresh id = true := by
  obtain ⟨id, hid⟩ := Infinite.exists_notMem_finset (s.procs.filterMap Proc.taskId?).toFinset
  refine ⟨id, List.all_eq_true.mpr fun p hp => ?_⟩
  rw [bne_iff_ne]
  intro heq
  exact hid (List.mem_toFinset.mpr (List.mem_filterMap.mpr ⟨p, hp, heq⟩))

/-- A step under a guard never blocks. -/
theorem Proc.step_isSome {p : Proc} {m : Mode} (h : p.awaits X = some m) :
    ∃ env res, p.step X env s = some res := by
  cases p with
  | dispatch r =>
      obtain ⟨res, hres⟩ := DispatchRun.step_isSome (X := X) s.now {} s.shared h
      exact ⟨{}, _, by rw [Proc.step, hres]; rfl⟩
  | submit taskId traceId body =>
      refine ⟨{}, ?_⟩
      simp only [Proc.step]
      split <;> exact ⟨_, rfl⟩
  | batch b =>
      obtain ⟨traceId, tasks, futures, pc⟩ := b
      cases pc with
      | resolving items =>
          cases items with
          | nil => cases h
          | cons item items =>
              obtain ⟨id, hid⟩ := s.exists_fresh
              have hnext : ∃ b' new, BatchRun.step X { uuid := id } s.shared.app s.result
                  s.procs.length s.fresh ⟨traceId, tasks, futures, .resolving (item :: items)⟩ =
                  some (b', new) :=
                BatchRun.step_isSome (fun _ hpc => by cases hpc) (fun hpc => by cases hpc) hid
              obtain ⟨b', new, hstep⟩ := hnext
              exact ⟨{ uuid := id }, _, by rw [Proc.step, hstep]; rfl⟩
      | start => cases h
      | returned result => cases h
  | register node => exact ⟨{}, _, rfl⟩
  | upload u =>
      cases u with
      | store body bytes =>
          refine ⟨{}, ?_⟩
          simp only [Proc.step, UploadRun.step]
          split <;> exact ⟨_, rfl⟩
      | collect moduleId => exact ⟨{}, _, rfl⟩
      | start body => cases h
      | returned result => cases h
  | round hr =>
      cases hr with
      | snapshot => exact ⟨{}, _, rfl⟩
      | write => exact ⟨{}, _, rfl⟩
      | probe => cases h
      | done => cases h
  | reader => exact ⟨{}, _, rfl⟩
  | rejected e => cases h
  | ended => cases h

theorem Event.starts_keeps {p : Proc} (h : e.starts = some p) : p.keeps = none := by
  cases e <;> cases h <;> rfl

/-- The control plane as a machine under the lock of its state. -/
def guarded (X : Externals) : Guarded Sys Event where
  step := Sys.step X
  actor := Event.actor
  awaits s i := s.procs[i]?.bind (Proc.awaits X)
  keeps s i := s.procs[i]?.bind Proc.keeps
  awaits_frame := by
    intro s t e i m hs hi ha
    obtain ⟨p, hp, hm⟩ := Option.bind_eq_some_iff.mp ha
    rw [(Sys.step_inv hs).getElem?_frame hi hp]
    exact hm
  keeps_frame := by
    intro s t e i hs hi
    have hstep := Sys.step_inv hs
    cases hs' : s.procs[i]? with
    | some p => rw [hstep.getElem?_frame hi hs']
    | none =>
        cases ht : t.procs[i]? with
        | none => rfl
        | some p =>
            cases hstep.getElem?_inv hi ht with
            | inl hold => rw [hs'] at hold; cases hold
            | inr hnew =>
                cases hnew.2 with
                | inl he => exact Event.starts_keeps he
                | inr hspec =>
                    obtain ⟨spec, rfl⟩ := hspec
                    rfl
  ready := by
    intro s i m ha
    obtain ⟨p, hp, hm⟩ := Option.bind_eq_some_iff.mp ha
    obtain ⟨env, res, hres⟩ := Proc.step_isSome (s := s) hm
    obtain ⟨t, ht⟩ : ∃ t, s.step X (.run i env) = some t :=
      Option.isSome_iff_exists.mp (by simp [Sys.step, hp, hres])
    exact ⟨.run i env, t, rfl, ht⟩

/-! ## Deadlock freedom -/

/-- No process waits for the lock while it holds a guard of it, and while some process waits,
a guard can be granted or another process can take its step and give its guard back. -/
def DeadlockFree (X : Externals) (L : Locked Sys) : Prop :=
  (∀ i, L.lock.waiting i = true → L.lock.holding i = false) ∧
  ∀ i, L.lock.waiting i = true →
    ((guarded X).lockedStep L .grant).isSome = true ∨
    ∃ j e, j ≠ i ∧ L.lock.entered j = true ∧ e.actor = some j ∧
      ((guarded X).lockedStep L (.move e)).isSome = true

/-- A dispatch that asks for a node finds one. -/
def Schedulable (m : Move Sys Event) : Prop :=
  ∀ r ∈ m.pre.selecting m.ev, ∃ n, Eligible m.pre.now r.triedNodes m.pre.shared.app n

instance : DecidablePred Schedulable := fun _ => Option.decidableForallMem _

/-- The run waits in the queue or has given up waiting. -/
def DispatchPc.queues : DispatchPc → Bool
  | .giveUp | .enqueue | .queueSleep _ | .dequeueRead | .dequeueWrite _ => true
  | _ => false

theorem DispatchPc.keeps_of_queues {pc : DispatchPc} (h : pc.queues = false) :
    pc.keeps = none := by
  cases pc with
  | dequeueWrite queued => cases h
  | _ => rfl

theorem DispatchRun.onResult_queues (X : Externals) (now : Nat) (node : NodeInfo)
    (result : Except Status ExecuteTaskResponse) (r : DispatchRun) :
    (r.onResult X now node result).pc.queues = false := by
  obtain ⟨_, _, _, h⟩ | ⟨_, h⟩ | ⟨_, _, h⟩ | ⟨_, _, h⟩ := onResult_cases X now node result r
  all_goals
    rw [h]
    rfl

/-- A dispatch enters the queue only where the scheduler has no node for it. -/
theorem DispatchRun.step_queues {now : Nat} {sh sh' : Shared} {r r' : DispatchRun}
    (h : r.step X now env sh = some (sh', r')) (hq : r.pc.queues = false)
    (hsel : r.pc = .select → ∃ n, Eligible now r.triedNodes sh.app n) : r'.pc.queues = false := by
  cases step_inv h with
  | select hpc =>
      obtain ⟨n, hn⟩ := hsel hpc
      obtain ⟨node, hnode⟩ := selectNodeForTask_complete env.seed hn
      rw [hnode]
      obtain h | h := onSelect_some r node <;> rw [h] <;> rfl
  | noChannel => exact onResult_queues ..
  | answer => exact onResult_queues ..
  | recordFailure =>
      obtain ⟨_, h⟩ | ⟨_, _, h⟩ := afterFailure_cases now r <;> rw [h] <;> rfl
  | enqueue hpc => rw [hpc] at hq; cases hq
  | endQueueSleep hpc => rw [hpc] at hq; cases hq
  | dequeueRead hpc => rw [hpc] at hq; cases hq
  | _ => rfl

/-- No dispatch waits in the queue. -/
def NoneQueues (s : Sys) : Prop :=
  ∀ (i : Nat) (r : DispatchRun), s.procs[i]? = some (.dispatch r) → r.pc.queues = false

theorem NoneQueues.step (hI : NoneQueues s) (hm : Schedulable ⟨s, e, t⟩)
    (h : s.step X e = some t) : NoneQueues t := by
  intro i r' hr'
  obtain hold | ⟨spec, rfl, -⟩ | ⟨env, r, rfl, hr, hrun⟩ := (Sys.step_inv h).dispatch_inv hr'
  · exact hI i r' hold
  · rfl
  · exact DispatchRun.step_queues hrun (hI i r hr) fun hpc => hm r (Sys.selecting_run hr hpc)

theorem NoneQueues.keeps_none (hI : NoneQueues s) (i : Nat) : (guarded X).keeps s i = none := by
  cases hp : s.procs[i]? with
  | none => simp [guarded, hp]
  | some p =>
      cases p with
      | dispatch r => simp [guarded, hp, Proc.keeps, DispatchPc.keeps_of_queues (hI i r hp)]
      | _ => simp [guarded, hp, Proc.keeps]

/-- In every run in which the scheduler has a node for every dispatch that asks for one, no
process waits for a guard of the state while it holds one, and the lock makes progress. -/
theorem stateLock_deadlockFree {url strategy : String} {L : Locked Sys}
    {ms : List (Move (Locked Sys) (LockEvent Event))}
    (h : Run (guarded X).lockedStep ⟨Sys.init url strategy, .free⟩ ms L)
    (hm : ∀ m ∈ ms.filterMap Guarded.innerMove, Schedulable m) : DeadlockFree X L := by
  have hI := Guarded.lockInv h (by simp [guarded, Sys.init])
  have hnone : NoneQueues L.state :=
    (Guarded.project h).invariant (C := Schedulable) (by simp [NoneQueues, Sys.init])
      (fun _ _ _ hI hm hs => NoneQueues.step hI hm hs) hm
  refine ⟨fun i hw => ?_, fun i hw => hI.progress hnone.keeps_none hw⟩
  cases hh : L.lock.holding i with
  | false => rfl
  | true =>
      obtain ⟨m, hk⟩ := hI.keeps_of_holding hw hh
      rw [hnone.keeps_none i] at hk
      cases hk

/-! ## Concrete runs -/

/-- One step of a process under a guard. -/
def lockedRun (i : Nat) (env : Env) : List (LockEvent Event) :=
  [.request i, .grant, .move (.run i env)]

/-- A node registers and a task is dispatched to it while another handler waits. -/
def scheduledTask : List (LockEvent Event) :=
  [.move (.registerNode (.sample "n" "http://n:50051"))] ++ lockedRun 0 {} ++
  [.move (.submitTask "t" "" .sample), .move (.run 1 {})] ++
  lockedRun 1 {} ++ lockedRun 1 {} ++ [.move .read, .request 1, .grant, .request 2]

theorem scheduledTask_deadlockFree :
    ∃ L, Run (guarded .sample).lockedStep ⟨Sys.init "" "round_robin", .free⟩
      (moves (guarded .sample).lockedStep ⟨Sys.init "" "round_robin", .free⟩ scheduledTask) L ∧
      L.lock.waiting 2 = true ∧ DeadlockFree .sample L := by
  have htest : (exec (guarded .sample).lockedStep ⟨Sys.init "" "round_robin", .free⟩
      scheduledTask).any (fun L => L.lock.waiting 2) = true := by decide
  obtain ⟨L, h, hw⟩ := exec_any_run htest
  exact ⟨L, h, hw, stateLock_deadlockFree h (by decide)⟩

/-- A task is submitted while no node is registered. -/
def queueWait : List (LockEvent Event) :=
  [.move (.submitTask "t" "" .sample), .move (.run 0 {})] ++
  lockedRun 0 {} ++ lockedRun 0 {} ++ lockedRun 0 {} ++
  [.move (.tick (10 ^ 9)), .move (.run 0 {})] ++ lockedRun 0 {} ++ [.request 0]

/-- After its queue wait the dispatch waits for the write guard while it holds the read
guard.  No guard can be granted, and no process has one to give back. -/
theorem queueWait_deadlock :
    ∃ ms L, Run (guarded .sample).lockedStep ⟨Sys.init "" "round_robin", .free⟩ ms L ∧
      ¬ DeadlockFree .sample L ∧ L.lock.waiting 0 = true ∧ L.lock.holding 0 = true ∧
      ((guarded .sample).lockedStep L .grant).isSome = false ∧ L.lock.granted = [] := by
  have htest : (exec (guarded .sample).lockedStep ⟨Sys.init "" "round_robin", .free⟩
      queueWait).any (fun L => L.lock.waiting 0 && L.lock.holding 0 &&
        !((guarded .sample).lockedStep L .grant).isSome && L.lock.granted.isEmpty) = true := by
    decide
  obtain ⟨L, h, hL⟩ := exec_any_run htest
  simp only [Bool.and_eq_true, Bool.not_eq_true', List.isEmpty_iff] at hL
  obtain ⟨⟨⟨hwait, hhold⟩, hgrant⟩, hnil⟩ := hL
  refine ⟨_, L, h, fun hfree => ?_, hwait, hhold, hgrant, hnil⟩
  rw [hfree.1 0 hwait] at hhold
  cases hhold

/-- From the moment a dispatch that ends its queue wait is first in line, no process is ever
granted a guard of the state again. -/
theorem queueWait_freezes {url strategy : String} {L L' : Locked Sys} {i queued : Nat}
    {r : DispatchRun} {queue : List (Nat × Mode)}
    {ms ms' : List (Move (Locked Sys) (LockEvent Event))}
    (h : Run (guarded X).lockedStep ⟨Sys.init url strategy, .free⟩ ms L)
    (hr : L.state.procs[i]? = some (.dispatch r)) (hpc : r.pc = .dequeueWrite queued)
    (hq : L.lock.queue = (i, .write) :: queue)
    (h' : Run (guarded X).lockedStep L ms' L') : ∀ m ∈ ms', m.ev ≠ .grant := by
  have hI := Guarded.lockInv h (by simp [guarded, Sys.init])
  have hkept : (i, Mode.read) ∈ L.lock.kept :=
    (hI.kept i .read).mpr (by simp [guarded, hr, Proc.keeps, hpc, DispatchPc.keeps])
  exact Guarded.SelfBlocked.forever hI ⟨⟨queue, hq⟩, .read, hkept⟩ h'

end FerroEdge.ControlPlane
