import FerroEdge.ControlPlane.Accounting
import FerroEdge.ControlPlane.StateLock

/-!
# The queued gauge

A dispatch that finds no node increments `queued`, sleeps for a second, and decrements `queued`
in a statement of its own.  The dispatch of `submit_task` is a part of the future of the
handler, and when the client disconnects the future is dropped at the `await` where it is.
The dispatches of a batch are spawned, and nobody drops them.

The machine here is the control plane under the lock of its state, with the cancellation of
`submit_task` added.  The statement that decrements keeps a read guard while it awaits the write
guard, so under the lock it never gets to its write (`decrement_blocked`).  What is left are
increments, and the dispatches that are dropped after theirs: the gauge is too high by their
number (`queued_eq`).
-/

namespace FerroEdge.ControlPlane

open Machine

/-! ## Cancellation -/

/-- The dispatches that a process has spawned. -/
def Proc.taskFutures : Proc → List Nat
  | .batch b => b.taskFutures
  | _ => []

/-- The process is `submit_task` at an `await`. -/
def Proc.submits : Proc → Bool
  | .submit _ _ _ => true
  | .dispatch r => r.pc != .done
  | _ => false

/-- The process is the future of a handler `submit_task`. -/
def Sys.droppable (s : Sys) (i : Nat) : Bool :=
  s.procs[i]?.any Proc.submits && s.procs.all fun p => !p.taskFutures.contains i

inductive ClientEvent where
  /-- A step of the control plane or of its lock. -/
  | server (e : LockEvent Event)
  /-- The client of a `submit_task` disconnects. -/
  | cancel (i : Nat)

def clientStep (X : Externals) (L : Locked Sys) : ClientEvent → Option (Locked Sys)
  | .server e => (guarded X).lockedStep L e
  | .cancel i =>
      if L.state.droppable i then
        some ⟨{ L.state with procs := L.state.procs.set i .ended }, L.lock.drop i⟩
      else none

/-- The run has executed the increment of `queued` and not yet the decrement. -/
def DispatchPc.waits : DispatchPc → Bool
  | .queueSleep _ | .dequeueRead | .dequeueWrite _ => true
  | _ => false

def Proc.waits (p : Proc) : Bool := p.run?.any fun r => r.pc.waits

/-- The number of dispatches that wait in the queue. -/
def Sys.waiting (s : Sys) : Nat := s.procs.countP Proc.waits

/-- The event cancels a dispatch that waits in the queue. -/
def Sys.abandons (s : Sys) : ClientEvent → Bool
  | .server _ => false
  | .cancel i => s.procs[i]?.any Proc.waits

/-- The number of dispatches that were cancelled while they waited in the queue. -/
def abandoned (ms : List (Move (Locked Sys) ClientEvent)) : Nat :=
  ms.countP fun m => m.pre.state.abandons m.ev

variable {X : Externals} {env : Env} {s t : Sys} {e : Event} {L L' : Locked Sys}
  {ev : ClientEvent}

theorem clientStep_cancel {i : Nat} (h : clientStep X L (.cancel i) = some L') :
    (∃ p, L.state.procs[i]? = some p) ∧
    L' = ⟨{ L.state with procs := L.state.procs.set i .ended }, L.lock.drop i⟩ := by
  simp only [clientStep] at h
  split at h
  case isTrue hdrop =>
    cases h
    rw [Sys.droppable, Bool.and_eq_true, Option.any_eq_true] at hdrop
    obtain ⟨p, hp, -⟩ := hdrop.1
    exact ⟨⟨p, hp⟩, rfl⟩
  case isFalse => cases h

/-! ## The decrement -/

/-- A dispatch comes to keep a guard in a step under a guard. -/
theorem DispatchRun.step_keeps {now : Nat} {sh sh' : Shared} {r r' : DispatchRun}
    (h : r.step X now env sh = some (sh', r')) (hnone : r.pc.awaits = none) :
    r'.pc.keeps = none := by
  cases step_inv h with
  | select hpc => rw [hpc] at hnone; cases hnone
  | dequeueRead hpc => rw [hpc] at hnone; cases hnone
  | recordFailure hpc => rw [hpc] at hnone; cases hnone
  | noChannel => exact DispatchPc.keeps_of_queues (onResult_queues ..)
  | answer => exact DispatchPc.keeps_of_queues (onResult_queues ..)
  | _ => rfl

theorem DispatchPc.keeps_of_awaits {pc : DispatchPc} (h : pc.awaits = none) :
    pc.keeps = none := by
  cases pc with
  | dequeueWrite queued => cases h
  | _ => rfl

theorem keepsGranted (X : Externals) : Guarded.KeepsGranted (guarded X) := by
  intro s e t i hact hnone hs
  cases hp' : t.procs[i]? with
  | none => simp [guarded, hp']
  | some p' =>
      cases p' with
      | dispatch r' =>
          have hawaits : ∀ r, s.procs[i]? = some (.dispatch r) → r.pc.awaits = none := by
            intro r hr
            simpa [guarded, hr, Proc.awaits] using hnone
          have hkeeps : r'.pc.keeps = none := by
            obtain hold | ⟨spec, rfl, -⟩ | ⟨env, r, -, hr, hrun⟩ :=
              (Sys.step_inv hs).dispatch_inv hp'
            · exact DispatchPc.keeps_of_awaits (hawaits r' hold)
            · rfl
            · exact DispatchRun.step_keeps hrun (hawaits r hr)
          simp [guarded, hp', Proc.keeps, hkeeps]
      | _ => simp [guarded, hp', Proc.keeps]

/-- Who has a guard, and that a write guard is out alone. -/
structure GuardInv (X : Externals) (L : Locked Sys) : Prop where
  lock : Guarded.LockInv (guarded X) L
  exclusive : Guarded.Exclusive L

theorem GuardInv.step (hI : GuardInv X L) (h : clientStep X L ev = some L') : GuardInv X L' := by
  cases ev with
  | server e => exact ⟨hI.lock.step h, hI.exclusive.step (keepsGranted X) h⟩
  | cancel i =>
      obtain ⟨⟨p, hp⟩, rfl⟩ := clientStep_cancel h
      refine ⟨hI.lock.drop ?_ fun j hj => ?_, hI.exclusive.drop _ i⟩
      · simp only [guarded, getElem?_set_self hp]
        rfl
      · simp only [guarded, List.getElem?_set_ne (Ne.symm hj), and_self]

/-- The assignment to `queued` never gets its write guard: the dispatch keeps the read guard. -/
theorem GuardInv.decrement_blocked {i queued : Nat} {r : DispatchRun} (hI : GuardInv X L)
    (hr : L.state.procs[i]? = some (.dispatch r)) (hpc : r.pc = .dequeueWrite queued) :
    (guarded X).lockedStep L (.move (.run i env)) = none := by
  have hkeeps : (guarded X).keeps L.state i = some .read := by
    simp [guarded, hr, Proc.keeps, hpc, DispatchPc.keeps]
  have hawaits : (guarded X).awaits L.state i = some .write := by
    simp [guarded, hr, Proc.awaits, hpc, DispatchPc.awaits]
  have hactor : (guarded X).actor (.run i env) = some i := rfl
  simp only [Guarded.lockedStep, hactor, hawaits, hI.lock.blocked hI.exclusive hkeeps hawaits]
  simp

/-! ## The gauge -/

theorem DispatchPc.waits_of_queues {pc : DispatchPc} (h : pc.queues = false) :
    pc.waits = false := by
  cases pc with
  | queueSleep wake => cases h
  | dequeueRead => cases h
  | dequeueWrite queued => cases h
  | _ => rfl

theorem DispatchRun.onSelect_waits (r : DispatchRun) (selected : Option NodeInfo) :
    (r.onSelect selected).pc.waits = false := by
  obtain ⟨node, -, h | h⟩ | h | h := onSelect_pc r selected <;> rw [h] <;> rfl

theorem DispatchRun.onResult_waits (X : Externals) (now : Nat) (node : NodeInfo)
    (result : Except Status ExecuteTaskResponse) (r : DispatchRun) :
    (r.onResult X now node result).pc.waits = false :=
  DispatchPc.waits_of_queues (onResult_queues ..)

theorem DispatchRun.afterFailure_waits (now : Nat) (r : DispatchRun) :
    (r.afterFailure now).pc.waits = false := by
  obtain ⟨_, h⟩ | ⟨_, _, h⟩ := afterFailure_cases now r <;> rw [h] <;> rfl

/-- A dispatch is in the gauge while it waits.  The decrement is left out, since it writes what
the gauge was in an earlier step. -/
theorem DispatchRun.step_queued {now : Nat} {sh sh' : Shared} {r r' : DispatchRun}
    (h : r.step X now env sh = some (sh', r')) (hne : ∀ queued, r.pc ≠ .dequeueWrite queued) :
    sh'.app.queued + (if r.pc.waits then 1 else 0) =
      sh.app.queued + (if r'.pc.waits then 1 else 0) := by
  cases step_inv h with
  | dequeueWrite hpc => exact absurd hpc (hne _)
  | select hpc =>
      obtain ⟨k, hk⟩ := selectNodeForTask_fst now env.seed r.triedNodes sh.app
      dsimp only
      rw [hk, hpc, onSelect_waits]
      rfl
  | noChannel hpc => rw [hpc, onResult_waits]; rfl
  | answer hpc => rw [hpc, onResult_waits]; rfl
  | recordFailure hpc => rw [hpc, afterFailure_waits]; rfl
  | endSleep hpc => obtain hpc | hpc := hpc <;> rw [hpc] <;> rfl
  | storeFailure hpc => obtain ⟨hpc, -⟩ | ⟨hpc, -⟩ := hpc <;> rw [hpc] <;> rfl
  | _ hpc => rw [hpc]; rfl

/-- A step in which no dispatch executes the decrement moves the gauge by as much as the number
of the dispatches that wait. -/
theorem Sys.Step.queued (h : Sys.Step X s e t)
    (hne : ∀ r queued, s.stepping e = some r → r.pc ≠ .dequeueWrite queued) :
    t.shared.app.queued + s.waiting = s.shared.app.queued + t.waiting := by
  obtain hq | ⟨i, env, r, r', sh, rfl, hi, hrun, rfl⟩ := h.quiet_or_dispatch
  · have hcount : t.waiting = s.waiting := h.countP_quiet hq (fun r => r.pc.waits) fun _ => rfl
    rw [hcount, h.app_quiet hq]
  · have hgauge : sh.app.queued + (if Proc.waits (.dispatch r) then 1 else 0) =
        s.shared.app.queued + (if Proc.waits (.dispatch r') then 1 else 0) :=
      DispatchRun.step_queued hrun fun queued => hne r queued (Sys.stepping_run hi)
    have hcount := countP_set_add (b := .dispatch r') Proc.waits hi
    simp only [Sys.waiting]
    omega

theorem GuardInv.not_decrement (hI : GuardInv X L)
    (h : (guarded X).lockedStep L (.move e) = some L') (r : DispatchRun) (queued : Nat)
    (hr : L.state.stepping e = some r) : r.pc ≠ .dequeueWrite queued := by
  intro hpc
  cases e with
  | run i env =>
      obtain ⟨p, hp, hrun⟩ := Option.bind_eq_some_iff.mp hr
      cases p with
      | dispatch r₀ =>
          cases hrun
          rw [hI.decrement_blocked hp hpc] at h
          cases h
      | _ => cases hrun
  | _ => cases hr

/-- A step moves the gauge by as much as the number of the dispatches that wait, except that it
keeps in it a dispatch that is cancelled while it waits. -/
theorem GuardInv.queued_step (hI : GuardInv X L) (h : clientStep X L ev = some L') :
    L'.state.shared.app.queued + L.state.waiting =
      L.state.shared.app.queued + L'.state.waiting +
        (if L.state.abandons ev then 1 else 0) := by
  cases ev with
  | server e =>
      cases Guarded.lockedStep_inv h with
      | request => rfl
      | grant => rfl
      | ambient _ ht => exact (Sys.step_inv ht).queued (hI.not_decrement h)
      | move _ _ ht => exact (Sys.step_inv ht).queued (hI.not_decrement h)
  | cancel i =>
      obtain ⟨⟨p, hp⟩, rfl⟩ := clientStep_cancel h
      have hcount := countP_set_add (b := .ended) Proc.waits hp
      have hended : Proc.waits .ended = false := rfl
      simp only [hended, Bool.false_eq_true, if_false] at hcount
      simp only [Sys.waiting, Sys.abandons, hp, Option.any_some]
      omega

variable {url strategy : String} {ms : List (Move (Locked Sys) ClientEvent)}

theorem guardInv (h : Run (clientStep X) ⟨Sys.init url strategy, .free⟩ ms L) : GuardInv X L := by
  refine h.always ⟨.init ?_, .init _⟩ fun _ _ _ hI hs => hI.step hs
  simp [guarded, Sys.init]

/-- The gauge counts the dispatches that wait and those that were cancelled while they
waited. -/
theorem queued_eq (h : Run (clientStep X) ⟨Sys.init url strategy, .free⟩ ms L) :
    L.state.shared.app.queued = L.state.waiting + abandoned ms := by
  induction h with
  | nil => rfl
  | @snoc ms L L' ev hrun hs ih =>
      have hstep := (guardInv hrun).queued_step hs
      have hsnoc : abandoned (ms ++ [⟨L, ev, L'⟩]) =
          abandoned ms + (if L.state.abandons ev then 1 else 0) := by
        simp [abandoned, List.countP_append, List.countP_singleton]
      omega

/-- In every state of every run the gauge is the number of the dispatches that wait in the
queue, exactly if no dispatch has been cancelled while it waited there. -/
theorem queued_iff (h : Run (clientStep X) ⟨Sys.init url strategy, .free⟩ ms L) :
    L.state.shared.app.queued = L.state.waiting ↔
      ∀ m ∈ ms, m.pre.state.abandons m.ev = false := by
  have hnone : abandoned ms = 0 ↔ ∀ m ∈ ms, m.pre.state.abandons m.ev = false := by
    simp [abandoned, List.countP_eq_zero]
  rw [← hnone, queued_eq h]
  omega

/-! ## Concrete runs -/

/-- A task is submitted while no node is registered, up to its sleep in the queue. -/
def queueing : List ClientEvent :=
  [.server (.move (.submitTask "t" "" .sample)), .server (.move (.run 0 {}))] ++
  (lockedRun 0 {} ++ lockedRun 0 {} ++ lockedRun 0 {}).map .server

/-- A second task is cancelled before it has come to the queue. -/
def cancelledEarly : List ClientEvent :=
  queueing ++ [.server (.move (.submitTask "u" "" .sample)), .server (.move (.run 1 {})),
    .server (.request 1), .cancel 1]

theorem cancelledEarly_queued :
    ∃ L, Run (clientStep .sample) ⟨Sys.init "" "round_robin", .free⟩
      (moves (clientStep .sample) ⟨Sys.init "" "round_robin", .free⟩ cancelledEarly) L ∧
      L.state.waiting = 1 ∧ L.state.shared.app.queued = L.state.waiting := by
  have htest : (exec (clientStep .sample) ⟨Sys.init "" "round_robin", .free⟩
      cancelledEarly).any (fun L => L.state.waiting = 1) = true := by decide
  obtain ⟨L, h, hL⟩ := exec_any_run htest
  exact ⟨L, h, of_decide_eq_true hL, (queued_iff h).mpr (by decide)⟩

/-- The task is cancelled during its sleep in the queue.  Nobody waits any more, and the gauge
stays at one. -/
theorem cancelledInQueue_queued :
    ∃ ms L, Run (clientStep .sample) ⟨Sys.init "" "round_robin", .free⟩ ms L ∧
      L.state.waiting = 0 ∧ L.state.shared.app.queued = 1 := by
  have htest : (exec (clientStep .sample) ⟨Sys.init "" "round_robin", .free⟩
      (queueing ++ [.cancel 0])).any
        (fun L => L.state.waiting = 0 && L.state.shared.app.queued = 1) = true := by decide
  obtain ⟨L, h, hL⟩ := exec_any_run htest
  rw [Bool.and_eq_true, decide_eq_true_eq, decide_eq_true_eq] at hL
  exact ⟨_, L, h, hL.1, hL.2⟩

end FerroEdge.ControlPlane
