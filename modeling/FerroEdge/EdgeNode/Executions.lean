import FerroEdge.EdgeNode.Responses

/-!
# The executions of a task on one node

A request may be turned away before it has a permit.  Only a request that was let in spawns the
closure that runs the guest, so the executions of a task are no more than its requests that were
not turned away.  And a request that was let in is never answered with `ResourceExhausted`.
-/

namespace FerroEdge.EdgeNode

open Machine WasmRuntime

/-- The closure runs or has run. -/
def Guest.started : Guest → Bool
  | .running | .ended => true
  | .unspawned | .queued => false

/-- The request was refused a permit, or was dropped before it had one. -/
def TaskPc.turnedAway : TaskPc → Bool
  | .refused _ => true
  | _ => false

/-- The request has a permit, or has had one. -/
def TaskPc.entered : TaskPc → Bool
  | .acquire | .refused _ => false
  | _ => true

def Proc.entered : Proc → Bool
  | .task r => r.pc.entered
  | .warm _ => false

/-- The process is a request for the task. -/
def Proc.requests (id : String) : Proc → Bool
  | .task r => r.req.taskId = id
  | .warm _ => false

/-- The process is a request for the task that was not turned away. -/
def Proc.admits (id : String) : Proc → Bool
  | .task r => r.req.taskId = id && !r.pc.turnedAway
  | .warm _ => false

/-- The guests that run or have run for the task. -/
def GuestSys.executions (id : String) (c : GuestSys) : Nat :=
  (c.guests.zip c.sys.procs).countP fun x => x.1.started && x.2.requests id

/-- The requests for the task that were not turned away. -/
def GuestSys.admitted (id : String) (c : GuestSys) : Nat := c.sys.procs.countP (Proc.admits id)

variable {X : Externals} {now : Nat} {env : Env} {node node' : Node} {r r' : TaskRun}
  {c d : GuestSys} {ev : GuestEvent} {id : String} {k : Nat}

theorem Proc.admits_task :
    (Proc.task r).admits id = true ↔ r.req.taskId = id ∧ r.pc.turnedAway = false := by
  simp [Proc.admits]

/-! ## Who spawns a closure -/

theorem Proc.entered_of_executes {p : Proc} (h : p.executes = true) : p.entered = true := by
  cases p with
  | warm w => cases h
  | task r =>
      rw [Proc.executes] at h
      rw [Proc.entered]
      cases hpc : r.pc with
      | execute bytes => rfl
      | executeCompiled ref module => rfl
      | _ => simp [hpc, TaskPc.executes] at h

theorem Proc.admits_of_entered {p : Proc} (h : p.entered = true) (hid : p.requests id = true) :
    p.admits id = true := by
  cases p with
  | warm w => cases h
  | task r =>
      rw [Proc.entered] at h
      rw [Proc.requests, decide_eq_true_eq] at hid
      cases hpc : r.pc with
      | acquire => simp [hpc, TaskPc.entered] at h
      | refused status => simp [hpc, TaskPc.entered] at h
      | _ => exact Proc.admits_task.mpr ⟨hid, by rw [hpc]; rfl⟩

/-- A request that was let in stays so. -/
theorem TaskRun.step_entered (h : r.step X now env node = some (node', r'))
    (hr : r.pc.entered = true) : r'.pc.entered = true := by
  cases TaskRun.step_inv h with
  | refuse hpc => simp [hpc, TaskPc.entered] at hr
  | increment =>
      simp only [atPc, TaskPc.resolve]
      split <;> rfl
  | downloaded =>
      simp only [atPc, TaskPc.downloaded]
      split <;> rfl
  | _ => rfl

theorem TaskRun.cancel_entered (h : r.cancel node = some (node', r'))
    (hr : r.pc.entered = true) : r'.pc.entered = true := by
  cases TaskRun.cancel_inv h with
  | waiting hpc => simp [hpc, TaskPc.entered] at hr
  | holding => rfl

/-- A closure that was spawned belongs to a request that was let in. -/
structure SpawnInv (c : GuestSys) : Prop where
  length : c.guests.length = c.sys.procs.length
  entered : ∀ (i : Nat) g p, c.guests[i]? = some g → c.sys.procs[i]? = some p →
    g ≠ .unspawned → p.entered = true

/-- A process takes a step, and may spawn its closure. -/
theorem SpawnInv.replace {i : Nat} {p p' : Proc} {sys : Sys} (h : SpawnInv c)
    (hi : c.sys.procs[i]? = some p) (hprocs : sys.procs = c.sys.procs.set i p')
    (hp : p.entered = true → p'.entered = true) :
    SpawnInv ⟨sys, GuestSys.spawn c.guests sys (.run i env)⟩ := by
  have hself : sys.procs[i]? = some p' := by rw [hprocs, getElem?_set_self hi]
  constructor
  · simp only [GuestSys.spawn, hprocs, List.length_set]
    split
    · rw [List.length_set, h.length]
    · exact h.length
  · intro j g q hg hq hspawned
    simp only [GuestSys.spawn, hself, Option.any_some] at hg
    dsimp only at hq
    rw [hprocs] at hq
    obtain ⟨rfl, rfl⟩ | ⟨hne, hq⟩ := getElem?_set_inv hq
    · split at hg
      case isTrue hexec => exact Proc.entered_of_executes hexec
      case isFalse => exact hp (h.entered j g p hg hi hspawned)
    · refine h.entered j g q ?_ hq hspawned
      split at hg
      · rwa [List.getElem?_set_ne (Ne.symm hne)] at hg
      · exact hg

/-- A closure that was spawned goes on. -/
theorem SpawnInv.advance {i : Nat} {g g' : Guest} (h : SpawnInv c) (hi : c.guests[i]? = some g)
    (hg : g ≠ .unspawned) : SpawnInv { c with guests := c.guests.set i g' } := by
  refine ⟨by simp [h.length], fun j g₁ p hg₁ hp hspawned => ?_⟩
  obtain ⟨rfl, -⟩ | ⟨-, hold⟩ := getElem?_set_inv hg₁
  · exact h.entered j g p hi hp hg
  · exact h.entered j g₁ p hold hp hspawned

theorem SpawnInv.step (h : SpawnInv c) (hs : c.step X ev = some d) : SpawnInv d := by
  cases GuestSys.moves_of_step hs with
  | @node e _ _ ht =>
      cases Sys.step_inv ht with
      | @start _ p he =>
          have hspawn : GuestSys.spawn c.guests { c.sys with procs := c.sys.procs ++ [p] } e =
              c.guests ++ [.unspawned] := by cases e <;> cases he <;> rfl
          rw [hspawn]
          refine ⟨by simp [h.length], fun i g q hg hq hspawned => ?_⟩
          obtain ⟨-, rfl⟩ | ⟨hlt, hg⟩ := getElem?_snoc_inv hg
          · exact absurd rfl hspawned
          · obtain ⟨heq, -⟩ | ⟨-, hq⟩ := getElem?_snoc_inv hq
            · have hlen := h.length
              omega
            · exact h.entered i g q hg hq hspawned
      | tick => exact ⟨h.length, h.entered⟩
      | task hi hrun => exact h.replace hi rfl (TaskRun.step_entered hrun)
      | warm hi => exact h.replace hi rfl fun hwarm => by cases hwarm
  | begin hi => exact h.advance hi (by rintro ⟨⟩)
  | finish hi => exact h.advance hi (by rintro ⟨⟩)
  | cancel hi hr =>
      refine ⟨by simp [h.length], fun j g p hg hp hspawned => ?_⟩
      obtain ⟨rfl, rfl⟩ | ⟨-, hold⟩ := getElem?_set_inv hp
      · exact TaskRun.cancel_entered hr (h.entered j g _ hg hi hspawned)
      · exact h.entered j g p hg hold hspawned

theorem SpawnInv.entered_of_started {g : Guest} {p : Proc} (h : SpawnInv c)
    (hg : c.guests[k]? = some g) (hp : c.sys.procs[k]? = some p) (hstarted : g.started = true) :
    p.entered = true := by
  refine h.entered k g p hg hp ?_
  rintro rfl
  cases hstarted

/-- Only requests run guests. -/
theorem SpawnInv.task_of_started {g : Guest} {p : Proc} (h : SpawnInv c)
    (hg : c.guests[k]? = some g) (hp : c.sys.procs[k]? = some p) (hstarted : g.started = true) :
    ∃ r, p = .task r := by
  have hentered := h.entered_of_started hg hp hstarted
  cases p with
  | task r => exact ⟨r, rfl⟩
  | warm w => cases hentered

/-- The code of a task runs no more often than the node lets a request for it in. -/
theorem SpawnInv.executions_le (h : SpawnInv c) (id : String) :
    c.executions id ≤ c.admitted id := by
  have hlen : (c.guests.zip c.sys.procs).length = c.sys.procs.length := by
    rw [List.length_zip, h.length, Nat.min_self]
  refine countP_le_countP hlen fun i x p hx hp hrun => ?_
  obtain ⟨hstarted, hid⟩ := Bool.and_eq_true_iff.mp hrun
  obtain ⟨hg, hq⟩ := List.getElem?_zip_eq_some.mp hx
  rw [hp] at hq
  cases hq
  exact Proc.admits_of_entered (h.entered_of_started hg hp hstarted) hid

theorem spawnInv {nodeId : String} {maxTasks cacheMaxSize cacheTtl : Nat}
    {ms : List (Move GuestSys GuestEvent)}
    (h : Run (GuestSys.step X) (.init nodeId maxTasks cacheMaxSize cacheTtl) ms c) : SpawnInv c :=
  h.always (I := SpawnInv) ⟨rfl, fun i g p hg => by cases hg⟩ fun _ _ _ hI hs => hI.step hs

/-! ## What a request that was let in answers -/

/-- The request is about to answer, or has answered, that the node is at capacity although it
was let in. -/
def TaskPc.exhausts : TaskPc → Bool
  | .fail status | .returned (.error status) => status.code = .resourceExhausted
  | _ => false

theorem TaskRun.step_exhausts (h : r.step X now env node = some (node', r'))
    (hr : r.pc.exhausts = false) : r'.pc.exhausts = false := by
  obtain ⟨req, pc⟩ := r
  unfold TaskRun.step at h
  cases pc with
  | acquire =>
      dsimp only at h
      split at h <;> cases h <;> rfl
  | increment =>
      cases h
      simp only [atPc, TaskPc.resolve]
      split <;> rfl
  | getCached ref =>
      cases h
      dsimp only [atPc]
      split <;> rfl
  | download ref =>
      dsimp only at h
      split at h <;> cases h
      · rfl
      · simp only [atPc, TaskPc.downloaded]
        split <;> rfl
  | getOrCompile ref wasm g =>
      dsimp only at h
      split at h <;> cases h <;> rfl
  | fail status =>
      cases h
      exact hr
  | refused status => cases h
  | returned result => cases h
  | _ =>
      cases h
      rfl

theorem TaskRun.cancel_exhausts (h : r.cancel node = some (node', r')) :
    r'.pc.exhausts = false := by
  cases TaskRun.cancel_inv h <;> rfl

theorem not_exhausts {nodeId : String} {maxTasks cacheMaxSize cacheTtl : Nat}
    {ms : List (Move GuestSys GuestEvent)}
    (h : Run (GuestSys.step X) (.init nodeId maxTasks cacheMaxSize cacheTtl) ms c)
    (hk : c.sys.procs[k]? = some (.task r)) : r.pc.exhausts = false := by
  induction h generalizing r with
  | nil => cases hk
  | snoc _ hs ih =>
      obtain hold | hpc | ⟨env, r₀, -, hr₀, hrun⟩ | ⟨r₀, -, -, hcancel⟩ :=
        (GuestSys.step_inv hs).task_inv hk
      · exact ih hold
      · rw [hpc]
        rfl
      · exact TaskRun.step_exhausts hrun (ih hr₀)
      · exact TaskRun.cancel_exhausts hcancel

/-! ## How the requests of a node change -/

theorem TaskRun.turnedAway_of_cancel (h : r.cancel node = some (node', r')) :
    r.pc.turnedAway = false := by
  cases TaskRun.cancel_inv h with
  | waiting hpc =>
      rw [hpc]
      rfl
  | holding hholds =>
      cases hpc : r.pc with
      | refused status => simp [hpc, TaskPc.holdsPermit] at hholds
      | _ => rfl

theorem TaskRun.turnedAway_of_step (h : r.step X now env node = some (node', r')) :
    r.pc.turnedAway = false := by
  cases TaskRun.step_inv h <;> simp_all [TaskPc.turnedAway]

/-- A step in which no request reaches the node replaces at most one process, and none is let in
that was turned away. -/
theorem GuestSys.Step.admits_inv (h : GuestSys.Step X c ev d)
    (hint : ∀ e p, ev = .node e → e.starts ≠ some p) :
    d.sys.procs = c.sys.procs ∨ ∃ k p p', c.sys.procs[k]? = some p ∧
      d.sys.procs = c.sys.procs.set k p' ∧
      ∀ id, p'.admits id = true → p.admits id = true := by
  have htask : ∀ {r r' : TaskRun}, r.pc.turnedAway = false → r'.req = r.req →
      ∀ id, (Proc.task r').admits id = true → (Proc.task r).admits id = true := by
    intro r r' hr hreq id hadmits
    exact Proc.admits_task.mpr ⟨hreq ▸ (Proc.admits_task.mp hadmits).1, hr⟩
  cases h with
  | quiet _ hprocs => exact Or.inl hprocs
  | start he => exact absurd he (hint _ _ rfl)
  | task hi hrun hprocs =>
      exact Or.inr ⟨_, _, _, hi, hprocs,
        htask (TaskRun.turnedAway_of_step hrun) (TaskRun.step_req hrun)⟩
  | warm hi _ hprocs => exact Or.inr ⟨_, _, _, hi, hprocs, fun id hadmits => hadmits⟩
  | cancel hi hcancel hprocs =>
      exact Or.inr ⟨_, _, _, hi, hprocs,
        htask (TaskRun.turnedAway_of_cancel hcancel) (TaskRun.cancel_req hcancel)⟩

end FerroEdge.EdgeNode
