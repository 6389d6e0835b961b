import FerroEdge.Fleet.Provenance
import Mathlib.Algebra.Order.BigOperators.Group.List
import Mathlib.Algebra.Order.Group.Nat
import Mathlib.Data.List.Perm.Subperm

/-!
# The books of the control plane and of the edge nodes

The control plane counts the tasks that succeeded, and each edge node counts the tasks that it
has executed and the time that they took.  The two sides share nothing but the RPCs between them.

`successes_covered` says that what the control plane has booked, the edge nodes have booked too:
`total_success` is at most the sum of the `total_executed` of the nodes, and the times of the
results that report success add up to at most the sum of their `total_execution_time_ms`.  It is
no equation, since a node may execute a task whose connection is lost.

A node keeps every answer that reports success, and each one is one more in its books.  A result
that reports success is such an answer, and no two results have one task id.
-/

namespace FerroEdge.EdgeNode

open Machine WasmRuntime

/-- The task that a request has answered with success, and the time that it took. -/
def TaskRun.success? (r : TaskRun) : Option (String × Nat) :=
  match r.pc with
  | .returned (.ok resp) =>
      if resp.success then some (r.req.taskId, resp.executionTimeMs.toNat) else none
  | _ => none

def Proc.success? : Proc → Option (String × Nat)
  | .task r => r.success?
  | .warm _ => none

/-- The tasks that the requests of the node have answered with success. -/
def GuestSys.successes (c : GuestSys) : List (String × Nat) := c.sys.procs.filterMap Proc.success?

variable {X : Externals} {now : Nat} {env : Env} {node node' : Node} {r r' : TaskRun}
  {c d : GuestSys} {ev : GuestEvent} {new : List (String × Nat)}

/-- The node has booked these successes. -/
def Node.Books (node : Node) (new : List (String × Nat)) (node' : Node) : Prop :=
  node'.state.totalExecuted = node.state.totalExecuted + new.length ∧
  node'.state.totalExecutionTimeMs =
    node.state.totalExecutionTimeMs + (new.map Prod.snd).sum

theorem TaskRun.success_of_step (h : r.step X now env node = some (node', r')) :
    r.success? = none := by
  cases TaskRun.step_inv h <;> simp_all [TaskRun.success?]

/-- A step of a request books the success that it answers with. -/
theorem TaskRun.step_books (h : r.step X now env node = some (node', r')) :
    node.Books r'.success?.toList node' := by
  cases TaskRun.step_inv h with
  | increment =>
      simp only [atPc, TaskPc.resolve]
      split <;> exact ⟨rfl, rfl⟩
  | downloaded =>
      simp only [atPc, TaskPc.downloaded]
      split <;> exact ⟨rfl, rfl⟩
  | succeed hpc =>
      rw [TaskRun.step, hpc] at h
      cases h
      exact ⟨rfl, rfl⟩
  | failExecution _ hfail =>
      simp only [success?, atPc, hfail]
      exact ⟨rfl, rfl⟩
  | _ => exact ⟨rfl, rfl⟩

/-- A request that is dropped has not answered, and books nothing. -/
theorem TaskRun.cancel_books (h : r.cancel node = some (node', r')) :
    r.success? = none ∧ r'.success? = none ∧ node'.state = node.state := by
  rw [success?]
  cases TaskRun.cancel_inv h with
  | waiting hpc =>
      rw [hpc]
      exact ⟨rfl, rfl, rfl⟩
  | holding hholds =>
      refine ⟨?_, rfl, rfl⟩
      cases hpc : r.pc with
      | returned result => simp [hpc, TaskPc.holdsPermit] at hholds
      | _ => rfl

/-- A step of the node keeps the answers that report success, and books the new ones. -/
theorem GuestSys.Step.successes (h : GuestSys.Step X c ev d) :
    ∃ new, d.successes.Perm (new ++ c.successes) ∧ c.sys.node.Books new d.sys.node := by
  have hset : ∀ {i : Nat} {p p' : Proc}, c.sys.procs[i]? = some p → p.success? = none →
      d.sys.procs = c.sys.procs.set i p' →
      d.successes.Perm (p'.success?.toList ++ c.successes) := by
    intro i p p' hi hp hprocs
    have hperm := filterMap_set_perm (b := p') Proc.success? hi
    rwa [hp, ← hprocs] at hperm
  cases h with
  | quiet hnode hprocs =>
      refine ⟨[], ?_, ?_⟩
      · rw [GuestSys.successes, hprocs]
        exact List.Perm.refl _
      · rw [hnode]
        exact ⟨rfl, rfl⟩
  | @start e p _ he hnode hprocs =>
      refine ⟨[], ?_, ?_⟩
      · have hp : p.success? = none := by cases e <;> cases he <;> rfl
        rw [GuestSys.successes, hprocs, List.filterMap_append]
        simp [hp, GuestSys.successes]
      · rw [hnode]
        exact ⟨rfl, rfl⟩
  | task hi hrun hprocs =>
      exact ⟨_, hset hi (TaskRun.success_of_step hrun) hprocs, TaskRun.step_books hrun⟩
  | warm hi hrun hprocs =>
      refine ⟨[], hset hi rfl hprocs, ?_⟩
      rw [Node.Books, (WarmRun.step_frame hrun).1]
      exact ⟨rfl, rfl⟩
  | cancel hi hcancel hprocs =>
      obtain ⟨hr, hr', hstate⟩ := TaskRun.cancel_books hcancel
      have hperm := hset hi hr hprocs
      rw [Proc.success?, hr'] at hperm
      refine ⟨[], hperm, ?_⟩
      rw [Node.Books, hstate]
      exact ⟨rfl, rfl⟩

/-- The books of a node are its answers that report success. -/
theorem books_exact {nodeId : String} {maxTasks cacheMaxSize cacheTtl : Nat}
    {ms : List (Move GuestSys GuestEvent)}
    (h : Run (GuestSys.step X) (.init nodeId maxTasks cacheMaxSize cacheTtl) ms c) :
    c.sys.node.state.totalExecuted = c.successes.length ∧
    c.sys.node.state.totalExecutionTimeMs = (c.successes.map Prod.snd).sum := by
  refine h.always (I := fun c => c.sys.node.state.totalExecuted = c.successes.length ∧
    c.sys.node.state.totalExecutionTimeMs = (c.successes.map Prod.snd).sum) ⟨rfl, rfl⟩ ?_
  intro c ev d ⟨hcount, htime⟩ hs
  obtain ⟨new, hperm, hcount', htime'⟩ := (GuestSys.step_inv hs).successes
  rw [hperm.length_eq, (hperm.map Prod.snd).sum_eq, List.length_append, List.map_append,
    List.sum_append]
  constructor <;> omega

end FerroEdge.EdgeNode

namespace FerroEdge.ControlPlane

open Machine

/-- The tasks with a result that reports success, and the times of these results. -/
def AppState.successes (app : AppState) : List (String × Nat) :=
  (app.tasks.entries.filter fun e => e.2.success).map fun e => (e.1, e.2.executionTimeMs.toNat)

theorem AppState.mem_successes {app : AppState} {id : String} {n : Nat} :
    (id, n) ∈ app.successes ↔
      ∃ v, app.tasks.lookup id = some v ∧ v.success = true ∧ v.executionTimeMs.toNat = n := by
  rw [successes, List.mem_map]
  constructor
  · rintro ⟨⟨id', v⟩, hmem, heq⟩
    cases heq
    obtain ⟨hmem, hsucc⟩ := List.mem_filter.mp hmem
    exact ⟨v, AList.mem_lookup_iff.mpr hmem, hsucc, rfl⟩
  · rintro ⟨v, hv, hsucc, rfl⟩
    exact ⟨⟨id, v⟩, List.mem_filter.mpr ⟨AList.mem_lookup_iff.mp hv, hsucc⟩, rfl⟩

theorem AppState.nodup_successes (app : AppState) : app.successes.Nodup := by
  refine List.Nodup.of_map Prod.fst ?_
  rw [successes, List.map_map]
  exact List.NodupKeys.sublist List.filter_sublist app.tasks.nodupKeys

/-- `total_success` is the number of results that report success. -/
theorem Conserved.length_successes {s : Sys} (h : Conserved s) :
    s.shared.app.successes.length = s.shared.app.totalSuccess := by
  rw [← h.success, AppState.successes, List.length_map, ← List.countP_eq_length_filter,
    HashMap.values, List.countP_map]
  rfl

end FerroEdge.ControlPlane

namespace FerroEdge.Fleet

open Machine ControlPlane

/-- The tasks that the edge nodes have answered with success. -/
def Platform.successes (f : Platform) : List (String × Nat) :=
  f.edges.flatMap EdgeNode.GuestSys.successes

variable {D : Deployment} {f g : Platform} {ev : PlatformEvent} {url strategy : String}
  {ms : List (Move Platform PlatformEvent)} {x : String × Nat}

/-- A step of an edge node keeps its answers that report success. -/
theorem mem_successes_set {j : Nat} {c c' : EdgeNode.GuestSys} {e : EdgeNode.GuestEvent}
    (hc : f.edges[j]? = some c) (hs : c.step D.X e = some c') (hx : x ∈ f.successes) :
    x ∈ (f.edges.set j c').flatMap EdgeNode.GuestSys.successes := by
  obtain ⟨c₀, hmem, hx⟩ := List.mem_flatMap.mp hx
  obtain ⟨k, hk⟩ := List.mem_iff_getElem?.mp hmem
  by_cases hjk : j = k
  · subst hjk
    rw [hc] at hk
    cases hk
    obtain ⟨new, hperm, -⟩ := (EdgeNode.GuestSys.step_inv hs).successes
    exact List.mem_flatMap.mpr ⟨c', List.mem_of_getElem? (getElem?_set_self hc),
      hperm.mem_iff.mpr (List.mem_append_right _ hx)⟩
  · refine List.mem_flatMap.mpr ⟨c₀, List.mem_of_getElem? (i := k) ?_, hx⟩
    rwa [List.getElem?_set_ne hjk]

theorem mem_successes_step (h : f.step D ev = some g) (hx : x ∈ f.successes) :
    x ∈ g.successes := by
  cases Platform.step_inv h with
  | control => exact hx
  | answer => exact hx
  | lose => exact hx
  | edge _ hc hs => exact mem_successes_set hc hs hx
  | deliver _ _ _ _ hc hs => exact mem_successes_set hc hs hx
  | warm _ hc hs => exact mem_successes_set hc hs hx

/-- Every result that reports success is an answer of an edge node that does. -/
theorem successes_subset (h : Run (Platform.step D) (.init D url strategy) ms f) :
    f.control.shared.app.successes ⊆ f.successes := by
  intro x hx
  obtain ⟨id, n⟩ := x
  obtain ⟨v, hv, hsuccess, rfl⟩ := AppState.mem_successes.mp hx
  obtain ⟨as, m, bs, i, env, r, node, client, resp, rfl, he, hr, rfl, hpc, hrpc, hok, rfl⟩ :=
    success_received h hv hsuccess
  obtain ⟨hrun, hs, hrest⟩ := h.at_move
  obtain ⟨j, k, c, p, hc, hp, hreq, hreturned⟩ := answer_returned hrun hs he hr hpc hrpc
  -- The node has the answer when the dispatch receives it, and keeps it from then on.
  have hthen : (r.spec.taskId, resp.executionTimeMs.toNat) ∈ m.pre.successes := by
    refine List.mem_flatMap.mpr ⟨c, List.mem_of_getElem? hc, ?_⟩
    refine List.mem_filterMap.mpr ⟨_, List.mem_of_getElem? hp, ?_⟩
    simp only [EdgeNode.Proc.success?, EdgeNode.TaskRun.success?, hreturned, hok, hreq]
    rfl
  refine hrest.always (I := fun f => (r.spec.taskId, resp.executionTimeMs.toNat) ∈ f.successes)
    (mem_successes_step hs hthen) fun _ _ _ hx hs => mem_successes_step hs hx

/-- In every run of the platform, what the control plane has booked as success, the edge nodes
have booked as executed: the tasks, and the time that they took. -/
theorem successes_covered (h : Run (Platform.step D) (.init D url strategy) ms f) :
    f.control.shared.app.totalSuccess ≤
      (f.edges.map fun c => c.sys.node.state.totalExecuted).sum ∧
    (f.control.shared.app.successes.map Prod.snd).sum ≤
      (f.edges.map fun c => c.sys.node.state.totalExecutionTimeMs).sum := by
  have hbooks : ∀ c ∈ f.edges, c.sys.node.state.totalExecuted = c.successes.length ∧
      c.sys.node.state.totalExecutionTimeMs = (c.successes.map Prod.snd).sum := by
    intro c hc
    obtain ⟨j, hj⟩ := List.mem_iff_getElem?.mp hc
    obtain ⟨config, -, hedge⟩ := edge_run h hj
    exact EdgeNode.books_exact hedge
  have hcount : (f.edges.map fun c => c.sys.node.state.totalExecuted).sum =
      f.successes.length := by
    rw [Platform.successes, List.length_flatMap]
    exact congrArg List.sum (List.map_congr_left fun c hc => (hbooks c hc).1)
  have htime : (f.edges.map fun c => c.sys.node.state.totalExecutionTimeMs).sum =
      (f.successes.map Prod.snd).sum := by
    rw [Platform.successes, List.map_flatMap, List.flatMap_def, List.sum_flatten, List.map_map]
    exact congrArg List.sum (List.map_congr_left fun c hc => (hbooks c hc).2)
  obtain ⟨l, hperm, hsub⟩ :=
    List.subperm_of_subset (AppState.nodup_successes f.control.shared.app) (successes_subset h)
  constructor
  · rw [hcount, ← (Conserved.of_run (control_run h)).length_successes, ← hperm.length_eq]
    exact hsub.length_le
  · rw [htime, ← (hperm.map Prod.snd).sum_eq]
    exact (hsub.map Prod.snd).sum_le_sum fun n _ => Nat.zero_le n

/-- A node registers, and a task is submitted and sent to it. -/
def sendingTask : List PlatformEvent :=
  [.control (.registerNode (.sample "n" "http://n:50051")), .control (.run 0 {}),
   .control (.submitTask "a" "" .sample)] ++ (sending 1).map .control

/-- The node executes the task, and the dispatch stores the result. -/
def executedTask : List PlatformEvent :=
  sendingTask ++
  [.deliver 1 0, .edge 0 (.node (.run 0 {})), .edge 0 (.node (.run 0 {})), .edge 0 (.begin 0),
   .edge 0 (.finish 0), .edge 0 (.node (.run 0 { execute := fun _ _ _ => .ok ⟨[7], 3, 0⟩ })),
   .edge 0 (.node (.run 0 {})), .answer 1, .control (.run 1 {}), .control (.run 1 {})]

theorem executedTask_covered :
    ∃ f ms, Run (Platform.step (.sample (oneNode 1))) (.init (.sample (oneNode 1)) "" "") ms f ∧
      f.control.shared.app.totalSuccess = 1 ∧
      (f.control.shared.app.successes.map Prod.snd).sum = 3 ∧
      1 ≤ (f.edges.map fun c => c.sys.node.state.totalExecuted).sum ∧
      3 ≤ (f.edges.map fun c => c.sys.node.state.totalExecutionTimeMs).sum := by
  have htest : (exec (Platform.step (.sample (oneNode 1))) (.init (.sample (oneNode 1)) "" "")
      executedTask).any (fun f => f.control.shared.app.totalSuccess == 1 &&
        (f.control.shared.app.successes.map Prod.snd).sum == 3) = true := by decide
  obtain ⟨f, h, hf⟩ := exec_any_run htest
  obtain ⟨hcount, htime⟩ := Bool.and_eq_true_iff.mp hf
  rw [beq_iff_eq] at hcount htime
  obtain ⟨hexecuted, htook⟩ := successes_covered h
  exact ⟨f, _, h, hcount, htime, hcount ▸ hexecuted, htime ▸ htook⟩

end FerroEdge.Fleet
