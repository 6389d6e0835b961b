import FerroEdge.ControlPlane.RetryBudget

/-!
# The nodes a run has tried

A run remembers the nodes that have failed its task and hands them to the scheduler, which
excludes them under both strategies.  The node map, the breakers and the strategy may be any
others at the next call: the exclusion compares the id in the `NodeInfo` that is handed out, so
no agreement of keys and ids is needed either.

`tried_not_called` says that `grpc_execute` is not called again for a node that has failed the
task, and that a run charges a failure to pairwise distinct nodes, three at the most.  The set
`tried_nodes` is a list here, so that being without duplicates is something to prove.
-/

namespace FerroEdge.ControlPlane

open Machine

/-- The node that a run has been given and has had no result from. -/
def DispatchPc.target : DispatchPc → Option NodeInfo
  | .countRetry node | .clonePool node | .lockPool node | .inFlight node _ => some node
  | _ => none

/-- The node that is in `tried_nodes` but has not been charged yet. -/
def DispatchPc.uncharged : DispatchPc → List String
  | .recordFailure node => [node.id]
  | _ => []

namespace DispatchRun

/-- The node that a run calls `grpc_execute` for in its next step. -/
def calls (r : DispatchRun) : Option NodeInfo :=
  match r.pc with
  | .clonePool node => some node
  | _ => none

/-- The id of the node on whose breaker a run calls `record_failure` in its next step. -/
def charges (r : DispatchRun) : Option String :=
  match r.pc with
  | .recordFailure node => some node.id
  | _ => none

/-- The node that has failed the task, when the run is told so. -/
def failedOn (r : DispatchRun) (a : Answers) : Option NodeInfo :=
  match r.outcome a with
  | some (node, result) => if failed result then some node else none
  | none => none

/-- When the first move tells the run of a failure, the second calls another node. -/
def Spared (m m' : Move DispatchRun Answers) : Prop :=
  ∀ n ∈ m.pre.failedOn m.ev, ∀ n' ∈ m'.pre.calls, n'.id ≠ n.id

/-- The calls of `record_failure` in a run, by the ids of the nodes. -/
def charged {E : Type} (ms : List (Move DispatchRun E)) : List String :=
  ms.filterMap fun m => m.pre.charges

variable {X : Externals} {spec : TaskSpec} {r r' : DispatchRun} {a : Answers}
  {ms : List (Move DispatchRun Answers)}

/-- What a run has tried and charged. -/
structure Tried (ms : List (Move DispatchRun Answers)) (r : DispatchRun) : Prop where
  target : ∀ n ∈ r.pc.target, n.id ∉ r.triedNodes
  nodup : r.triedNodes.Nodup
  charged : r.triedNodes = r.pc.uncharged ++ (charged ms).reverse
  length : (DispatchRun.charged ms).length = r.errorRetries
  failed : ∀ m ∈ ms, ∀ n ∈ m.pre.failedOn m.ev, n.id ∈ r.triedNodes
  spared : ms.Pairwise Spared

/-- The scheduler does not answer with a node that has been tried. -/
def Untried (r : DispatchRun) (a : Answers) : Prop :=
  ∀ node ∈ a.selected, node.id ∉ r.triedNodes

theorem charged_snoc : charged (ms ++ [⟨r, a, r'⟩]) = charged ms ++ r.charges.toList := by
  cases h : r.charges <;> simp [charged, h]

theorem target_of_outcome {node : NodeInfo} {result : Except Status ExecuteTaskResponse}
    (h : r.outcome a = some (node, result)) : r.pc.target = some node ∧ r.charges = none := by
  unfold outcome at h
  split at h
  case h_1 n hpc =>
    split at h <;> cases h
    simp [hpc, DispatchPc.target, charges]
  case h_2 n client hpc =>
    cases h
    simp [hpc, DispatchPc.target, charges]
  case h_3 => cases h

theorem uncharged_of_target {pc : DispatchPc} {node : NodeInfo} (h : pc.target = some node) :
    pc.uncharged = [] := by
  cases pc with
  | recordFailure => cases h
  | _ => rfl

/-- The node that the next move calls has not been tried. -/
theorem Tried.spared_snoc (hT : Tried ms r) (a : Answers) (r' : DispatchRun) :
    List.Pairwise Spared (ms ++ [⟨r, a, r'⟩]) := by
  refine List.pairwise_append.mpr ⟨hT.spared, List.pairwise_singleton _ _, ?_⟩
  intro m hm m' hm' n hn n' hn' heq
  obtain rfl := List.mem_singleton.mp hm'
  have htarget : n' ∈ r.pc.target := by
    dsimp only [calls] at hn'
    split at hn'
    case h_1 node hpc =>
      rw [hpc]
      exact hn'
    case h_2 => cases hn'
  exact hT.target n' htarget (heq ▸ hT.failed m hm n hn)

/-- The failed nodes are those of before if the run hears of no failure. -/
theorem Tried.failed_snoc (hT : Tried ms r) (hfail : r.failedOn a = none)
    (htried : r'.triedNodes = r.triedNodes) :
    ∀ m ∈ ms ++ [⟨r, a, r'⟩], ∀ n ∈ m.pre.failedOn m.ev, n.id ∈ r'.triedNodes := by
  intro m hm n hn
  rw [htried]
  rcases List.mem_append.mp hm with hm | hm
  · exact hT.failed m hm n hn
  · obtain rfl := List.mem_singleton.mp hm
    rw [hfail] at hn
    cases hn

/-- A step in which the run hears of no failure and charges none. -/
theorem Tried.quiet (hT : Tried ms r) (hch : r.charges = none) (hfail : r.failedOn a = none)
    (htried : r'.triedNodes = r.triedNodes) (herr : r'.errorRetries = r.errorRetries)
    (hun : r'.pc.uncharged = r.pc.uncharged)
    (htarget : ∀ n ∈ r'.pc.target, n.id ∉ r.triedNodes) : Tried (ms ++ [⟨r, a, r'⟩]) r' := by
  refine ⟨?_, ?_, ?_, ?_, hT.failed_snoc hfail htried, hT.spared_snoc a r'⟩
  · rw [htried]
    exact htarget
  · rw [htried]
    exact hT.nodup
  · rw [htried, charged_snoc, hch, hun]
    simpa using hT.charged
  · rw [charged_snoc, hch, herr]
    simpa using hT.length

/-- The run hears from a node that has not failed the task. -/
theorem Tried.answered {node : NodeInfo} {result : Except Status ExecuteTaskResponse}
    (hT : Tried ms r) (hout : r.outcome a = some (node, result))
    (hf : DispatchRun.failed result = false) (htried : r'.triedNodes = r.triedNodes)
    (herr : r'.errorRetries = r.errorRetries) (hun : r'.pc.uncharged = [])
    (htarget : r'.pc.target = none) : Tried (ms ++ [⟨r, a, r'⟩]) r' := by
  obtain ⟨hnode, hch⟩ := target_of_outcome hout
  refine hT.quiet hch (by simp [failedOn, hout, hf]) htried herr ?_ ?_
  · rw [hun, uncharged_of_target hnode]
  · rw [htarget]
    nofun

/-- The run hears that `node` has failed the task. -/
theorem Tried.failure {node : NodeInfo} {result : Except Status ExecuteTaskResponse}
    (hT : Tried ms r) (hout : r.outcome a = some (node, result))
    (hf : DispatchRun.failed result = true) (error : String) :
    Tried (ms ++ [⟨r, a, r.onFailure node error⟩]) (r.onFailure node error) := by
  obtain ⟨htarget, hch⟩ := target_of_outcome hout
  have hfail : r.failedOn a = some node := by simp [failedOn, hout, hf]
  have hun := uncharged_of_target htarget
  refine ⟨nofun, ?_, ?_, ?_, ?_, hT.spared_snoc a _⟩
  · exact List.nodup_cons.mpr ⟨hT.target node htarget, hT.nodup⟩
  · have hcharged := hT.charged
    rw [hun, List.nil_append] at hcharged
    rw [charged_snoc, hch]
    simp [onFailure, DispatchPc.uncharged, hcharged]
  · rw [charged_snoc, hch]
    simpa [onFailure] using hT.length
  · intro m hm n hn
    rcases List.mem_append.mp hm with hm | hm
    · exact List.mem_cons_of_mem _ (hT.failed m hm n hn)
    · obtain rfl := List.mem_singleton.mp hm
      rw [hfail] at hn
      cases hn
      exact List.mem_cons_self

/-- The run charges the failure to the node. -/
theorem Tried.charge {node : NodeInfo} (hT : Tried ms r) (hpc : r.pc = .recordFailure node)
    (htried : r'.triedNodes = r.triedNodes) (herr : r'.errorRetries = r.errorRetries + 1)
    (hun : r'.pc.uncharged = []) (htarget : r'.pc.target = none) :
    Tried (ms ++ [⟨r, a, r'⟩]) r' := by
  have hch : r.charges = some node.id := by simp [charges, hpc]
  have hfail : r.failedOn a = none := by simp [failedOn, outcome, hpc]
  refine ⟨?_, ?_, ?_, ?_, hT.failed_snoc hfail htried, hT.spared_snoc a r'⟩
  · rw [htarget]
    rintro n ⟨⟩
  · rw [htried]
    exact hT.nodup
  · rw [htried, hT.charged, hpc, hun, charged_snoc, hch]
    simp [DispatchPc.uncharged]
  · rw [charged_snoc, hch, herr, ← hT.length]
    simp

theorem Advances.target {pc pc' : DispatchPc} (h : Advances pc pc') :
    (∀ n ∈ pc'.target, n ∈ pc.target) ∧ pc'.uncharged = pc.uncharged ∧
    ∀ node, pc ≠ .recordFailure node := by
  cases h <;> exact ⟨by simp [DispatchPc.target], rfl, nofun⟩

theorem charges_none (h : ∀ node, r.pc ≠ .recordFailure node) : r.charges = none := by
  unfold charges
  split
  case h_1 node hpc => exact absurd hpc (h node)
  case h_2 => rfl

theorem Tried.step (hT : Tried ms r) (hu : Untried r a) (h : Next X r a r') :
    Tried (ms ++ [⟨r, a, r'⟩]) r' := by
  cases h with
  | advance hadv hout =>
      obtain ⟨htarget, hun, hpc⟩ := hadv.target
      exact hT.quiet (charges_none hpc) (by simp [failedOn, hout]) rfl rfl hun
        fun n hn => hT.target n (htarget n hn)
  | dispatch hpc hnode =>
      refine hT.quiet (by simp [charges, hpc]) (by simp [failedOn, outcome, hpc]) rfl rfl
        (by rw [hpc]; rfl) fun n hn => ?_
      cases hn
      exact hu _ hnode
  | retry hpc hnode =>
      refine hT.quiet (by simp [charges, hpc]) (by simp [failedOn, outcome, hpc]) rfl rfl
        (by rw [hpc]; rfl) fun n hn => ?_
      cases hn
      exact hu _ hnode
  | failure hout hf => exact hT.failure hout hf _
  | backoff hpc => exact hT.charge hpc rfl rfl rfl rfl
  | lastAttempt hpc => exact hT.charge hpc rfl rfl rfl rfl
  | noNode hpc =>
      exact hT.quiet (by simp [charges, hpc]) (by simp [failedOn, outcome, hpc]) rfl rfl
        (by rw [hpc]; rfl) (by rintro n ⟨⟩)
  | giveUp hpc =>
      exact hT.quiet (by simp [charges, hpc]) (by simp [failedOn, outcome, hpc]) rfl rfl
        (by rw [hpc]; rfl) (by rintro n ⟨⟩)
  | enqueue hpc =>
      exact hT.quiet (by simp [charges, hpc]) (by simp [failedOn, outcome, hpc]) rfl rfl
        (by rw [hpc]; rfl) (by rintro n ⟨⟩)
  | success hout hs => exact hT.answered hout (by simp [DispatchRun.failed, hs]) rfl rfl rfl rfl
  | capacityWait hout hat => exact hT.answered hout (failed_of_atCapacity hat) rfl rfl rfl rfl
  | noCapacity hout hat => exact hT.answered hout (failed_of_atCapacity hat) rfl rfl rfl rfl
  | store hst =>
      rcases pc_of_stores hst with hpc | ⟨_, _, hpc⟩ | hpc <;>
        exact hT.quiet (by simp [charges, hpc]) (by simp [failedOn, outcome, hpc]) rfl rfl
          (by rw [hpc]; rfl) (by rintro n ⟨⟩)

theorem Tried.new (spec : TaskSpec) : Tried [] (.new spec) where
  target n hn := by cases hn
  nodup := List.nodup_nil
  charged := rfl
  length := rfl
  failed m hm := by cases hm
  spared := List.Pairwise.nil

/-- Along a run in which the scheduler never answers with a tried node. -/
theorem tried (h : Run (next X) (.new spec) ms r) (hu : ∀ m ∈ ms, Untried m.pre m.ev) :
    Tried ms r := by
  induction h with
  | nil => exact .new spec
  | @snoc ms s t a _ hs ih =>
      have hT := ih fun m hm => hu m (List.mem_append_left _ hm)
      exact hT.step (hu ⟨s, a, t⟩ (by simp)) (next_inv hs)

/-- The scheduler excludes what the run has tried, whatever the state is. -/
theorem untried_answers (X : Externals) (r : DispatchRun) (v : View) :
    Untried r (r.answers X v) := by
  intro node hnode
  exact (selectNodeForTask_sound hnode).untried

/-- What a run has tried and charged, in whatever states it takes its steps. -/
theorem tried_told {ms : List (Move DispatchRun View)} (h : Run (stepIn X) (.new spec) ms r) :
    Tried (told X ms) r := by
  refine tried (told_run h) fun m hm => ?_
  obtain ⟨m', -, rfl⟩ := List.mem_map.mp hm
  exact untried_answers X m'.pre m'.ev

theorem charged_told (X : Externals) (ms : List (Move DispatchRun View)) :
    charged (told X ms) = charged ms := by
  rw [charged, charged, told, List.filterMap_map]
  rfl

/-- A node that has failed the task is not called for it again, and a run charges a failure at
most once to a node and at most three times in all.  Every step may find another state of the
control plane. -/
theorem tried_not_called {ms : List (Move DispatchRun View)}
    (h : Run (stepIn X) (.new spec) ms r) :
    (ms.Pairwise fun m m' => ∀ n ∈ m.pre.failedOn (m.pre.answers X m.ev),
      ∀ n' ∈ m'.pre.calls, n'.id ≠ n.id) ∧
    (charged ms).Nodup ∧ (charged ms).length ≤ 3 := by
  have hT := tried_told h
  have hI := inBudget (told_run h)
  rw [← charged_told X ms]
  refine ⟨List.pairwise_map.mp hT.spared, ?_, ?_⟩
  · have hnodup := hT.nodup
    rw [hT.charged] at hnodup
    exact List.nodup_reverse.mp (List.nodup_append.mp hnodup).2.1
  · rw [hT.length]
    exact Nat.le_trans (Nat.le_add_right _ _) hI.failures

/-- The task fails on one node, is tried on the other after the backoff, and fails there. -/
def bothFail : List View :=
  List.replicate 6 (viewAt 0 (.error ⟨.unavailable, "down"⟩)) ++
  List.replicate 7 (viewAt (10 ^ 9) (.error ⟨.unavailable, "down"⟩))

theorem bothFail_spared :
    ∃ ms r, Run (stepIn .sample) (.new .sample) ms r ∧ charged ms = ["b", "a"] ∧
      ms.Pairwise fun m m' => ∀ n ∈ m.pre.failedOn (m.pre.answers .sample m.ev),
        ∀ n' ∈ m'.pre.calls, n'.id ≠ n.id := by
  have htest : (exec (stepIn .sample) (.new .sample) bothFail).any
      (fun r => r.errorRetries == 2) = true := by decide
  obtain ⟨r, h, -⟩ := exec_any_run htest
  exact ⟨_, r, h, by decide, (tried_not_called h).1⟩

end DispatchRun

end FerroEdge.ControlPlane
