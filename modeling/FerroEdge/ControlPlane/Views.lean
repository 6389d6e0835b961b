import FerroEdge.ControlPlane.Accounting
import FerroEdge.ControlPlane.HealthRounds
import FerroEdge.ControlPlane.Retries
import FerroEdge.ControlPlane.ModuleDelivery

/-!
# What clients see

The handlers that only read: `health`, `metrics`, `get_task`, `list_nodes` and
`get_module_bytes`.  Each reads the state under one guard, so what it answers is a view of one
state of the control plane.

`views_extend` says that the views of a client fit together.  The numbers in one answer agree
with each other, and a later answer never takes back what an earlier one has said: counters do
not go down, a task that has a result keeps it, a module that could be fetched is fetched with
the same bytes, and a node that was listed is listed.
-/

namespace FerroEdge.ControlPlane

open Machine

/-! ## The handlers -/

/-- `health`: the number of nodes. -/
def health (st : AppState) : Nat := st.nodes.values.length

/-- `list_nodes`. -/
def listNodes (st : AppState) : List NodeInfo := st.nodes.values

/-- What `get_task` answers. -/
inductive TaskView where
  | result (result : TaskResult)
  | pending
deriving DecidableEq

/-- `get_task`. -/
def getTask (st : AppState) (id : String) : TaskView :=
  match st.tasks.lookup id with
  | some result => .result result
  | none => .pending

/-- The document that `metrics` answers with. -/
structure Metrics where
  strategy : String
  healthyNodes : Nat
  unhealthyNodes : Nat
  /-- The names of the states of the breakers, by node. -/
  circuitBreakers : List (String × String)
  totalSubmitted : Nat
  totalSuccess : Nat
  totalFailed : Nat
  retried : Nat
  queued : Nat

/-- `metrics`. -/
def metrics (st : AppState) : Metrics where
  strategy := st.schedulingStrategy
  healthyNodes := st.nodes.values.countP fun n => n.healthy
  unhealthyNodes := st.nodes.values.countP fun n => !n.healthy
  circuitBreakers := st.nodes.keys.map fun id =>
    (id, ((st.circuitBreakers.lookup id).map CircuitBreaker.stateName).getD "closed")
  totalSubmitted := st.totalSubmitted
  totalSuccess := st.totalSuccess
  totalFailed := st.totalFailed
  retried := st.totalRetried
  queued := st.queued

/-! ## The specification -/

/-- The answers in one state agree with each other. -/
structure Coherent (st : AppState) : Prop where
  nodes : (metrics st).healthyNodes + (metrics st).unhealthyNodes = health st
  breakers : (metrics st).circuitBreakers.map Prod.fst = (listNodes st).map NodeInfo.id
  tasks : (metrics st).totalSuccess + (metrics st).totalFailed ≤ (metrics st).totalSubmitted
  results : st.tasks.values.length = (metrics st).totalSuccess + (metrics st).totalFailed

/-- What the answers in `st` say is still said in `st'`. -/
structure Extends (st st' : AppState) : Prop where
  submitted : (metrics st).totalSubmitted ≤ (metrics st').totalSubmitted
  success : (metrics st).totalSuccess ≤ (metrics st').totalSuccess
  failed : (metrics st).totalFailed ≤ (metrics st').totalFailed
  retried : (metrics st).retried ≤ (metrics st').retried
  results : ∀ id v, getTask st id = .result v → getTask st' id = .result v
  modules : ∀ name version bytes, getModuleBytes st name version = .ok bytes →
    getModuleBytes st' name version = .ok bytes
  nodes : ∀ n ∈ listNodes st, ∃ n' ∈ listNodes st', n'.id = n.id

variable {X : Externals} {s t : Sys} {e : Event} {ms : List (Move Sys Event)} {st st' : AppState}
  {id : String}

theorem getTask_eq_result {v : TaskResult} :
    getTask st id = .result v ↔ st.tasks.lookup id = some v := by
  unfold getTask
  cases st.tasks.lookup id with
  | none => simp
  | some w => simp

theorem Extends.refl (st : AppState) : Extends st st where
  submitted := Nat.le_refl _
  success := Nat.le_refl _
  failed := Nat.le_refl _
  retried := Nat.le_refl _
  results := fun _ _ h => h
  modules := fun _ _ _ h => h
  nodes := fun n hn => ⟨n, hn, rfl⟩

theorem Extends.trans {st'' : AppState} (h : Extends st st') (h' : Extends st' st'') :
    Extends st st'' where
  submitted := Nat.le_trans h.submitted h'.submitted
  success := Nat.le_trans h.success h'.success
  failed := Nat.le_trans h.failed h'.failed
  retried := Nat.le_trans h.retried h'.retried
  results := fun id v hv => h'.results id v (h.results id v hv)
  modules := fun name version bytes hb => h'.modules name version bytes (h.modules _ _ _ hb)
  nodes := by
    intro n hn
    obtain ⟨n', hn', hid⟩ := h.nodes n hn
    obtain ⟨n'', hn'', hid'⟩ := h'.nodes n' hn'
    exact ⟨n'', hn'', hid'.trans hid⟩

/-! ## One step -/

theorem Sys.Step.counters_le (h : Sys.Step X s e t) :
    s.shared.app.totalSubmitted ≤ t.shared.app.totalSubmitted ∧
    s.shared.app.totalSuccess ≤ t.shared.app.totalSuccess ∧
    s.shared.app.totalFailed ≤ t.shared.app.totalFailed ∧
    s.shared.app.totalRetried ≤ t.shared.app.totalRetried := by
  obtain hq | ⟨i, env, r, r', sh, rfl, hi, hrun, rfl⟩ := h.quiet_or_dispatch
  · rw [h.app_quiet hq]
    exact ⟨Nat.le_refl _, Nat.le_refl _, Nat.le_refl _, Nat.le_refl _⟩
  · have hretried := DispatchRun.step_totalRetried hrun
    dsimp only
    cases DispatchRun.books hrun with
    | keep _ _ _ hsub hsucc hfail => omega
    | store v _ _ _ hsub hsucc hfail => omega

theorem getModuleBytes_eq_ok {name version : String} {bytes : Bytes} :
    getModuleBytes st name version = .ok bytes ↔
      ∃ info, st.moduleRegistry.get name version = some (info, bytes) := by
  unfold getModuleBytes
  cases st.moduleRegistry.get name version with
  | none => simp
  | some v => simp [Prod.ext_iff]

/-- A node stays registered. -/
theorem Sys.Step.listed (h : Sys.Step X s e t) (hid : (s.registered id).isSome = true) :
    (t.registered id).isSome = true := by
  rw [h.registered id]
  split
  case h_1 node _ =>
    split
    · rfl
    · exact hid
  case h_2 => exact hid

theorem Sys.mem_listNodes (hkeys : ∀ id n, s.registered id = some n → n.1 = id) :
    (∃ n ∈ listNodes s.shared.app, n.id = id) ↔ (s.registered id).isSome = true := by
  have hkeyed := Sys.keyedById hkeys
  rw [Sys.registered, Option.isSome_map]
  constructor
  · rintro ⟨n, hn, rfl⟩
    obtain ⟨k, hk⟩ := HashMap.mem_values.mp hn
    rw [hkeyed k n hk, hk]
    rfl
  · intro hsome
    obtain ⟨n, hn⟩ := Option.isSome_iff_exists.mp hsome
    exact ⟨n, HashMap.mem_values.mpr ⟨id, hn⟩, hkeyed id n hn⟩

/-- What holds of a state that a run has reached. -/
structure ViewInv (s : Sys) : Prop where
  conserved : Conserved s
  keys : ∀ id n, s.registered id = some n → n.1 = id

theorem ViewInv.init (url strategy : String) : ViewInv (.init url strategy) where
  conserved := .init url strategy
  keys := fun _ _ h => by cases h

theorem ViewInv.step (h : ViewInv s) (hs : s.step X e = some t) : ViewInv t where
  conserved := h.conserved.step hs
  keys := (Sys.step_inv hs).keys h.keys

theorem ViewInv.coherent (h : ViewInv s) : Coherent s.shared.app where
  nodes := by
    have hcount := List.length_eq_countP_add_countP (fun n : NodeInfo => n.healthy)
      (l := s.shared.app.nodes.values)
    simp only [metrics, health, hcount, Bool.not_eq_true, Bool.decide_eq_false]
  breakers := by
    rw [metrics, List.map_map]
    exact (List.map_id _).trans (Sys.keyedById h.keys).map_id_values.symm
  tasks := by
    have hsub := h.conserved.submitted
    simp only [metrics]
    omega
  results := by
    have hcount := List.length_eq_countP_add_countP (fun v : TaskResult => v.success)
      (l := s.shared.app.tasks.values)
    simp only [Bool.not_eq_true, Bool.decide_eq_false] at hcount
    rw [hcount, h.conserved.success, h.conserved.failed]
    rfl

theorem ViewInv.extends (h : ViewInv s) (hs : s.step X e = some t) :
    Extends s.shared.app t.shared.app := by
  have hstep := Sys.step_inv hs
  obtain ⟨hsub, hsucc, hfail, hretried⟩ := hstep.counters_le
  refine ⟨hsub, hsucc, hfail, hretried, ?_, ?_, ?_⟩
  · intro id v hv
    rw [getTask_eq_result] at hv ⊢
    exact h.conserved.lookup_step hs hv
  · intro name version bytes hb
    rw [getModuleBytes_eq_ok] at hb ⊢
    obtain ⟨info, hget⟩ := hb
    exact ⟨info, hstep.moduleRegistry.1 _ _ hget⟩
  · intro n hn
    have hlisted := (Sys.mem_listNodes h.keys).mp ⟨n, hn, rfl⟩
    exact (Sys.mem_listNodes (hstep.keys h.keys)).mpr (hstep.listed hlisted)

/-! ## Runs -/

theorem ViewInv.of_run {url strategy : String} (h : Run (Sys.step X) (.init url strategy) ms s) :
    ViewInv s :=
  h.always (ViewInv.init url strategy) fun _ _ _ hI hs => hI.step hs

theorem ViewInv.extends_run (h : ViewInv s) (hrun : Run (Sys.step X) s ms t) :
    Extends s.shared.app t.shared.app :=
  (hrun.always (I := fun t => ViewInv t ∧ Extends s.shared.app t.shared.app) ⟨h, .refl _⟩
    fun _ _ _ hI hs => ⟨hI.1.step hs, hI.2.trans (hI.1.extends hs)⟩).2

/-- In every run of the control plane: the answers to clients agree with each other in every
state, later answers extend earlier ones, and a task that `submit_task` has answered with is no
longer pending. -/
theorem views_extend {url strategy : String} (h : Run (Sys.step X) (.init url strategy) ms s) :
    Coherent s.shared.app ∧
    (∀ m ∈ ms, Extends m.pre.shared.app s.shared.app) ∧
    ∀ (i : Nat) (r : DispatchRun), s.procs[i]? = some (.dispatch r) → r.pc = .done →
      ∃ v, getTask s.shared.app r.spec.taskId = .result v := by
  have hI := ViewInv.of_run h
  refine ⟨hI.coherent, fun m hm => ?_, fun i r hi hdone => ?_⟩
  · obtain ⟨as, bs, rfl⟩ := List.append_of_mem hm
    obtain ⟨hpre, hs, hrest⟩ := h.at_move
    exact (ViewInv.of_run hpre).extends_run (.cons hs hrest)
  · have hmem := (hI.conserved.entries r.spec.taskId).mpr ⟨i, r, hi, hdone, rfl⟩
    obtain ⟨v, hv⟩ := Option.isSome_iff_exists.mp (AList.lookup_isSome.mpr hmem)
    exact ⟨v, getTask_eq_result.mpr hv⟩

/-- A node registers, and a task is submitted and has its result. -/
theorem twoTasks_views :
    ∃ s ms v, Run (Sys.step .sample) (.init "" "round_robin") ms s ∧ Coherent s.shared.app ∧
      (metrics s.shared.app).totalSuccess = 1 ∧ health s.shared.app = 1 ∧
      getTask s.shared.app "a" = .result v ∧ getTask s.shared.app "b" = .pending := by
  have htest : (exec (Sys.step .sample) (.init "" "round_robin") twoTasks).any (fun s =>
      (metrics s.shared.app).totalSuccess = 1 ∧ health s.shared.app = 1 ∧
      getTask s.shared.app "a" ≠ .pending ∧ getTask s.shared.app "b" = .pending) = true := by
    decide
  obtain ⟨s, h, hs⟩ := exec_any_run htest
  obtain ⟨hsuccess, hhealth, ha, hb⟩ := of_decide_eq_true hs
  cases hview : getTask s.shared.app "a" with
  | pending => exact absurd hview ha
  | result v => exact ⟨s, _, v, h, (views_extend h).1, hsuccess, hhealth, hview, hb⟩

end FerroEdge.ControlPlane
