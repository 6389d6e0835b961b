import FerroEdge.ControlPlane.Handlers
import FerroEdge.Machine.Run
import FerroEdge.Machine.Table

/-!
# The control plane as a machine

Any number of processes run over the shared state.  A request starts one, and `run` lets one
of them take its next step.  Besides, time passes, and the iteration order of the node map
may change at any moment, since a hash map promises none.

A process is never removed, so its position names it.
-/

namespace FerroEdge.ControlPlane

open Machine

inductive Proc where
  | dispatch (r : DispatchRun)
  /-- `submit_task` before it has resolved its inputs.  After that it is its dispatch. -/
  | submit (taskId traceId : String) (body : SubmitTaskRequest)
  | rejected (e : EdgeError)
  | batch (b : BatchRun)
  | register (node : NodeInfo)
  | upload (u : UploadRun)
  | round (h : HealthRound)
  /-- A handler that reads the state under one guard: `health`, `metrics`, `list_modules`,
  `get_module_bytes`, `get_task` and `list_nodes`. -/
  | reader
  | ended

/-- The task id a process uses. -/
def Proc.taskId? : Proc → Option String
  | .dispatch r => some r.spec.taskId
  | .submit taskId _ _ => some taskId
  | _ => none

/-- What a process has returned, if it is a dispatch that has. -/
def Proc.returned? : Proc → Option String
  | .dispatch r => if r.pc = .done then some r.spec.taskId else none
  | _ => none

structure Sys where
  shared : Shared
  now : Nat
  procs : List Proc

namespace Sys

def init (selfUrl schedulingStrategy : String) : Sys := ⟨.init selfUrl schedulingStrategy, 0, []⟩

/-- No process uses the task id: `Uuid::new_v4` never returns an id twice. -/
def fresh (s : Sys) (id : String) : Bool := s.procs.all fun p => p.taskId? != some id

/-- What the process `j` has returned. -/
def result (s : Sys) (j : Nat) : Option String := s.procs[j]?.bind Proc.returned?

end Sys

/-- The next step of a process: the shared state, the process and a new process after it. -/
def Proc.step (X : Externals) (env : Env) (s : Sys) :
    Proc → Option (Shared × Proc × Option DispatchRun)
  | .dispatch r => (r.step X s.now env s.shared).map fun (sh, r') => (sh, .dispatch r', none)
  | .submit taskId traceId body =>
      match resolveTaskInputs X s.shared.app body with
      | .error e => some (s.shared, .rejected e, none)
      | .ok (input, wasmSource) =>
          some (s.shared, .dispatch (.new (body.spec taskId traceId input wasmSource)), none)
  | .batch b =>
      (b.step X env s.shared.app s.result s.procs.length s.fresh).map fun (b', r) =>
        (s.shared, .batch b', r)
  | .register node =>
      some ({ s.shared with app.nodes := s.shared.app.nodes.insert node.id node }, .ended, none)
  | .upload u =>
      (u.step X env s.shared.app).map fun (app, u') =>
        ({ s.shared with app := app }, .upload u', none)
  | .round h => (h.step env s.shared).map fun (sh, h') => (sh, .round h', none)
  | .reader => some (s.shared, .ended, none)
  | .rejected _ | .ended => none

inductive Event where
  | submitTask (taskId traceId : String) (body : SubmitTaskRequest)
  | submitTasksBatch (traceId : String) (tasks : List SubmitTaskRequest)
  | registerNode (body : RegisterNodeRequest)
  | uploadModule (body : UploadModuleRequest)
  | checkAllNodes
  | read
  | tick (d : Nat)
  | rehash (nodes : HashMap String NodeInfo)
  | run (i : Nat) (env : Env)

/-- The process that a request starts. -/
def Event.starts : Event → Option Proc
  | .submitTask taskId traceId body => some (.submit taskId traceId body)
  | .submitTasksBatch traceId tasks => some (.batch (.new traceId tasks))
  | .registerNode body => some (.register body.node)
  | .uploadModule body => some (.upload (.start body))
  | .checkAllNodes => some (.round .snapshot)
  | .read => some .reader
  | .tick _ | .rehash _ | .run _ _ => none

namespace Sys

def step (X : Externals) (s : Sys) : Event → Option Sys
  | .tick d => some { s with now := s.now + d }
  | .rehash nodes =>
      if nodes.entries.Perm s.shared.app.nodes.entries then
        some { s with shared.app.nodes := nodes }
      else none
  | .run i env =>
      match s.procs[i]? with
      | none => none
      | some p =>
          (p.step X env s).map fun (sh, p', r) =>
            { s with shared := sh, procs := s.procs.set i p' ++ (r.map Proc.dispatch).toList }
  | e =>
      match e.starts with
      | none => none
      | some p =>
          if p.taskId?.all s.fresh then some { s with procs := s.procs ++ [p] } else none

end Sys

/-! ## What a step can be -/

/-- The steps of a batch by their kind. -/
inductive BatchRun.Step (X : Externals) (env : Env) (st : AppState) (result : Nat → Option String)
    (slot : Nat) (fresh : String → Bool) (b : BatchRun) :
    BatchRun → Option DispatchRun → Prop where
  | empty :
      b.pc = .start → b.tasks = [] →
      Step X env st result slot fresh b { b with pc := .returned (.ok []) } none
  | tooMany {e : EdgeError} :
      b.pc = .start → 100 < b.tasks.length →
      Step X env st result slot fresh b { b with pc := .returned (.error e) } none
  | begin :
      b.pc = .start → ¬ 100 < b.tasks.length →
      Step X env st result slot fresh b { b with pc := .resolving b.tasks } none
  | reject {item : SubmitTaskRequest} {items : List SubmitTaskRequest} {e : EdgeError} :
      b.pc = .resolving (item :: items) → resolveTaskInputs X st item = .error e →
      Step X env st result slot fresh b { b with pc := .returned (.error e) } none
  | spawn {item : SubmitTaskRequest} {items : List SubmitTaskRequest} {input : Bytes}
      {wasmSource : WasmSource} :
      b.pc = .resolving (item :: items) →
      resolveTaskInputs X st item = .ok (input, wasmSource) → fresh env.uuid = true →
      Step X env st result slot fresh b
        { b with taskFutures := b.taskFutures ++ [slot], pc := .resolving items }
        (some (.new (item.spec env.uuid b.traceId input wasmSource)))
  | join {ids : List String} :
      b.pc = .resolving [] → b.taskFutures.mapM result = some ids →
      Step X env st result slot fresh b { b with pc := .returned (.ok ids) } none

theorem BatchRun.step_inv {X : Externals} {env : Env} {st : AppState}
    {result : Nat → Option String} {slot : Nat} {fresh : String → Bool} {b b' : BatchRun}
    {new : Option DispatchRun} (h : b.step X env st result slot fresh = some (b', new)) :
    BatchRun.Step X env st result slot fresh b b' new := by
  unfold BatchRun.step at h
  split at h
  case h_1 hpc =>
    split at h
    case isTrue hempty =>
      cases h
      exact .empty hpc (List.isEmpty_iff.mp hempty)
    case isFalse =>
      split at h
      case isTrue hlen =>
        cases h
        exact .tooMany hpc hlen
      case isFalse hlen =>
        cases h
        exact .begin hpc hlen
  case h_2 hpc =>
    split at h
    case h_1 herr =>
      cases h
      exact .reject hpc herr
    case h_2 hok =>
      split at h
      case isTrue hfresh =>
        cases h
        exact .spawn hpc hok hfresh
      case isFalse => cases h
  case h_3 hpc =>
    obtain ⟨ids, hids, heq⟩ := Option.map_eq_some_iff.mp h
    cases heq
    exact .join hpc hids
  case h_4 => cases h

/-- A batch has a next step, unless its join waits for a dispatch. -/
theorem BatchRun.step_isSome {X : Externals} {env : Env} {st : AppState}
    {result : Nat → Option String} {slot : Nat} {fresh : String → Bool} {b : BatchRun}
    (hpc : ∀ res, b.pc ≠ .returned res)
    (hjoin : b.pc = .resolving [] → ∀ j ∈ b.taskFutures, (result j).isSome = true)
    (hfresh : fresh env.uuid = true) :
    ∃ b' new, b.step X env st result slot fresh = some (b', new) := by
  obtain ⟨traceId, tasks, futures, pc⟩ := b
  cases pc with
  | start =>
      simp only [BatchRun.step]
      split
      · exact ⟨_, _, rfl⟩
      · split <;> exact ⟨_, _, rfl⟩
  | resolving items =>
      cases items with
      | nil =>
          obtain ⟨ids, hids⟩ := exists_mapM (hjoin rfl)
          exact ⟨_, _, by rw [BatchRun.step, hids]; rfl⟩
      | cons item items =>
          simp only [BatchRun.step]
          split
          · exact ⟨_, _, rfl⟩
          · rw [if_pos hfresh]
            exact ⟨_, _, rfl⟩
  | returned res => exact absurd rfl (hpc res)

/-- The steps of a process by their kind. -/
inductive Proc.Step (X : Externals) (env : Env) (s : Sys) :
    Proc → Shared → Proc → Option DispatchRun → Prop where
  | dispatch {r r' : DispatchRun} {sh : Shared} :
      r.step X s.now env s.shared = some (sh, r') →
      Step X env s (.dispatch r) sh (.dispatch r') none
  | reject {taskId traceId : String} {body : SubmitTaskRequest} {e : EdgeError} :
      resolveTaskInputs X s.shared.app body = .error e →
      Step X env s (.submit taskId traceId body) s.shared (.rejected e) none
  | accept {taskId traceId : String} {body : SubmitTaskRequest} {input : Bytes}
      {wasmSource : WasmSource} :
      resolveTaskInputs X s.shared.app body = .ok (input, wasmSource) →
      Step X env s (.submit taskId traceId body) s.shared
        (.dispatch (.new (body.spec taskId traceId input wasmSource))) none
  | batch {b b' : BatchRun} {new : Option DispatchRun} :
      b.step X env s.shared.app s.result s.procs.length s.fresh = some (b', new) →
      Step X env s (.batch b) s.shared (.batch b') new
  | register (node : NodeInfo) :
      Step X env s (.register node)
        { s.shared with app.nodes := s.shared.app.nodes.insert node.id node } .ended none
  | upload {u u' : UploadRun} {app : AppState} :
      u.step X env s.shared.app = some (app, u') →
      Step X env s (.upload u) { s.shared with app := app } (.upload u') none
  | snapshot :
      Step X env s (.round .snapshot) s.shared
        (.round (.probe (s.shared.app.nodes.values.map fun n => (n.id, n.address)) 0)) none
  | probe (nodeId address : String) (nodes : List (String × String)) (count : Nat) :
      Step X env s (.round (.probe ((nodeId, address) :: nodes) count)) s.shared
        (.round (.write nodeId address env.probe nodes count)) none
  | write (nodeId address : String) (outcome : Option HealthResponse)
      (nodes : List (String × String)) (count : Nat) :
      Step X env s (.round (.write nodeId address outcome nodes count))
        { s.shared with app.nodes := s.shared.app.nodes.modify nodeId (NodeInfo.probed outcome) }
        (.round (.probe nodes (if outcome.isSome then count + 1 else count))) none
  | finish (count : Nat) :
      Step X env s (.round (.probe [] count)) { s.shared with healthyNodesGauge := count }
        (.round .done) none
  | reader : Step X env s .reader s.shared .ended none

theorem Proc.step_inv {X : Externals} {env : Env} {s : Sys} {p p' : Proc} {sh : Shared}
    {new : Option DispatchRun} (h : p.step X env s = some (sh, p', new)) :
    Proc.Step X env s p sh p' new := by
  cases p with
  | dispatch r =>
      simp only [Proc.step, Option.map_eq_some_iff] at h
      obtain ⟨⟨sh', r'⟩, hr, heq⟩ := h
      cases heq
      exact .dispatch hr
  | submit taskId traceId body =>
      simp only [Proc.step] at h
      split at h
      case h_1 hres =>
        cases h
        exact .reject hres
      case h_2 hres =>
        cases h
        exact .accept hres
  | batch b =>
      simp only [Proc.step, Option.map_eq_some_iff] at h
      obtain ⟨⟨b', r⟩, hb, heq⟩ := h
      cases heq
      exact .batch hb
  | register node =>
      cases h
      exact .register node
  | upload u =>
      simp only [Proc.step, Option.map_eq_some_iff] at h
      obtain ⟨⟨app, u'⟩, hu, heq⟩ := h
      cases heq
      exact .upload hu
  | round hr =>
      simp only [Proc.step, Option.map_eq_some_iff] at h
      obtain ⟨⟨sh', h'⟩, hh, heq⟩ := h
      cases heq
      cases hr with
      | snapshot =>
          cases hh
          exact .snapshot
      | probe nodes count =>
          cases nodes with
          | nil =>
              cases hh
              exact .finish count
          | cons node nodes =>
              cases hh
              exact .probe node.1 node.2 nodes count
      | write nodeId address outcome nodes count =>
          cases hh
          exact .write nodeId address outcome nodes count
      | done => cases hh
  | reader =>
      cases h
      exact .reader
  | rejected e => cases h
  | ended => cases h

/-- The dispatch a process is running. -/
def Proc.run? : Proc → Option DispatchRun
  | .dispatch r => some r
  | _ => none

/-- The steps of the machine by their kind.  The steps of dispatches are kept apart from those
of the other processes. -/
inductive Sys.Step (X : Externals) (s : Sys) : Event → Sys → Prop where
  | start {e : Event} {p : Proc} :
      e.starts = some p → p.taskId?.all s.fresh = true →
      Step X s e { s with procs := s.procs ++ [p] }
  | tick (d : Nat) : Step X s (.tick d) { s with now := s.now + d }
  | rehash {nodes : HashMap String NodeInfo} :
      nodes.entries.Perm s.shared.app.nodes.entries →
      Step X s (.rehash nodes) { s with shared.app.nodes := nodes }
  | dispatch {i : Nat} {env : Env} {r r' : DispatchRun} {sh : Shared} :
      s.procs[i]? = some (.dispatch r) → r.step X s.now env s.shared = some (sh, r') →
      Step X s (.run i env) { s with shared := sh, procs := s.procs.set i (.dispatch r') }
  | other {i : Nat} {env : Env} {p p' : Proc} {sh : Shared} {new : Option DispatchRun} :
      s.procs[i]? = some p → p.run? = none → p.step X env s = some (sh, p', new) →
      Step X s (.run i env)
        { s with shared := sh, procs := s.procs.set i p' ++ (new.map Proc.dispatch).toList }

variable {X : Externals} {env : Env} {s t : Sys} {e : Event}

theorem Sys.step_starts {p : Proc} (he : e.starts = some p) :
    s.step X e =
      if p.taskId?.all s.fresh then some { s with procs := s.procs ++ [p] } else none := by
  cases e <;> cases he <;> rfl

theorem Sys.step_inv (h : s.step X e = some t) : Sys.Step X s e t := by
  cases hp : e.starts with
  | some p =>
      rw [Sys.step_starts hp] at h
      split at h
      case isTrue hf =>
        cases h
        exact .start hp hf
      case isFalse => cases h
  | none =>
      cases e with
      | tick d =>
          cases h
          exact .tick d
      | rehash nodes =>
          simp only [Sys.step] at h
          split at h
          case isTrue hperm =>
            cases h
            exact .rehash hperm
          case isFalse => cases h
      | run i env =>
          simp only [Sys.step] at h
          cases hi : s.procs[i]? with
          | none => simp [hi] at h
          | some p =>
              simp only [hi, Option.map_eq_some_iff] at h
              obtain ⟨⟨sh, p', new⟩, hstep, rfl⟩ := h
              cases hr : p.run? with
              | none => exact .other hi hr hstep
              | some r =>
                  cases Proc.step_inv hstep with
                  | dispatch hrun => simpa using Sys.Step.dispatch hi hrun
                  | _ => cases hr
      | _ => cases hp

/-- The process that takes a step. -/
def Event.actor : Event → Option Nat
  | .run i _ => some i
  | _ => none

/-- A request is no step of a process. -/
theorem Event.actor_of_starts {p : Proc} (h : e.starts = some p) : e.actor = none := by
  cases e <;> cases h <;> rfl

/-- The dispatch that takes a step. -/
def Sys.stepping (s : Sys) : Event → Option DispatchRun
  | .run i _ => s.procs[i]?.bind Proc.run?
  | _ => none

/-- The dispatch that calls `select_node_for_task` in a step. -/
def Sys.selecting (s : Sys) (e : Event) : Option DispatchRun :=
  (s.stepping e).filter fun r => r.pc = .select

theorem Sys.stepping_run {i : Nat} {r : DispatchRun} (h : s.procs[i]? = some (.dispatch r)) :
    s.stepping (.run i env) = some r := by
  simp [Sys.stepping, h, Proc.run?]

theorem Sys.stepping_none {i : Nat} {p : Proc} (h : s.procs[i]? = some p) (hp : p.run? = none) :
    s.stepping (.run i env) = none := by
  simp [Sys.stepping, h, hp]

theorem Sys.selecting_run {i : Nat} {r : DispatchRun} (h : s.procs[i]? = some (.dispatch r))
    (hpc : r.pc = .select) : s.selecting (.run i env) = some r := by
  simp [Sys.selecting, Sys.stepping_run h, hpc]

/-- What a step of a process that is no dispatch does. -/
structure Proc.Other (s : Sys) (p : Proc) (sh : Shared) (p' : Proc) (new : Option DispatchRun) :
    Prop where
  /-- It changes the nodes and the registry only. -/
  app : sh.app = { s.shared.app with
    nodes := sh.app.nodes, moduleRegistry := sh.app.moduleRegistry }
  pool : sh.pool = s.shared.pool
  /-- A node is written by its registration and by a probe. -/
  nodes : (∃ node, p = .register node ∧
      sh.app.nodes = s.shared.app.nodes.insert node.id node) ∨
    (∀ node, p ≠ .register node) ∧ (sh.app.nodes = s.shared.app.nodes ∨
      ∃ id outcome, sh.app.nodes = s.shared.app.nodes.modify id (NodeInfo.probed outcome))
  /-- It becomes a dispatch only at its start, under the task id it had. -/
  next : p'.run? = none ∨ ∃ spec, p' = .dispatch (.new spec) ∧ p.taskId? = some spec.taskId
  taskId : p'.taskId? = none ∨ p'.taskId? = p.taskId?
  /-- A dispatch that it spawns has a fresh task id. -/
  spawned : ∀ r, new = some r → (∃ spec, r = .new spec) ∧ s.fresh r.spec.taskId = true

theorem BatchRun.step_spawned {st : AppState} {result : Nat → Option String} {slot : Nat}
    {fresh : String → Bool} {b b' : BatchRun} {new : Option DispatchRun}
    (h : b.step X env st result slot fresh = some (b', new)) (r : DispatchRun)
    (hr : new = some r) : (∃ spec, r = .new spec) ∧ fresh r.spec.taskId = true := by
  cases BatchRun.step_inv h with
  | spawn _ _ hfresh =>
      cases hr
      exact ⟨⟨_, rfl⟩, hfresh⟩
  | _ => cases hr

theorem UploadRun.step_app {st st' : AppState} {u u' : UploadRun}
    (h : u.step X env st = some (st', u')) :
    st' = { st with moduleRegistry := st'.moduleRegistry } := by
  cases u with
  | start body =>
      simp only [UploadRun.step] at h
      split at h <;> cases h <;> rfl
  | store body bytes =>
      simp only [UploadRun.step] at h
      split at h <;> cases h <;> rfl
  | collect moduleId =>
      cases h
      rfl
  | returned result => cases h

theorem Proc.step_other {p p' : Proc} {sh : Shared} {new : Option DispatchRun}
    (hp : p.run? = none) (h : p.step X env s = some (sh, p', new)) :
    Proc.Other s p sh p' new := by
  cases Proc.step_inv h with
  | dispatch => cases hp
  | accept => exact ⟨rfl, rfl, .inr ⟨nofun, .inl rfl⟩, .inr ⟨_, rfl, rfl⟩, .inr rfl, by simp⟩
  | batch hb =>
      exact ⟨rfl, rfl, .inr ⟨nofun, .inl rfl⟩, .inl rfl, .inl rfl, BatchRun.step_spawned hb⟩
  | register node => exact ⟨rfl, rfl, .inl ⟨node, rfl, rfl⟩, .inl rfl, .inl rfl, by simp⟩
  | upload hu =>
      have happ := UploadRun.step_app hu
      refine ⟨?_, rfl, .inr ⟨nofun, .inl ?_⟩, .inl rfl, .inl rfl, by simp⟩ <;> rw [happ]
  | write nodeId _ outcome =>
      exact ⟨rfl, rfl, .inr ⟨nofun, .inr ⟨nodeId, outcome, rfl⟩⟩, .inl rfl, .inl rfl, by simp⟩
  | _ => exact ⟨rfl, rfl, .inr ⟨nofun, .inl rfl⟩, .inl rfl, .inl rfl, by simp⟩

theorem UploadRun.step_moduleRegistry {st st' : AppState} {u u' : UploadRun}
    (h : u.step X env st = some (st', u')) :
    st'.moduleRegistry = st.moduleRegistry ∨ ∃ name version bytes, st'.moduleRegistry =
      (st.moduleRegistry.store X env.uuid env.createdAt name version bytes).2 := by
  cases u with
  | start body =>
      simp only [UploadRun.step] at h
      split at h <;> cases h <;> exact Or.inl rfl
  | store body bytes =>
      refine Or.inr ⟨body.name, body.version, bytes, ?_⟩
      simp only [UploadRun.step] at h
      split at h <;> (cases h; next hst => rw [hst])
  | collect moduleId =>
      cases h
      exact Or.inl rfl
  | returned result => cases h

/-- A step of a process leaves the registry as it is or makes one call of `store`. -/
theorem Proc.step_moduleRegistry {p p' : Proc} {sh : Shared} {new : Option DispatchRun}
    (h : p.step X env s = some (sh, p', new)) :
    sh.app.moduleRegistry = s.shared.app.moduleRegistry ∨
    ∃ name version bytes, sh.app.moduleRegistry =
      (s.shared.app.moduleRegistry.store X env.uuid env.createdAt name version bytes).2 := by
  cases Proc.step_inv h with
  | dispatch hr => exact Or.inl (DispatchRun.step_moduleRegistry hr)
  | upload hu => exact UploadRun.step_moduleRegistry hu
  | _ => exact Or.inl rfl

/-- A step leaves the registry as it is or makes one call of `store`. -/
theorem Sys.Step.registry_inv (h : Sys.Step X s e t) :
    t.shared.app.moduleRegistry = s.shared.app.moduleRegistry ∨
    ∃ id createdAt name version bytes, t.shared.app.moduleRegistry =
      (s.shared.app.moduleRegistry.store X id createdAt name version bytes).2 := by
  cases h with
  | dispatch _ hr => exact Or.inl (DispatchRun.step_moduleRegistry hr)
  | @other _ env _ _ _ _ _ _ hp =>
      obtain heq | ⟨name, version, bytes, heq⟩ := Proc.step_moduleRegistry hp
      · exact Or.inl heq
      · exact Or.inr ⟨env.uuid, env.createdAt, name, version, bytes, heq⟩
  | _ => exact Or.inl rfl

/-! ## What a step leaves alone -/

/-- No process is ever removed. -/
theorem Sys.Step.length_le (h : Sys.Step X s e t) : s.procs.length ≤ t.procs.length := by
  cases h <;> simp

/-- A process stays as it is while others take steps. -/
theorem Sys.Step.getElem?_frame {i : Nat} {p : Proc} (h : Sys.Step X s e t)
    (hi : e.actor ≠ some i) (hp : s.procs[i]? = some p) : t.procs[i]? = some p := by
  have hlt : i < s.procs.length := (List.getElem?_eq_some_iff.mp hp).1
  cases h with
  | start => rwa [List.getElem?_append_left hlt]
  | tick => exact hp
  | rehash => exact hp
  | @dispatch j env r r' sh =>
      have hji : j ≠ i := fun hji => hi (congrArg some hji)
      rwa [List.getElem?_set_ne hji]
  | @other j env q q' sh new =>
      have hji : j ≠ i := fun hji => hi (congrArg some hji)
      rwa [List.getElem?_append_left (by rwa [List.length_set]), List.getElem?_set_ne hji]

/-- A process that takes no step was there before, or it is new: it was started by the request
or spawned by a batch. -/
theorem Sys.Step.getElem?_inv {i : Nat} {p : Proc} (h : Sys.Step X s e t)
    (hi : e.actor ≠ some i) (hp : t.procs[i]? = some p) :
    s.procs[i]? = some p ∨
    s.procs[i]? = none ∧ (e.starts = some p ∨ ∃ spec, p = .dispatch (.new spec)) := by
  cases h with
  | start he _ =>
      cases getElem?_snoc_inv hp with
      | inl hnew =>
          have hnone := List.getElem?_eq_none (Nat.le_of_eq hnew.1.symm)
          exact Or.inr ⟨hnone, Or.inl (hnew.2 ▸ he)⟩
      | inr hold => exact Or.inl hold.2
  | tick => exact Or.inl hp
  | rehash => exact Or.inl hp
  | @dispatch j env r r' sh =>
      cases getElem?_set_inv hp with
      | inl hself => exact absurd (congrArg some hself.1.symm) hi
      | inr hold => exact Or.inl hold.2
  | @other j env q q' sh new _ hq hstep =>
      have hset : (s.procs.set j q')[i]? = some p → s.procs[i]? = some p := by
        intro hp
        cases getElem?_set_inv hp with
        | inl hself => exact absurd (congrArg some hself.1.symm) hi
        | inr hold => exact hold.2
      cases new with
      | none => exact Or.inl (hset (by simpa using hp))
      | some r =>
          obtain ⟨⟨spec, rfl⟩, -⟩ := (Proc.step_other hq hstep).spawned r rfl
          cases getElem?_snoc_inv hp with
          | inl hnew =>
              rw [List.length_set] at hnew
              exact Or.inr ⟨List.getElem?_eq_none (Nat.le_of_eq hnew.1.symm), Or.inr ⟨spec, hnew.2⟩⟩
          | inr hold => exact Or.inl (hset hold.2)

/-- A process after a step was there before, is new, or has taken the step. -/
theorem Sys.Step.mem_procs {p' : Proc} (h : Sys.Step X s e t) (hp' : p' ∈ t.procs) :
    p' ∈ s.procs ∨ (e.starts = some p' ∨ ∃ spec, p' = .dispatch (.new spec)) ∨
    ∃ i env p sh new, e = .run i env ∧ s.procs[i]? = some p ∧
      p.step X env s = some (sh, p', new) := by
  obtain ⟨i, hi'⟩ := List.mem_iff_getElem?.mp hp'
  by_cases hact : e.actor = some i
  · cases h with
    | start he => rw [Event.actor_of_starts he] at hact; cases hact
    | tick => cases hact
    | rehash => cases hact
    | @dispatch j env r r' sh hj hrun =>
        cases hact
        rw [getElem?_set_self hj] at hi'
        cases hi'
        exact Or.inr (Or.inr ⟨i, env, _, sh, none, rfl, hj, by simp [Proc.step, hrun]⟩)
    | @other j env p p₁ sh new hj hp hstep =>
        cases hact
        rw [getElem?_set_append_self hj] at hi'
        cases hi'
        exact Or.inr (Or.inr ⟨i, env, p, sh, new, rfl, hj, hstep⟩)
  · obtain hold | ⟨-, hnew⟩ := h.getElem?_inv hact hi'
    · exact Or.inl (List.mem_of_getElem? hold)
    · exact Or.inr (Or.inl hnew)

/-- What a dispatch was before a step: the same, not yet there, or a dispatch that took the
step. -/
theorem Sys.Step.dispatch_inv {i : Nat} {r' : DispatchRun} (h : Sys.Step X s e t)
    (hr : t.procs[i]? = some (.dispatch r')) :
    s.procs[i]? = some (.dispatch r') ∨
    (∃ spec, r' = .new spec ∧ ∀ r, s.procs[i]? ≠ some (.dispatch r)) ∨
    ∃ env r, e = .run i env ∧ s.procs[i]? = some (.dispatch r) ∧
      r.step X s.now env s.shared = some (t.shared, r') := by
  by_cases hi : e.actor = some i
  · cases h with
    | @dispatch j env r r₁ sh hj hrun =>
        cases hi
        rw [getElem?_set_self hj] at hr
        cases hr
        exact Or.inr (Or.inr ⟨env, r, rfl, hj, hrun⟩)
    | @other j env p p' sh new hj hp hrun =>
        cases hi
        rw [getElem?_set_append_self hj] at hr
        cases hr
        cases (Proc.step_other hp hrun).next with
        | inl hnone => cases hnone
        | inr hspec =>
            obtain ⟨spec, heq, -⟩ := hspec
            cases heq
            refine Or.inr (Or.inl ⟨spec, rfl, fun r hr => ?_⟩)
            rw [hj] at hr
            cases hr
            cases hp
    | start he => rw [Event.actor_of_starts he] at hi; cases hi
    | tick => cases hi
    | rehash => cases hi
  · cases h.getElem?_inv hi hr with
    | inl hold => exact Or.inl hold
    | inr hnew =>
        obtain ⟨hnone, hnew⟩ := hnew
        cases hnew with
        | inl he => cases e <;> cases he
        | inr hspec =>
            obtain ⟨spec, heq⟩ := hspec
            cases heq
            exact Or.inr (Or.inl ⟨spec, rfl, fun r hr => by rw [hnone] at hr; cases hr⟩)

/-- A step is no step of a dispatch, or it replaces the dispatch that takes it. -/
theorem Sys.Step.quiet_or_dispatch (h : Sys.Step X s e t) :
    s.stepping e = none ∨
    ∃ i env r r' sh, e = .run i env ∧ s.procs[i]? = some (.dispatch r) ∧
      r.step X s.now env s.shared = some (sh, r') ∧
      t = { s with shared := sh, procs := s.procs.set i (.dispatch r') } := by
  cases h with
  | start he => cases e <;> first | exact Or.inl rfl | cases he
  | tick => exact Or.inl rfl
  | rehash => exact Or.inl rfl
  | @dispatch i env r r' sh hi hrun => exact Or.inr ⟨i, env, r, r', sh, rfl, hi, hrun, rfl⟩
  | other hi hp => exact Or.inl (Sys.stepping_none hi hp)

/-- A step that is no step of a dispatch changes the nodes and the registry only. -/
theorem Sys.Step.app_quiet (h : Sys.Step X s e t) (hq : s.stepping e = none) :
    t.shared.app = { s.shared.app with
      nodes := t.shared.app.nodes, moduleRegistry := t.shared.app.moduleRegistry } := by
  cases h with
  | dispatch hi =>
      rw [Sys.stepping_run hi] at hq
      cases hq
  | other hi hp hrun => exact (Proc.step_other hp hrun).app
  | _ => rfl

/-- A dispatch stays as it is in a step that is no step of a dispatch. -/
theorem Sys.Step.dispatch_quiet {i : Nat} {r : DispatchRun} (h : Sys.Step X s e t)
    (hq : s.stepping e = none) :
    s.procs[i]? = some (.dispatch r) → t.procs[i]? = some (.dispatch r) := by
  intro hr
  refine h.getElem?_frame (fun hi => ?_) hr
  cases e with
  | run j env =>
      cases hi
      rw [Sys.stepping_run hr] at hq
      cases hq
  | _ => cases hi

/-! ## Pieces of concrete runs -/

/-- The RPC that a process has in flight: the node it is for and the channel it is sent over. -/
def Proc.inFlight? : Proc → Option (NodeInfo × Channel)
  | .dispatch r =>
      match r.pc with
      | .inFlight node client => some (node, client)
      | _ => none
  | _ => none

theorem Proc.inFlight_inv {p : Proc} {node : NodeInfo} {client : Channel}
    (h : p.inFlight? = some (node, client)) :
    ∃ r, p = .dispatch r ∧ r.pc = .inFlight node client := by
  cases p with
  | dispatch r =>
      simp only [Proc.inFlight?] at h
      split at h
      case h_1 hpc =>
        cases h
        exact ⟨r, rfl, hpc⟩
      case h_2 => cases h
  | _ => cases h

/-- The steps of a submitted task up to its RPC. -/
def sending (i : Nat) : List Event := List.replicate 5 (.run i {})

/-- The RPC of a task is answered, and the breaker of the node is told. -/
def answering (i : Nat) (success : Bool) : List Event :=
  [.run i { rpc := .ok ⟨"", success, [], 0, ""⟩ }, .run i {}]

end FerroEdge.ControlPlane
