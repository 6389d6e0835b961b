import FerroEdge.EdgeNode.Server
import FerroEdge.Machine.Run
import FerroEdge.Machine.Table

/-!
# The edge node as a machine

Any number of `execute_task` and `/cache/warm` requests run over one node while time passes.
No request is cancelled.

`TaskRun.Step` and `Sys.Step` list what a step can be.
-/

namespace FerroEdge.EdgeNode

open Machine WasmRuntime

inductive Proc where
  | task (r : TaskRun)
  | warm (w : WarmRun)

structure Sys where
  node : Node
  now : Nat
  procs : List Proc

def Sys.init (nodeId : String) (maxConcurrentTasks cacheMaxSize cacheTtl : Nat) : Sys :=
  ⟨.init nodeId maxConcurrentTasks cacheMaxSize cacheTtl, 0, []⟩

/-- The next step of a process. -/
def Proc.step (X : Externals) (now : Nat) (env : Env) (node : Node) : Proc → Option (Node × Proc)
  | .task r => (r.step X now env node).map fun (node, r') => (node, .task r')
  | .warm w => (w.step X now node).map fun (node, w') => (node, .warm w')

inductive Event where
  | executeTask (req : ExecuteTaskRequest)
  | warmCache (body : WarmCacheRequest)
  | tick (d : Nat)
  | run (i : Nat) (env : Env)

/-- The process that takes a step. -/
def Event.actor : Event → Option Nat
  | .run i _ => some i
  | _ => none

/-- The process that a request starts. -/
def Event.starts : Event → Option Proc
  | .executeTask req => some (.task ⟨req, .acquire⟩)
  | .warmCache body => some (.warm (.decode body))
  | .tick _ | .run _ _ => none

def Sys.step (X : Externals) (s : Sys) : Event → Option Sys
  | .tick d => some { s with now := s.now + d }
  | .run i env =>
      match s.procs[i]? with
      | none => none
      | some p =>
          (p.step X s.now env s.node).map fun (node, p') =>
            { s with node := node, procs := s.procs.set i p' }
  | e => e.starts.map fun p => { s with procs := s.procs ++ [p] }

/-! ## What a step can be -/

/-- What a lookup in the cache of the node finds for a module reference. -/
def Node.valid (node : Node) (now : Nat) (ref : ModuleRef) : Option CachedModule :=
  node.moduleCache.valid node.cacheTtl now (cacheKey ref.name ref.version)

/-- A step of a call of `get_or_compile` in the cache of the node. -/
def Node.compileStep (node : Node) (X : Externals) (now : Nat) (key : String) (wasm : Bytes)
    (g : GetOrCompile) : CacheInner × (GetOrCompile ⊕ Except WasmError Module) :=
  g.step X node.cacheTtl now key wasm node.moduleCache

inductive TaskRun.Step (X : Externals) (now : Nat) (env : Env) (node : Node) (r : TaskRun) :
    Node → TaskRun → Prop where
  | refuse {status : Status} :
      r.pc = .acquire → Step X now env node r node (r.atPc (.refused status))
  | acquire :
      r.pc = .acquire → 0 < node.permits →
      Step X now env node r { node with permits := node.permits - 1 } (r.atPc .increment)
  | increment :
      r.pc = .increment → Step X now env node r node.countActive (r.atPc (.resolve r.req))
  | execute {bytes : Bytes} {result : Except WasmError ExecutionResult} :
      r.pc = .execute bytes → Step X now env node r node (r.atPc (.finish result))
  | hit {ref : ModuleRef} {entry : CachedModule} {cache : CacheInner} :
      r.pc = .getCached ref → node.valid now ref = some entry →
      cache = (node.moduleCache.getCached node.cacheTtl now (cacheKey ref.name ref.version)).2 →
      Step X now env node r { node with moduleCache := cache }
        (r.atPc (.executeCompiled ref entry.module))
  | miss {ref : ModuleRef} {cache : CacheInner} :
      r.pc = .getCached ref → node.valid now ref = none →
      cache = (node.moduleCache.getCached node.cacheTtl now (cacheKey ref.name ref.version)).2 →
      Step X now env node r { node with moduleCache := cache } (r.atPc (.download ref))
  | downloadFailed {ref : ModuleRef} {text : String} {status : Status} :
      r.pc = .download ref → env.download ref.name ref.version = .error text →
      Step X now env node r node.release (r.atPc (.returned (.error status)))
  | downloaded {ref : ModuleRef} {wasm : Bytes} :
      r.pc = .download ref → env.download ref.name ref.version = .ok wasm →
      Step X now env node r node (r.atPc (.downloaded X ref wasm))
  | compiling {ref : ModuleRef} {wasm : Bytes} {g g' : GetOrCompile} {cache : CacheInner} :
      r.pc = .getOrCompile ref wasm g →
      node.compileStep X now (cacheKey ref.name ref.version) wasm g = (cache, .inl g') →
      Step X now env node r { node with moduleCache := cache } (r.atPc (.getOrCompile ref wasm g'))
  | compileFailed {ref : ModuleRef} {wasm : Bytes} {g : GetOrCompile} {e : WasmError}
      {cache : CacheInner} {status : Status} :
      r.pc = .getOrCompile ref wasm g →
      node.compileStep X now (cacheKey ref.name ref.version) wasm g = (cache, .inr (.error e)) →
      Step X now env node r { node with moduleCache := cache }.release
        (r.atPc (.returned (.error status)))
  | compiled {ref : ModuleRef} {wasm : Bytes} {g : GetOrCompile} {module : Module}
      {cache : CacheInner} :
      r.pc = .getOrCompile ref wasm g →
      node.compileStep X now (cacheKey ref.name ref.version) wasm g = (cache, .inr (.ok module)) →
      Step X now env node r { node with moduleCache := cache } (r.atPc (.stats ref module))
  | stats {ref : ModuleRef} {module : Module} :
      r.pc = .stats ref module →
      Step X now env node r node.syncCacheSize (r.atPc (.executeCompiled ref module))
  | executeCompiled {ref : ModuleRef} {module : Module}
      {result : Except WasmError ExecutionResult} :
      r.pc = .executeCompiled ref module → Step X now env node r node (r.atPc (.finish result))
  | fail {status : Status} :
      r.pc = .fail status →
      Step X now env node r node.countFailed.release (r.atPc (.returned (.error status)))
  | succeed {exec : ExecutionResult} {resp : ExecuteTaskResponse} :
      r.pc = .finish (.ok exec) → resp.success = true →
      Step X now env node r (node.countExecuted exec).release (r.atPc (.returned (.ok resp)))
  | failExecution {e : WasmError} {resp : ExecuteTaskResponse} :
      r.pc = .finish (.error e) → resp.success = false →
      Step X now env node r node.countFailed.release (r.atPc (.returned (.ok resp)))

variable {X : Externals} {now : Nat} {env : Env} {node node' : Node} {r r' : TaskRun}

theorem TaskRun.step_inv (h : r.step X now env node = some (node', r')) :
    TaskRun.Step X now env node r node' r' := by
  unfold TaskRun.step at h
  split at h
  case h_1 hpc =>
    split at h
    · cases h
      exact .refuse hpc
    · cases h
      exact .acquire hpc (by omega)
  case h_2 hpc =>
    cases h
    exact .increment hpc
  case h_3 hpc =>
    cases h
    exact .execute hpc
  case h_4 ref hpc =>
    simp only [CacheInner.getCached_fst] at h
    cases hv : node.valid now ref with
    | none =>
        rw [Node.valid] at hv
        rw [hv] at h
        cases h
        exact .miss hpc hv rfl
    | some entry =>
        rw [Node.valid] at hv
        rw [hv] at h
        cases h
        exact .hit hpc hv rfl
  case h_5 hpc =>
    split at h
    case h_1 hd =>
      cases h
      exact .downloadFailed hpc hd
    case h_2 hd =>
      cases h
      exact .downloaded hpc hd
  case h_6 hpc =>
    dsimp only at h
    split at h
    case h_1 hg =>
      cases h
      exact .compiling hpc (Prod.ext rfl hg)
    case h_2 hg =>
      cases h
      exact .compileFailed hpc (Prod.ext rfl hg)
    case h_3 hg =>
      cases h
      exact .compiled hpc (Prod.ext rfl hg)
  case h_7 hpc =>
    cases h
    exact .stats hpc
  case h_8 hpc =>
    cases h
    exact .executeCompiled hpc
  case h_9 hpc =>
    cases h
    exact .fail hpc
  case h_10 result hpc =>
    cases result with
    | ok exec =>
        cases h
        exact .succeed hpc rfl
    | error e =>
        cases h
        exact .failExecution hpc rfl
  case h_11 => cases h
  case h_12 => cases h

/-- A warm request leaves the counts and the permits alone. -/
theorem WarmRun.step_frame {w w' : WarmRun} (h : w.step X now node = some (node', w')) :
    node'.state = node.state ∧ node'.activeTasksGauge = node.activeTasksGauge ∧
    node'.permits = node.permits := by
  cases w with
  | decode body =>
      simp only [WarmRun.step] at h
      split at h <;> cases h <;> exact ⟨rfl, rfl, rfl⟩
  | getOrCompile key wasm g =>
      cases h
      exact ⟨rfl, rfl, rfl⟩
  | stats key =>
      cases h
      exact ⟨rfl, rfl, rfl⟩
  | returned reply => cases h

inductive Sys.Step (X : Externals) (s : Sys) : Event → Sys → Prop where
  | start {e : Event} {p : Proc} :
      e.starts = some p → Step X s e { s with procs := s.procs ++ [p] }
  | tick (d : Nat) : Step X s (.tick d) { s with now := s.now + d }
  | task {i : Nat} {env : Env} {r r' : TaskRun} {node : Node} :
      s.procs[i]? = some (.task r) → r.step X s.now env s.node = some (node, r') →
      Step X s (.run i env) { s with node := node, procs := s.procs.set i (.task r') }
  | warm {i : Nat} {env : Env} {w w' : WarmRun} {node : Node} :
      s.procs[i]? = some (.warm w) → w.step X s.now s.node = some (node, w') →
      Step X s (.run i env) { s with node := node, procs := s.procs.set i (.warm w') }

theorem Sys.step_inv {s t : Sys} {e : Event} (h : s.step X e = some t) : Sys.Step X s e t := by
  cases e with
  | executeTask req =>
      cases h
      exact .start rfl
  | warmCache body =>
      cases h
      exact .start rfl
  | tick d =>
      cases h
      exact .tick d
  | run i env =>
      simp only [Sys.step] at h
      cases hi : s.procs[i]? with
      | none => simp [hi] at h
      | some p =>
          simp only [hi, Option.map_eq_some_iff] at h
          obtain ⟨⟨node, p'⟩, hp, rfl⟩ := h
          cases p with
          | task r =>
              obtain ⟨⟨node, r'⟩, hr, heq⟩ := Option.map_eq_some_iff.mp hp
              cases heq
              exact .task hi hr
          | warm w =>
              obtain ⟨⟨node, w'⟩, hw, heq⟩ := Option.map_eq_some_iff.mp hp
              cases heq
              exact .warm hi hw

/-- What every process satisfies before a step, every process satisfies after it, if the
process that the step starts or moves does. -/
theorem Sys.Step.forall_procs {s t : Sys} {e : Event} {Q : Proc → Prop} (h : Sys.Step X s e t)
    (hs : ∀ (i : Nat) (p : Proc), s.procs[i]? = some p → Q p)
    (hstart : ∀ p, e.starts = some p → Q p)
    (htask : ∀ i env r r' node, e = .run i env → s.procs[i]? = some (.task r) →
      TaskRun.Step X s.now env s.node r node r' → Q (.task r'))
    (hwarm : ∀ w w' node, w.step X s.now s.node = some (node, w') → Q (.warm w) → Q (.warm w')) :
    ∀ (i : Nat) (p : Proc), t.procs[i]? = some p → Q p := by
  intro i p hp
  cases h with
  | start he =>
      obtain ⟨-, rfl⟩ | ⟨-, hold⟩ := getElem?_snoc_inv hp
      · exact hstart _ he
      · exact hs i p hold
  | tick => exact hs i p hp
  | task hj hrun =>
      obtain ⟨-, rfl⟩ | ⟨-, hold⟩ := getElem?_set_inv hp
      · exact htask _ _ _ _ _ rfl hj (TaskRun.step_inv hrun)
      · exact hs i p hold
  | warm hj hrun =>
      obtain ⟨-, rfl⟩ | ⟨-, hold⟩ := getElem?_set_inv hp
      · exact hwarm _ _ _ hrun (hs _ _ hj)
      · exact hs i p hold

end FerroEdge.EdgeNode
