import FerroEdge.EdgeNode.Responses
import FerroEdge.WasmRuntime.Execution
import FerroEdge.WasmRuntime.GuestAbi

/-!
# The cache of compiled modules is transparent

A request that carries the bytes of its module runs them through `WasmSandbox::execute`.  One that
names a module runs what the cache holds, through `WasmSandbox::execute_compiled`: compiled by
itself, by another request or by `/cache/warm`, at any time before.

`paths_agree` says that the answer does not depend on that where `Module::validate` accepts the
bytes: the answer is then what `execute` returns on them.  For this the bytes of every module that
a request can get hold of must compile (`GuestSys.Compiled`), or `execute` would stop before the
guest is called.  Where the bytes compile and are not valid, as WebAssembly text is not, the two ways
part: `execute` refuses the bytes, and a request that names the module runs them.
-/

namespace FerroEdge.EdgeNode

open Machine WasmRuntime

/-- The two calls of the sandbox in a step meet the same guests. -/
structure Sandboxed (X : Externals) (b : Blocking) (env : Env) : Prop where
  execute : env.execute = WasmRuntime.execute X b
  executeCompiled : env.executeCompiled = fun module => WasmRuntime.executeCompiled b module.source

/-- Every step of a request calls the sandbox. -/
def AllSandboxed (X : Externals) (ms : List (Move GuestSys GuestEvent)) : Prop :=
  ∀ m ∈ ms, ∀ i env, m.ev = .node (.run i env) → ∃ b, Sandboxed X b env

/-! ## Modules compile -/

/-- `Module::new` succeeds on the bytes of the module. -/
def Compiles (X : Externals) (module : Module) : Prop := X.compile module.source = .ok ()

/-- A call of `get_or_compile` inserts only what it has compiled. -/
def CompilesAt (X : Externals) (wasm : Bytes) (g : GetOrCompile) : Prop :=
  g = .insert → Compiles X ⟨wasm⟩

def TaskPc.Compiled (X : Externals) : TaskPc → Prop
  | .getOrCompile _ wasm g => CompilesAt X wasm g
  | .stats _ module | .executeCompiled _ module => Compiles X module
  | _ => True

def Proc.Compiled (X : Externals) : Proc → Prop
  | .task r => r.pc.Compiled X
  | .warm (.getOrCompile _ wasm g) => CompilesAt X wasm g
  | .warm _ => True

def Node.Compiled (X : Externals) (node : Node) : Prop :=
  node.moduleCache.All fun _ module => Compiles X module

structure GuestSys.Compiled (X : Externals) (c : GuestSys) : Prop where
  cache : c.sys.node.Compiled X
  procs : ∀ (i : Nat) (p : Proc), c.sys.procs[i]? = some p → p.Compiled X

variable {X : Externals} {now : Nat} {env : Env} {node node' : Node} {r r' : TaskRun}
  {w w' : WarmRun} {ms : List (Move GuestSys GuestEvent)} {k : Nat} {c d : GuestSys}
  {ev : GuestEvent}

/-- A step of `get_or_compile` keeps the modules of the cache compiled, goes on to the insertion
only with bytes that compile, and returns a module whose bytes do. -/
theorem Node.Compiled.compileStep {key : String} {wasm : Bytes} {g : GetOrCompile}
    {cache : CacheInner} {next : GetOrCompile ⊕ Except WasmError Module}
    (hnode : node.Compiled X) (hg : CompilesAt X wasm g)
    (h : node.compileStep X now key wasm g = (cache, next)) :
    cache.All (fun _ module => Compiles X module) ∧
    (∀ g', next = .inl g' → CompilesAt X wasm g') ∧
    ∀ module, next = .inr (.ok module) → Compiles X module := by
  refine ⟨?_, ?_, ?_⟩
  · have hcache : (node.compileStep X now key wasm g).1 = cache := congrArg Prod.fst h
    subst hcache
    cases g with
    | lookup => exact hnode.getOrMiss
    | compile => exact hnode
    | insert => exact hnode.insertCompiled (hg rfl)
  · rintro g' rfl rfl
    exact GetOrCompile.step_insert (congrArg Prod.snd h)
  · rintro module rfl
    obtain ⟨-, entry, hvalid, rfl⟩ | ⟨rfl, rfl⟩ := GetOrCompile.step_ok (congrArg Prod.snd h)
    · exact CacheInner.All.valid hnode hvalid
    · exact hg rfl

/-! ## One step -/

theorem TaskPc.compiled_resolve (req : ExecuteTaskRequest) : (TaskPc.resolve req).Compiled X := by
  unfold TaskPc.resolve
  split <;> trivial

theorem TaskPc.compiled_downloaded (ref : ModuleRef) (wasm : Bytes) :
    (TaskPc.downloaded X ref wasm).Compiled X := by
  unfold TaskPc.downloaded
  split
  · trivial
  · intro hg
    cases hg

theorem TaskRun.Step.keeps_compiled (h : TaskRun.Step X now env node r node' r')
    (hnode : node.Compiled X) (hr : r.pc.Compiled X) : node'.Compiled X ∧ r'.pc.Compiled X := by
  cases h with
  | increment => exact ⟨hnode, TaskPc.compiled_resolve r.req⟩
  | hit _ hvalid hcache =>
      subst hcache
      exact ⟨CacheInner.All.lookup hnode, CacheInner.All.valid hnode hvalid⟩
  | miss _ _ hcache =>
      subst hcache
      exact ⟨CacheInner.All.lookup hnode, trivial⟩
  | downloaded => exact ⟨hnode, TaskPc.compiled_downloaded _ _⟩
  | compiling hpc hg =>
      rw [hpc] at hr
      obtain ⟨hcache, hnext, -⟩ := hnode.compileStep hr hg
      exact ⟨hcache, hnext _ rfl⟩
  | compileFailed hpc hg =>
      rw [hpc] at hr
      exact ⟨(hnode.compileStep hr hg).1, trivial⟩
  | compiled hpc hg =>
      rw [hpc] at hr
      obtain ⟨hcache, -, hmodule⟩ := hnode.compileStep hr hg
      exact ⟨hcache, hmodule _ rfl⟩
  | stats hpc =>
      rw [hpc] at hr
      exact ⟨hnode, hr⟩
  | _ => exact ⟨hnode, trivial⟩

theorem WarmRun.compiled_step (h : w.step X now node = some (node', w'))
    (hnode : node.Compiled X) (hw : (Proc.warm w).Compiled X) :
    node'.Compiled X ∧ (Proc.warm w').Compiled X := by
  cases w with
  | decode body =>
      simp only [WarmRun.step] at h
      split at h
      · cases h
        exact ⟨hnode, trivial⟩
      · cases h
        exact ⟨hnode, fun hg => by cases hg⟩
  | getOrCompile key wasm g =>
      cases h
      have hg : node.compileStep X now key wasm g = (_, _) := rfl
      obtain ⟨hcache, hnext, -⟩ := hnode.compileStep hw hg
      refine ⟨hcache, ?_⟩
      split
      case h_1 hg => exact hnext _ hg
      all_goals trivial
  | stats key =>
      cases h
      exact ⟨hnode, trivial⟩
  | returned reply => cases h

theorem TaskRun.compiled_cancel (h : r.cancel node = some (node', r')) (hnode : node.Compiled X) :
    node'.Compiled X ∧ r'.pc.Compiled X := by
  cases TaskRun.cancel_inv h with
  | waiting | holding => exact ⟨hnode, trivial⟩

theorem GuestSys.Compiled.step (hc : c.Compiled X) (h : c.step X ev = some d) : d.Compiled X := by
  have hset : ∀ {i : Nat} {p : Proc}, d.sys.procs = c.sys.procs.set i p → p.Compiled X →
      ∀ (j : Nat) (q : Proc), d.sys.procs[j]? = some q → q.Compiled X := by
    intro i p hprocs hp j q hq
    rw [hprocs] at hq
    obtain ⟨-, rfl⟩ | ⟨-, hold⟩ := getElem?_set_inv hq
    · exact hp
    · exact hc.procs j q hold
  cases GuestSys.step_inv h with
  | quiet hnode hprocs => exact ⟨hnode ▸ hc.cache, hprocs ▸ hc.procs⟩
  | @start e p _ he hnode hprocs =>
      refine ⟨hnode ▸ hc.cache, ?_⟩
      intro j q hq
      rw [hprocs] at hq
      obtain ⟨-, rfl⟩ | ⟨-, hold⟩ := getElem?_snoc_inv hq
      · cases e <;> cases he <;> trivial
      · exact hc.procs j q hold
  | task hi hrun hprocs =>
      obtain ⟨hnode, hr⟩ := (TaskRun.step_inv hrun).keeps_compiled hc.cache (hc.procs _ _ hi)
      exact ⟨hnode, hset hprocs hr⟩
  | warm hi hrun hprocs =>
      obtain ⟨hnode, hw⟩ := WarmRun.compiled_step hrun hc.cache (hc.procs _ _ hi)
      exact ⟨hnode, hset hprocs hw⟩
  | cancel hi hcancel hprocs =>
      obtain ⟨hnode, hr⟩ := TaskRun.compiled_cancel hcancel hc.cache
      exact ⟨hnode, hset hprocs hr⟩

theorem GuestSys.compiled_init {nodeId : String} {maxTasks cacheMaxSize cacheTtl : Nat} :
    (GuestSys.init nodeId maxTasks cacheMaxSize cacheTtl).Compiled X where
  cache := fun _ _ h => by cases h
  procs := fun _ _ h => by cases h

/-! ## Runs -/

variable {nodeId : String} {maxTasks cacheMaxSize cacheTtl : Nat} {req : ExecuteTaskRequest}
  {code : Bytes} {result : Except WasmError ExecutionResult}

/-- The module that a request has passed to the sandbox compiles. -/
theorem Stepped.compiles {ref : ModuleRef} {module : Module}
    (h : Run (GuestSys.step X) (.init nodeId maxTasks cacheMaxSize cacheTtl) ms c)
    (hstep : Stepped ms k req (.executeCompiled ref module) env) : Compiles X module := by
  obtain ⟨m, hm, -, hk⟩ := hstep
  have hpre := h.invariant_mem (I := GuestSys.Compiled X) (C := fun _ => True)
    GuestSys.compiled_init (fun _ _ _ hc _ hs => hc.step hs) (fun _ _ => trivial)
  exact (hpre m hm).1.procs k _ hk

theorem Executed.stepped (h : Executed X ms k req code env result) :
    ∃ pc, Stepped ms k req pc env := by
  cases h with
  | bytes _ hstep => exact ⟨_, hstep⟩
  | module _ _ hstep => exact ⟨_, hstep⟩

theorem Executed.sandboxed (hbox : AllSandboxed X ms) (h : Executed X ms k req code env result) :
    ∃ b, Sandboxed X b env := by
  obtain ⟨pc, m, hm, hev, -⟩ := h.stepped
  exact hbox m hm k env hev

/-- What the sandbox has returned for a request that carries its bytes or runs valid ones is what
`execute` returns on them. -/
theorem Executed.plain {b : Blocking}
    (h : Run (GuestSys.step X) (.init nodeId maxTasks cacheMaxSize cacheTtl) ms c)
    (henv : Sandboxed X b env) (hexec : Executed X ms k req code env result)
    (hcode : req.wasmSource = some (.wasmBytes code) ∨ X.validate code = .ok ()) :
    result = execute X b code (executionConfig req) req.input := by
  cases hexec with
  | bytes => rw [henv.execute]
  | @module ref module env hsource _ hstep =>
      rw [hsource] at hcode
      have hvalid : X.validate module.source = .ok () := hcode.resolve_left (by simp)
      rw [henv.executeCompiled, execute_of_valid hvalid (hstep.compiles h)]

/-- A request that names its module gets what the guest does, with no regard to
`Module::validate`. -/
theorem Executed.unvalidated {b : Blocking} {ref : ModuleRef} (henv : Sandboxed X b env)
    (hexec : Executed X ms k req code env result) (hsource : req.wasmSource = some (.moduleRef ref))
    (hjoin : b.joinError = none) :
    result =
      (executeSyncCompiled (b.guest code) (executionConfig req) req.input b.elapsedMs).2 := by
  cases hexec with
  | bytes hbytes =>
      rw [hsource] at hbytes
      cases hbytes
  | module => simp only [henv.executeCompiled, executeCompiled, hjoin]

/-- In every run of an edge node, with requests cancelled at any of their `await`s: a response is
what `execute` gives on the bytes that were run if these are valid, also where the module came
from the cache.  If they are not, `execute` refuses them, and a request that names the module has
run them all the same. -/
theorem paths_agree {resp : ExecuteTaskResponse}
    (h : Run (GuestSys.step X) (.init nodeId maxTasks cacheMaxSize cacheTtl) ms c)
    (hbox : AllSandboxed X ms) (hk : c.sys.procs[k]? = some (.task r))
    (hpc : r.pc = .returned (.ok resp)) :
    ∃ code env result, Executed X ms k r.req code env result ∧
      resp = taskResponse r.req.taskId result ∧ (∃ b, Sandboxed X b env) ∧
      ∀ b, Sandboxed X b env →
        (r.req.wasmSource = some (.wasmBytes code) ∨ X.validate code = .ok () →
          result = execute X b code (executionConfig r.req) r.req.input) ∧
        ∀ ref text, r.req.wasmSource = some (.moduleRef ref) → X.validate code = .error text →
          b.joinError = none →
          result = (executeSyncCompiled (b.guest code) (executionConfig r.req) r.req.input
            b.elapsedMs).2 ∧
          execute X b code (executionConfig r.req) r.req.input = .error (.invalidWasm text) := by
  have hexp := explained h hk
  rw [TaskRun.Explained, hpc] at hexp
  cases hexp with
  | @executed code env result hexec =>
      refine ⟨code, env, result, hexec, rfl, hexec.sandboxed hbox, fun b henv => ?_⟩
      exact ⟨hexec.plain h henv, fun ref text hsource hvalid hjoin =>
        ⟨hexec.unvalidated henv hsource hjoin, execute_of_invalid hvalid hjoin⟩⟩

/-- Every module is the echo guest. -/
def echoing : Blocking := ⟨fun _ => echo 65536 (by decide) 0, 3, none⟩

def echoEnv : Env where
  execute := execute .base64 echoing
  executeCompiled module := executeCompiled echoing module.source

/-- `(module)`, in ASCII. -/
def text : Bytes := [40, 109, 111, 100, 117, 108, 101, 41]

/-- The steps of a `/cache/warm`. -/
def warms (i : Nat) : List GuestEvent := List.replicate 5 (.node (.run i echoEnv))

/-- The steps of a request that finds its module in the cache. -/
def finds (i : Nat) : List GuestEvent :=
  List.replicate 3 (.node (.run i echoEnv)) ++ [.begin i, .finish i] ++
  List.replicate 2 (.node (.run i echoEnv))

/-- A request that names version 1 of a module. -/
def naming (name : String) (input : Bytes) : ExecuteTaskRequest :=
  { ExecuteTaskRequest.sample (.moduleRef ⟨name, "1", "", ""⟩) with input }

/-- `/cache/warm` compiles the empty bytes as `m:1` and the text `(module)` as `w:1`, and two
requests find them. -/
def warmedEcho : List GuestEvent :=
  [.node (.warmCache ⟨"m", "1", ""⟩)] ++ warms 0 ++
  [.node (.warmCache ⟨"w", "1", "KG1vZHVsZSk="⟩)] ++ warms 1 ++
  [.node (.executeTask (naming "m" [7]))] ++ finds 2 ++
  [.node (.executeTask (naming "w" [8]))] ++ finds 3

def warmedEchoMoves : List (Move GuestSys GuestEvent) :=
  moves (GuestSys.step .base64) (.init "n" 1 2 60) warmedEcho

theorem warmedEcho_env {m : Move GuestSys GuestEvent} {i : Nat} (hm : m ∈ warmedEchoMoves)
    (hev : m.ev = .node (.run i env)) : env = echoEnv := by
  have hmem : .node (.run i env) ∈ warmedEcho := hev ▸ ev_mem_of_moves hm
  simp [warmedEcho, warms, finds] at hmem
  tauto

theorem warmedEcho_sandboxed : AllSandboxed .base64 warmedEchoMoves := by
  intro m hm i env hev
  rw [warmedEcho_env hm hev]
  exact ⟨echoing, rfl, rfl⟩

/-- The request that the process `k` serves. -/
def GuestSys.task? (c : GuestSys) (k : Nat) : Option TaskRun :=
  match c.sys.procs[k]? with
  | some (.task r) => some r
  | _ => none

theorem GuestSys.task_eq_some (h : c.task? k = some r) : c.sys.procs[k]? = some (.task r) := by
  unfold GuestSys.task? at h
  split at h <;> cases h
  assumption

/-- The code that the next step of the process `k` passes to the sandbox. -/
def GuestSys.code? (c : GuestSys) (k : Nat) : Option Bytes :=
  match c.sys.procs[k]? with
  | some (.task ⟨_, .execute bytes⟩) => some bytes
  | some (.task ⟨_, .executeCompiled _ module⟩) => some module.source
  | _ => none

theorem Executed.code_mem (h : Executed X ms k req code env result) :
    ∃ m ∈ ms, (∃ i, m.ev = .node (.run i env)) ∧ m.pre.code? k = some code := by
  cases h with
  | bytes _ hstep =>
      obtain ⟨m, hm, hev, hk⟩ := hstep
      exact ⟨m, hm, ⟨k, hev⟩, by rw [GuestSys.code?, hk]⟩
  | module _ _ hstep =>
      obtain ⟨m, hm, hev, hk⟩ := hstep
      exact ⟨m, hm, ⟨k, hev⟩, by rw [GuestSys.code?, hk]⟩

/-- The first response is what `execute` gives on the empty bytes.  The second is the echo of a
guest whose text `execute` refuses. -/
theorem warmedEcho_plain :
    ∃ c result, Run (GuestSys.step .base64) (.init "n" 1 2 60) warmedEchoMoves c ∧
      c.sys.procs[2]? =
        some (.task ⟨naming "m" [7], .returned (.ok ⟨"t", true, [7], 3, ""⟩)⟩) ∧
      Executed .base64 warmedEchoMoves 2 (naming "m" [7]) [] echoEnv
        (execute .base64 echoing [] (executionConfig (naming "m" [7])) [7]) ∧
      c.sys.procs[3]? =
        some (.task ⟨naming "w" [8], .returned (.ok ⟨"t", true, [8], 3, ""⟩)⟩) ∧
      Executed .base64 warmedEchoMoves 3 (naming "w" [8]) text echoEnv result ∧
      ⟨"t", true, [8], 3, ""⟩ = taskResponse "t" result ∧
      execute .base64 echoing text (executionConfig (naming "w" [8])) [8] =
        .error (.invalidWasm "magic header not detected") := by
  have htest : (exec (GuestSys.step .base64) (.init "n" 1 2 60) warmedEcho).any (fun c =>
      c.task? 2 = some ⟨naming "m" [7], .returned (.ok ⟨"t", true, [7], 3, ""⟩)⟩ ∧
      c.task? 3 = some ⟨naming "w" [8], .returned (.ok ⟨"t", true, [8], 3, ""⟩)⟩) = true := by
    decide
  have hcodes : ∀ m ∈ warmedEchoMoves,
      (∀ code ∈ m.pre.code? 2, code = []) ∧ ∀ code ∈ m.pre.code? 3, code = text := by decide
  obtain ⟨c, h, hc⟩ := exec_any_run htest
  have hvalid := GuestSys.task_eq_some (of_decide_eq_true hc).1
  have htext := GuestSys.task_eq_some (of_decide_eq_true hc).2
  obtain ⟨code, env, result, hexec, -, -, hagree⟩ :=
    paths_agree h warmedEcho_sandboxed hvalid rfl
  obtain ⟨code', env', result', hexec', hresp, -, hpart⟩ :=
    paths_agree h warmedEcho_sandboxed htext rfl
  obtain ⟨m, hm, ⟨i, hev⟩, hcode⟩ := hexec.code_mem
  obtain rfl := warmedEcho_env hm hev
  obtain rfl := (hcodes m hm).1 code hcode
  obtain ⟨m', hm', ⟨i', hev'⟩, hcode'⟩ := hexec'.code_mem
  obtain rfl := warmedEcho_env hm' hev'
  obtain rfl := (hcodes m' hm').2 code' hcode'
  have hresult := (hagree echoing ⟨rfl, rfl⟩).1 (Or.inr rfl)
  obtain ⟨-, hinvalid⟩ := (hpart echoing ⟨rfl, rfl⟩).2 _ _ rfl rfl rfl
  exact ⟨c, result', h, hvalid, hresult ▸ hexec, htext, hexec', hresp, hinvalid⟩

end FerroEdge.EdgeNode
