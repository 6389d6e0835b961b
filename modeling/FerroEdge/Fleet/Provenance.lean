import FerroEdge.ControlPlane.Accounting
import FerroEdge.Fleet.Prewarming

/-!
# Where a result comes from

A client submits a task and later reads a result that reports success.  Between the two lie the
resolution of its inputs, a dispatch with its retries, an RPC over a pooled channel, the cache of
an edge node and the sandbox, with other requests at every point, lost connections and cancelled
handlers.

`success_executed` says that the result is right: an edge node has run the submitted code, with
the submitted function, input and limits, and the stored output is what the sandbox returned.
The code of a task that names its module is known by its digest: `CodeOf` asks for the digest of
the bytes that were uploaded under the name and version.
-/

namespace FerroEdge.Fleet

open Machine ControlPlane

variable {D : Deployment} {f g : Platform} {ev : PlatformEvent} {url strategy : String}
  {ms : List (Move Platform PlatformEvent)} {i j k : Nat}

/-- The edge node `j` has taken up the request, and its sandbox has run `code` for it with this
result. -/
def ExecutedOn (D : Deployment) (ms : List (Move Platform PlatformEvent)) (j : Nat)
    (req : ExecuteTaskRequest) (code : Bytes)
    (result : Except WasmRuntime.WasmError WasmRuntime.ExecutionResult) : Prop :=
  ∃ config k env, D.configs[j]? = some config ∧
    EdgeNode.Executed D.X (edgeMoves j config ms) k req code env result

/-- The code of a task: the bytes that it carries, or bytes with the digest of those that the
registry has under the name and version. -/
inductive CodeOf (X : Externals) (reg : ModuleRegistry) (spec : TaskSpec) : Bytes → Prop where
  | bytes {code : Bytes} : spec.wasmSource = .wasmBytes code → CodeOf X reg spec code
  | module {ref : ModuleRef} {info : ModuleMetadata} {uploaded code : Bytes} :
      spec.wasmSource = .moduleRef ref → reg.get ref.name ref.version = some (info, uploaded) →
      info.hash = ref.hash → X.hexSha256 code = X.hexSha256 uploaded → CodeOf X reg spec code

theorem ExecutedOn.mono {req : ExecuteTaskRequest} {code : Bytes}
    {result : Except WasmRuntime.WasmError WasmRuntime.ExecutionResult}
    {ns : List (Move Platform PlatformEvent)} (h : ExecutedOn D ms j req code result) :
    ExecutedOn D (ms ++ ns) j req code result := by
  obtain ⟨config, k, env, hconfig, hexec⟩ := h
  refine ⟨config, k, env, hconfig, ?_⟩
  rw [edgeMoves, Run.project, List.filterMap_append]
  exact hexec.mono

/-- A move of an edge node is one of the platform, at which the node is as the move has it. -/
theorem edgeMoves_inv {config : EdgeConfig} {m' : Move EdgeNode.GuestSys EdgeNode.GuestEvent}
    {p : EdgeNode.Proc} (h : Run (Platform.step D) (.init D url strategy) ms f)
    (hm : m' ∈ edgeMoves j config ms) (hp : m'.pre.sys.procs[k]? = some p) :
    ∃ as m bs, ms = as ++ m :: bs ∧ m.pre.edges[j]? = some m'.pre := by
  obtain ⟨m, hmem, -, hpre, -⟩ := Run.mem_project hm
  obtain ⟨as, bs, rfl⟩ := List.append_of_mem hmem
  refine ⟨as, m, bs, rfl, ?_⟩
  rw [hpre] at hp ⊢
  cases hedge : m.pre.edges[j]? with
  | some c => rw [Platform.edge, hedge, Option.getD_some]
  | none =>
      rw [Platform.edge, hedge] at hp
      cases hp

/-- A node runs the code of the task that it has a request for. -/
theorem ExecutedOn.codeOf {spec : TaskSpec} {req : ExecuteTaskRequest} {code : Bytes}
    {result : Except WasmRuntime.WasmError WasmRuntime.ExecutionResult}
    (hdigest : ∀ bytes, D.X.hexSha256 bytes ≠ "")
    (h : Run (Platform.step D) (.init D url strategy) ms f) (hreq : Carries spec req)
    (hexec : ExecutedOn D ms j req code result) :
    CodeOf D.X f.control.shared.app.moduleRegistry spec code := by
  obtain ⟨config, k, env, -, hexec⟩ := hexec
  cases hexec with
  | bytes hsource => exact .bytes (Option.some.inj (hreq.wasmSource.symm.trans hsource))
  | module hsource _ hstep =>
      obtain ⟨m', hm', -, hk⟩ := hstep
      obtain ⟨as, m, bs, rfl, hc⟩ := edgeMoves_inv h hm' hk
      obtain ⟨hrun, hs, hrest⟩ := h.at_move
      have hlater := registry_extends (Run.cons hs hrest)
      obtain ⟨info, bytes, hget, hhash, hsame⟩ := chosen_uploaded hdigest hrun hc hk rfl
      exact .module (Option.some.inj (hreq.wasmSource.symm.trans hsource))
        (hlater _ _ hget) hhash hsame

/-- A dispatch gets its answer from a request that an edge node has answered. -/
theorem answer_returned {env : ControlPlane.Env} {r : DispatchRun} {node : NodeInfo}
    {client : Channel} {resp : ExecuteTaskResponse}
    (h : Run (Platform.step D) (.init D url strategy) ms f) (hs : f.step D ev = some g)
    (he : f.controlEvent ev = some (.run i env))
    (hr : f.control.procs[i]? = some (.dispatch r)) (hpc : r.pc = .inFlight node client)
    (hrpc : env.rpc = .ok resp) :
    ∃ (j k : Nat) (c : EdgeNode.GuestSys) (p : EdgeNode.TaskRun), f.edges[j]? = some c ∧
      c.sys.procs[k]? = some (.task p) ∧ p.req = r.spec.request ∧ p.pc = .returned (.ok resp) := by
  have hsent : sent? f.control i = some (r.spec.request, client) :=
    sent_inv.mpr ⟨r, node, hr, hpc, rfl⟩
  cases Platform.step_inv hs with
  | control hun =>
      cases he
      simp [unanswered, hsent] at hun
  | lose =>
      cases he
      cases hrpc
  | answer hreply =>
      rw [Platform.controlEvent, hreply] at he
      cases he
      dsimp only at hrpc
      subst hrpc
      obtain ⟨call, c, hcall, hc, hrep⟩ := Platform.reply_inv hreply
      obtain ⟨req, client', c', p, hsent', hc', hp, hreq⟩ := linked h i call hcall
      rw [hsent] at hsent'
      cases hsent'
      rw [hc] at hc'
      cases hc'
      obtain ⟨p', hp', hpcr⟩ := EdgeNode.GuestSys.reply_inv hrep
      rw [hp] at hp'
      cases hp'
      unfold EdgeNode.TaskPc.reply? at hpcr
      split at hpcr
      case h_1 => cases hpcr
      case h_3 => cases hpcr
      case h_2 hreturned =>
        cases hpcr
        exact ⟨call.edge, call.proc, c, p, hc, hp, hreq, hreturned⟩
  | edge => cases he
  | deliver => cases he
  | warm => cases he

/-- A dispatch gets its answer from an edge node that has executed its request. -/
theorem answer_executed {env : ControlPlane.Env} {r : DispatchRun} {node : NodeInfo}
    {client : Channel} {resp : ExecuteTaskResponse}
    (h : Run (Platform.step D) (.init D url strategy) ms f) (hs : f.step D ev = some g)
    (he : f.controlEvent ev = some (.run i env))
    (hr : f.control.procs[i]? = some (.dispatch r)) (hpc : r.pc = .inFlight node client)
    (hrpc : env.rpc = .ok resp) :
    ∃ j code result, ExecutedOn D ms j r.spec.request code result ∧
      resp = EdgeNode.taskResponse r.spec.taskId result := by
  obtain ⟨j, k, c, p, hc, hp, hreq, hreturned⟩ := answer_returned h hs he hr hpc hrpc
  -- The process that serves the RPC has answered, so the run of its node explains it.
  obtain ⟨config, hconfig, hedge⟩ := edge_run h hc
  have hexp := EdgeNode.explained hedge hp
  rw [EdgeNode.TaskRun.Explained, hreturned, hreq] at hexp
  cases hexp with
  | executed hexec => exact ⟨j, _, _, ⟨_, k, _, hconfig, hexec⟩, rfl⟩

/-- A stored result that reports success goes back to the step in which its dispatch received the
answer of an edge node. -/
theorem success_received {id : String} {v : TaskResult}
    (h : Run (Platform.step D) (.init D url strategy) ms f)
    (hv : f.control.shared.app.tasks.lookup id = some v) (hsuccess : v.success = true) :
    ∃ as m bs i env r node client resp, ms = as ++ m :: bs ∧
      m.pre.controlEvent m.ev = some (.run i env) ∧
      m.pre.control.procs[i]? = some (.dispatch r) ∧ r.spec.taskId = id ∧
      r.pc = .inFlight node client ∧ env.rpc = .ok resp ∧ resp.success = true ∧
      v = ⟨id, node.id, true, resp.output, resp.executionTimeMs, none⟩ := by
  obtain ⟨i, node, resp, hrec, rfl⟩ := answered rfl rfl (control_run h) id v hv hsuccess
  obtain ⟨m', hm', env, r, client, hev, hr, hid, hpc, hrpc, hok⟩ := hrec
  obtain ⟨m, hm, he, hpre, -⟩ := Run.mem_project hm'
  rw [hev] at he
  rw [hpre] at hr
  obtain ⟨as, bs, rfl⟩ := List.append_of_mem hm
  exact ⟨as, m, bs, i, env, r, node, client, resp, rfl, he, hr, hid, hpc, hrpc, hok, rfl⟩

/-- In every run of the platform, every stored result that reports success comes from an
execution: a client has asked for the task, an edge node has run the code of the task, with its
function, its input and its limits, and the result holds the output and the time of that
execution. -/
theorem success_executed {id : String} {v : TaskResult}
    (hdigest : ∀ bytes, D.X.hexSha256 bytes ≠ "")
    (h : Run (Platform.step D) (.init D url strategy) ms f)
    (hv : f.control.shared.app.tasks.lookup id = some v) (hsuccess : v.success = true) :
    ∃ spec req j code exec, Requested D.X (controlMoves ms) spec ∧ spec.taskId = id ∧
      Carries spec req ∧ CodeOf D.X f.control.shared.app.moduleRegistry spec code ∧
      ExecutedOn D ms j req code (.ok exec) ∧
      v.output = exec.output ∧ v.executionTimeMs = exec.executionTimeMs ∧ v.error = none := by
  obtain ⟨as, m, bs, i, env, r, node, client, resp, rfl, he, hr, rfl, hpc, hrpc, hok, rfl⟩ :=
    success_received h hv hsuccess
  obtain ⟨hrun, hs, -⟩ := h.at_move
  obtain ⟨j, code, result, hexec, hresp⟩ := answer_executed hrun hs he hr hpc hrpc
  have hreq := requested (control_run hrun) hr
  have hspec : Requested D.X (controlMoves (as ++ m :: bs)) r.spec := by
    rw [controlMoves, Run.project, List.filterMap_append]
    exact hreq.mono
  have hcarries := Carries.of_request r.spec
  cases result with
  | error e =>
      rw [hresp] at hok
      cases hok
  | ok exec =>
      subst hresp
      exact ⟨r.spec, _, j, code, exec, hspec, rfl, hcarries,
        hexec.mono.codeOf hdigest h hcarries, hexec.mono, rfl, rfl, rfl⟩

/-- The task that has found its module in the cache is executed, and its result is stored. -/
def executedModule : List PlatformEvent :=
  warmedTask ++
  [.edge 0 (.begin 1), .edge 0 (.finish 1),
   .edge 0 (.node (.run 1 { executeCompiled := fun _ _ _ => .ok ⟨[7], 3, 0⟩ }))] ++ serving 1 1 ++
  .answer 2 :: stepping 2 2

theorem executedModule_executed :
    ∃ f ms v, Run (Platform.step (.sample warmNode)) (.init (.sample warmNode) "" "") ms f ∧
      f.control.shared.app.tasks.lookup "a" = some v ∧ v.output = [7] ∧
      ∃ spec req j code exec,
        Requested (Deployment.sample warmNode).X (controlMoves ms) spec ∧ spec.taskId = "a" ∧
        Carries spec req ∧ CodeOf (Deployment.sample warmNode).X
          f.control.shared.app.moduleRegistry spec code ∧
        ExecutedOn (.sample warmNode) ms j req code (.ok exec) ∧ v.output = exec.output := by
  have htest : (exec (Platform.step (.sample warmNode)) (.init (.sample warmNode) "" "")
      executedModule).any (fun f => (f.control.shared.app.tasks.lookup "a").any
        fun v => v.success && v.output == [7]) = true := by decide
  obtain ⟨f, h, hf⟩ := exec_any_run htest
  obtain ⟨v, hv, hv'⟩ := (Option.any_eq_true _ _).mp hf
  obtain ⟨hsuccess, hout⟩ := Bool.and_eq_true_iff.mp hv'
  obtain ⟨spec, req, j, code, exec, hreq, hid, hcarries, hcode, hexec, hsame, -⟩ :=
    success_executed sample_digest h hv hsuccess
  exact ⟨f, _, v, h, hv, eq_of_beq hout, spec, req, j, code, exec, hreq, hid, hcarries, hcode,
    hexec, hsame⟩

end FerroEdge.Fleet
