import FerroEdge.Fleet.Calls
import FerroEdge.Machine.Header

/-!
# Trace ids

`trace_id_middleware` stands before every handler of the control plane.  It takes the trace id
from the header `X-Trace-Id` of the request, or makes one, hands it to the handler, and puts it on
the response.  The handlers that submit tasks pass it on to the dispatches, and these to the edge
nodes.

`trace_propagated` says that it arrives: a request that an edge node has taken up carries the
trace id of the HTTP request that has asked for its task, and the response to that HTTP request
shows it.  A readable header of the client comes back as it was sent.  All attempts of a task, on
whatever nodes, are one and the same request.
-/

namespace FerroEdge.ControlPlane

open Machine.Http

/-- A request to one of the handlers that take the trace id. -/
inductive TaskRequest where
  | submitTask (taskId : String) (body : SubmitTaskRequest)
  | submitTasksBatch (tasks : List SubmitTaskRequest)

/-- The bodies of the tasks that a request asks for. -/
def TaskRequest.bodies : TaskRequest → List SubmitTaskRequest
  | .submitTask _ body => [body]
  | .submitTasksBatch tasks => tasks

structure HttpRequest where
  /-- The header `X-Trace-Id`. -/
  header : Option HeaderValue
  /-- What `Uuid::new_v4` returns in the middleware. -/
  uuid : Uuid
  handler : TaskRequest

namespace HttpRequest

def traceId (x : HttpRequest) : String := (x.header.bind HeaderValue.toStr).getD x.uuid.text

/-- The event of the control plane when the middleware has handed the request on. -/
def event (x : HttpRequest) : Event :=
  match x.handler with
  | .submitTask taskId body => .submitTask taskId x.traceId body
  | .submitTasksBatch tasks => .submitTasksBatch x.traceId tasks

/-- The header `X-Trace-Id` of the response. -/
def responseHeader (x : HttpRequest) : Option HeaderValue := HeaderValue.fromStr x.traceId

/-- Every response has the header, it shows the trace id, and it is the header of the request if
that can be read. -/
theorem responseHeader_spec (x : HttpRequest) :
    ∃ v, x.responseHeader = some v ∧ v.toStr = some x.traceId ∧
      ∀ w, x.header = some w → w.toStr.isSome = true → w = v := by
  have huuid := fromStr_visible x.uuid.visible_hyphenated
  rw [responseHeader, traceId]
  cases hheader : x.header with
  | none =>
      obtain ⟨v, hv, -, htext⟩ := huuid
      exact ⟨v, hv, htext, fun w hw => by cases hw⟩
  | some w =>
      rw [Option.bind_some]
      cases htext : w.toStr with
      | none =>
          obtain ⟨v, hv, -, htext'⟩ := huuid
          refine ⟨v, hv, htext', fun w' hw' hsome => ?_⟩
          cases hw'
          rw [htext] at hsome
          cases hsome
      | some s =>
          refine ⟨w, fromStr_of_toStr htext, htext, fun w' hw' _ => ?_⟩
          exact (Option.some.inj hw').symm

end HttpRequest

end FerroEdge.ControlPlane

namespace FerroEdge.Fleet

open Machine ControlPlane

inductive FrontEvent where
  | http (x : HttpRequest)
  /-- A step of the platform in which no task is submitted. -/
  | platform (ev : PlatformEvent)

/-- The step submits tasks. -/
def submits : PlatformEvent → Bool
  | .control (.submitTask _ _ _) | .control (.submitTasksBatch _ _) => true
  | _ => false

def FrontEvent.event : FrontEvent → PlatformEvent
  | .http x => .control x.event
  | .platform ev => ev

/-- The platform behind the middleware: every task is submitted by an HTTP request. -/
def frontStep (D : Deployment) (f : Platform) : FrontEvent → Option Platform
  | .http x => f.step D (.control x.event)
  | .platform ev => if submits ev then none else f.step D ev

variable {D : Deployment} {f g : Platform} {e : FrontEvent} {url strategy : String}
  {ms : List (Move Platform FrontEvent)} {j k : Nat}

theorem frontStep_inv (h : frontStep D f e = some g) :
    f.step D e.event = some g ∧ ∀ ev, e = .platform ev → submits ev = false := by
  cases e with
  | http x => exact ⟨h, fun ev hev => by cases hev⟩
  | platform ev =>
      simp only [frontStep] at h
      split at h
      case isTrue => cases h
      case isFalse hsub =>
        refine ⟨h, fun ev' hev => ?_⟩
        cases hev
        exact Bool.eq_false_iff.mpr hsub

/-- The run of the platform in a run behind the middleware. -/
def platformMoves (ms : List (Move Platform FrontEvent)) : List (Move Platform PlatformEvent) :=
  ms.map fun m => ⟨m.pre, m.ev.event, m.post⟩

theorem platform_run (h : Run (frontStep D) (.init D url strategy) ms f) :
    Run (Platform.step D) (.init D url strategy) (platformMoves ms) f :=
  h.relabel (fun _ e => e.event) fun _ _ _ hs => (frontStep_inv hs).1

/-- A step that submits tasks is an HTTP request. -/
theorem http_of_submits {m' : Move ControlPlane.Sys ControlPlane.Event}
    (h : Run (frontStep D) (.init D url strategy) ms f) (hm : m' ∈ controlMoves (platformMoves ms))
    (hsub : submits (.control m'.ev) = true) : ∃ m ∈ ms, ∃ x, m.ev = .http x ∧ m'.ev = x.event := by
  obtain ⟨m₁, hm₁, he, -⟩ := Run.mem_project hm
  obtain ⟨m, hmem, rfl⟩ := List.mem_map.mp hm₁
  refine ⟨m, hmem, ?_⟩
  generalize m'.ev = e' at he hsub ⊢
  cases hev : m.ev with
  | http x =>
      rw [hev] at he
      exact ⟨x, rfl, (Option.some.inj he).symm⟩
  | platform ev =>
      have hquiet := (frontStep_inv (h.step_of_mem hmem)).2 ev hev
      dsimp only at he
      rw [hev, FrontEvent.event] at he
      cases ev with
      | control e =>
          cases he
          rw [hsub] at hquiet
          cases hquiet
      | answer i =>
          obtain ⟨rpc, -, heq⟩ := Option.map_eq_some_iff.mp he
          rw [← heq] at hsub
          cases hsub
      | lose i status =>
          cases he
          cases hsub
      | _ => cases he

/-- All requests for a task that edge nodes have taken up are the same. -/
theorem attempts_agree {ms : List (Move Platform PlatformEvent)} {c c' : EdgeNode.GuestSys}
    {p q : EdgeNode.TaskRun} {j' k' : Nat}
    (h : Run (Platform.step D) (.init D url strategy) ms f) (hc : f.edges[j]? = some c)
    (hk : c.sys.procs[k]? = some (.task p)) (hc' : f.edges[j']? = some c')
    (hk' : c'.sys.procs[k']? = some (.task q)) (hid : p.req.taskId = q.req.taskId) :
    p.req = q.req := by
  obtain ⟨i, r, hr, hreq⟩ := served h hc hk
  obtain ⟨i', r', hr', hreq'⟩ := served h hc' hk'
  rw [← hreq, ← hreq'] at hid ⊢
  have hii : i = i' := (Conserved.of_run (control_run h)).distinct i i' _ _ r.spec.taskId hr hr' rfl
    (congrArg some hid.symm)
  subst hii
  rw [hr] at hr'
  cases hr'
  rfl

/-- In every run of the platform, a request that an edge node has taken up was submitted by an
HTTP request, whose trace id it carries.  The response to the HTTP request shows the trace id in
its header, which is the header of the client if that can be read.  Every other request for the
task, on any node, is the same. -/
theorem trace_propagated {c : EdgeNode.GuestSys} {p : EdgeNode.TaskRun}
    (h : Run (frontStep D) (.init D url strategy) ms f) (hc : f.edges[j]? = some c)
    (hk : c.sys.procs[k]? = some (.task p)) :
    (∃ m ∈ ms, ∃ x v, m.ev = .http x ∧ x.responseHeader = some v ∧
      v.toStr = some p.req.traceId ∧
      (∀ w, x.header = some w → w.toStr.isSome = true → w = v) ∧
      ∃ body ∈ x.handler.bodies, ∃ input wasmSource,
        p.req = (body.spec p.req.taskId x.traceId input wasmSource).request) ∧
    ∀ (j' k' : Nat) (c' : EdgeNode.GuestSys) (q : EdgeNode.TaskRun), f.edges[j']? = some c' →
      c'.sys.procs[k']? = some (.task q) → q.req.taskId = p.req.taskId → q.req = p.req := by
  have hrun := platform_run h
  refine ⟨?_, fun j' k' c' q hc' hk' hid => attempts_agree hrun hc' hk' hc hk hid⟩
  obtain ⟨i, r, hr, hreq⟩ := served hrun hc hk
  obtain ⟨body, traceId, ⟨m', hm', hev⟩, m₀, -, htask⟩ := requested (control_run hrun) hr
  have hsub : submits (.control m'.ev) = true := by
    obtain hev | ⟨tasks, hev, -⟩ := hev <;> rw [hev] <;> rfl
  obtain ⟨m, hm, x, hx, hm'x⟩ := http_of_submits h hm' hsub
  obtain ⟨v, hv, htext, hsame⟩ := x.responseHeader_spec
  -- The event of the control plane has the trace id and the bodies of the HTTP request.
  have hbody : traceId = x.traceId ∧ body ∈ x.handler.bodies := by
    rw [hm'x, HttpRequest.event] at hev
    cases hhandler : x.handler with
    | submitTask taskId body' =>
        rw [hhandler] at hev
        obtain hev | ⟨tasks, hev, -⟩ := hev <;> cases hev
        exact ⟨rfl, List.mem_singleton.mpr rfl⟩
    | submitTasksBatch tasks' =>
        rw [hhandler] at hev
        obtain hev | ⟨tasks, hev, hmem⟩ := hev <;> cases hev
        exact ⟨rfl, hmem⟩
  obtain ⟨rfl, hmem⟩ := hbody
  have htrace : p.req.traceId = x.traceId := by
    rw [← hreq]
    exact htask.traceId
  refine ⟨m, hm, x, v, hx, hv, by rw [htext, htrace], hsame, body, hmem, r.spec.input,
    r.spec.wasmSource, ?_⟩
  rw [← hreq]
  exact congrArg TaskSpec.request htask.eq_spec

/-- The process serves a request with the trace id. -/
def carries (traceId : String) : EdgeNode.Proc → Bool
  | .task r => r.req.traceId = traceId
  | .warm _ => false

/-- A client submits a task with the trace id `t1`, and it is sent to the only node. -/
def tracedTask : List FrontEvent :=
  [.platform (.control (.registerNode (.sample "n" "http://n:50051"))),
   .platform (.control (.run 0 {})),
   .http ⟨some ⟨[116, 49], by decide⟩, ⟨0⟩, .submitTask "a" .sample⟩] ++
  (sending 1).map (fun e => .platform (.control e)) ++ [.platform (.deliver 1 0)]

theorem tracedTask_propagated :
    ∃ f ms c p, Run (frontStep (.sample (oneNode 1))) (.init (.sample (oneNode 1)) "" "") ms f ∧
      f.edges[0]? = some c ∧ c.sys.procs[0]? = some (.task p) ∧ p.req.traceId = "t1" ∧
      ∃ m ∈ ms, ∃ x v, m.ev = .http x ∧ x.responseHeader = some v ∧
        v.toStr = some p.req.traceId := by
  have htest : (exec (frontStep (.sample (oneNode 1))) (.init (.sample (oneNode 1)) "" "")
      tracedTask).any (fun f => f.edges[0]?.any fun c =>
        c.sys.procs[0]?.any (carries "t1")) = true := by decide
  obtain ⟨f, h, hf⟩ := exec_any_run htest
  obtain ⟨c, hc, hf⟩ := (Option.any_eq_true _ _).mp hf
  obtain ⟨q, hq, hf⟩ := (Option.any_eq_true _ _).mp hf
  cases q with
  | warm w => cases hf
  | task p =>
      rw [carries, decide_eq_true_eq] at hf
      obtain ⟨⟨m, hm, x, v, hx, hv, htext, -⟩, -⟩ := trace_propagated h hc hq
      exact ⟨f, _, c, p, h, hc, hq, hf, m, hm, x, v, hx, hv, htext⟩

end FerroEdge.Fleet
