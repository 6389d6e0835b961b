import FerroEdge.ControlPlane.System
import FerroEdge.EdgeNode.Responses

/-!
# The platform

The control plane, the edge nodes, and what travels between them.

* An RPC of a dispatch is sent over its channel.  An edge node that listens at the endpoint of
  the channel takes it up (`deliver`), the dispatch gets what the node answers (`answer`), or the
  connection fails at any time (`lose`), and whatever the node does then is lost on the dispatch.
* `upload_module` ends by spawning `warm_nodes`, which posts the module to the HTTP address of
  each healthy node.  A post may reach its node late, or never (`warm`).
* A download is answered to the edge node by anyone, with anything: see `EdgeNode.Env`.

Every step of the platform is a step of one of its parts, or of two of them that exchange a
message.  `control_run` and `edge_run` say that a run of the platform is a run of the control
plane, and of each edge node.
-/

namespace FerroEdge.Fleet

open Machine ControlPlane

/-- The configuration of an edge node, with the two addresses under which it can be reached. -/
structure EdgeConfig where
  nodeId : String
  address : String
  httpAddress : String
  /-- `MAX_TASKS`. -/
  maxConcurrentTasks : Nat
  cacheMaxSize : Nat
  cacheTtl : Nat
deriving DecidableEq

/-- One node with this many permits. -/
def oneNode (maxTasks : Nat) : List EdgeConfig := [⟨"n", "http://n:50051", "", maxTasks, 1, 1⟩]

/-- What the platform is made of: the third-party code, with the Base64 encoder that belongs to
its decoder, and the edge nodes. -/
structure Deployment where
  X : Externals
  b64Encode : Bytes → String
  decode_encode : ∀ bytes, X.b64Decode (b64Encode bytes) = .ok bytes
  configs : List EdgeConfig

/-- Third-party code for concrete runs, with Base64. -/
def Deployment.sample (configs : List EdgeConfig) : Deployment where
  X := .base64
  b64Encode := Base64.encode
  decode_encode bytes := by simp [Externals.base64, Base64.decode_encode]
  configs := configs

/-- The node that `main` starts, with the threads of its guests. -/
def EdgeConfig.guestSys (config : EdgeConfig) : EdgeNode.GuestSys :=
  .init config.nodeId config.maxConcurrentTasks config.cacheMaxSize config.cacheTtl

/-- The request that an edge node has taken up: the node, and its process there. -/
structure Call where
  edge : Nat
  proc : Nat
deriving DecidableEq, Repr

/-- A spawned `warm_nodes`: the addresses it posts to, and what it posts. -/
structure WarmNodes where
  nodeHttpAddrs : List String
  body : EdgeNode.WarmCacheRequest

structure Platform where
  control : ControlPlane.Sys
  edges : List EdgeNode.GuestSys
  /-- The calls that serve the RPCs in flight, by the process of the dispatch. -/
  calls : HashMap Nat Call
  /-- The bodies that the runs of `upload_module` hold, by their process. -/
  uploads : HashMap Nat UploadModuleRequest
  warms : List WarmNodes

inductive PlatformEvent where
  /-- A request to the control plane, or a step there that is no answer to an RPC. -/
  | control (e : ControlPlane.Event)
  | edge (j : Nat) (e : EdgeNode.GuestEvent)
  | deliver (i j : Nat)
  | answer (i : Nat)
  | lose (i : Nat) (status : Status)
  /-- The post of a `warm_nodes` reaches a node. -/
  | warm (w j : Nat)

/-- The request that a process has sent and waits for, and the channel it was sent over. -/
def sent? (s : ControlPlane.Sys) (i : Nat) : Option (ExecuteTaskRequest × Channel) :=
  match s.procs[i]? with
  | some (.dispatch ⟨spec, _, _, _, _, _, .inFlight _ client⟩) => some (spec.request, client)
  | _ => none

/-- The step is not taken by a process that waits for an answer. -/
def unanswered (s : ControlPlane.Sys) : ControlPlane.Event → Bool
  | .run i _ => (sent? s i).isNone
  | _ => true

/-- The step is one of the node itself: no request reaches it. -/
def internal : EdgeNode.GuestEvent → Bool
  | .node (.executeTask _) | .node (.warmCache _) => false
  | _ => true

namespace Platform

def init (D : Deployment) (selfUrl schedulingStrategy : String) : Platform where
  control := .init selfUrl schedulingStrategy
  edges := D.configs.map EdgeConfig.guestSys
  calls := ∅
  uploads := ∅
  warms := []

/-- What the edge node has answered to the RPC of a process. -/
def reply? (f : Platform) (i : Nat) : Option (Except Status ExecuteTaskResponse) :=
  match f.calls.lookup i with
  | none => none
  | some call => f.edges[call.edge]?.bind fun c => c.reply? call.proc

/-- The body of an upload is kept until it is spawned with. -/
def captured (f : Platform) : ControlPlane.Event → HashMap Nat UploadModuleRequest
  | .uploadModule body => f.uploads.insert f.control.procs.length body
  | _ => f.uploads

/-- What `upload_module` spawns in its last step, when there are nodes to tell. -/
def spawned (D : Deployment) (f : Platform) : ControlPlane.Event → Option WarmNodes
  | .run i _ =>
      match f.control.procs[i]?, f.uploads.lookup i with
      | some (.upload (.collect _)), some body =>
          match D.X.b64Decode body.wasmBase64, warmAddresses f.control.shared.app with
          | .ok bytes, addr :: addrs =>
              some ⟨addr :: addrs, ⟨body.name, body.version, D.b64Encode bytes⟩⟩
          | _, _ => none
      | _, _ => none
  | _ => none

/-- A request reaches an edge node. -/
def reach (D : Deployment) (f : Platform) (j : Nat) (e : EdgeNode.Event) : Option Platform :=
  match f.edges[j]? with
  | none => none
  | some c => (c.step D.X (.node e)).map fun c' => { f with edges := f.edges.set j c' }

/-- The RPC of a process ends. -/
def settle (D : Deployment) (f : Platform) (i : Nat) (rpc : Except Status ExecuteTaskResponse) :
    Option Platform :=
  (f.control.step D.X (.run i { rpc := rpc })).map fun s =>
    { f with control := s, calls := f.calls.erase i }

def step (D : Deployment) (f : Platform) : PlatformEvent → Option Platform
  | .control e =>
      if unanswered f.control e then
        (f.control.step D.X e).map fun s => { f with
          control := s
          uploads := f.captured e
          warms := f.warms ++ (f.spawned D e).toList }
      else none
  | .edge j e =>
      match f.edges[j]? with
      | some c =>
          if internal e then (c.step D.X e).map fun c' => { f with edges := f.edges.set j c' }
          else none
      | none => none
  | .deliver i j =>
      match sent? f.control i, D.configs[j]?, f.edges[j]? with
      | some (req, client), some config, some c =>
          if config.address = client.endpoint ∧ f.calls.lookup i = none then
            (f.reach D j (.executeTask req)).map fun g =>
              { g with calls := f.calls.insert i ⟨j, c.sys.procs.length⟩ }
          else none
      | _, _, _ => none
  | .answer i =>
      match f.reply? i with
      | some rpc => f.settle D i rpc
      | none => none
  | .lose i status =>
      match sent? f.control i with
      | some _ => f.settle D i (.error status)
      | none => none
  | .warm w j =>
      match f.warms[w]?, D.configs[j]? with
      | some task, some config =>
          if config.httpAddress ∈ task.nodeHttpAddrs then f.reach D j (.warmCache task.body)
          else none
      | _, _ => none

end Platform

/-! ## What a step can be -/

variable {D : Deployment} {f g : Platform} {ev : PlatformEvent}

/-- The steps of the platform by the parts that take them. -/
inductive Platform.Step (D : Deployment) (f : Platform) : PlatformEvent → Platform → Prop where
  | control {e : ControlPlane.Event} {s : ControlPlane.Sys} :
      unanswered f.control e = true → f.control.step D.X e = some s →
      Step D f (.control e) { f with
        control := s, uploads := f.captured e, warms := f.warms ++ (f.spawned D e).toList }
  | edge {j : Nat} {e : EdgeNode.GuestEvent} {c c' : EdgeNode.GuestSys} :
      internal e = true → f.edges[j]? = some c → c.step D.X e = some c' →
      Step D f (.edge j e) { f with edges := f.edges.set j c' }
  | deliver {i j : Nat} {req : ExecuteTaskRequest} {client : Channel} {config : EdgeConfig}
      {c c' : EdgeNode.GuestSys} :
      sent? f.control i = some (req, client) → D.configs[j]? = some config →
      config.address = client.endpoint → f.calls.lookup i = none → f.edges[j]? = some c →
      c.step D.X (.node (.executeTask req)) = some c' →
      Step D f (.deliver i j) { f with
        edges := f.edges.set j c', calls := f.calls.insert i ⟨j, c.sys.procs.length⟩ }
  | answer {i : Nat} {rpc : Except Status ExecuteTaskResponse} {s : ControlPlane.Sys} :
      f.reply? i = some rpc → f.control.step D.X (.run i { rpc := rpc }) = some s →
      Step D f (.answer i) { f with control := s, calls := f.calls.erase i }
  | lose {i : Nat} {status : Status} {s : ControlPlane.Sys} :
      (sent? f.control i).isSome = true →
      f.control.step D.X (.run i { rpc := .error status }) = some s →
      Step D f (.lose i status) { f with control := s, calls := f.calls.erase i }
  | warm {w j : Nat} {task : WarmNodes} {c c' : EdgeNode.GuestSys} :
      f.warms[w]? = some task → f.edges[j]? = some c →
      c.step D.X (.node (.warmCache task.body)) = some c' →
      Step D f (.warm w j) { f with edges := f.edges.set j c' }

theorem Platform.reach_inv {j : Nat} {e : EdgeNode.Event} (h : f.reach D j e = some g) :
    ∃ c c', f.edges[j]? = some c ∧ c.step D.X (.node e) = some c' ∧
      g = { f with edges := f.edges.set j c' } := by
  unfold reach at h
  split at h
  case h_1 => cases h
  case h_2 c hc =>
    obtain ⟨c', hc', rfl⟩ := Option.map_eq_some_iff.mp h
    exact ⟨c, c', hc, hc', rfl⟩

theorem Platform.step_inv (h : f.step D ev = some g) : Platform.Step D f ev g := by
  cases ev with
  | control e =>
      simp only [step] at h
      split at h
      case isFalse => cases h
      case isTrue hun =>
        obtain ⟨s, hs, rfl⟩ := Option.map_eq_some_iff.mp h
        exact .control hun hs
  | edge j e =>
      simp only [step] at h
      split at h
      case h_2 => cases h
      case h_1 c hc =>
        split at h
        case isFalse => cases h
        case isTrue hint =>
          obtain ⟨c', hc', rfl⟩ := Option.map_eq_some_iff.mp h
          exact .edge hint hc hc'
  | deliver i j =>
      simp only [step] at h
      split at h
      case h_2 => cases h
      case h_1 req client config c hsent hconfig hc =>
        split at h
        case isFalse => cases h
        case isTrue hcond =>
          obtain ⟨g', hg', rfl⟩ := Option.map_eq_some_iff.mp h
          obtain ⟨c₁, c', hc₁, hc', rfl⟩ := reach_inv hg'
          rw [hc] at hc₁
          cases hc₁
          exact .deliver hsent hconfig hcond.1 hcond.2 hc hc'
  | answer i =>
      simp only [step] at h
      split at h
      case h_2 => cases h
      case h_1 rpc hreply =>
        obtain ⟨s, hs, rfl⟩ := Option.map_eq_some_iff.mp h
        exact .answer hreply hs
  | lose i status =>
      simp only [step] at h
      split at h
      case h_2 => cases h
      case h_1 x hsent =>
        obtain ⟨s, hs, rfl⟩ := Option.map_eq_some_iff.mp h
        exact .lose (by rw [hsent]; rfl) hs
  | warm w j =>
      simp only [step] at h
      split at h
      case h_2 => cases h
      case h_1 task config htask hconfig =>
        split at h
        case isFalse => cases h
        case isTrue =>
          obtain ⟨c, c', hc, hc', rfl⟩ := reach_inv h
          exact .warm htask hc hc'

theorem sent_inv {s : ControlPlane.Sys} {i : Nat} {req : ExecuteTaskRequest} {client : Channel} :
    sent? s i = some (req, client) ↔
      ∃ r node, s.procs[i]? = some (.dispatch r) ∧ r.pc = .inFlight node client ∧
        r.spec.request = req := by
  constructor
  · intro h
    unfold sent? at h
    split at h
    case h_1 spec tried err n c e node client' hi =>
      cases h
      exact ⟨_, node, hi, rfl, rfl⟩
    case h_2 => cases h
  · rintro ⟨⟨spec, tried, err, n, c, e, pc⟩, node, hi, rfl, rfl⟩
    rw [sent?, hi]

/-- A step of the node itself starts no process. -/
theorem starts_of_internal {e' : EdgeNode.GuestEvent} (h : internal e' = true)
    (e : EdgeNode.Event) (p : EdgeNode.Proc) (he : e' = .node e) : e.starts ≠ some p := by
  subst he
  cases e with
  | executeTask req => cases h
  | warmCache body => cases h
  | _ => exact fun hstart => by cases hstart

theorem Platform.reply_inv {i : Nat} {rpc : Except Status ExecuteTaskResponse}
    (h : f.reply? i = some rpc) :
    ∃ call c, f.calls.lookup i = some call ∧ f.edges[call.edge]? = some c ∧
      c.reply? call.proc = some rpc := by
  unfold Platform.reply? at h
  split at h
  case h_1 => cases h
  case h_2 call hcall =>
    obtain ⟨c, hc, hreply⟩ := Option.bind_eq_some_iff.mp h
    exact ⟨call, c, hcall, hc, hreply⟩

/-! ## The control plane of the platform -/

/-- The step of the control plane in a step of the platform. -/
def Platform.controlEvent (f : Platform) : PlatformEvent → Option ControlPlane.Event
  | .control e => some e
  | .answer i => (f.reply? i).map fun rpc => .run i { rpc := rpc }
  | .lose i status => some (.run i { rpc := .error status })
  | .edge _ _ | .deliver _ _ | .warm _ _ => none

theorem Platform.Step.controlEvent_step (h : Platform.Step D f ev g) :
    (∀ e, f.controlEvent ev = some e → f.control.step D.X e = some g.control) ∧
    (f.controlEvent ev = none → g.control = f.control) := by
  cases h with
  | control _ hs =>
      refine ⟨fun e he => ?_, fun he => by cases he⟩
      cases he
      exact hs
  | answer hreply hs =>
      refine ⟨fun e he => ?_, fun he => ?_⟩
      · rw [controlEvent, hreply] at he
        cases he
        exact hs
      · rw [controlEvent, hreply] at he
        cases he
  | lose _ hs =>
      refine ⟨fun e he => ?_, fun he => by cases he⟩
      cases he
      exact hs
  | edge => exact ⟨fun e he => (by cases he), fun _ => rfl⟩
  | deliver => exact ⟨fun e he => (by cases he), fun _ => rfl⟩
  | warm => exact ⟨fun e he => (by cases he), fun _ => rfl⟩

/-- The run of the control plane in a run of the platform. -/
def controlMoves (ms : List (Move Platform PlatformEvent)) :
    List (Move ControlPlane.Sys ControlPlane.Event) :=
  Run.project Platform.control Platform.controlEvent ms

variable {url strategy : String} {ms : List (Move Platform PlatformEvent)}

theorem control_run (h : Run (Platform.step D) (.init D url strategy) ms f) :
    Run (ControlPlane.Sys.step D.X) (.init url strategy) (controlMoves ms) f.control :=
  h.run_project Platform.control Platform.controlEvent fun _ _ _ hs =>
    (Platform.step_inv hs).controlEvent_step

/-! ## The edge nodes of the platform -/

/-- The step of the edge node `j` in a step of the platform. -/
def Platform.edgeEvent (j : Nat) (f : Platform) : PlatformEvent → Option EdgeNode.GuestEvent
  | .edge k e => if k = j then some e else none
  | .deliver i k =>
      if k = j then (sent? f.control i).map fun x => .node (.executeTask x.1) else none
  | .warm w k => if k = j then f.warms[w]?.map fun task => .node (.warmCache task.body) else none
  | .control _ | .answer _ | .lose _ _ => none

/-- The edge node `j`, which has the configuration `config`. -/
def Platform.edge (j : Nat) (config : EdgeConfig) (f : Platform) : EdgeNode.GuestSys :=
  f.edges[j]?.getD config.guestSys

theorem Platform.edge_eq {j : Nat} {config : EdgeConfig} {c : EdgeNode.GuestSys}
    (h : f.edges[j]? = some c) : f.edge j config = c := by
  rw [edge, h, Option.getD_some]

theorem Platform.edge_set {f' : Platform} {j k : Nat} {config : EdgeConfig}
    {c c' : EdgeNode.GuestSys} (hc : f.edges[k]? = some c)
    (hf' : f'.edges = f.edges.set k c') :
    f'.edge j config = if k = j then c' else f.edge j config := by
  by_cases hkj : k = j
  · subst hkj
    rw [if_pos rfl, edge, hf', getElem?_set_self hc, Option.getD_some]
  · rw [if_neg hkj, edge, edge, hf', List.getElem?_set_ne hkj]

/-- A node takes a step, and the others stay as they are. -/
theorem edge_part {f' : Platform} {j k : Nat} {config : EdgeConfig} {c c' : EdgeNode.GuestSys}
    {e : EdgeNode.GuestEvent} {e? : Option EdgeNode.GuestEvent}
    (he? : e? = if k = j then some e else none) (hc : f.edges[k]? = some c)
    (hs : c.step D.X e = some c') (hf' : f'.edges = f.edges.set k c') :
    (∀ e', e? = some e' → (f.edge j config).step D.X e' = some (f'.edge j config)) ∧
    (e? = none → f'.edge j config = f.edge j config) := by
  rw [Platform.edge_set hc hf', he?]
  by_cases hkj : k = j
  · subst hkj
    rw [if_pos rfl, if_pos rfl, Platform.edge_eq hc]
    refine ⟨fun e' he' => ?_, fun hnone => by cases hnone⟩
    cases he'
    exact hs
  · rw [if_neg hkj, if_neg hkj]
    exact ⟨fun e' he' => (by cases he'), fun _ => rfl⟩

theorem Platform.Step.edgeEvent_step (j : Nat) (config : EdgeConfig)
    (h : Platform.Step D f ev g) :
    (∀ e, f.edgeEvent j ev = some e → (f.edge j config).step D.X e = some (g.edge j config)) ∧
    (f.edgeEvent j ev = none → g.edge j config = f.edge j config) := by
  cases h with
  | edge _ hc hs => exact edge_part rfl hc hs rfl
  | deliver hsent _ _ _ hc hs =>
      exact edge_part (by rw [edgeEvent, hsent, Option.map_some]) hc hs rfl
  | warm htask hc hs =>
      exact edge_part (by rw [edgeEvent, htask, Option.map_some]) hc hs rfl
  | control => exact ⟨fun e he => (by cases he), fun _ => rfl⟩
  | answer => exact ⟨fun e he => (by cases he), fun _ => rfl⟩
  | lose => exact ⟨fun e he => (by cases he), fun _ => rfl⟩

/-- The run of the edge node `j` in a run of the platform. -/
def edgeMoves (j : Nat) (config : EdgeConfig) (ms : List (Move Platform PlatformEvent)) :
    List (Move EdgeNode.GuestSys EdgeNode.GuestEvent) :=
  Run.project (Platform.edge j config) (Platform.edgeEvent j) ms

/-- There are as many edge nodes as configurations. -/
theorem edges_length (h : Run (Platform.step D) (.init D url strategy) ms f) :
    f.edges.length = D.configs.length := by
  refine h.always (I := fun f => f.edges.length = D.configs.length) (by simp [Platform.init]) ?_
  intro f ev g hI hs
  cases Platform.step_inv hs <;> simpa using hI

theorem edge_run {j : Nat} {c : EdgeNode.GuestSys}
    (h : Run (Platform.step D) (.init D url strategy) ms f) (hc : f.edges[j]? = some c) :
    ∃ config, D.configs[j]? = some config ∧
      Run (EdgeNode.GuestSys.step D.X) config.guestSys (edgeMoves j config ms) c := by
  have hlt : j < D.configs.length := by
    rw [← edges_length h]
    exact (List.getElem?_eq_some_iff.mp hc).1
  obtain ⟨config, hconfig⟩ : ∃ config, D.configs[j]? = some config :=
    ⟨_, List.getElem?_eq_getElem hlt⟩
  have hrun := h.run_project (Platform.edge j config) (Platform.edgeEvent j) fun _ _ _ hs =>
    (Platform.step_inv hs).edgeEvent_step j config
  have hinit : (Platform.init D url strategy).edge j config = config.guestSys := by
    rw [Platform.edge, Platform.init, List.getElem?_map, hconfig, Option.map_some, Option.getD_some]
  rw [hinit, Platform.edge_eq hc] at hrun
  exact ⟨config, hconfig, hrun⟩

end FerroEdge.Fleet
