import FerroEdge.EdgeNode.Integrity
import FerroEdge.Fleet.Calls
import FerroEdge.ControlPlane.Uploads

/-!
# The edge nodes run what was uploaded

A module reaches an edge node in two ways: the node downloads it and checks its digest, or
`warm_nodes` posts it to `/cache/warm`, where nothing is checked.  Both fill one cache, which is
keyed by name and version, and `get_cached` compares no digests.

`executes_uploaded` says that the checks suffice on a platform whose nodes are warmed by the
control plane alone: whatever the downloads bring, every module that an edge node is about to run
has the digest of the bytes that were uploaded under its name and version.  The registry is
write-once, so the digests at the end of a run are those that all its requests agree on.
-/

namespace FerroEdge.EdgeNode

open Machine WasmRuntime

variable {X : Externals} {digest : String → String} {c c' : GuestSys} {ev : GuestEvent}

/-! ## A node whose requests agree on the digests -/

/-- The cache and the requests of a node agree on the digests, and every request runs a module
with the digest it asks for. -/
structure Sys.Trusted (X : Externals) (digest : String → String) (s : Sys) : Prop where
  pinned : s.Pinned X digest
  sound : s.Sound X

/-- The module that a process is going to run. -/
def Proc.chosen? : Proc → Option (ModuleRef × Module)
  | .task r => r.pc.chosen?
  | .warm _ => none

/-- A cancelled request asks for what it has asked for, and runs nothing. -/
theorem TaskRun.cancel_pinned {node node' : Node} {r r' : TaskRun}
    (h : r.cancel node = some (node', r')) (hr : (Proc.task r).Pinned X digest) :
    (Proc.task r').Pinned X digest ∧ (Proc.task r').Sound X ∧
    node'.moduleCache = node.moduleCache := by
  cases TaskRun.cancel_inv h with
  | waiting | holding => exact ⟨⟨trivial, hr.2⟩, trivial, rfl⟩

theorem Sys.Trusted.step (hI : c.sys.Trusted X digest)
    (hev : ∀ e, ev = .node e → e.Pinned X digest) (hs : c.step X ev = some c') :
    c'.sys.Trusted X digest := by
  cases GuestSys.moves_of_step hs with
  | node _ ht =>
      exact ⟨hI.pinned.step (hev _ rfl) ht, hI.sound.step hI.pinned.lookupAgrees ht⟩
  | begin | finish => exact hI
  | @cancel i r r' node hi hr =>
      obtain ⟨hpinned, hsound, hcache⟩ := TaskRun.cancel_pinned hr (hI.pinned.procs i _ hi)
      refine ⟨⟨?_, fun k p hp => ?_⟩, fun k p hp => ?_⟩
      · change node.moduleCache.All _
        rw [hcache]
        exact hI.pinned.cache
      · obtain ⟨-, rfl⟩ | ⟨-, hold⟩ := getElem?_set_inv hp
        · exact hpinned
        · exact hI.pinned.procs k p hold
      · obtain ⟨-, rfl⟩ | ⟨-, hold⟩ := getElem?_set_inv hp
        · exact hsound
        · exact hI.sound k p hold

end FerroEdge.EdgeNode

namespace FerroEdge.Fleet

open Machine ControlPlane

/-- The digest of the module under a key, empty if there is none. -/
def digestOf (reg : ModuleRegistry) (key : String) : String :=
  ((reg.modules.lookup key).map fun v => v.1.hash).getD ""

variable {D : Deployment} {f g : Platform} {ev : PlatformEvent} {url strategy : String}
  {ms : List (Move Platform PlatformEvent)} {reg reg' : ModuleRegistry} {i j k : Nat}

theorem digestOf_get {name version : String} {info : ModuleMetadata} {bytes : Bytes}
    (hext : reg.Extends reg') (hget : reg.get name version = some (info, bytes)) :
    digestOf reg' (EdgeNode.cacheKey name version) = info.hash := by
  have hlater := hext _ _ hget
  change ((reg'.modules.lookup (ModuleRegistry.key name version)).map _).getD "" = _
  rw [hlater]
  rfl

/-! ## The requests of the control plane -/

/-- No step of the platform changes an entry of the registry. -/
theorem Platform.Step.registry (h : Platform.Step D f ev g) :
    f.control.shared.app.moduleRegistry.Extends g.control.shared.app.moduleRegistry := by
  cases hce : f.controlEvent ev with
  | none =>
      rw [h.controlEvent_step.2 hce]
      exact .refl _
  | some e => exact (ControlPlane.Sys.step_inv (h.controlEvent_step.1 e hce)).moduleRegistry.1

theorem registry_extends (h : Run (Platform.step D) f ms g) :
    f.control.shared.app.moduleRegistry.Extends g.control.shared.app.moduleRegistry := by
  refine h.always (I := fun g =>
    f.control.shared.app.moduleRegistry.Extends g.control.shared.app.moduleRegistry) (.refl _) ?_
  intro g ev g' hI hs key v hk
  exact (Platform.step_inv hs).registry key v (hI key v hk)

/-- The registry holds the module that a dispatch refers to, with the digest it carries. -/
theorem dispatch_ref {r : DispatchRun} {ref : ModuleRef}
    (h : Run (Platform.step D) (.init D url strategy) ms f)
    (hr : f.control.procs[i]? = some (.dispatch r)) (href : r.spec.wasmSource = .moduleRef ref) :
    ∃ info bytes, f.control.shared.app.moduleRegistry.get ref.name ref.version =
      some (info, bytes) ∧ ref.hash = info.hash := by
  have hcontrol := control_run h
  obtain ⟨body, traceId, -, m, hm, htask⟩ := requested hcontrol hr
  obtain ⟨info, bytes, hget, hhash⟩ := (href ▸ htask.source).get
  obtain ⟨as, bs, hsplit⟩ := List.append_of_mem hm
  rw [hsplit] at hcontrol
  obtain ⟨-, hs, hrest⟩ := hcontrol.at_move
  have hlater : m.pre.shared.app.moduleRegistry.Extends f.control.shared.app.moduleRegistry :=
    moduleRegistry_extends (Run.cons hs hrest)
  exact ⟨info, bytes, hlater _ _ hget, hhash⟩

/-- What the uploads are about to post, and what the spawned `warm_nodes` post, is in the
registry. -/
structure Posted (D : Deployment) (f : Platform) : Prop where
  uploads : ∀ (i : Nat) u body, f.control.procs[i]? = some (.upload u) →
    f.uploads.lookup i = some body →
    u.Holds D.X f.control.shared.app.moduleRegistry body
  warms : ∀ task ∈ f.warms, ∃ info bytes,
    f.control.shared.app.moduleRegistry.get task.body.name task.body.version =
      some (info, bytes) ∧ task.body.wasmBytesBase64 = D.b64Encode bytes

/-- A step of the control plane. -/
theorem Posted.control {e : ControlPlane.Event} (hI : Posted D f)
    (hs : f.control.step D.X e = some g.control) (huploads : g.uploads = f.captured e)
    (hwarms : ∀ task ∈ g.warms, task ∈ f.warms ∨ f.spawned D e = some task) : Posted D g := by
  have hinv := ControlPlane.Sys.step_inv hs
  have hext := hinv.moduleRegistry.1
  constructor
  · intro i u' body hi hbody
    rw [huploads] at hbody
    obtain hold | ⟨body', rfl, rfl, rfl⟩ | ⟨env, u, rfl, hu, hstep⟩ := hinv.upload_inv hi
    · have hlt : i < f.control.procs.length := (List.getElem?_eq_some_iff.mp hold).1
      have hsame : f.uploads.lookup i = some body := by
        cases e with
        | uploadModule body' =>
            rwa [Platform.captured, AList.lookup_insert_ne (Nat.ne_of_lt hlt)] at hbody
        | _ => exact hbody
      exact (hI.uploads i u' body hold hsame).extends hext
    · rw [Platform.captured, AList.lookup_insert] at hbody
      cases hbody
      rfl
    · exact (hI.uploads i u body hu hbody).step hstep
  · intro task htask
    obtain hold | hnew := hwarms task htask
    · obtain ⟨info, bytes, hget, hbody⟩ := hI.warms task hold
      exact ⟨info, bytes, hext _ _ hget, hbody⟩
    · unfold Platform.spawned at hnew
      split at hnew
      case h_2 => cases hnew
      case h_1 i env =>
        split at hnew
        case h_2 => cases hnew
        case h_1 moduleId body hi hbody =>
          obtain ⟨info, bytes, hdecode, hget, -⟩ := hI.uploads i _ body hi hbody
          split at hnew
          case h_2 => cases hnew
          case h_1 bytes' addr addrs hdecode' haddrs =>
            rw [hdecode] at hdecode'
            cases hdecode'
            cases hnew
            exact ⟨info, bytes, hext _ _ hget, rfl⟩

theorem Posted.step (hI : Posted D f) (h : Platform.Step D f ev g) : Posted D g := by
  cases h with
  | control _ hs =>
      refine hI.control hs rfl fun task htask => ?_
      obtain hold | hnew := List.mem_append.mp htask
      · exact Or.inl hold
      · exact Or.inr (Option.mem_toList.mp hnew)
  | answer _ hs => exact hI.control hs rfl fun task htask => Or.inl htask
  | lose _ hs => exact hI.control hs rfl fun task htask => Or.inl htask
  | edge => exact ⟨hI.uploads, hI.warms⟩
  | deliver => exact ⟨hI.uploads, hI.warms⟩
  | warm => exact ⟨hI.uploads, hI.warms⟩

theorem posted (h : Run (Platform.step D) (.init D url strategy) ms f) : Posted D f := by
  refine h.always (I := Posted D) ⟨?_, ?_⟩ fun f ev g hI hs => hI.step (Platform.step_inv hs)
  · intro i u body hi
    cases hi
  · intro task htask
    cases htask

/-! ## The requests that reach the nodes -/

/-- A dispatch asks for the digest in the registry. -/
theorem deliver_pinned {r : DispatchRun} (h : Run (Platform.step D) (.init D url strategy) ms f)
    (hext : f.control.shared.app.moduleRegistry.Extends reg)
    (hr : f.control.procs[i]? = some (.dispatch r)) :
    (EdgeNode.Event.executeTask r.spec.request).Pinned D.X (digestOf reg) := by
  intro ref href
  obtain ⟨info, bytes, hget, hhash⟩ := dispatch_ref h hr (Option.some.inj href)
  rw [hhash, digestOf_get hext hget]

/-- `warm_nodes` brings the bytes in the registry. -/
theorem warm_pinned {task : WarmNodes} (h : Run (Platform.step D) (.init D url strategy) ms f)
    (hext : f.control.shared.app.moduleRegistry.Extends reg) (htask : task ∈ f.warms) :
    (EdgeNode.Event.warmCache task.body).Pinned D.X (digestOf reg) := by
  intro wasm hdecode _
  obtain ⟨info, bytes, hget, hbody⟩ := (posted h).warms task htask
  rw [hbody, D.decode_encode] at hdecode
  cases hdecode
  have hhashed := moduleRegistry_hashed (control_run h) _ _ _ hget
  rw [digestOf_get hext hget, hhashed.1]

theorem trusted {c : EdgeNode.GuestSys} (h : Run (Platform.step D) (.init D url strategy) ms f)
    (hext : f.control.shared.app.moduleRegistry.Extends reg) (hc : f.edges[j]? = some c) :
    c.sys.Trusted D.X (digestOf reg) := by
  induction h generalizing j c with
  | nil =>
      obtain ⟨config, -, rfl⟩ := List.mem_map.mp (List.mem_of_getElem? hc)
      refine ⟨⟨?_, ?_⟩, ?_⟩
      · intro key entry hmem
        cases hmem
      · intro k p hp
        cases hp
      · intro k p hp
        cases hp
  | @snoc ms f g ev hrun hs ih =>
      have hext' : f.control.shared.app.moduleRegistry.Extends reg := fun key v hv =>
        hext key v ((Platform.step_inv hs).registry key v hv)
      -- A node that takes a step is trusted if the request that reaches it is.
      have hset : ∀ {k : Nat} {c₀ c₁ : EdgeNode.GuestSys} {e : EdgeNode.GuestEvent},
          f.edges[k]? = some c₀ → c₀.step D.X e = some c₁ →
          (∀ e', e = .node e' → e'.Pinned D.X (digestOf reg)) →
          (f.edges.set k c₁)[j]? = some c → c.sys.Trusted D.X (digestOf reg) := by
        intro k c₀ c₁ e hc₀ hstep he hj
        obtain ⟨-, rfl⟩ | ⟨-, hold⟩ := getElem?_set_inv hj
        · exact (ih hext' hc₀).step he hstep
        · exact ih hext' hold
      cases Platform.step_inv hs with
      | control => exact ih hext' hc
      | answer => exact ih hext' hc
      | lose => exact ih hext' hc
      | edge hint hk hstep =>
          refine hset hk hstep (fun e he => ?_) hc
          subst he
          cases e with
          | executeTask req => cases hint
          | warmCache body => cases hint
          | tick d => trivial
          | run k env => trivial
      | deliver hsent _ _ _ hk hstep =>
          refine hset hk hstep (fun e he => ?_) hc
          cases he
          obtain ⟨r, node, hr, -, rfl⟩ := sent_inv.mp hsent
          exact deliver_pinned hrun hext' hr
      | warm htask hk hstep =>
          refine hset hk hstep (fun e he => ?_) hc
          cases he
          exact warm_pinned hrun hext' (List.mem_of_getElem? htask)

/-- A request runs a module that it names. -/
theorem chosen_source {c : EdgeNode.GuestSys} {p : EdgeNode.TaskRun} {ref : ModuleRef}
    {module : WasmRuntime.Module} (h : Run (Platform.step D) (.init D url strategy) ms f)
    (hc : f.edges[j]? = some c) (hk : c.sys.procs[k]? = some (.task p))
    (hchosen : p.pc.chosen? = some (ref, module)) : p.req.wasmSource = some (.moduleRef ref) := by
  obtain ⟨config, -, hedge⟩ := edge_run h hc
  have hexp := EdgeNode.explained hedge hk
  unfold EdgeNode.TaskPc.chosen? at hchosen
  split at hchosen
  case h_1 hpc =>
    cases hchosen
    rw [EdgeNode.TaskRun.Explained, hpc] at hexp
    exact hexp.1
  case h_2 hpc =>
    cases hchosen
    rw [EdgeNode.TaskRun.Explained, hpc] at hexp
    exact hexp.1
  case h_3 => cases hchosen

/-- The registry has the digest of the module that a request is about to run. -/
theorem chosen_uploaded {c : EdgeNode.GuestSys} {p : EdgeNode.TaskRun} {ref : ModuleRef}
    {module : WasmRuntime.Module} (hdigest : ∀ bytes, D.X.hexSha256 bytes ≠ "")
    (h : Run (Platform.step D) (.init D url strategy) ms f) (hc : f.edges[j]? = some c)
    (hk : c.sys.procs[k]? = some (.task p)) (hchosen : p.pc.chosen? = some (ref, module)) :
    ∃ info bytes, f.control.shared.app.moduleRegistry.get ref.name ref.version =
        some (info, bytes) ∧ info.hash = ref.hash ∧
      D.X.hexSha256 module.source = D.X.hexSha256 bytes := by
  have hsource := chosen_source h hc hk hchosen
  obtain ⟨i, r, hr, hreq⟩ := served h hc hk
  rw [← hreq] at hsource
  obtain ⟨info, bytes, hget, hhash⟩ := dispatch_ref h hr (Option.some.inj hsource)
  have hhashed := (moduleRegistry_hashed (control_run h) _ _ _ hget).1
  have hmatches := (trusted h (.refl _) hc).sound.verified k p ref module hk hchosen
  have hne : ref.hash ≠ "" := by
    rw [hhash, hhashed]
    exact hdigest bytes
  exact ⟨info, bytes, hget, hhash.symm, by rw [hmatches hne, hhash, hhashed]⟩

/-- In every run of the platform, whatever is answered to the downloads: a module that an edge
node is about to run was asked for by its name and version, and it has the digest of the bytes
that the registry holds under them. -/
theorem executes_uploaded {c : EdgeNode.GuestSys} {p : EdgeNode.TaskRun} {ref : ModuleRef}
    {module : WasmRuntime.Module} (hdigest : ∀ bytes, D.X.hexSha256 bytes ≠ "")
    (h : Run (Platform.step D) (.init D url strategy) ms f) (hc : f.edges[j]? = some c)
    (hk : c.sys.procs[k]? = some (.task p)) (hchosen : p.pc.chosen? = some (ref, module)) :
    p.req.wasmSource = some (.moduleRef ref) ∧
    ∃ info bytes, f.control.shared.app.moduleRegistry.get ref.name ref.version =
        some (info, bytes) ∧ info.hash = ref.hash ∧
      D.X.hexSha256 module.source = D.X.hexSha256 bytes :=
  ⟨chosen_source h hc hk hchosen, chosen_uploaded hdigest h hc hk hchosen⟩

/-- A node that can be warmed. -/
def warmNode : List EdgeConfig := [⟨"n", "http://n:50051", "http://n:8081", 1, 1, 60⟩]

theorem sample_digest (bytes : Bytes) : (Deployment.sample warmNode).X.hexSha256 bytes ≠ "" := by
  change (if bytes.isEmpty then "e3b0" else "ffff") ≠ ""
  split <;> decide

/-- The process `i` of the control plane takes its next steps. -/
def stepping (i n : Nat) : List PlatformEvent := List.replicate n (.control (.run i {}))

/-- The process `i` of the node takes its next steps. -/
def serving (i n : Nat) : List PlatformEvent := List.replicate n (.edge 0 (.node (.run i {})))

/-- A module is uploaded and posted to the node, and a task that names it runs it from there. -/
def warmedTask : List PlatformEvent :=
  .control (.registerNode ⟨"n", "http://n:50051", some "http://n:8081", none⟩) :: stepping 0 1 ++
  .control (.uploadModule ⟨"m", "1", "AAAA"⟩) :: stepping 1 3 ++ .warm 0 0 :: serving 0 5 ++
  .control (.submitTask "a" "" runsModule) :: stepping 2 5 ++ .deliver 2 0 :: serving 1 3

theorem warmedTask_uploaded :
    ∃ f ms c p ref, Run (Platform.step (.sample warmNode)) (.init (.sample warmNode) "" "") ms f ∧
      f.edges[0]? = some c ∧ c.sys.procs[1]? = some (.task p) ∧
      p.pc.chosen? = some (ref, ⟨[0, 0, 0]⟩) ∧
      ∃ info bytes, f.control.shared.app.moduleRegistry.get ref.name ref.version =
        some (info, bytes) ∧ info.hash = ref.hash := by
  have htest : (exec (Platform.step (.sample warmNode)) (.init (.sample warmNode) "" "")
      warmedTask).any (fun f : Platform => f.edges[0]?.any fun c =>
        c.sys.procs[1]?.bind EdgeNode.Proc.chosen? =
          some (⟨"m", "1", "ffff", "/modules/m/1"⟩, ⟨[0, 0, 0]⟩)) = true := by decide
  obtain ⟨f, h, hf⟩ := exec_any_run htest
  obtain ⟨c, hc, hf⟩ := (Option.any_eq_true _ _).mp hf
  obtain ⟨p, hp, hchosen⟩ := Option.bind_eq_some_iff.mp (of_decide_eq_true hf)
  cases p with
  | warm w => cases hchosen
  | task p =>
      obtain ⟨-, info, bytes, hget, hhash, -⟩ := executes_uploaded sample_digest h hc hp hchosen
      exact ⟨f, _, c, p, _, h, hc, hp, hchosen, info, bytes, hget, hhash⟩

end FerroEdge.Fleet
