import FerroEdge.ControlPlane.BatchResults
import FerroEdge.ControlPlane.Requests
import FerroEdge.Fleet.Platform

/-!
# The calls of the control plane to its nodes

A dispatch sends a request and waits.  An edge node takes the request up and serves it as one of
its processes, and the dispatch hears the answer unless the connection is lost.

`Linked` ties the two sides together: the call that serves an RPC is for the request that the
dispatch has sent.  `served` says it of every request on a node, also of one whose dispatch has
gone on, and `Carries` spells out what the request takes over from the task.
-/

namespace FerroEdge.Fleet

open Machine ControlPlane

variable {D : Deployment} {f g : Platform} {ev : PlatformEvent} {url strategy : String}
  {ms : List (Move Platform PlatformEvent)} {i j k : Nat}

/-- A call serves the request of the process that waits for it. -/
def Linked (f : Platform) : Prop :=
  ∀ i call, f.calls.lookup i = some call → ∃ req client c p,
    sent? f.control i = some (req, client) ∧ f.edges[call.edge]? = some c ∧
    c.sys.procs[call.proc]? = some (.task p) ∧ p.req = req

/-! ## One step -/

/-- A process waits while others take steps. -/
theorem sent_frame {s t : ControlPlane.Sys} {e : ControlPlane.Event}
    {x : ExecuteTaskRequest × Channel} (h : s.step D.X e = some t) (hi : e.actor ≠ some i)
    (hx : sent? s i = some x) : sent? t i = some x := by
  obtain ⟨req, client⟩ := x
  obtain ⟨r, node, hr, hpc, hreq⟩ := sent_inv.mp hx
  exact sent_inv.mpr ⟨r, node, (ControlPlane.Sys.step_inv h).getElem?_frame hi hr, hpc, hreq⟩

theorem actor_of_unanswered {s : ControlPlane.Sys} {e : ControlPlane.Event}
    {x : ExecuteTaskRequest × Channel} (h : unanswered s e = true) (hx : sent? s i = some x) :
    e.actor ≠ some i := by
  intro hact
  cases e with
  | run k env =>
      cases hact
      simp [unanswered, hx] at h
  | _ => cases hact

/-- A step of an edge node keeps the requests that it has taken up. -/
theorem Linked.edges (hI : Linked f) {c c' : EdgeNode.GuestSys} {e : EdgeNode.GuestEvent}
    (hc : f.edges[j]? = some c) (hs : c.step D.X e = some c') :
    Linked { f with edges := f.edges.set j c' } := by
  intro i call hcall
  obtain ⟨req, client, c₀, p, hsent, hc₀, hp, hreq⟩ := hI i call hcall
  by_cases hj : j = call.edge
  · subst hj
    rw [hc] at hc₀
    cases hc₀
    obtain ⟨p', hp', hreq'⟩ := (EdgeNode.GuestSys.step_inv hs).task_next hp
    exact ⟨req, client, c', p', hsent, getElem?_set_self hc, hp', hreq'.trans hreq⟩
  · exact ⟨req, client, c₀, p, hsent, by rwa [List.getElem?_set_ne hj], hp, hreq⟩

/-- When the RPC of a process has ended, the calls of the others are as they were. -/
theorem Linked.settle (hI : Linked f) {s : ControlPlane.Sys} {env : ControlPlane.Env}
    (hs : f.control.step D.X (.run i env) = some s) :
    Linked { f with control := s, calls := f.calls.erase i } := by
  intro k call hcall
  have hki : k ≠ i := by
    rintro rfl
    rw [AList.lookup_erase] at hcall
    cases hcall
  rw [AList.lookup_erase_ne hki] at hcall
  obtain ⟨req, client, c, p, hsent, hrest⟩ := hI k call hcall
  have hact : (ControlPlane.Event.run i env).actor ≠ some k :=
    fun heq => hki (Option.some.inj heq).symm
  exact ⟨req, client, c, p, sent_frame hs hact hsent, hrest⟩

/-- A request that reaches an edge node becomes a new process there. -/
theorem starts_procs {c c' : EdgeNode.GuestSys} {e : EdgeNode.Event} {p : EdgeNode.Proc}
    (he : e.starts = some p) (h : c.step D.X (.node e) = some c') :
    c'.sys.procs = c.sys.procs ++ [p] := by
  cases e <;> cases he <;> cases h <;> rfl

theorem Linked.step (hI : Linked f) (h : Platform.Step D f ev g) : Linked g := by
  cases h with
  | control hun hs =>
      intro i call hcall
      obtain ⟨req, client, c, p, hsent, hrest⟩ := hI i call hcall
      exact ⟨req, client, c, p, sent_frame hs (actor_of_unanswered hun hsent) hsent, hrest⟩
  | edge _ hc hs => exact hI.edges hc hs
  | @deliver i j req client config c c' hsent _ _ hnone hc hs =>
      have hold := hI.edges hc hs
      intro k call hcall
      rw [HashMap.lookup_insert_if] at hcall
      split at hcall
      case isTrue hki =>
        cases hcall
        subst hki
        have hnew : c'.sys.procs[c.sys.procs.length]? = some (.task ⟨req, .acquire⟩) := by
          rw [starts_procs rfl hs, List.getElem?_append_right (Nat.le_refl _), Nat.sub_self]
          rfl
        exact ⟨req, client, c', _, hsent, getElem?_set_self hc, hnew, rfl⟩
      case isFalse => exact hold k call hcall
  | answer _ hs => exact hI.settle hs
  | lose _ hs => exact hI.settle hs
  | warm _ hc hs => exact hI.edges hc hs

theorem linked (h : Run (Platform.step D) (.init D url strategy) ms f) : Linked f := by
  refine h.always (I := Linked) (fun i call hcall => ?_) fun f ev g hI hs =>
    hI.step (Platform.step_inv hs)
  cases hcall

/-- Every request that an edge node has taken up was sent by a dispatch. -/
theorem served {c : EdgeNode.GuestSys} {p : EdgeNode.TaskRun}
    (h : Run (Platform.step D) (.init D url strategy) ms f) (hc : f.edges[j]? = some c)
    (hk : c.sys.procs[k]? = some (.task p)) :
    ∃ (i : Nat) (r : DispatchRun), f.control.procs[i]? = some (.dispatch r) ∧
      r.spec.request = p.req := by
  induction h generalizing j c k p with
  | nil =>
      obtain ⟨config, -, rfl⟩ := List.mem_map.mp (List.mem_of_getElem? hc)
      cases hk
  | @snoc ms f g ev _ hs ih =>
      have hnext : ∀ {e : ControlPlane.Event} {s : ControlPlane.Sys} {req : ExecuteTaskRequest},
          f.control.step D.X e = some s →
          (∃ (i : Nat) (r : DispatchRun), f.control.procs[i]? = some (.dispatch r) ∧
            r.spec.request = req) →
          ∃ (i : Nat) (r : DispatchRun), s.procs[i]? = some (.dispatch r) ∧
            r.spec.request = req := by
        rintro e s req hctl ⟨i, r, hr, hreq⟩
        obtain ⟨r', hr', hspec⟩ := (ControlPlane.Sys.step_inv hctl).dispatch_next hr
        exact ⟨i, r', hr', by rw [hspec, hreq]⟩
      cases Platform.step_inv hs with
      | control _ hctl => exact hnext hctl (ih hc hk)
      | answer _ hctl => exact hnext hctl (ih hc hk)
      | lose _ hctl => exact hnext hctl (ih hc hk)
      | edge hint hc₀ hstep =>
          obtain ⟨rfl, rfl⟩ | ⟨-, hold⟩ := getElem?_set_inv hc
          · obtain ⟨p₀, hp₀, hreq⟩ :=
              (EdgeNode.GuestSys.step_inv hstep).task_prev (starts_of_internal hint) hk
            obtain ⟨i, r, hr, hreq'⟩ := ih hc₀ hp₀
            exact ⟨i, r, hr, by rw [hreq, hreq']⟩
          · exact ih hold hk
      | @deliver i _ _ _ _ _ _ hsent _ _ _ hc₀ hstep =>
          obtain ⟨rfl, rfl⟩ | ⟨-, hold⟩ := getElem?_set_inv hc
          · rw [starts_procs rfl hstep] at hk
            obtain ⟨-, heq⟩ | ⟨-, hold⟩ := getElem?_snoc_inv hk
            · cases heq
              obtain ⟨r, node, hr, -, hreq⟩ := sent_inv.mp hsent
              exact ⟨i, r, hr, hreq⟩
            · exact ih hc₀ hold
          · exact ih hold hk
      | warm _ hc₀ hstep =>
          obtain ⟨rfl, rfl⟩ | ⟨-, hold⟩ := getElem?_set_inv hc
          · rw [starts_procs rfl hstep] at hk
            obtain ⟨-, heq⟩ | ⟨-, hold⟩ := getElem?_snoc_inv hk
            · cases heq
            · exact ih hc₀ hold
          · exact ih hold hk

/-- The request takes over the task. -/
structure Carries (spec : TaskSpec) (req : ExecuteTaskRequest) : Prop where
  taskId : req.taskId = spec.taskId
  functionName : req.functionName = spec.functionName
  input : req.input = spec.input
  timeoutMs : req.timeoutMs = spec.timeoutMs
  memoryLimitMb : req.memoryLimitMb = spec.memoryLimitMb
  traceId : req.traceId = spec.traceId
  wasmSource : req.wasmSource = some spec.wasmSource

theorem Carries.of_request (spec : TaskSpec) : Carries spec spec.request :=
  ⟨rfl, rfl, rfl, rfl, rfl, rfl, rfl⟩

/-- Every request that an edge node has taken up is for a task that a client has asked for. -/
theorem served_requested {c : EdgeNode.GuestSys} {p : EdgeNode.TaskRun}
    (h : Run (Platform.step D) (.init D url strategy) ms f) (hc : f.edges[j]? = some c)
    (hk : c.sys.procs[k]? = some (.task p)) :
    ∃ spec, Requested D.X (controlMoves ms) spec ∧ Carries spec p.req := by
  obtain ⟨i, r, hr, hreq⟩ := served h hc hk
  exact ⟨r.spec, requested (control_run h) hr, hreq ▸ .of_request r.spec⟩

end FerroEdge.Fleet
