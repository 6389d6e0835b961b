import FerroEdge.ControlPlane.RetryBudget
import FerroEdge.EdgeNode.Executions
import FerroEdge.Fleet.Calls
import Mathlib.Algebra.Order.BigOperators.Group.List
import Mathlib.Algebra.Order.Group.Nat

/-!
# How often the code of a task runs

A dispatch that loses its connection does not know whether the node has run the task, and offers
the task to another node.  So the code of a task may run more than once, also on two nodes at a
time.

`executions_bounded` says how often, over all nodes and over any run: three times, and once more
for each connection that was lost with `ResourceExhausted`, which the dispatch takes for a node
without room.  Code that no client has asked for does not run at all.

The argument charges every request that a node lets in to an answer of its dispatch.  A node that
lets a request in does not answer `ResourceExhausted`, so the answer ends the dispatch or counts
as one of its three failures.
-/

namespace FerroEdge.ControlPlane.DispatchRun

variable {X : Externals} {r r' : DispatchRun} {a : Answers}

/-- Whether a run is told of a failure. -/
def toldFailure (r : DispatchRun) (a : Answers) : Nat :=
  if (r.outcome a).any fun x => failed x.2 then 1 else 0

/-- A run that stays in its loops has counted, or is about to count, each failure it was told. -/
theorem Next.counts (h : Next X r a r') (hl : r'.pc.left = false) :
    r.pc.left = false ∧
    r'.errorRetries + r'.pc.charging = r.errorRetries + r.pc.charging + r.toldFailure a := by
  have hquiet : r.outcome a = none → r.toldFailure a = 0 := fun hout => by
    simp [toldFailure, hout]
  cases h with
  | advance hadv hout =>
      obtain ⟨hleft, hch, hch', -⟩ := hadv.frame
      refine ⟨hleft ▸ hl, ?_⟩
      rw [hquiet hout, hch, hch']
  | dispatch hpc =>
      obtain ⟨hleft, hch, -⟩ := loop_of_select hpc
      exact ⟨hleft, by rw [hquiet (by simp [outcome, hpc]), hch]; rfl⟩
  | retry hpc =>
      obtain ⟨hleft, hch, -⟩ := loop_of_select hpc
      exact ⟨hleft, by rw [hquiet (by simp [outcome, hpc]), hch]; rfl⟩
  | noNode hpc =>
      obtain ⟨hleft, hch, -⟩ := loop_of_select hpc
      exact ⟨hleft, by rw [hquiet (by simp [outcome, hpc]), hch]; rfl⟩
  | giveUp => cases hl
  | enqueue hpc =>
      refine ⟨by rw [hpc]; rfl, ?_⟩
      rw [hquiet (by simp [outcome, hpc]), hpc]
      rfl
  | success => cases hl
  | failure hout hf =>
      obtain ⟨hleft, hch, -⟩ := loop_of_outcome hout
      refine ⟨hleft, ?_⟩
      rw [hch]
      simp [toldFailure, hout, hf, onFailure, DispatchPc.charging]
  | capacityWait hout hat =>
      obtain ⟨hleft, hch, -⟩ := loop_of_outcome hout
      refine ⟨hleft, ?_⟩
      rw [hch]
      simp [toldFailure, hout, failed_of_atCapacity hat, DispatchPc.charging]
  | noCapacity => cases hl
  | backoff hpc =>
      obtain ⟨hleft, hch, -⟩ := loop_of_recordFailure hpc
      refine ⟨hleft, ?_⟩
      rw [hquiet (by simp [outcome, hpc]), hch]
      rfl
  | lastAttempt => cases hl
  | store => cases hl

/-- What a run is told of an RPC and stays in its loops. -/
theorem Next.told {node : NodeInfo} {result : Except Status ExecuteTaskResponse}
    (h : Next X r a r') (hout : r.outcome a = some (node, result)) (hl : r'.pc.left = false) :
    failed result = true ∨ atCapacity result = true := by
  have hpc := pc_of_outcome hout
  cases h with
  | advance _ hnone => simp [hnone] at hout
  | dispatch hsel => simp [hsel] at hpc
  | retry hsel => simp [hsel] at hpc
  | noNode hsel => simp [hsel] at hpc
  | giveUp => cases hl
  | enqueue henq => simp [henq] at hpc
  | success => cases hl
  | failure hout' hf =>
      rw [hout] at hout'
      cases hout'
      exact Or.inl hf
  | capacityWait hout' hat =>
      rw [hout] at hout'
      cases hout'
      exact Or.inr hat
  | noCapacity => cases hl
  | backoff hrec => simp [hrec] at hpc
  | lastAttempt => cases hl
  | store => cases hl

end FerroEdge.ControlPlane.DispatchRun

namespace FerroEdge.Fleet

open Machine ControlPlane

/-- The guests that run or have run for the task, on any node. -/
def Platform.executions (id : String) (f : Platform) : Nat :=
  (f.edges.map (EdgeNode.GuestSys.executions id)).sum

/-- The requests for the task that were not turned away, on any node. -/
def Platform.admitted (id : String) (f : Platform) : Nat :=
  (f.edges.map (EdgeNode.GuestSys.admitted id)).sum

/-- Whether the call that serves the RPC of a process is for the task and was not turned away. -/
def Platform.serving (id : String) (i : Nat) (f : Platform) : Nat :=
  match f.calls.lookup i with
  | none => 0
  | some call =>
      if (f.edges[call.edge]?.bind fun c => c.sys.procs[call.proc]?).any
          (EdgeNode.Proc.admits id) then 1
      else 0

/-- The connection of an RPC for the task is lost with `ResourceExhausted`. -/
def lostAsExhausted (id : String) (m : Move Platform PlatformEvent) : Bool :=
  match m.ev with
  | .lose i status =>
      status.code = .resourceExhausted &&
        m.pre.control.procs[i]?.any fun p => p.taskId? = some id
  | _ => false

/-- The connections of RPCs for the task that were lost with `ResourceExhausted`. -/
def lost (id : String) (ms : List (Move Platform PlatformEvent)) : Nat :=
  ms.countP (lostAsExhausted id)

variable {D : Deployment} {f g : Platform} {ev : PlatformEvent} {url strategy : String}
  {ms ns : List (Move Platform PlatformEvent)} {i j k : Nat} {id : String}

/-- What the requests that were let in for a task are charged to. -/
structure Charged (id : String) (ms : List (Move Platform PlatformEvent)) (f : Platform) :
    Prop where
  bound : f.admitted id ≤ 3 + lost id ms
  owner : 0 < f.admitted id →
    ∃ (i : Nat) (r : DispatchRun), f.control.procs[i]? = some (.dispatch r) ∧ r.spec.taskId = id
  failures : ∀ (i : Nat) (r : DispatchRun), f.control.procs[i]? = some (.dispatch r) →
    r.spec.taskId = id → r.pc.left = false →
    f.admitted id ≤ r.errorRetries + r.pc.charging + f.serving id i + lost id ms

theorem serving_le (id : String) (i : Nat) (f : Platform) : f.serving id i ≤ 1 := by
  unfold Platform.serving
  split
  · exact Nat.zero_le 1
  · split <;> omega

theorem serving_of_none (h : f.calls.lookup i = none) : f.serving id i = 0 := by
  rw [Platform.serving, h]

/-! ## Steps of the control plane -/

/-- In a step of the control plane, the dispatch that takes it counts what was served for it. -/
theorem Charged.control {e : ControlPlane.Event} (hI : Charged id ms f)
    (hdistinct : Conserved g.control) (hs : f.control.step D.X e = some g.control)
    (hedges : g.edges = f.edges) (hlost : lost id ms ≤ lost id ns)
    (hother : ∀ k, e.actor ≠ some k → g.serving id k = f.serving id k)
    (hself : ∀ i env r r', e = .run i env → f.control.procs[i]? = some (.dispatch r) →
      r.spec.taskId = id → r.stepIn D.X ⟨f.control.now, env, f.control.shared⟩ = some r' →
      r'.pc.left = false →
      f.serving id i + lost id ms ≤ r.toldFailure
        (r.answers D.X ⟨f.control.now, env, f.control.shared⟩) + g.serving id i + lost id ns) :
    Charged id ns g := by
  have hadmitted : g.admitted id = f.admitted id := by
    rw [Platform.admitted, Platform.admitted, hedges]
  have hinv := ControlPlane.Sys.step_inv hs
  refine ⟨by have := hI.bound; omega, fun hpos => ?_, fun i r' hr' hid hl => ?_⟩
  · obtain ⟨i, r, hr, hid⟩ := hI.owner (hadmitted ▸ hpos)
    obtain ⟨r', hr', hspec⟩ := hinv.dispatch_next hr
    exact ⟨i, r', hr', by rw [hspec, hid]⟩
  rw [hadmitted]
  by_cases hact : ∃ env r, e = .run i env ∧ f.control.procs[i]? = some (.dispatch r)
  · obtain ⟨env, r, rfl, hr⟩ := hact
    obtain ⟨r₁, hrun, hr₁⟩ := hinv.run_inv hr
    rw [hr'] at hr₁
    cases hr₁
    have hstep : r.stepIn D.X ⟨f.control.now, env, f.control.shared⟩ = some r' := by
      rw [DispatchRun.stepIn, hrun]
      rfl
    have hid' : r.spec.taskId = id := by rw [← DispatchRun.step_spec hrun, hid]
    obtain ⟨hleft, hcount⟩ := (DispatchRun.next_inv (DispatchRun.stepIn_next hstep)).counts hl
    have hbound := hI.failures i r hr hid' hleft
    have hcharge := hself i env r r' rfl hr hid' hstep hl
    omega
  · obtain hold | ⟨spec, rfl, hnot⟩ | ⟨env, r, he, hr, -⟩ := hinv.dispatch_inv hr'
    · have hne : e.actor ≠ some i := by
        intro hact'
        cases e with
        | run k env =>
            cases hact'
            exact hact ⟨env, r', rfl, hold⟩
        | _ => cases hact'
      have hbound := hI.failures i r' hold hid hl
      rw [hother i hne]
      omega
    · -- A dispatch that has just started has the task id for itself.
      have hzero : f.admitted id = 0 := by
        by_contra hpos
        obtain ⟨k, r, hr, hid'⟩ := hI.owner (Nat.pos_of_ne_zero hpos)
        obtain ⟨r', hr₁, hspec⟩ := hinv.dispatch_next hr
        have hki : k = i := hdistinct.distinct k i _ _ id hr₁ hr'
          (by rw [Proc.taskId?, hspec, hid']) (by rw [Proc.taskId?, hid])
        subst hki
        exact hnot r hr
      omega
    · exact absurd ⟨env, r, he, hr⟩ hact

/-! ## Steps of the edge nodes -/

theorem admitted_set (id : String) {c c' : EdgeNode.GuestSys} (hc : f.edges[j]? = some c)
    (hg : g.edges = f.edges.set j c') :
    g.admitted id + c.admitted id = f.admitted id + c'.admitted id := by
  rw [Platform.admitted, Platform.admitted, hg]
  exact sum_map_set_add _ hc

/-- A call on the node that takes a step, and a call on another node. -/
theorem serving_set (id : String) {call : Call} {c c' : EdgeNode.GuestSys}
    (hc : f.edges[j]? = some c) (hg : g.edges = f.edges.set j c')
    (hcall : f.calls.lookup i = some call) (hcall' : g.calls.lookup i = some call) :
    g.serving id i = f.serving id i ∨ call.edge = j ∧
    (f.serving id i = if c.sys.procs[call.proc]?.any (EdgeNode.Proc.admits id) then 1 else 0) ∧
    (g.serving id i = if c'.sys.procs[call.proc]?.any (EdgeNode.Proc.admits id) then 1 else 0) := by
  rw [Platform.serving, Platform.serving, hcall, hcall', hg]
  by_cases hj : call.edge = j
  · refine Or.inr ⟨hj, ?_, ?_⟩
    · simp [hj, hc]
    · simp [hj, getElem?_set_self hc]
  · exact Or.inl (by simp only [List.getElem?_set_ne (Ne.symm hj)])

/-- What is charged stays so when a node turns requests away, and lets none in. -/
theorem Charged.edges (hI : Charged id ms f) (hcontrol : g.control = f.control)
    (hlost : lost id ns = lost id ms) (hle : g.admitted id ≤ f.admitted id)
    (hserving : ∀ i, g.admitted id + f.serving id i ≤ f.admitted id + g.serving id i) :
    Charged id ns g := by
  obtain ⟨hbound, howner, hfailures⟩ := hI
  refine ⟨by omega, fun hpos => ?_, fun i r hr hid hl => ?_⟩
  · rw [hcontrol]
    exact howner (by omega)
  · rw [hcontrol] at hr
    have hi := hfailures i r hr hid hl
    have hs := hserving i
    omega

/-- A node replaces a process, or none, and lets no request in. -/
theorem serving_replace {c c' : EdgeNode.GuestSys} (hc : f.edges[j]? = some c)
    (hg : g.edges = f.edges.set j c') (hcalls : g.calls = f.calls)
    (hprocs : c'.sys.procs = c.sys.procs ∨ ∃ k p p', c.sys.procs[k]? = some p ∧
      c'.sys.procs = c.sys.procs.set k p' ∧ ∀ id, p'.admits id = true → p.admits id = true) :
    g.admitted id ≤ f.admitted id ∧
    ∀ i, g.admitted id + f.serving id i ≤ f.admitted id + g.serving id i := by
  have hsum := admitted_set id hc hg
  have hserved : ∀ i, (f.serving id i = g.serving id i) ∨ ∃ call, f.calls.lookup i = some call ∧
      (f.serving id i = if c.sys.procs[call.proc]?.any (EdgeNode.Proc.admits id) then 1 else 0) ∧
      (g.serving id i =
        if c'.sys.procs[call.proc]?.any (EdgeNode.Proc.admits id) then 1 else 0) := by
    intro i
    cases hcall : f.calls.lookup i with
    | none => exact Or.inl (by rw [serving_of_none hcall, serving_of_none (by rw [hcalls, hcall])])
    | some call =>
        obtain hsame | ⟨-, hboth⟩ := serving_set id hc hg hcall (by rw [hcalls, hcall])
        · exact Or.inl hsame.symm
        · exact Or.inr ⟨call, rfl, hboth⟩
  obtain heq | ⟨k, p, p', hp, hset, hadmits⟩ := hprocs
  · have hsame : c'.admitted id = c.admitted id := by
      rw [EdgeNode.GuestSys.admitted, EdgeNode.GuestSys.admitted, heq]
    refine ⟨by omega, fun i => ?_⟩
    obtain hsame' | ⟨call, -, hf, hg'⟩ := hserved i
    · omega
    · rw [heq, ← hf] at hg'
      omega
  · have hcount := countP_set_add (b := p') (EdgeNode.Proc.admits id) hp
    rw [← hset] at hcount
    change c'.admitted id + _ = c.admitted id + _ at hcount
    have hle : (if p'.admits id then 1 else 0) ≤ if p.admits id then 1 else 0 := by
      split
      · rw [if_pos (hadmits id ‹_›)]
      · exact Nat.zero_le _
    refine ⟨by omega, fun i => ?_⟩
    obtain hsame' | ⟨call, -, hf, hg'⟩ := hserved i
    · omega
    · by_cases hk : call.proc = k
      · rw [hk, hp, Option.any_some] at hf
        rw [hk, hset, getElem?_set_self hp, Option.any_some] at hg'
        omega
      · rw [hset, List.getElem?_set_ne (Ne.symm hk), ← hf] at hg'
        omega

/-- A node gets a new process. -/
theorem serving_snoc (id : String) {c c' : EdgeNode.GuestSys} {p : EdgeNode.Proc}
    (hI : Linked f) (hc : f.edges[j]? = some c) (hg : g.edges = f.edges.set j c')
    (hprocs : c'.sys.procs = c.sys.procs ++ [p]) :
    (g.admitted id = f.admitted id + if p.admits id then 1 else 0) ∧
    ∀ i, g.calls.lookup i = f.calls.lookup i → g.serving id i = f.serving id i := by
  have hsum := admitted_set id hc hg
  have hcount : c'.admitted id = c.admitted id + if p.admits id then 1 else 0 := by
    rw [EdgeNode.GuestSys.admitted, EdgeNode.GuestSys.admitted, hprocs, List.countP_append,
      List.countP_singleton]
  refine ⟨by omega, fun i hsame => ?_⟩
  cases hcall : f.calls.lookup i with
  | none => rw [serving_of_none hcall, serving_of_none (by rw [hsame, hcall])]
  | some call =>
      obtain heq | ⟨hj, hf, hg'⟩ := serving_set id hc hg hcall (by rw [hsame, hcall])
      · exact heq
      · obtain ⟨_, _, c₀, q, -, hc₀, hq, -⟩ := hI i call hcall
        rw [hj, hc] at hc₀
        cases hc₀
        have hlt := (List.getElem?_eq_some_iff.mp hq).1
        rw [hg', hf, hprocs, List.getElem?_append_left hlt]

/-! ## Runs -/

theorem lost_snoc (id : String) (ms : List (Move Platform PlatformEvent))
    (m : Move Platform PlatformEvent) :
    lost id (ms ++ [m]) = lost id ms + if lostAsExhausted id m then 1 else 0 := by
  rw [lost, lost, List.countP_append, List.countP_singleton]

/-- The counters of a dispatch of the platform are within their limits. -/
theorem dispatch_inBudget {r : DispatchRun}
    (h : Run (Platform.step D) (.init D url strategy) ms f)
    (hr : f.control.procs[i]? = some (.dispatch r)) : DispatchRun.InBudget r := by
  obtain ⟨spec, hrun⟩ := (dispatch_run rfl (control_run h) i).1 r hr
  exact DispatchRun.inBudget (DispatchRun.told_run hrun)

/-- An answer that keeps a dispatch in its loops is a failure, unless the call was turned away. -/
theorem serving_le_failure (id : String) {env : ControlPlane.Env} {r r' : DispatchRun}
    (h : Run (Platform.step D) (.init D url strategy) ms f) (hreply : f.reply? i = some env.rpc)
    (hr : f.control.procs[i]? = some (.dispatch r))
    (hstep : r.stepIn D.X ⟨f.control.now, env, f.control.shared⟩ = some r')
    (hl : r'.pc.left = false) :
    f.serving id i ≤
      r.toldFailure (r.answers D.X ⟨f.control.now, env, f.control.shared⟩) := by
  obtain ⟨call, c, hcall, hc, hrep⟩ := Platform.reply_inv hreply
  obtain ⟨req, client, c', p, hsent, hc', hp, -⟩ := linked h i call hcall
  rw [hc] at hc'
  cases hc'
  obtain ⟨r₁, node, hr₁, hpc, -⟩ := sent_inv.mp hsent
  rw [hr] at hr₁
  cases hr₁
  obtain ⟨p', hp', hpcr⟩ := EdgeNode.GuestSys.reply_inv hrep
  rw [hp] at hp'
  cases hp'
  have hserving : f.serving id i = if (EdgeNode.Proc.task p).admits id then 1 else 0 := by
    simp [Platform.serving, hcall, hc, hp]
  have hout : r.outcome (r.answers D.X ⟨f.control.now, env, f.control.shared⟩) =
      some (node, env.rpc) := by
    simp [DispatchRun.outcome, hpc, DispatchRun.answers]
  unfold EdgeNode.TaskPc.reply? at hpcr
  split at hpcr
  case h_1 hrefused => simp [hserving, EdgeNode.Proc.admits, hrefused, EdgeNode.TaskPc.turnedAway]
  case h_3 => cases hpcr
  case h_2 result hreturned =>
    -- The node has let the request in, so its answer does not say that it is at capacity.
    rw [Option.some.injEq] at hpcr
    subst hpcr
    obtain ⟨config, -, hedge⟩ := edge_run h hc
    have hnot := EdgeNode.not_exhausts hedge hp
    rw [hreturned] at hnot
    have hfailed : DispatchRun.failed env.rpc = true := by
      obtain hf | hat := (DispatchRun.next_inv (DispatchRun.stepIn_next hstep)).told hout hl
      · exact hf
      · cases hrpc : env.rpc with
        | ok resp => simp [hrpc, DispatchRun.atCapacity] at hat
        | error status =>
            rw [hrpc] at hat hnot
            simp only [DispatchRun.atCapacity] at hat
            simp only [EdgeNode.TaskPc.exhausts, hat] at hnot
            cases hnot
    have htold : r.toldFailure (r.answers D.X ⟨f.control.now, env, f.control.shared⟩) = 1 := by
      simp [DispatchRun.toldFailure, hout, hfailed]
    rw [htold]
    exact serving_le id i f

/-- The RPC of a process ends, and those of the others are served as before. -/
theorem serving_erase {env : ControlPlane.Env} {s : ControlPlane.Sys}
    (hk : (ControlPlane.Event.run i env).actor ≠ some k) :
    ({ f with control := s, calls := f.calls.erase i } : Platform).serving id k =
      f.serving id k := by
  have hki : k ≠ i := by
    rintro rfl
    exact hk rfl
  simp only [Platform.serving, AList.lookup_erase_ne hki]

/-- A node takes up the request of a dispatch that is in its loops. -/
theorem Charged.deliver {r : DispatchRun} {node : NodeInfo} {client : Channel}
    {c c' : EdgeNode.GuestSys} (hI : Charged id ms f) (hlinked : Linked f)
    (hconserved : Conserved f.control) (hbudget : DispatchRun.InBudget r)
    (hr : f.control.procs[i]? = some (.dispatch r)) (hpc : r.pc = .inFlight node client)
    (hnone : f.calls.lookup i = none) (hc : f.edges[j]? = some c)
    (hprocs : c'.sys.procs = c.sys.procs ++ [.task ⟨r.spec.request, .acquire⟩])
    (hlost : lost id ns = lost id ms) :
    Charged id ns { f with
      edges := f.edges.set j c', calls := f.calls.insert i ⟨j, c.sys.procs.length⟩ } := by
  obtain ⟨hadmitted, hserving⟩ := serving_snoc id (g := { f with
    edges := f.edges.set j c', calls := f.calls.insert i ⟨j, c.sys.procs.length⟩ })
    hlinked hc rfl hprocs
  have hadmits : (EdgeNode.Proc.task ⟨r.spec.request, .acquire⟩).admits id = true ↔
      r.spec.taskId = id :=
    EdgeNode.Proc.admits_task.trans (and_iff_left rfl)
  by_cases hid : r.spec.taskId = id
  · rw [if_pos (hadmits.mpr hid)] at hadmitted
    have hself := hI.failures i r hr hid (by rw [hpc]; rfl)
    rw [serving_of_none hnone, hpc] at hself
    obtain ⟨-, -, herr⟩ := hbudget.loop (by rw [hpc]; rfl)
    have hone : ({ f with
        edges := f.edges.set j c', calls := f.calls.insert i ⟨j, c.sys.procs.length⟩ } :
        Platform).serving id i = 1 := by
      have hlast : c'.sys.procs[c.sys.procs.length]? =
          some (.task ⟨r.spec.request, .acquire⟩) := by
        rw [hprocs, List.getElem?_append_right (Nat.le_refl _), Nat.sub_self]
        rfl
      simp [Platform.serving, AList.lookup_insert, getElem?_set_self hc, hlast, hadmits.mpr hid]
    simp only [DispatchPc.charging] at hself
    refine ⟨by omega, fun _ => ⟨i, r, hr, hid⟩, fun k r' hr' hid' hl => ?_⟩
    have hki : k = i := hconserved.distinct k i _ _ id hr' hr (by rw [Proc.taskId?, hid'])
      (by rw [Proc.taskId?, hid])
    subst hki
    rw [hr] at hr'
    cases hr'
    rw [hadmitted, hone, hpc]
    simp only [DispatchPc.charging]
    omega
  · rw [if_neg (mt hadmits.mp hid), Nat.add_zero] at hadmitted
    obtain ⟨hbound, howner, hfailures⟩ := hI
    refine ⟨by omega, fun hpos => howner (by omega), fun k r' hr' hid' hl => ?_⟩
    have hki : k ≠ i := by
      rintro rfl
      rw [hr] at hr'
      cases hr'
      exact hid hid'
    rw [hadmitted, hserving k (AList.lookup_insert_ne hki), hlost]
    exact hfailures k r' hr' hid' hl

theorem Charged.step (h : Run (Platform.step D) (.init D url strategy) ms f)
    (hI : Charged id ms f) (hs : f.step D ev = some g) : Charged id (ms ++ [⟨f, ev, g⟩]) g := by
  have hlinked := linked h
  have hconserved := Conserved.of_run (control_run (h.snoc hs))
  have hlost := lost_snoc id ms ⟨f, ev, g⟩
  cases Platform.step_inv hs with
  | @control e s hun hctl =>
      refine hI.control hconserved hctl rfl (by omega) (fun k _ => rfl) ?_
      -- The dispatch waits for no answer, so nothing serves it.
      intro i env r r' he hr _ _ _
      subst he
      have hnone : f.calls.lookup i = none := by
        by_contra hsome
        obtain ⟨call, hcall⟩ := Option.ne_none_iff_exists'.mp hsome
        obtain ⟨req, client, -, -, hsent, -⟩ := hlinked i call hcall
        exact actor_of_unanswered hun hsent rfl
      rw [serving_of_none hnone]
      omega
  | @edge j e c c' hint hc hstep =>
      have hprocs := (EdgeNode.GuestSys.step_inv hstep).admits_inv (starts_of_internal hint)
      obtain ⟨hle, hserving⟩ :=
        serving_replace (g := { f with edges := f.edges.set j c' }) hc rfl rfl hprocs
      exact hI.edges rfl hlost hle hserving
  | @deliver i j req client config c c' hsent _ _ hnone hc hstep =>
      obtain ⟨r, node, hr, hpc, rfl⟩ := sent_inv.mp hsent
      exact hI.deliver hlinked (Conserved.of_run (control_run h)) (dispatch_inBudget h hr) hr hpc
        hnone hc (starts_procs rfl hstep) hlost
  | @answer i rpc s hreply hctl =>
      refine hI.control hconserved hctl rfl (by omega) (fun k hk => serving_erase hk) ?_
      intro k env r r' he hr _ hstep hl
      cases he
      have hle := serving_le_failure id h hreply hr hstep hl
      omega
  | @lose i status s hsent hctl =>
      refine hI.control hconserved hctl rfl (by omega) (fun k hk => serving_erase hk) ?_
      intro k env r r' he hr hid hstep hl
      cases he
      have hle := serving_le id i f
      obtain ⟨⟨req, client⟩, hx⟩ := Option.isSome_iff_exists.mp hsent
      obtain ⟨r₁, node, hr₁, hpc, -⟩ := sent_inv.mp hx
      rw [hr] at hr₁
      cases hr₁
      by_cases hcode : status.code = .resourceExhausted
      · have hcounted : lostAsExhausted id ⟨f, .lose i status, { f with
            control := s, calls := f.calls.erase i }⟩ = true := by
          simp [lostAsExhausted, hcode, hr, Proc.taskId?, hid]
        rw [if_pos hcounted] at hlost
        omega
      · have htold : r.toldFailure (r.answers D.X
            ⟨f.control.now, { rpc := .error status }, f.control.shared⟩) = 1 := by
          simp [DispatchRun.toldFailure, DispatchRun.outcome, hpc, DispatchRun.answers,
            DispatchRun.failed, hcode]
        omega
  | @warm w j task c c' htask hc hstep =>
      obtain ⟨hadmitted, hserving⟩ := serving_snoc id
        (g := { f with edges := f.edges.set j c' }) hlinked hc rfl (starts_procs rfl hstep)
      rw [EdgeNode.Proc.admits, if_neg Bool.false_ne_true, Nat.add_zero] at hadmitted
      refine hI.edges rfl hlost (Nat.le_of_eq hadmitted) fun i => ?_
      rw [hadmitted, hserving i rfl]

theorem charged (h : Run (Platform.step D) (.init D url strategy) ms f) (id : String) :
    Charged id ms f := by
  induction h with
  | nil =>
      have hzero : (Platform.init D url strategy).admitted id = 0 := by
        simp [Platform.admitted, Platform.init, List.map_map, Function.comp_def,
          EdgeConfig.guestSys, EdgeNode.GuestSys.admitted, EdgeNode.GuestSys.init,
          EdgeNode.Sys.init]
      exact ⟨by omega, fun hpos => by omega, fun i r hr => by cases hr⟩
  | snoc hrun hs ih => exact ih.step hrun hs

/-- The code of a task runs no more often than requests for it were let in. -/
theorem executions_le (h : Run (Platform.step D) (.init D url strategy) ms f) (id : String) :
    f.executions id ≤ f.admitted id := by
  refine List.sum_le_sum fun c hc => ?_
  obtain ⟨j, hj⟩ := List.mem_iff_getElem?.mp hc
  obtain ⟨config, -, hedge⟩ := edge_run h hj
  exact (EdgeNode.spawnInv hedge).executions_le id

/-- In every run of the platform, the code of a task runs at most three times on all the nodes
together, and once more for each connection of one of its RPCs that was lost with
`ResourceExhausted`.  Whatever runs belongs to a request that carries a task which a client has
asked for. -/
theorem executions_bounded (h : Run (Platform.step D) (.init D url strategy) ms f)
    (id : String) :
    f.executions id ≤ 3 + lost id ms ∧
    ∀ (j : Nat) (c : EdgeNode.GuestSys) (k : Nat) (guest : EdgeNode.Guest) (p : EdgeNode.Proc),
      f.edges[j]? = some c → c.guests[k]? = some guest → guest.started = true →
      c.sys.procs[k]? = some p →
      ∃ r spec, p = .task r ∧ Requested D.X (controlMoves ms) spec ∧ Carries spec r.req := by
  refine ⟨(executions_le h id).trans (charged h id).bound, ?_⟩
  intro j c k guest p hc hguest hstarted hp
  obtain ⟨config, -, hedge⟩ := edge_run h hc
  obtain ⟨r, rfl⟩ := (EdgeNode.spawnInv hedge).task_of_started hguest hp hstarted
  obtain ⟨spec, hspec, hcarries⟩ := served_requested h hc hp
  exact ⟨r, spec, rfl, hspec, hcarries⟩

/-- Two nodes with a permit each. -/
def twoNodes : List EdgeConfig :=
  [⟨"n", "http://n:50051", "", 1, 1, 1⟩, ⟨"m", "http://m:50051", "", 1, 1, 1⟩]

/-- A node takes up the RPC of a process and starts its guest. -/
def starting (i j : Nat) : List PlatformEvent :=
  [.deliver i j, .edge j (.node (.run 0 {})), .edge j (.node (.run 0 {})), .edge j (.begin 0)]

/-- The connection to the first node is lost while its guest runs, and the second is asked. -/
def lostAndRetried : List PlatformEvent :=
  [.control (.registerNode (.sample "n" "http://n:50051")), .control (.run 0 {}),
   .control (.registerNode (.sample "m" "http://m:50051")), .control (.run 1 {}),
   .control (.submitTask "a" "" .sample)] ++ (sending 2).map .control ++ starting 2 1 ++
  [.lose 2 ⟨.unavailable, ""⟩, .control (.run 2 {}), .control (.tick backoff)] ++
  (sending 2).map .control ++ starting 2 0

theorem lostAndRetried_bounded :
    ∃ f ms, Run (Platform.step (.sample twoNodes)) (.init (.sample twoNodes) "" "") ms f ∧
      f.executions "a" = 2 ∧ f.executions "a" ≤ 3 + lost "a" ms := by
  have htest : (exec (Platform.step (.sample twoNodes)) (.init (.sample twoNodes) "" "")
      lostAndRetried).any (fun f => f.executions "a" = 2) = true := by decide
  obtain ⟨f, h, hf⟩ := exec_any_run htest
  exact ⟨f, _, h, of_decide_eq_true hf, (executions_bounded h "a").1⟩

end FerroEdge.Fleet
