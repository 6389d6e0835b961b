import FerroEdge.ControlPlane.HealthRounds
import FerroEdge.EdgeNode.ActiveTasks
import FerroEdge.Fleet.Platform

/-!
# The capacity of a node, on both sides

An edge node admits as many tasks as its semaphore has permits, `MAX_TASKS`, and reports the
number of its active tasks to the health check.  The control plane compares that number with
the `max_concurrent_tasks` of the registration.  But a node does not send its limit when it
registers, so the control plane uses 10 for every node, and the number that a node reports goes up
for good with every request that keeps its count.

The runs here are those of the platform in which the edge nodes register themselves, and in which
a probe that is answered is answered by a node at the probed address, with what it counts at that
moment; the verdict is written later (`Platform.honest`).

`capacity_respected` says that the two sides agree as long as the permits of each node and the
counts that its requests have kept are 10 at most.
-/

namespace FerroEdge.Fleet

open Machine ControlPlane

/-- The body that `register_with_control_plane` sends. -/
def registerWithControlPlane (config : EdgeConfig) : RegisterNodeRequest where
  nodeId := config.nodeId
  address := config.address
  httpAddress := some config.httpAddress
  maxConcurrentTasks := none

/-- A response to a probe comes from a node at the address. -/
def Platform.reports (D : Deployment) (f : Platform) (address : String) (resp : HealthResponse) :
    Bool :=
  (D.configs.zip f.edges).any fun (config, c) =>
    config.address == address && resp == c.sys.node.health

/-- A registration comes from an edge node, and an answer to a probe too. -/
def Platform.honest (D : Deployment) (f : Platform) : PlatformEvent → Bool
  | .control (.registerNode body) => D.configs.any fun config =>
      body = registerWithControlPlane config
  | .control (.run i env) =>
      match f.control.procs[i]? with
      | some (.round (.probe ((_, address) :: _) _)) => env.probe.all (f.reports D address)
      | _ => true
  | _ => true

/-- The number of requests of the edge node `j` that have kept their count. -/
def keptOn (D : Deployment) (j : Nat) (config : EdgeConfig)
    (ms : List (Move Platform PlatformEvent)) : Nat :=
  EdgeNode.kept D.X (edgeMoves j config ms)

/-! ## The control plane -/

/-- What a process is about to write into the entry of a node keeps it within the default
capacity. -/
def Capped (p : Proc) : Prop :=
  match p with
  | .register node => node.maxConcurrentTasks = 10 ∧ node.activeTasks ≤ 10
  | .round (.write _ _ (some resp) _ _) => resp.activeTasks.toNat ≤ 10
  | _ => True

structure CappedSys (s : ControlPlane.Sys) : Prop where
  nodes : ∀ id n, s.shared.app.nodes.lookup id = some n →
    n.maxConcurrentTasks = 10 ∧ n.activeTasks ≤ 10
  procs : ∀ p ∈ s.procs, Capped p

variable {X : Externals} {env : ControlPlane.Env} {s t : ControlPlane.Sys}
  {e : ControlPlane.Event}

/-- The answers to the probes of a step are within the default capacity. -/
def CappedProbes (s : ControlPlane.Sys) (e : ControlPlane.Event) : Prop :=
  ∀ i env nodeId address nodes count resp, e = .run i env →
    s.procs[i]? = some (.round (.probe ((nodeId, address) :: nodes) count)) →
    env.probe = some resp → resp.activeTasks.toNat ≤ 10

theorem step_capped {i : Nat} {p p' : Proc} {sh : Shared} {new : Option DispatchRun}
    (hprobe : CappedProbes s (.run i env)) (hi : s.procs[i]? = some p)
    (hstep : p.step X env s = some (sh, p', new)) : Capped p' := by
  cases Proc.step_inv hstep with
  | probe =>
      cases hres : env.probe with
      | none => trivial
      | some resp => exact hprobe _ _ _ _ _ _ _ rfl hi hres
  | _ => trivial

theorem CappedSys.step (hI : CappedSys s) (hstart : ∀ p, e.starts = some p → Capped p)
    (hprobe : CappedProbes s e) (hs : ControlPlane.Sys.Step X s e t) : CappedSys t := by
  constructor
  · intro id n hn
    obtain hsame | ⟨node, hnode, hins⟩ | ⟨_, _, outcome, _, _, hc, hmod⟩ := hs.nodes_cases
    · exact hI.nodes id n (hsame id ▸ hn)
    · rw [hins, HashMap.lookup_insert_if] at hn
      split at hn
      · cases hn
        obtain ⟨i, env, -, hi⟩ := Sys.registering_inv hnode
        exact hI.procs _ (List.mem_of_getElem? hi)
      · exact hI.nodes id n hn
    · rw [hmod, HashMap.lookup_modify] at hn
      split at hn
      · obtain ⟨n₀, hn₀, rfl⟩ := Option.map_eq_some_iff.mp hn
        obtain ⟨hmax, hactive⟩ := hI.nodes _ n₀ hn₀
        obtain ⟨i, env, -, hi⟩ := Sys.checking_inv hc
        have hcapped := hI.procs _ (List.mem_of_getElem? hi)
        cases outcome with
        | none => exact ⟨hmax, hactive⟩
        | some resp => exact ⟨hmax, hcapped⟩
      · exact hI.nodes id n hn
  · intro p' hp'
    obtain hold | (he | ⟨spec, rfl⟩) | ⟨i, env, p, sh, new, rfl, hi, hstep⟩ := hs.mem_procs hp'
    · exact hI.procs p' hold
    · exact hstart p' he
    · trivial
    · exact step_capped hprobe hi hstep

/-! ## The platform -/

variable {D : Deployment} {f g : Platform} {ev : PlatformEvent} {url strategy : String}
  {ms : List (Move Platform PlatformEvent)} {j : Nat} {config : EdgeConfig}
  {c : EdgeNode.GuestSys}

theorem keptOn_mono {ns : List (Move Platform PlatformEvent)} :
    keptOn D j config ms ≤ keptOn D j config (ms ++ ns) := by
  rw [keptOn, keptOn, edgeMoves, edgeMoves, Run.project, Run.project, List.filterMap_append,
    EdgeNode.kept, EdgeNode.kept, List.countP_append]
  exact Nat.le_add_right _ _

/-- The edge node `j` in a run of the platform. -/
theorem config_run (h : Run (Platform.step D) (.init D url strategy) ms f)
    (hconfig : D.configs[j]? = some config) (hc : f.edges[j]? = some c) :
    Run (EdgeNode.GuestSys.step D.X) config.guestSys (edgeMoves j config ms) c := by
  obtain ⟨config', hconfig', hrun⟩ := edge_run h hc
  rw [hconfig] at hconfig'
  cases hconfig'
  exact hrun

/-- What the nodes report is within the default capacity. -/
theorem reports_le {address : String} {resp : HealthResponse}
    (h : Run (Platform.step D) (.init D url strategy) ms f)
    (hmax : ∀ (j : Nat) config, D.configs[j]? = some config →
      config.maxConcurrentTasks + keptOn D j config ms ≤ 10)
    (hresp : f.reports D address resp = true) : resp.activeTasks.toNat ≤ 10 := by
  obtain ⟨⟨config, c⟩, hmem, hpair⟩ := List.any_eq_true.mp hresp
  obtain ⟨-, heq⟩ := Bool.and_eq_true_iff.mp hpair
  obtain ⟨j, hj⟩ := List.mem_iff_getElem?.mp hmem
  obtain ⟨hconfig, hc⟩ := List.getElem?_zip_eq_some.mp hj
  rw [eq_of_beq heq]
  exact (EdgeNode.health_le (config_run h hconfig hc)).trans (hmax j config hconfig)

/-- The registrations of an honest step have the default capacity. -/
theorem capped_starts {p : Proc} (hhonest : f.honest D ev = true)
    (he : f.controlEvent ev = some e) (hp : e.starts = some p) : Capped p := by
  cases e with
  | registerNode body =>
      cases hp
      cases ev with
      | control e =>
          cases he
          obtain ⟨config, -, hbody⟩ := List.any_eq_true.mp hhonest
          rw [of_decide_eq_true hbody]
          exact ⟨rfl, Nat.zero_le _⟩
      | answer i =>
          obtain ⟨rpc, -, hrun⟩ := Option.map_eq_some_iff.mp he
          cases hrun
      | _ => cases he
  | _ => cases hp <;> trivial

/-- The probes of an honest step are answered within the default capacity. -/
theorem capped_probes (h : Run (Platform.step D) (.init D url strategy) ms f)
    (hmax : ∀ (j : Nat) config, D.configs[j]? = some config →
      config.maxConcurrentTasks + keptOn D j config ms ≤ 10)
    (hhonest : f.honest D ev = true) (he : f.controlEvent ev = some e) :
    CappedProbes f.control e := by
  rintro i env nodeId address nodes count resp rfl hi hres
  cases ev with
  | control e =>
      cases he
      simp only [Platform.honest, hi, hres, Option.all_some] at hhonest
      exact reports_le h hmax hhonest
  | answer i =>
      obtain ⟨rpc, -, hrun⟩ := Option.map_eq_some_iff.mp he
      cases hrun
      cases hres
  | lose i status =>
      cases he
      cases hres
  | _ => cases he

theorem cappedSys (h : Run (Platform.step D) (.init D url strategy) ms f)
    (hhonest : ∀ m ∈ ms, m.pre.honest D m.ev = true)
    (hmax : ∀ (j : Nat) config, D.configs[j]? = some config →
      config.maxConcurrentTasks + keptOn D j config ms ≤ 10) : CappedSys f.control := by
  induction h with
  | nil => exact ⟨fun id n hn => (by cases hn), fun p hp => (by cases hp)⟩
  | @snoc ms f g ev hrun hs ih =>
      have hmax' : ∀ (j : Nat) config, D.configs[j]? = some config →
          config.maxConcurrentTasks + keptOn D j config ms ≤ 10 := fun j config hconfig =>
        (Nat.add_le_add_left keptOn_mono _).trans (hmax j config hconfig)
      have hI := ih (fun m hm => hhonest m (List.mem_append_left _ hm)) hmax'
      have hnow : f.honest D ev = true := hhonest ⟨f, ev, g⟩ (by simp)
      have hcontrol := (Platform.step_inv hs).controlEvent_step
      cases he : f.controlEvent ev with
      | none => rwa [hcontrol.2 he]
      | some e =>
          exact hI.step (fun p hp => capped_starts hnow he hp) (capped_probes hrun hmax' hnow he)
            (ControlPlane.Sys.step_inv (hcontrol.1 e he))

/-- In every run of the platform in which the edge nodes register themselves and answer the
probes, and in which the permits of each node and the counts that its requests have kept are at
most 10: no registered node has more active tasks than its capacity.  No more requests are in
flight on an edge node than it has permits, and no more guests run there than permits and kept
counts. -/
theorem capacity_respected (h : Run (Platform.step D) (.init D url strategy) ms f)
    (hhonest : ∀ m ∈ ms, m.pre.honest D m.ev = true)
    (hmax : ∀ (j : Nat) config, D.configs[j]? = some config →
      config.maxConcurrentTasks + keptOn D j config ms ≤ 10) :
    (∀ id n, f.control.shared.app.nodes.lookup id = some n →
      n.activeTasks ≤ n.maxConcurrentTasks) ∧
    ∀ (j : Nat) config c, D.configs[j]? = some config → f.edges[j]? = some c →
      c.sys.procs.countP EdgeNode.Proc.inFlight ≤ config.maxConcurrentTasks ∧
      c.running ≤ config.maxConcurrentTasks + keptOn D j config ms := by
  refine ⟨fun id n hn => ?_, fun j config c hconfig hc => ?_⟩
  · obtain ⟨hcapacity, hactive⟩ := (cappedSys h hhonest hmax).nodes id n hn
    omega
  · have hrun := config_run h hconfig hc
    exact ⟨EdgeNode.inFlight_le hrun, EdgeNode.running_le hrun⟩

/-- A task is submitted as the process `i` of the control plane, and the node takes it up as its
process `k` and starts its guest. -/
def taken (i k : Nat) : List PlatformEvent :=
  .control (.submitTask (toString k) "" .sample) :: (sending i).map .control ++
  [.deliver i 0, .edge 0 (.node (.run k {})), .edge 0 (.node (.run k {})), .edge 0 (.begin k)]

/-- The node registers and takes up this many tasks. -/
def loaded (config : EdgeConfig) (tasks : Nat) : List PlatformEvent :=
  [.control (.registerNode (registerWithControlPlane config)), .control (.run 0 {})] ++
  (List.range tasks).flatMap fun k => taken (k + 1) k

/-- The node is probed by the process `i`, and has this many active tasks. -/
def nodeProbed (i active : Nat) : List PlatformEvent :=
  [.control .checkAllNodes, .control (.run i {}),
    .control (.run i { probe := some ⟨"n", .ofNat active, true⟩ }), .control (.run i {})]

/-- On a node with two permits, a client goes away and the node takes up a third task. -/
def reloaded (config : EdgeConfig) : List PlatformEvent :=
  loaded config 2 ++ .edge 0 (.cancel 0) :: taken 3 2 ++ nodeProbed 4 3

theorem reloaded_capacity :
    ∃ f ms, Run (Platform.step (.sample (oneNode 2))) (.init (.sample (oneNode 2)) "" "") ms f ∧
      (f.control.shared.app.nodes.lookup "n").any (fun n => n.activeTasks == 3) = true ∧
      (∀ (j : Nat) config, (oneNode 2)[j]? = some config →
        keptOn (.sample (oneNode 2)) j config ms = 1) ∧
      ∀ id n, f.control.shared.app.nodes.lookup id = some n →
        n.activeTasks ≤ n.maxConcurrentTasks := by
  have htest : (exec (Platform.step (.sample (oneNode 2))) (.init (.sample (oneNode 2)) "" "")
      ((oneNode 2).flatMap reloaded)).any (fun f =>
        (f.control.shared.app.nodes.lookup "n").any fun n => n.activeTasks == 3) = true := by decide
  have hhonest : ∀ m ∈ moves (Platform.step (.sample (oneNode 2)))
      (.init (.sample (oneNode 2)) "" "") ((oneNode 2).flatMap reloaded),
      m.pre.honest (.sample (oneNode 2)) m.ev = true := by decide
  have hkept : ∀ (j : Nat) config, (oneNode 2)[j]? = some config →
      keptOn (.sample (oneNode 2)) j config (moves (Platform.step (.sample (oneNode 2)))
        (.init (.sample (oneNode 2)) "" "") ((oneNode 2).flatMap reloaded)) = 1 := by decide
  obtain ⟨f, h, hf⟩ := exec_any_run htest
  have hmax : ∀ (j : Nat) config, (oneNode 2)[j]? = some config → _ := fun j config hconfig =>
    show config.maxConcurrentTasks + keptOn (.sample (oneNode 2)) j config _ ≤ 10 by
      rw [hkept j config hconfig]
      obtain rfl := List.mem_singleton.mp (List.mem_of_getElem? hconfig)
      decide
  exact ⟨f, _, h, hf, hkept, (capacity_respected h hhonest hmax).1⟩

/-- A node with 11 permits has 11 active tasks, and the control plane knows of 10 places. -/
theorem loaded_overflows :
    ∃ f ms, Run (Platform.step (.sample (oneNode 11))) (.init (.sample (oneNode 11)) "" "") ms f ∧
      (∀ m ∈ ms, m.pre.honest (.sample (oneNode 11)) m.ev = true) ∧
      ∃ n, f.control.shared.app.nodes.lookup "n" = some n ∧
        n.activeTasks = 11 ∧ n.maxConcurrentTasks = 10 := by
  have htest : (exec (Platform.step (.sample (oneNode 11))) (.init (.sample (oneNode 11)) "" "")
      ((oneNode 11).flatMap fun config => loaded config 11 ++ nodeProbed 12 11)).any (fun f =>
        (f.control.shared.app.nodes.lookup "n").any fun n =>
          n.activeTasks == 11 && n.maxConcurrentTasks == 10) = true := by decide
  obtain ⟨f, h, hf⟩ := exec_any_run htest
  obtain ⟨n, hn, hn'⟩ := (Option.any_eq_true _ _).mp hf
  exact ⟨f, _, h, by decide +kernel, n, hn, by simpa using hn'⟩

end FerroEdge.Fleet
