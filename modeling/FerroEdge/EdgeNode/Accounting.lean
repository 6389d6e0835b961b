import FerroEdge.EdgeNode.System
import Mathlib.Algebra.Group.Prod
import Mathlib.Algebra.BigOperators.Group.List.Basic
import Mathlib.Algebra.Ring.Int.Defs

/-!
# Edge task accounting

`execute_task` counts itself in `active_tasks` when it has its permit, and takes the count
back when it ends, adding one to `total_executed` or to `total_failed`.  The two `?` operators
on its way, after the download and after the compilation, return without doing so.

`accounted_iff_unleaked` says that these are the only places where the books go wrong: after a
run they are right exactly if none of its steps was such a return.  Each one adds one to
`active_tasks` for good (`active_eq`).
-/

namespace FerroEdge.EdgeNode

open Machine WasmRuntime

/-- The request has been counted as active and has not returned. -/
def TaskPc.inFlight : TaskPc → Bool
  | .acquire | .increment | .refused _ | .returned _ => false
  | _ => true

def Proc.inFlight : Proc → Bool
  | .task r => r.pc.inFlight
  | .warm _ => false

def Node.totals (node : Node) : Int × Int := (node.state.totalExecuted, node.state.totalFailed)

/-- What a request should have added to `total_executed` and to `total_failed`. -/
def TaskPc.charge : TaskPc → Int × Int
  | .returned (.ok resp) => if resp.success then (1, 0) else (0, 1)
  | .returned (.error _) => (0, 1)
  | _ => 0

/-- The next step of the request returns through a `?`. -/
def TaskRun.leaks (X : Externals) (env : Env) (r : TaskRun) : Bool :=
  match r.pc with
  | .download ref => !(env.download ref.name ref.version).isOk
  | .getOrCompile _ wasm .compile => !(X.compile wasm).isOk
  | _ => false

def Sys.leaks (X : Externals) (s : Sys) : Event → Bool
  | .run i env =>
      match s.procs[i]? with
      | some (.task r) => r.leaks X env
      | _ => false
  | _ => false

variable {X : Externals} {now : Nat} {env : Env} {node node' : Node} {r r' : TaskRun}
  {s t : Sys} {e : Event}

/-! ## The books of a request -/

/-- What a step of a request does to the counters. -/
structure TaskRun.Books (X : Externals) (env : Env) (node : Node) (r : TaskRun) (node' : Node)
    (r' : TaskRun) : Prop where
  active : (if r.pc.inFlight then 1 else 0) ≤ node.state.activeTasks →
    node'.state.activeTasks + (if r.pc.inFlight then 1 else 0) =
      node.state.activeTasks + (if r'.pc.inFlight then 1 else 0) +
        (if r.leaks X env then 1 else 0)
  gauge : node'.activeTasksGauge + (if r.pc.inFlight then 1 else 0 : Nat) =
    node.activeTasksGauge + (if r'.pc.inFlight then 1 else 0 : Nat) +
      (if r.leaks X env then 1 else 0 : Nat)
  totals : r.leaks X env = false → node'.totals + r.pc.charge = node.totals + r'.pc.charge

namespace TaskRun.Books

variable {pc : TaskPc}

/-- A step that stays in flight, or stays out of it. -/
theorem stay (hpc : r.pc = pc) (hl : r.leaks X env = false) (hf : r'.pc.inFlight = pc.inFlight)
    (hc : pc.charge = 0) (hc' : r'.pc.charge = 0) (hs : node'.state = node.state)
    (hg : node'.activeTasksGauge = node.activeTasksGauge) : Books X env node r node' r' where
  active _ := by simp [hpc, hl, hf, hs]
  gauge := by simp [hpc, hl, hf, hg]
  totals _ := by simp [Node.totals, hpc, hs, hc, hc']

/-- The step that counts the request as active. -/
theorem enter (hpc : r.pc = pc) (hl : r.leaks X env = false) (hf : pc.inFlight = false)
    (hf' : r'.pc.inFlight = true) (hc : pc.charge = 0) (hc' : r'.pc.charge = 0)
    (ha : node'.state.activeTasks = node.state.activeTasks + 1)
    (hg : node'.activeTasksGauge = node.activeTasksGauge + 1) (ht : node'.totals = node.totals) :
    Books X env node r node' r' where
  active _ := by simp [hpc, hl, hf, hf', ha]
  gauge := by simp [hpc, hl, hf, hf', hg]
  totals _ := by rw [hpc, ht, hc, hc']

/-- A return that is counted. -/
theorem leave (hpc : r.pc = pc) (hl : r.leaks X env = false) (hf : pc.inFlight = true)
    (hf' : r'.pc.inFlight = false) (hc : pc.charge = 0)
    (ha : node'.state.activeTasks = node.state.activeTasks - 1)
    (hg : node'.activeTasksGauge = node.activeTasksGauge - 1)
    (ht : node'.totals = node.totals + r'.pc.charge) : Books X env node r node' r' where
  active hpos := by
    simp only [hpc, hf, hf', hl, ha, if_true, Bool.false_eq_true, if_false] at hpos ⊢
    omega
  gauge := by simp [hpc, hf, hf', hl, hg]
  totals _ := by rw [ht, hpc, hc, add_zero]

/-- A return that is not. -/
theorem leak (hpc : r.pc = pc) (hl : r.leaks X env = true) (hf : pc.inFlight = true)
    (hf' : r'.pc.inFlight = false) (hs : node'.state = node.state)
    (hg : node'.activeTasksGauge = node.activeTasksGauge) : Books X env node r node' r' where
  active _ := by simp [hpc, hf, hf', hl, hs]
  gauge := by simp [hpc, hf, hf', hl, hg]
  totals h := by rw [hl] at h; cases h

end TaskRun.Books

theorem TaskPc.resolve_pending (req : ExecuteTaskRequest) :
    (TaskPc.resolve req).inFlight = true ∧ (TaskPc.resolve req).charge = 0 := by
  unfold TaskPc.resolve
  split <;> exact ⟨rfl, rfl⟩

theorem TaskPc.downloaded_pending (ref : ModuleRef) (wasm : Bytes) :
    (TaskPc.downloaded X ref wasm).inFlight = true ∧
      (TaskPc.downloaded X ref wasm).charge = 0 := by
  unfold TaskPc.downloaded
  split <;> exact ⟨rfl, rfl⟩

/-- A call of `get_or_compile` that goes on or returns a module was not about to fail. -/
theorem TaskRun.leaks_compile (env : Env) {ref : ModuleRef} {wasm : Bytes} {g : GetOrCompile}
    {key : String} (hpc : r.pc = .getOrCompile ref wasm g)
    (h : ∀ e, (node.compileStep X now key wasm g).2 ≠ .inr (.error e)) :
    r.leaks X env = false := by
  cases g with
  | compile =>
      cases hc : X.compile wasm with
      | error text =>
          refine absurd ?_ (h (.compilationFailed text))
          simp [Node.compileStep, GetOrCompile.step, hc]
      | ok => simp [TaskRun.leaks, hpc, hc, Except.isOk, Except.toBool]
  | _ => simp [TaskRun.leaks, hpc]

theorem TaskRun.books (h : r.step X now env node = some (node', r')) :
    Books X env node r node' r' := by
  have hleaks : ∀ pc, r.pc = pc → r.leaks X env = (r.atPc pc).leaks X env := by
    rintro _ rfl
    rfl
  cases step_inv h with
  | refuse hpc => exact .stay hpc (hleaks _ hpc) rfl rfl rfl rfl rfl
  | acquire hpc => exact .stay hpc (hleaks _ hpc) rfl rfl rfl rfl rfl
  | increment hpc =>
      obtain ⟨hf, hc⟩ := TaskPc.resolve_pending r.req
      exact .enter hpc (hleaks _ hpc) rfl hf rfl hc rfl rfl rfl
  | execute hpc => exact .stay hpc (hleaks _ hpc) rfl rfl rfl rfl rfl
  | hit hpc => exact .stay hpc (hleaks _ hpc) rfl rfl rfl rfl rfl
  | miss hpc => exact .stay hpc (hleaks _ hpc) rfl rfl rfl rfl rfl
  | downloadFailed hpc hd =>
      have hl : r.leaks X env = true := by
        simp [TaskRun.leaks, hpc, hd, Except.isOk, Except.toBool]
      exact .leak hpc hl rfl rfl rfl rfl
  | downloaded hpc hd =>
      have hl : r.leaks X env = false := by
        simp [TaskRun.leaks, hpc, hd, Except.isOk, Except.toBool]
      obtain ⟨hf, hc⟩ := TaskPc.downloaded_pending (X := X) _ _
      exact .stay hpc hl hf rfl hc rfl rfl
  | compiling hpc hg =>
      have hl := leaks_compile env hpc fun e he => by rw [hg] at he; cases he
      exact .stay hpc hl rfl rfl rfl rfl rfl
  | compileFailed hpc hg =>
      obtain ⟨rfl, text, hc⟩ := GetOrCompile.step_error (congrArg Prod.snd hg)
      have hl : r.leaks X env = true := by
        simp [TaskRun.leaks, hpc, hc, Except.isOk, Except.toBool]
      exact .leak hpc hl rfl rfl rfl rfl
  | compiled hpc hg =>
      have hl := leaks_compile env hpc fun e he => by rw [hg] at he; cases he
      exact .stay hpc hl rfl rfl rfl rfl rfl
  | stats hpc => exact .stay hpc (hleaks _ hpc) rfl rfl rfl rfl rfl
  | executeCompiled hpc => exact .stay hpc (hleaks _ hpc) rfl rfl rfl rfl rfl
  | fail hpc =>
      refine .leave hpc (hleaks _ hpc) rfl rfl rfl rfl rfl ?_
      simp [Node.totals, Node.countFailed, Node.release, TaskRun.atPc, TaskPc.charge]
  | succeed hpc hs =>
      refine .leave hpc (hleaks _ hpc) rfl rfl rfl rfl rfl ?_
      simp [Node.totals, Node.countExecuted, Node.release, TaskRun.atPc, TaskPc.charge, hs]
  | failExecution hpc hs =>
      refine .leave hpc (hleaks _ hpc) rfl rfl rfl rfl rfl ?_
      simp [Node.totals, Node.countFailed, Node.release, TaskRun.atPc, TaskPc.charge, hs]

/-! ## The books of the node -/

/-- The counts of active tasks, off by the number `k` of returns through a `?`. -/
structure Drifted (k : Nat) (s : Sys) : Prop where
  active : s.node.state.activeTasks = s.procs.countP Proc.inFlight + k
  gauge : s.node.activeTasksGauge = s.procs.countP Proc.inFlight + k

theorem Drifted.step {k : Nat} (hI : Drifted k s) (h : s.step X e = some t) :
    Drifted (k + if s.leaks X e then 1 else 0) t := by
  obtain ⟨ha, hg⟩ := hI
  cases Sys.step_inv h with
  | @start e p he =>
      have hp : p.inFlight = false := by cases e <;> cases he <;> rfl
      have hl : s.leaks X e = false := by cases e <;> cases he <;> rfl
      constructor
      · simp [hp, hl, ha]
      · simp [hp, hl, hg]
  | tick d => exact ⟨ha, hg⟩
  | @task i env r r' node hi hrun =>
      have hl : s.leaks X (.run i env) = r.leaks X env := by simp [Sys.leaks, hi]
      have hbooks := TaskRun.books hrun
      have hcount : (s.procs.set i (.task r')).countP Proc.inFlight +
          (if r.pc.inFlight then 1 else 0) =
          s.procs.countP Proc.inFlight + (if r'.pc.inFlight then 1 else 0) :=
        countP_set_add Proc.inFlight hi
      -- A request in flight is counted, so the saturating subtraction takes its count back.
      have hle : (if r.pc.inFlight then 1 else 0) ≤ s.procs.countP Proc.inFlight := by
        split
        case isTrue hf => exact List.countP_pos_iff.mpr ⟨_, List.mem_of_getElem? hi, hf⟩
        case isFalse => exact Nat.zero_le _
      have hactive := hbooks.active (by omega)
      have hgauge := hbooks.gauge
      rw [hl]
      constructor
      · dsimp only
        omega
      · dsimp only
        omega
  | @warm i env w w' node hi hrun =>
      obtain ⟨hs, hg', -⟩ := WarmRun.step_frame hrun
      have hl : s.leaks X (.run i env) = false := by simp [Sys.leaks, hi]
      have hcount : (s.procs.set i (.warm w')).countP Proc.inFlight =
          s.procs.countP Proc.inFlight := countP_set_add Proc.inFlight hi
      constructor
      · dsimp only
        rw [hs, ha, hcount, hl]
        rfl
      · dsimp only
        rw [hg', hg, hcount, hl]
        rfl

variable {nodeId : String} {maxConcurrentTasks cacheMaxSize cacheTtl : Nat}
  {ms : List (Move Sys Event)}

/-- The run's count of active tasks is off by the number of its returns through a `?`. -/
theorem active_eq
    (h : Run (Sys.step X) (Sys.init nodeId maxConcurrentTasks cacheMaxSize cacheTtl) ms s) :
    Drifted (ms.countP fun m => m.pre.leaks X m.ev) s := by
  induction h with
  | nil => exact ⟨rfl, rfl⟩
  | snoc _ hs ih =>
      rw [List.countP_append, List.countP_singleton]
      exact ih.step hs

/-! ## What each request has added -/

/-- What the steps of the request `i` have added to `total_executed` and to `total_failed`. -/
def added (i : Nat) (ms : List (Move Sys Event)) : Int × Int :=
  ((ms.filter fun m => m.ev.actor = some i).map fun m =>
    m.post.node.totals - m.pre.node.totals).sum

theorem added_snoc (i : Nat) (ms : List (Move Sys Event)) (m : Move Sys Event) :
    added i (ms ++ [m]) =
      added i ms + if m.ev.actor = some i then m.post.node.totals - m.pre.node.totals else 0 := by
  unfold added
  rw [List.filter_append, List.map_append, List.sum_append]
  congr 1
  by_cases hm : m.ev.actor = some i
  · simp [hm]
  · simp [hm]

def Proc.charge : Proc → Int × Int
  | .task r => r.pc.charge
  | .warm _ => 0

/-- What the process `i` should have added. -/
def Sys.charge (s : Sys) (i : Nat) : Int × Int := (s.procs[i]?.map Proc.charge).getD 0

theorem Sys.charge_snoc {p : Proc} (hp : p.charge = 0) (i : Nat) :
    Sys.charge { s with procs := s.procs ++ [p] } i = s.charge i := by
  unfold Sys.charge
  by_cases hi : i < s.procs.length
  · rw [List.getElem?_append_left hi]
  · have hnone : s.procs[i]? = none := List.getElem?_eq_none (Nat.le_of_not_lt hi)
    rw [List.getElem?_append_right (Nat.le_of_not_lt hi), List.getElem?_singleton, hnone]
    split
    · exact hp
    · rfl

theorem Sys.charge_set {j : Nat} {p p' : Proc} (hj : s.procs[j]? = some p) (i : Nat) :
    Sys.charge { s with node := node, procs := s.procs.set j p' } i =
      if j = i then p'.charge else s.charge i := by
  unfold Sys.charge
  split
  case isTrue hij =>
    subst hij
    rw [getElem?_set_self hj]
    rfl
  case isFalse hij => rw [List.getElem?_set_ne hij]

theorem Sys.charge_of {i : Nat} {p : Proc} (hi : s.procs[i]? = some p) : s.charge i = p.charge := by
  unfold Sys.charge
  rw [hi]
  rfl

theorem Sys.charge_step (i : Nat) (h : s.step X e = some t) (hl : s.leaks X e = false) :
    t.charge i =
      s.charge i + if e.actor = some i then t.node.totals - s.node.totals else 0 := by
  cases Sys.step_inv h with
  | @start e p he =>
      have hp : p.charge = 0 := by cases e <;> cases he <;> rfl
      have hactor : e.actor = none := by cases e <;> cases he <;> rfl
      rw [Sys.charge_snoc hp, hactor]
      simp
  | tick d => simp [Event.actor, Sys.charge]
  | @task j env r r' node hj hrun =>
      have hrl : r.leaks X env = false := by simpa [Sys.leaks, hj] using hl
      have htotals : node.totals + r.pc.charge = s.node.totals + r'.pc.charge :=
        (TaskRun.books hrun).totals hrl
      rw [Sys.charge_set hj]
      by_cases hij : j = i
      · -- The step moves the totals by what it moves the charge.
        subst hij
        rw [Sys.charge_of hj]
        simp only [Event.actor, if_true]
        calc r'.pc.charge = node.totals + r.pc.charge - s.node.totals :=
              eq_sub_of_add_eq' htotals.symm
          _ = r.pc.charge + (node.totals - s.node.totals) := by
              rw [add_comm node.totals, add_sub_assoc]
      · simp [Event.actor, hij]
  | @warm j env w w' node hj hrun =>
      have htotals : node.totals = s.node.totals := by
        unfold Node.totals
        rw [(WarmRun.step_frame hrun).1]
      rw [Sys.charge_set hj, htotals]
      by_cases hij : j = i
      · subst hij
        simp [Sys.charge_of hj, Proc.charge]
      · simp [hij]

theorem added_eq
    (h : Run (Sys.step X) (Sys.init nodeId maxConcurrentTasks cacheMaxSize cacheTtl) ms s)
    (hl : ∀ m ∈ ms, m.pre.leaks X m.ev = false) (i : Nat) : added i ms = s.charge i := by
  induction h with
  | nil => rfl
  | snoc _ hs ih =>
      rw [added_snoc, ih fun m hm => hl m (List.mem_append_left _ hm),
        Sys.charge_step i hs (hl _ (List.mem_append_right _ (List.mem_singleton_self _)))]

/-! ## The result -/

/-- The counts of active tasks are the number of requests in flight, and a request that has
returned has added one to one of the totals. -/
structure Accounted (ms : List (Move Sys Event)) (s : Sys) : Prop where
  active : s.node.state.activeTasks = s.procs.countP Proc.inFlight
  gauge : s.node.activeTasksGauge = s.procs.countP Proc.inFlight
  returned : ∀ (i : Nat) (r : TaskRun) (result : Except Status ExecuteTaskResponse),
    s.procs[i]? = some (.task r) → r.pc = .returned result →
    added i ms = (1, 0) ∨ added i ms = (0, 1)

theorem TaskPc.charge_returned (result : Except Status ExecuteTaskResponse) :
    (TaskPc.returned result).charge = (1, 0) ∨ (TaskPc.returned result).charge = (0, 1) := by
  cases result with
  | ok resp => cases hs : resp.success <;> simp [TaskPc.charge, hs]
  | error status => exact Or.inr rfl

/-- The books of the node are right after a run exactly if no request of the run has returned
from a failed download or a failed compilation. -/
theorem accounted_iff_unleaked
    (h : Run (Sys.step X) (Sys.init nodeId maxConcurrentTasks cacheMaxSize cacheTtl) ms s) :
    Accounted ms s ↔ ∀ m ∈ ms, m.pre.leaks X m.ev = false := by
  have hdrift := active_eq h
  constructor
  · intro hacc
    have hzero : ms.countP (fun m => m.pre.leaks X m.ev) = 0 := by
      have := hdrift.active
      rw [hacc.active] at this
      omega
    intro m hm
    exact Bool.eq_false_iff.mpr (List.countP_eq_zero.mp hzero m hm)
  · intro hl
    have hzero : ms.countP (fun m => m.pre.leaks X m.ev) = 0 :=
      List.countP_eq_zero.mpr fun m hm => Bool.eq_false_iff.mp (hl m hm)
    rw [hzero] at hdrift
    refine ⟨hdrift.active, by simpa using hdrift.gauge, ?_⟩
    intro i r result hi hpc
    rw [added_eq h hl i, Sys.charge_of hi, Proc.charge, hpc]
    exact TaskPc.charge_returned result

/-- One task runs its own bytes to the end and another one downloads bytes with a hash other
than the one it asks for. -/
def hashMismatch : List Event :=
  [.executeTask (.sample (.wasmBytes [])),
    .executeTask (.sample (.moduleRef ⟨"m", "1", "ffff", ""⟩)), .run 0 {}, .run 1 {},
    .run 1 {}, .run 0 {}, .run 0 {}, .run 1 {}, .run 1 {}, .run 0 {}, .run 1 {}]

theorem hashMismatch_accounted :
    ∃ s, Run (Sys.step .sample) (Sys.init "n" 2 1 60)
        (moves (Sys.step .sample) (Sys.init "n" 2 1 60) hashMismatch) s ∧
      s.node.totals = (1, 1) ∧
      Accounted (moves (Sys.step .sample) (Sys.init "n" 2 1 60) hashMismatch) s := by
  have htest : (exec (Sys.step .sample) (Sys.init "n" 2 1 60) hashMismatch).any
      (fun s => s.node.totals = (1, 1)) = true := by decide
  obtain ⟨s, h, hs⟩ := exec_any_run htest
  exact ⟨s, h, of_decide_eq_true hs, (accounted_iff_unleaked h).mpr (by decide)⟩

/-- The download of a task fails. -/
def failedDownload : List Event :=
  [.executeTask (.sample (.moduleRef ⟨"m", "1", "ffff", ""⟩)), .run 0 {}, .run 0 {}, .run 0 {},
    .run 0 { download := fun _ _ => .error "control-plane returned 503" }]

/-- No task is in flight, and one is counted as active. -/
theorem failedDownload_not_accounted :
    ∃ s, Run (Sys.step .sample) (Sys.init "n" 2 1 60)
        (moves (Sys.step .sample) (Sys.init "n" 2 1 60) failedDownload) s ∧
      s.procs.countP Proc.inFlight = 0 ∧ s.node.state.activeTasks = 1 ∧
      s.node.totals = (0, 0) ∧
      ¬ Accounted (moves (Sys.step .sample) (Sys.init "n" 2 1 60) failedDownload) s := by
  have htest : (exec (Sys.step .sample) (Sys.init "n" 2 1 60) failedDownload).any
      (fun s => s.procs.countP Proc.inFlight = 0 ∧ s.node.state.activeTasks = 1 ∧
        s.node.totals = (0, 0)) = true := by decide
  obtain ⟨s, h, hs⟩ := exec_any_run htest
  obtain ⟨hflight, hactive, htotals⟩ := of_decide_eq_true hs
  refine ⟨s, h, hflight, hactive, htotals, fun hacc => ?_⟩
  have := hacc.active
  omega

end FerroEdge.EdgeNode
