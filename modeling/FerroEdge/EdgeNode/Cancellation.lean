import FerroEdge.EdgeNode.System

/-!
# Cancelled requests and the limit on guests

A guest runs in a closure under `spawn_blocking`, on a thread of its own.  `execute_task` waits
for it with the permit in hand.  When the caller goes away, the future of the handler is
dropped at the `await` where it is, and the permit with it.  The closure is not stopped.

The machine here adds both to the requests of a node: the closures, which the pool of threads
starts and which end in their own time, and the cancellation of a request at any `await`.
`running_le_maxTasks` says that the permits bound the guests in every run in which no request
is cancelled while its closure is still to run or running: the invariant `GuestInv` says that a
closure outlives its request in no other way.
-/

namespace FerroEdge.EdgeNode

open Machine WasmRuntime

/-- The closure that a request has given to `spawn_blocking`. -/
inductive Guest where
  | unspawned
  /-- Waiting for a thread. -/
  | queued
  | running
  | ended
deriving DecidableEq, Repr

/-- The closure has been spawned and has not ended. -/
def Guest.pending : Guest → Bool
  | .queued | .running => true
  | .unspawned | .ended => false

/-- The request waits for its closure. -/
def TaskPc.executes : TaskPc → Bool
  | .execute _ | .executeCompiled _ _ => true
  | _ => false

def Proc.executes : Proc → Bool
  | .task r => r.pc.executes
  | .warm _ => false

/-- The request is dropped.  It is over then, like one that has returned. -/
def TaskRun.cancel (node : Node) (r : TaskRun) : Option (Node × TaskRun) :=
  match r.pc with
  | .refused _ | .returned _ => none
  | .acquire => some (node, r.atPc (.refused ⟨.cancelled, "request cancelled"⟩))
  | _ => some (node.release, r.atPc (.returned (.error ⟨.cancelled, "request cancelled"⟩)))

/-- A node with the closures of its requests, each at the position of its request. -/
structure GuestSys where
  sys : Sys
  guests : List Guest

inductive GuestEvent where
  /-- A step of the node. -/
  | node (e : Event)
  /-- A thread takes up the closure of the request. -/
  | begin (i : Nat)
  | finish (i : Nat)
  | cancel (i : Nat)

namespace GuestSys

def init (nodeId : String) (maxConcurrentTasks cacheMaxSize cacheTtl : Nat) : GuestSys :=
  ⟨.init nodeId maxConcurrentTasks cacheMaxSize cacheTtl, []⟩

/-- A request that waits for its closure goes on when the closure has ended. -/
def ready (c : GuestSys) : Event → Bool
  | .run i _ => !c.sys.procs[i]?.any Proc.executes || c.guests[i]? = some .ended
  | _ => true

/-- The closures after a step of the node.  A request spawns its closure in the step that
leads it to the `await` of the result. -/
def spawn (guests : List Guest) (sys : Sys) : Event → List Guest
  | .run i _ => if sys.procs[i]?.any Proc.executes then guests.set i .queued else guests
  | .tick _ => guests
  | .executeTask _ | .warmCache _ => guests ++ [.unspawned]

def step (X : Externals) (c : GuestSys) : GuestEvent → Option GuestSys
  | .node e =>
      if c.ready e then (c.sys.step X e).map fun sys => ⟨sys, spawn c.guests sys e⟩ else none
  | .begin i =>
      if c.guests[i]? = some .queued then some { c with guests := c.guests.set i .running }
      else none
  | .finish i =>
      if c.guests[i]? = some .running then some { c with guests := c.guests.set i .ended }
      else none
  | .cancel i =>
      match c.sys.procs[i]? with
      | some (.task r) => (r.cancel c.sys.node).map fun (node, r') =>
          { c with sys.node := node, sys.procs := c.sys.procs.set i (.task r') }
      | _ => none

/-- The number of guests that are running. -/
def running (c : GuestSys) : Nat := c.guests.countP (· = .running)

/-- The step cancels a request whose closure is still to run or running. -/
def abandons (c : GuestSys) : GuestEvent → Bool
  | .cancel i => c.guests[i]?.any Guest.pending
  | _ => false

end GuestSys

/-! ## What a step can be -/

section

variable {X : Externals} {c d : GuestSys} {ev : GuestEvent}

/-- The steps of a node with its guests, with the conditions of each. -/
inductive GuestSys.Moves (X : Externals) (c : GuestSys) : GuestEvent → GuestSys → Prop where
  | node {e : Event} {t : Sys} : c.ready e = true → c.sys.step X e = some t →
      Moves X c (.node e) ⟨t, spawn c.guests t e⟩
  | begin {i : Nat} : c.guests[i]? = some .queued →
      Moves X c (.begin i) { c with guests := c.guests.set i .running }
  | finish {i : Nat} : c.guests[i]? = some .running →
      Moves X c (.finish i) { c with guests := c.guests.set i .ended }
  | cancel {i : Nat} {r r' : TaskRun} {node : Node} : c.sys.procs[i]? = some (.task r) →
      r.cancel c.sys.node = some (node, r') →
      Moves X c (.cancel i) { c with sys.node := node, sys.procs := c.sys.procs.set i (.task r') }

theorem GuestSys.moves_of_step (h : c.step X ev = some d) : GuestSys.Moves X c ev d := by
  cases ev with
  | node e =>
      simp only [GuestSys.step] at h
      split at h
      case isFalse => cases h
      case isTrue hready =>
        obtain ⟨t, ht, rfl⟩ := Option.map_eq_some_iff.mp h
        exact .node hready ht
  | begin i =>
      simp only [GuestSys.step] at h
      split at h
      case isFalse => cases h
      case isTrue hi =>
        cases h
        exact .begin hi
  | finish i =>
      simp only [GuestSys.step] at h
      split at h
      case isFalse => cases h
      case isTrue hi =>
        cases h
        exact .finish hi
  | cancel i =>
      simp only [GuestSys.step] at h
      split at h
      case h_2 => cases h
      case h_1 r hi =>
        obtain ⟨⟨node, r'⟩, hr, rfl⟩ := Option.map_eq_some_iff.mp h
        exact .cancel hi hr

/-- The steps of a node with its guests, by what they do to the node and its requests. -/
inductive GuestSys.Step (X : Externals) (c : GuestSys) : GuestEvent → GuestSys → Prop where
  | quiet {ev : GuestEvent} {d : GuestSys} :
      d.sys.node = c.sys.node → d.sys.procs = c.sys.procs → Step X c ev d
  | start {e : Event} {p : Proc} {d : GuestSys} :
      e.starts = some p → d.sys.node = c.sys.node → d.sys.procs = c.sys.procs ++ [p] →
      Step X c (.node e) d
  | task {i : Nat} {env : Env} {r r' : TaskRun} {d : GuestSys} :
      c.sys.procs[i]? = some (.task r) →
      r.step X c.sys.now env c.sys.node = some (d.sys.node, r') →
      d.sys.procs = c.sys.procs.set i (.task r') → Step X c (.node (.run i env)) d
  | warm {i : Nat} {env : Env} {w w' : WarmRun} {d : GuestSys} :
      c.sys.procs[i]? = some (.warm w) →
      w.step X c.sys.now c.sys.node = some (d.sys.node, w') →
      d.sys.procs = c.sys.procs.set i (.warm w') → Step X c (.node (.run i env)) d
  | cancel {i : Nat} {r r' : TaskRun} {d : GuestSys} :
      c.sys.procs[i]? = some (.task r) → r.cancel c.sys.node = some (d.sys.node, r') →
      d.sys.procs = c.sys.procs.set i (.task r') → Step X c (.cancel i) d

theorem GuestSys.step_inv (h : c.step X ev = some d) : GuestSys.Step X c ev d := by
  cases GuestSys.moves_of_step h with
  | node _ ht =>
      cases Sys.step_inv ht with
      | start he => exact .start he rfl rfl
      | tick => exact .quiet rfl rfl
      | task hi hrun => exact .task hi hrun rfl
      | warm hi hrun => exact .warm hi hrun rfl
  | begin | finish => exact .quiet rfl rfl
  | cancel hi hr => exact .cancel hi hr rfl

end

/-! ## Permits -/

/-- The request holds a permit. -/
def TaskPc.holdsPermit : TaskPc → Bool
  | .acquire | .refused _ | .returned _ => false
  | _ => true

def Proc.holdsPermit : Proc → Bool
  | .task r => r.pc.holdsPermit
  | .warm _ => false

theorem TaskPc.holdsPermit_of_executes {pc : TaskPc} (h : pc.executes = true) :
    pc.holdsPermit = true := by
  cases pc with
  | execute bytes => rfl
  | executeCompiled ref module => rfl
  | _ => cases h

theorem Proc.holdsPermit_of_executes {p : Proc} (h : p.executes = true) :
    p.holdsPermit = true := by
  cases p with
  | task r => exact TaskPc.holdsPermit_of_executes h
  | warm w => cases h

variable {X : Externals} {now : Nat} {env : Env} {node node' : Node} {r r' : TaskRun}
  {s t : Sys} {e : Event}

theorem TaskPc.resolve_holdsPermit (req : ExecuteTaskRequest) :
    (TaskPc.resolve req).holdsPermit = true := by
  unfold TaskPc.resolve
  split <;> rfl

theorem TaskPc.downloaded_holdsPermit (ref : ModuleRef) (wasm : Bytes) :
    (TaskPc.downloaded X ref wasm).holdsPermit = true := by
  unfold TaskPc.downloaded
  split <;> rfl

/-- A request takes its permit from the node and gives it back. -/
theorem TaskRun.step_permits (h : r.step X now env node = some (node', r')) :
    node'.permits + (if r'.pc.holdsPermit then 1 else 0) =
      node.permits + (if r.pc.holdsPermit then 1 else 0) := by
  cases step_inv h with
  | acquire hpc hpos =>
      simp only [hpc, atPc, TaskPc.holdsPermit]
      exact Nat.sub_add_cancel hpos
  | increment hpc =>
      simp only [hpc, atPc, TaskPc.resolve_holdsPermit]
      rfl
  | downloaded hpc =>
      simp only [hpc, atPc, TaskPc.downloaded_holdsPermit]
      rfl
  | _ hpc =>
      rw [hpc]
      rfl

/-- What is left of a request that is dropped: one that waits for a permit has none to give
back. -/
inductive TaskRun.Cancels (node : Node) (r : TaskRun) : Node → TaskRun → Prop where
  | waiting : r.pc = .acquire →
      Cancels node r node (r.atPc (.refused ⟨.cancelled, "request cancelled"⟩))
  | holding : r.pc.holdsPermit = true →
      Cancels node r node.release (r.atPc (.returned (.error ⟨.cancelled, "request cancelled"⟩)))

theorem TaskRun.cancel_inv (h : r.cancel node = some (node', r')) :
    TaskRun.Cancels node r node' r' := by
  unfold TaskRun.cancel at h
  split at h
  case h_1 => cases h
  case h_2 => cases h
  case h_3 hpc =>
    cases h
    exact .waiting hpc
  case h_4 href hret hacq =>
    cases h
    refine .holding ?_
    cases hpc : r.pc with
    | acquire => exact absurd hpc hacq
    | refused status => exact absurd hpc (href status)
    | returned result => exact absurd hpc (hret result)
    | _ => rfl

theorem TaskRun.cancel_permits (h : r.cancel node = some (node', r')) :
    node'.permits + (if r'.pc.holdsPermit then 1 else 0) =
      node.permits + (if r.pc.holdsPermit then 1 else 0) := by
  cases TaskRun.cancel_inv h with
  | waiting hpc =>
      rw [hpc]
      rfl
  | holding hholds =>
      rw [hholds]
      rfl

/-- The permits left and those that are held. -/
def Sys.allPermits (s : Sys) : Nat := s.node.permits + s.procs.countP Proc.holdsPermit

/-- A process that takes its permit from the node, or gives it back, changes nothing in sum. -/
theorem Sys.allPermits_set {i : Nat} {p p' : Proc} (hi : s.procs[i]? = some p)
    (h : node'.permits + (if p'.holdsPermit then 1 else 0) =
      s.node.permits + (if p.holdsPermit then 1 else 0)) :
    ({ s with node := node', procs := s.procs.set i p' } : Sys).allPermits = s.allPermits := by
  have hcount := countP_set_add (b := p') Proc.holdsPermit hi
  simp only [Sys.allPermits]
  omega

theorem Sys.Step.allPermits (h : Sys.Step X s e t) : t.allPermits = s.allPermits := by
  cases h with
  | @start e p he =>
      have hp : p.holdsPermit = false := by cases e <;> cases he <;> rfl
      simp [Sys.allPermits, hp]
  | tick => rfl
  | task hi hr => exact Sys.allPermits_set hi (TaskRun.step_permits hr)
  | warm hi hw => exact Sys.allPermits_set hi (by rw [(WarmRun.step_frame hw).2.2]; rfl)

/-! ## Guests -/

/-- A closure that is to run or running belongs to a request that waits for it, or to one of the
requests `gone`, and the permits add up. -/
structure GuestInv (maxTasks : Nat) (gone : List Nat) (c : GuestSys) : Prop where
  permits : c.sys.allPermits = maxTasks
  length : c.guests.length = c.sys.procs.length
  waiting : ∀ (i : Nat) g p, c.guests[i]? = some g → c.sys.procs[i]? = some p →
    g.pending = true → p.executes = true ∨ i ∈ gone

theorem GuestInv.running_le {maxTasks : Nat} {gone : List Nat} {c : GuestSys}
    (h : GuestInv maxTasks gone c) : c.running ≤ maxTasks + gone.length := by
  have hle : c.running ≤ c.sys.procs.countP Proc.holdsPermit + gone.length := by
    refine countP_le_add h.length fun i g p hg hp hrun => ?_
    have hpending : g.pending = true := by rw [of_decide_eq_true hrun]; rfl
    exact (h.waiting i g p hg hp hpending).imp_left Proc.holdsPermit_of_executes
  have hpermits := h.permits
  rw [Sys.allPermits] at hpermits
  omega

variable {maxTasks : Nat} {gone gone' : List Nat} {c d : GuestSys} {ev : GuestEvent}

/-- A process takes a step, and its closure has ended if it has waited for it. -/
theorem GuestInv.replace {i : Nat} {p p' : Proc} (h : GuestInv maxTasks gone c)
    (hi : c.sys.procs[i]? = some p) (hready : c.ready (.run i env) = true)
    (hpermits : ({ c.sys with node := node', procs := c.sys.procs.set i p' } : Sys).allPermits =
      c.sys.allPermits) :
    GuestInv maxTasks gone ⟨{ c.sys with node := node', procs := c.sys.procs.set i p' },
      GuestSys.spawn c.guests { c.sys with node := node', procs := c.sys.procs.set i p' }
        (.run i env)⟩ := by
  have hself : (c.sys.procs.set i p')[i]? = some p' := getElem?_set_self hi
  refine ⟨hpermits.trans h.permits, ?_, ?_⟩
  · simp only [GuestSys.spawn, List.length_set]
    split
    · rw [List.length_set, h.length]
    · exact h.length
  intro j g q hg hq hpending
  obtain ⟨rfl, rfl⟩ | ⟨hne, hq⟩ := getElem?_set_inv hq
  · -- The process itself: its closure is new, or there is none to run.
    by_cases hexec : q.executes = true
    · exact Or.inl hexec
    · simp only [GuestSys.spawn, hself, Option.any_some, if_neg hexec] at hg
      obtain hwaits | hgone := h.waiting j g p hg hi hpending
      · simp only [GuestSys.ready, hi, Option.any_some, hwaits, hg] at hready
        cases g <;> simp_all [Guest.pending]
      · exact Or.inr hgone
  · refine h.waiting j g q ?_ hq hpending
    simp only [GuestSys.spawn] at hg
    split at hg
    · rwa [List.getElem?_set_ne (Ne.symm hne)] at hg
    · exact hg

theorem GuestInv.nodeStep (h : GuestInv maxTasks gone c) (hready : c.ready e = true)
    (hs : Sys.Step X c.sys e t) : GuestInv maxTasks gone ⟨t, GuestSys.spawn c.guests t e⟩ := by
  have hpermits := hs.allPermits
  cases hs with
  | @start e p he =>
      have hspawn : GuestSys.spawn c.guests { c.sys with procs := c.sys.procs ++ [p] } e =
          c.guests ++ [.unspawned] := by cases e <;> cases he <;> rfl
      rw [hspawn]
      refine ⟨hpermits.trans h.permits, by simp [h.length], fun i g q hg hq hpending => ?_⟩
      obtain ⟨-, rfl⟩ | ⟨hlt, hg⟩ := getElem?_snoc_inv hg
      · cases hpending
      · obtain ⟨heq, -⟩ | ⟨-, hq⟩ := getElem?_snoc_inv hq
        · have hlen := h.length
          omega
        · exact h.waiting i g q hg hq hpending
  | tick => exact ⟨h.permits, h.length, h.waiting⟩
  | task hi => exact h.replace hi hready hpermits
  | warm hi => exact h.replace hi hready hpermits

/-- The closure of a request that waits for it goes on or ends. -/
theorem GuestInv.advance {i : Nat} {g g' : Guest} (h : GuestInv maxTasks gone c)
    (hi : c.guests[i]? = some g) (hg : g.pending = true) :
    GuestInv maxTasks gone { c with guests := c.guests.set i g' } := by
  refine ⟨h.permits, by simp [h.length], fun j g₁ p hg₁ hp hpending => ?_⟩
  obtain ⟨rfl, -⟩ | ⟨-, hold⟩ := getElem?_set_inv hg₁
  · exact h.waiting j g p hi hp hg
  · exact h.waiting j g₁ p hold hp hpending

theorem GuestInv.mono (h : GuestInv maxTasks gone c) (hsub : gone ⊆ gone') :
    GuestInv maxTasks gone' c :=
  ⟨h.permits, h.length, fun i g p hg hp hpending =>
    (h.waiting i g p hg hp hpending).imp_right fun hi => hsub hi⟩

/-- A request that is cancelled while its closure is to run or running has gone. -/
theorem GuestInv.step (h : GuestInv maxTasks gone c) (hsub : gone ⊆ gone')
    (hgone : ∀ (i : Nat) g, ev = .cancel i → c.guests[i]? = some g → g.pending = true →
      i ∈ gone')
    (hs : c.step X ev = some d) : GuestInv maxTasks gone' d := by
  cases GuestSys.moves_of_step hs with
  | node hready ht => exact (h.nodeStep hready (Sys.step_inv ht)).mono hsub
  | begin hi => exact (h.advance hi rfl).mono hsub
  | finish hi => exact (h.advance hi rfl).mono hsub
  | cancel hi hr =>
      refine ⟨?_, by simp [h.length], fun j g p hg hp hpending => ?_⟩
      · exact (Sys.allPermits_set hi (TaskRun.cancel_permits hr)).trans h.permits
      · obtain ⟨rfl, -⟩ | ⟨-, hold⟩ := getElem?_set_inv hp
        · exact Or.inr (hgone j g rfl hg hpending)
        · exact (h.waiting j g p hg hold hpending).imp_right fun hj => hsub hj

theorem GuestInv.init (nodeId : String) (maxTasks cacheMaxSize cacheTtl : Nat) :
    GuestInv maxTasks [] (.init nodeId maxTasks cacheMaxSize cacheTtl) :=
  ⟨rfl, rfl, fun i g p hg => by cases hg⟩

/-- In every run in which no request is cancelled while its closure is to run or running, no
more guests run than there are permits. -/
theorem running_le_maxTasks {nodeId : String} {cacheMaxSize cacheTtl : Nat}
    {ms : List (Move GuestSys GuestEvent)}
    (h : Run (GuestSys.step X) (.init nodeId maxTasks cacheMaxSize cacheTtl) ms c)
    (hkeep : ∀ m ∈ ms, m.pre.abandons m.ev = false) : c.running ≤ maxTasks := by
  have hinv : GuestInv maxTasks [] c := by
    refine h.invariant (C := fun m => m.pre.abandons m.ev = false) (.init ..) ?_ hkeep
    intro c ev d hI hC hs
    refine hI.step (fun _ hi => hi) (fun i g he hg hpending => ?_) hs
    subst he
    simp [GuestSys.abandons, hg, hpending] at hC
  exact hinv.running_le

/-- A request with its bytes gets a permit and its guest starts. -/
def executing (i : Nat) : List GuestEvent :=
  [.node (.executeTask (.sample (.wasmBytes []))), .node (.run i {}), .node (.run i {}), .begin i]

/-- On a node with one permit a request is served, and another one that is cancelled when its
guest has ended. -/
theorem executing_le :
    ∃ c ms, Run (GuestSys.step .sample) (.init "n" 1 1 1) ms c ∧ c.running ≤ 1 ∧
      c.guests = [.ended, .ended] := by
  have htest : (exec (GuestSys.step .sample) (.init "n" 1 1 1)
      (executing 0 ++ [.finish 0, .node (.run 0 {}), .node (.run 0 {})] ++ executing 1 ++
        [.finish 1, .cancel 1])).any (fun c => c.guests == [.ended, .ended]) = true := by decide
  obtain ⟨c, h, hc⟩ := exec_any_run htest
  exact ⟨c, _, h, running_le_maxTasks h (by decide), by simpa using hc⟩

/-- The first request is cancelled while its guest runs, and the second one is let in. -/
theorem abandoned_guest_runs :
    ∃ c, Run (GuestSys.step .sample) (.init "n" 1 1 1)
        (moves (GuestSys.step .sample) (.init "n" 1 1 1)
          (executing 0 ++ .cancel 0 :: executing 1)) c ∧ c.running = 2 := by
  have htest : (exec (GuestSys.step .sample) (.init "n" 1 1 1)
      (executing 0 ++ .cancel 0 :: executing 1)).any (fun c => c.running == 2) = true := by decide
  obtain ⟨c, h, hc⟩ := exec_any_run htest
  exact ⟨c, h, by simpa using hc⟩

end FerroEdge.EdgeNode
