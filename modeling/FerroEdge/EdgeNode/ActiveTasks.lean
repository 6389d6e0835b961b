import FerroEdge.EdgeNode.Accounting
import FerroEdge.EdgeNode.Cancellation

/-!
# Active tasks and cancelled requests

A request that is cancelled after it has counted itself in `active_tasks` never takes its count
back: the code that does stands behind the `await` at which the future is dropped.  So a count is
kept for good by a request that returns through one of the two `?`, and by one that is cancelled
while it is counted.

* `activeTasks_eq`: `active_tasks` is the number of requests in flight and of those that have kept
  their count.
* `inFlight_le`: no more requests are in flight than there are permits.
* `running_le`: a guest runs for a request in flight, or for one that has kept its count.
-/

namespace FerroEdge.EdgeNode

open Machine WasmRuntime

/-- The future of a request is dropped.  A `/cache/warm` is over then too, and its reply reaches
nobody. -/
def Proc.cancel (node : Node) : Proc → Option (Node × Proc)
  | .task r => (r.cancel node).map fun (node, r') => (node, .task r')
  | .warm (.returned _) => none
  | .warm _ => some (node, .warm (.returned (.internalServerError "request cancelled")))

def Sys.cancel (s : Sys) (i : Nat) : Option Sys :=
  match s.procs[i]? with
  | none => none
  | some p => (p.cancel s.node).map fun (node, p') =>
      { s with node := node, procs := s.procs.set i p' }

/-- The step ends a request that keeps its count. -/
def GuestSys.keepsCount (X : Externals) (c : GuestSys) : GuestEvent → Bool
  | .node e => c.sys.leaks X e
  | .cancel i => c.sys.procs[i]?.any Proc.inFlight
  | .begin _ | .finish _ => false

/-- The number of requests that have ended and kept their count. -/
def kept (X : Externals) (ms : List (Move GuestSys GuestEvent)) : Nat :=
  ms.countP fun m => m.pre.keepsCount X m.ev

variable {X : Externals} {node node' : Node} {p p' : Proc} {s t : Sys} {c d : GuestSys}
  {ev : GuestEvent} {i k : Nat} {ms : List (Move GuestSys GuestEvent)}

theorem kept_snoc (m : Move GuestSys GuestEvent) :
    kept X (ms ++ [m]) = kept X ms + if m.pre.keepsCount X m.ev then 1 else 0 := by
  rw [kept, kept, List.countP_append, List.countP_singleton]

/-! ## One step -/

theorem Sys.cancel_inv (h : s.cancel i = some t) :
    ∃ p node p', s.procs[i]? = some p ∧ p.cancel s.node = some (node, p') ∧
      t = { s with node := node, procs := s.procs.set i p' } := by
  unfold Sys.cancel at h
  split at h
  case h_1 => cases h
  case h_2 p hi =>
    obtain ⟨⟨node, p'⟩, hp, rfl⟩ := Option.map_eq_some_iff.mp h
    exact ⟨p, node, p', hi, hp, rfl⟩

theorem TaskRun.cancel_state {r r' : TaskRun} (h : r.cancel node = some (node', r')) :
    node'.state = node.state ∧ node'.activeTasksGauge = node.activeTasksGauge ∧
    r'.pc.inFlight = false := by
  cases TaskRun.cancel_inv h with
  | waiting | holding => exact ⟨rfl, rfl, rfl⟩

/-- A cancelled request leaves the counters as they are. -/
theorem Proc.cancel_state (h : p.cancel node = some (node', p')) :
    node'.state = node.state ∧ node'.activeTasksGauge = node.activeTasksGauge ∧
    p'.inFlight = false := by
  cases p with
  | task r =>
      obtain ⟨⟨node₁, r'⟩, hr, heq⟩ := Option.map_eq_some_iff.mp h
      cases heq
      exact TaskRun.cancel_state hr
  | warm w =>
      unfold Proc.cancel at h
      split at h
      case h_1 heq => cases heq
      case h_2 => cases h
      case h_3 =>
        cases h
        exact ⟨rfl, rfl, rfl⟩

/-- A request that is cancelled in flight is one less in flight, and stays counted. -/
theorem Drifted.cancel (hI : Drifted k s) (h : s.cancel i = some t) :
    Drifted (k + if s.procs[i]?.any Proc.inFlight then 1 else 0) t := by
  obtain ⟨p, node, p', hi, hp, rfl⟩ := Sys.cancel_inv h
  obtain ⟨hstate, hgauge, hflight⟩ := Proc.cancel_state hp
  have hcount : (s.procs.set i p').countP Proc.inFlight + (if p.inFlight then 1 else 0) =
      s.procs.countP Proc.inFlight := by
    have hset := countP_set_add (b := p') Proc.inFlight hi
    rwa [hflight] at hset
  obtain ⟨ha, hg⟩ := hI
  rw [hi, Option.any_some]
  constructor
  · dsimp only
    rw [hstate]
    omega
  · dsimp only
    rw [hgauge]
    omega

theorem Drifted.guestStep (hI : Drifted k c.sys) (h : c.step X ev = some d) :
    Drifted (k + if c.keepsCount X ev then 1 else 0) d.sys := by
  cases GuestSys.moves_of_step h with
  | node _ ht => exact hI.step ht
  | begin | finish => exact hI
  | cancel hi hr => exact hI.cancel (by simp [Sys.cancel, hi, Proc.cancel, hr])

theorem holdsPermit_of_inFlight {p : Proc} (h : p.inFlight = true) : p.holdsPermit = true := by
  cases p with
  | task r =>
      obtain ⟨_, pc⟩ := r
      cases pc <;> first | rfl | cases h
  | warm w => cases h

theorem inFlight_of_executes {p : Proc} (h : p.executes = true) : p.inFlight = true := by
  cases p with
  | task r =>
      obtain ⟨_, pc⟩ := r
      cases pc <;> first | rfl | cases h
  | warm w => cases h

/-! ## Runs -/

variable {nodeId : String} {maxTasks cacheMaxSize cacheTtl : Nat}

/-- The counts of active tasks are off by the number of requests that have kept theirs. -/
theorem activeTasks_eq
    (h : Run (GuestSys.step X) (.init nodeId maxTasks cacheMaxSize cacheTtl) ms c) :
    Drifted (kept X ms) c.sys := by
  induction h with
  | nil => exact ⟨rfl, rfl⟩
  | snoc _ hs ih =>
      rw [kept_snoc]
      exact ih.guestStep hs

/-- The requests whose closures may still run are among those that have kept their count. -/
theorem exists_guestInv
    (h : Run (GuestSys.step X) (.init nodeId maxTasks cacheMaxSize cacheTtl) ms c) :
    ∃ gone, GuestInv maxTasks gone c ∧ gone.length ≤ kept X ms := by
  induction h with
  | nil => exact ⟨[], .init .., Nat.le_refl _⟩
  | @snoc ms c d ev _ hs ih =>
      obtain ⟨gone, hI, hle⟩ := ih
      rw [kept_snoc]
      by_cases hkeeps : c.keepsCount X ev = true
      · -- The request that has gone is added, whether or not its closure is still to end.
        cases ev with
        | cancel i =>
            refine ⟨i :: gone, hI.step (List.subset_cons_self i gone) ?_ hs, ?_⟩
            · intro j g hj _ _
              cases hj
              exact List.mem_cons_self
            · rw [if_pos hkeeps]
              exact Nat.succ_le_succ hle
        | _ =>
            refine ⟨gone, hI.step (List.Subset.refl gone) (fun j g hj => by cases hj) hs, ?_⟩
            exact Nat.le_add_right_of_le hle
      · refine ⟨gone, hI.step (List.Subset.refl gone) ?_ hs, Nat.le_add_right_of_le hle⟩
        rintro i g rfl hg hpending
        cases hp : c.sys.procs[i]? with
        | none =>
            simp only [GuestSys.step, hp] at hs
            cases hs
        | some p =>
            obtain hexec | hgone := hI.waiting i g p hg hp hpending
            · rw [GuestSys.keepsCount, hp] at hkeeps
              exact absurd (inFlight_of_executes hexec) hkeeps
            · exact hgone

theorem inFlight_le
    (h : Run (GuestSys.step X) (.init nodeId maxTasks cacheMaxSize cacheTtl) ms c) :
    c.sys.procs.countP Proc.inFlight ≤ maxTasks := by
  obtain ⟨gone, hI, -⟩ := exists_guestInv h
  have hle : c.sys.procs.countP Proc.inFlight ≤ c.sys.procs.countP Proc.holdsPermit :=
    List.countP_mono_left fun p _ => holdsPermit_of_inFlight
  have hpermits := hI.permits
  rw [Sys.allPermits] at hpermits
  omega

theorem running_le
    (h : Run (GuestSys.step X) (.init nodeId maxTasks cacheMaxSize cacheTtl) ms c) :
    c.running ≤ maxTasks + kept X ms := by
  obtain ⟨gone, hI, hle⟩ := exists_guestInv h
  exact hI.running_le.trans (Nat.add_le_add_left hle maxTasks)

/-- What the node reports to the health check. -/
theorem health_le
    (h : Run (GuestSys.step X) (.init nodeId maxTasks cacheMaxSize cacheTtl) ms c) :
    c.sys.node.health.activeTasks.toNat ≤ maxTasks + kept X ms := by
  refine Nat.le_trans (Nat.mod_le _ _) ?_
  rw [(activeTasks_eq h).active]
  exact Nat.add_le_add_right (inFlight_le h) _

end FerroEdge.EdgeNode
