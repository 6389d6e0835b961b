import FerroEdge.ControlPlane.DispatchLoop

/-!
# The retry budget of a dispatch

`dispatch_task` is two nested loops without a bound of their own.  Three counters that are never
reset end them: the answers without a node, the answers `ResourceExhausted` and the failures.
Whatever the scheduler and the nodes answer, every step lowers `DispatchRun.remaining`, which
weighs what is left of the three budgets and how far the run has come in its loop body.

`dispatch_terminates` says that every sequence of answers ends the run, within 33 RPCs, and that
the run stores one result.  The counters are tied to what has been answered so far by `Tally`.
-/

namespace FerroEdge.ControlPlane

open Machine

/-- The run has left its loops. -/
def DispatchPc.left : DispatchPc → Bool
  | .giveUp | .recordSuccess _ _ | .storeSuccess _ _ | .exhausted | .done => true
  | _ => false

/-- The run has been told of a failure that it has not counted yet. -/
def DispatchPc.charging : DispatchPc → Nat
  | .recordFailure _ => 1
  | _ => 0

/-- How far the run is from the end of its loop body. -/
def DispatchPc.rank : DispatchPc → Nat
  | .submit => 14
  | .enqueue => 13
  | .queueSleep _ => 12
  | .dequeueRead => 11
  | .dequeueWrite _ | .backoff _ | .capacitySleep _ => 10
  | .select => 9
  | .countRetry _ => 8
  | .clonePool _ => 7
  | .lockPool _ => 6
  | .inFlight _ _ => 5
  | .recordFailure _ => 4
  | .recordSuccess _ _ => 2
  | .storeSuccess _ _ | .giveUp | .exhausted => 1
  | .done => 0

namespace DispatchRun

/-- What is left of the three budgets of a run. -/
def budget (r : DispatchRun) : Nat :=
  (4 - r.noNodeCount) + (31 - r.capacityWaits) + (3 - r.errorRetries)

/-- What is left of the budgets of a run, and of the loop body it is in. -/
def remaining (r : DispatchRun) : Nat := 10 * r.budget + r.pc.rank

/-- The results of `grpc_execute` in a run, with the nodes it was called for. -/
def outcomes (ms : List (Move DispatchRun Answers)) :
    List (NodeInfo × Except Status ExecuteTaskResponse) :=
  ms.filterMap fun m => m.pre.outcome m.ev

/-- The number of times the scheduler has answered `None`. -/
def noNodes (ms : List (Move DispatchRun Answers)) : Nat :=
  ms.countP fun m => m.pre.pc = .select && m.ev.selected.isNone

/-- The number of times the run has been queued for a second. -/
def queueWaits (ms : List (Move DispatchRun Answers)) : Nat :=
  ms.countP fun m => m.pre.pc = .enqueue

/-- The results that a run has stored, with their ids. -/
def stored (ms : List (Move DispatchRun Answers)) : List (String × TaskResult) :=
  ms.filterMap fun m => m.pre.stores

variable {X : Externals} {spec : TaskSpec} {r r' : DispatchRun} {a : Answers}
  {ms : List (Move DispatchRun Answers)}

@[simp] theorem outcomes_snoc :
    outcomes (ms ++ [⟨r, a, r'⟩]) = outcomes ms ++ (r.outcome a).toList := by
  cases h : r.outcome a <;> simp [outcomes, h]

@[simp] theorem noNodes_snoc :
    noNodes (ms ++ [⟨r, a, r'⟩]) =
      noNodes ms + if r.pc = .select && a.selected.isNone then 1 else 0 := by
  simp [noNodes, List.countP_append, List.countP_cons]

@[simp] theorem queueWaits_snoc :
    queueWaits (ms ++ [⟨r, a, r'⟩]) = queueWaits ms + if r.pc = .enqueue then 1 else 0 := by
  simp [queueWaits, List.countP_append, List.countP_cons]

@[simp] theorem stored_snoc :
    stored (ms ++ [⟨r, a, r'⟩]) = stored ms ++ r.stores.toList := by
  cases h : r.stores <;> simp [stored, h]

/-! ## Where a run is when it is answered -/

/-- A run that is told a result is in its loop. -/
theorem pc_of_outcome {x : NodeInfo × Except Status ExecuteTaskResponse}
    (h : r.outcome a = some x) :
    (∃ node, r.pc = .lockPool node) ∨ ∃ node client, r.pc = .inFlight node client := by
  unfold outcome at h
  split at h
  case h_1 node hpc => exact .inl ⟨node, hpc⟩
  case h_2 node client hpc => exact .inr ⟨node, client, hpc⟩
  case h_3 => cases h

/-- A run that stores a result has left its loops. -/
theorem pc_of_stores {x : String × TaskResult} (h : r.stores = some x) :
    r.pc = .giveUp ∨ (∃ node resp, r.pc = .storeSuccess node resp) ∨ r.pc = .exhausted := by
  unfold stores at h
  split at h
  case h_1 hpc => exact .inl hpc
  case h_2 node resp hpc => exact .inr (.inl ⟨node, resp, hpc⟩)
  case h_3 hpc => exact .inr (.inr hpc)
  case h_4 => cases h

/-! ## The counters stay within their limits -/

/-- The counters of a run and their limits. -/
structure InBudget (r : DispatchRun) : Prop where
  loop : r.pc.left = false → r.noNodeCount ≤ 3 ∧ r.capacityWaits ≤ 30 ∧ r.errorRetries ≤ 2
  noNodes : r.noNodeCount ≤ 4
  capacityWaits : r.capacityWaits ≤ 31
  failures : r.errorRetries + r.pc.charging ≤ 3

theorem charging_le (pc : DispatchPc) : pc.charging ≤ 1 := by
  cases pc <;> simp [DispatchPc.charging]

/-- Where no budget is used up, the run may be anywhere. -/
theorem InBudget.of_loop
    (h : r.noNodeCount ≤ 3 ∧ r.capacityWaits ≤ 30 ∧ r.errorRetries ≤ 2) : InBudget r := by
  have hch := charging_le r.pc
  exact ⟨fun _ => h, by omega, by omega, by omega⟩

theorem InBudget.new (spec : TaskSpec) : InBudget (.new spec) :=
  .of_loop ⟨Nat.zero_le 3, Nat.zero_le 30, Nat.zero_le 2⟩

theorem Advances.frame {pc pc' : DispatchPc} (h : Advances pc pc') :
    pc'.left = pc.left ∧ pc.charging = 0 ∧ pc'.charging = 0 ∧ pc'.rank < pc.rank := by
  cases h <;> exact ⟨rfl, rfl, rfl, by simp [DispatchPc.rank]⟩

theorem Advances.ne {pc pc' : DispatchPc} (h : Advances pc pc') :
    pc ≠ .select ∧ pc ≠ .enqueue ∧ pc' ≠ .enqueue := by
  cases h <;> exact ⟨nofun, nofun, nofun⟩

theorem loop_of_outcome {x : NodeInfo × Except Status ExecuteTaskResponse}
    (h : r.outcome a = some x) : r.pc.left = false ∧ r.pc.charging = 0 ∧ 5 ≤ r.pc.rank := by
  rcases pc_of_outcome h with ⟨node, hpc⟩ | ⟨node, client, hpc⟩ <;> rw [hpc] <;>
    exact ⟨rfl, rfl, by simp [DispatchPc.rank]⟩

theorem left_of_stores {x : String × TaskResult} (h : r.stores = some x) :
    r.pc.left = true ∧ r.pc.charging = 0 ∧ 1 ≤ r.pc.rank := by
  rcases pc_of_stores h with hpc | ⟨node, resp, hpc⟩ | hpc <;> rw [hpc] <;>
    exact ⟨rfl, rfl, by simp [DispatchPc.rank]⟩

theorem loop_of_select (hpc : r.pc = .select) :
    r.pc.left = false ∧ r.pc.charging = 0 ∧ r.pc.rank = 9 := by
  rw [hpc]
  exact ⟨rfl, rfl, rfl⟩

theorem loop_of_recordFailure {node : NodeInfo} (hpc : r.pc = .recordFailure node) :
    r.pc.left = false ∧ r.pc.charging = 1 ∧ r.pc.rank = 4 := by
  rw [hpc]
  exact ⟨rfl, rfl, rfl⟩

theorem InBudget.step (hI : InBudget r) (h : Next X r a r') : InBudget r' := by
  obtain ⟨hloop, hnone, hcap, hfail⟩ := hI
  cases h with
  | advance hadv =>
      obtain ⟨hleft, hch, hch', -⟩ := hadv.frame
      exact ⟨fun hl => hloop (hleft ▸ hl), hnone, hcap, by dsimp only; omega⟩
  | dispatch hpc => exact .of_loop (hloop (loop_of_select hpc).1)
  | retry hpc => exact .of_loop (hloop (loop_of_select hpc).1)
  | noNode hpc _ hlt =>
      obtain ⟨-, hwaits, herr⟩ := hloop (loop_of_select hpc).1
      exact .of_loop ⟨hlt, hwaits, herr⟩
  | giveUp hpc =>
      obtain ⟨hnone', -, herr⟩ := hloop (loop_of_select hpc).1
      exact ⟨nofun, Nat.succ_le_succ hnone', hcap, Nat.le_succ_of_le herr⟩
  | enqueue hpc => exact .of_loop (hloop (by rw [hpc]; rfl))
  | success hout => exact .of_loop (hloop (loop_of_outcome hout).1)
  | failure hout => exact .of_loop (hloop (loop_of_outcome hout).1)
  | capacityWait hout _ hlt =>
      obtain ⟨hnone', -, herr⟩ := hloop (loop_of_outcome hout).1
      exact .of_loop ⟨hnone', hlt, herr⟩
  | noCapacity hout =>
      obtain ⟨-, hwaits, herr⟩ := hloop (loop_of_outcome hout).1
      exact ⟨nofun, hnone, Nat.succ_le_succ hwaits, Nat.le_succ_of_le herr⟩
  | backoff hpc hlt =>
      obtain ⟨hnone', hwaits, -⟩ := hloop (loop_of_recordFailure hpc).1
      exact .of_loop ⟨hnone', hwaits, Nat.le_of_lt_succ hlt⟩
  | lastAttempt hpc =>
      obtain ⟨-, -, herr⟩ := hloop (loop_of_recordFailure hpc).1
      exact ⟨nofun, hnone, hcap, Nat.succ_le_succ herr⟩
  | store hst =>
      obtain ⟨-, hch, -⟩ := left_of_stores hst
      rw [hch] at hfail
      exact ⟨nofun, hnone, hcap, hfail⟩

theorem remaining_lt_of_rank (hbudget : r'.budget ≤ r.budget) (hrank : r'.pc.rank < r.pc.rank) :
    r'.remaining < r.remaining := by
  unfold remaining
  omega

theorem remaining_lt_of_budget (hbudget : r'.budget < r.budget)
    (hrank : r'.pc.rank < r.pc.rank + 10) : r'.remaining < r.remaining := by
  unfold remaining
  omega

/-- Every step uses up something: a part of a budget, or a part of the loop body. -/
theorem InBudget.remaining_lt (hI : InBudget r) (h : Next X r a r') :
    r'.remaining < r.remaining := by
  cases h with
  | advance hadv =>
      obtain ⟨-, -, -, hrank⟩ := hadv.frame
      exact remaining_lt_of_rank (Nat.le_refl r.budget) hrank
  | dispatch hpc =>
      obtain ⟨-, -, hrank⟩ := loop_of_select hpc
      exact remaining_lt_of_rank (Nat.le_refl r.budget) (show 7 < r.pc.rank by omega)
  | retry hpc =>
      obtain ⟨-, -, hrank⟩ := loop_of_select hpc
      exact remaining_lt_of_rank (Nat.le_refl r.budget) (show 8 < r.pc.rank by omega)
  | noNode hpc _ hlt =>
      obtain ⟨-, -, hrank⟩ := loop_of_select hpc
      refine remaining_lt_of_budget ?_ (show 13 < r.pc.rank + 10 by omega)
      simp only [budget]
      omega
  | giveUp hpc =>
      obtain ⟨-, -, hrank⟩ := loop_of_select hpc
      refine remaining_lt_of_rank ?_ (show 1 < r.pc.rank by omega)
      simp only [budget]
      omega
  | enqueue hpc =>
      refine remaining_lt_of_rank (Nat.le_refl r.budget) ?_
      rw [hpc]
      exact Nat.lt_succ_self 12
  | success hout =>
      obtain ⟨-, -, hrank⟩ := loop_of_outcome hout
      exact remaining_lt_of_rank (Nat.le_refl r.budget) (show 2 < r.pc.rank by omega)
  | failure hout =>
      obtain ⟨-, -, hrank⟩ := loop_of_outcome hout
      exact remaining_lt_of_rank (Nat.le_refl r.budget) (show 4 < r.pc.rank by omega)
  | capacityWait hout =>
      obtain ⟨hleft, -, hrank⟩ := loop_of_outcome hout
      obtain ⟨-, hwaits, -⟩ := hI.loop hleft
      refine remaining_lt_of_budget ?_ (show 10 < r.pc.rank + 10 by omega)
      simp only [budget]
      omega
  | noCapacity hout =>
      obtain ⟨-, -, hrank⟩ := loop_of_outcome hout
      refine remaining_lt_of_rank ?_ (show 1 < r.pc.rank by omega)
      simp only [budget]
      omega
  | backoff hpc =>
      obtain ⟨hleft, -, hrank⟩ := loop_of_recordFailure hpc
      obtain ⟨-, -, herr⟩ := hI.loop hleft
      refine remaining_lt_of_budget ?_ (show 10 < r.pc.rank + 10 by omega)
      simp only [budget]
      omega
  | lastAttempt hpc =>
      obtain ⟨-, -, hrank⟩ := loop_of_recordFailure hpc
      refine remaining_lt_of_rank ?_ (show 1 < r.pc.rank by omega)
      simp only [budget]
      omega
  | store hst =>
      obtain ⟨-, -, hrank⟩ := left_of_stores hst
      exact remaining_lt_of_rank (Nat.le_refl r.budget) hrank

/-! ## What has been answered -/

/-- The counters of a run are the numbers of the answers it was given. -/
structure Tally (ms : List (Move DispatchRun Answers)) (r : DispatchRun) : Prop where
  noNode : noNodes ms = r.noNodeCount
  waits : queueWaits ms + (if r.pc = .enqueue then 1 else 0) = min r.noNodeCount 3
  capacity : (outcomes ms).countP (fun x => atCapacity x.2) = r.capacityWaits
  failures : (outcomes ms).countP (fun x => failed x.2) = r.errorRetries + r.pc.charging
  rpcs : r.pc.left = false →
    (outcomes ms).length = r.capacityWaits + r.errorRetries + r.pc.charging
  rpcs_le : (outcomes ms).length ≤ 33

theorem Tally.new (spec : TaskSpec) : Tally [] (.new spec) :=
  ⟨rfl, rfl, rfl, rfl, fun _ => rfl, Nat.zero_le 33⟩

/-- A step in which the run is told the result of no RPC. -/
theorem Tally.quiet (hT : Tally ms r) (hout : r.outcome a = none)
    (hnone' : r'.noNodeCount =
      r.noNodeCount + if r.pc = .select ∧ a.selected = none then 1 else 0)
    (hwaits' : min r.noNodeCount 3 + (if r'.pc = .enqueue then 1 else 0) = min r'.noNodeCount 3)
    (hcap' : r'.capacityWaits = r.capacityWaits)
    (hfail' : r'.errorRetries + r'.pc.charging = r.errorRetries + r.pc.charging)
    (hloop' : r'.pc.left = false → r.pc.left = false) : Tally (ms ++ [⟨r, a, r'⟩]) r' := by
  obtain ⟨hnone, hwaits, hcap, hfail, hrpcs, hle⟩ := hT
  constructor
  · simp [hnone, hnone']
  · rw [queueWaits_snoc, hwaits, hwaits']
  · simpa [hout, hcap'] using hcap
  · simpa [hout, hfail'] using hfail
  · intro hl
    have hlen := hrpcs (hloop' hl)
    simp only [outcomes_snoc, hout, Option.toList_none, List.append_nil]
    omega
  · simpa [hout] using hle

theorem atCapacity_of_failed {result : Except Status ExecuteTaskResponse}
    (h : failed result = true) : atCapacity result = false := by
  cases result with
  | ok resp => rfl
  | error status => simpa [failed, atCapacity] using h

theorem failed_of_atCapacity {result : Except Status ExecuteTaskResponse}
    (h : atCapacity result = true) : failed result = false := by
  cases result with
  | ok resp => cases h
  | error status => simpa [failed, atCapacity] using h

/-- A step in which the run is told the result of an RPC. -/
theorem Tally.result {node : NodeInfo} {result : Except Status ExecuteTaskResponse}
    (hT : Tally ms r) (hI : InBudget r) (hout : r.outcome a = some (node, result))
    (hnone' : r'.noNodeCount = r.noNodeCount) (henq' : r'.pc ≠ .enqueue)
    (hcap' : r'.capacityWaits = r.capacityWaits + if atCapacity result then 1 else 0)
    (hfail' : r'.errorRetries + r'.pc.charging = r.errorRetries + if failed result then 1 else 0)
    (hloop' : r'.pc.left = false → atCapacity result = true ∨ failed result = true) :
    Tally (ms ++ [⟨r, a, r'⟩]) r' := by
  obtain ⟨hnone, hqueue, hcap, hfail, hrpcs, hle⟩ := hT
  obtain ⟨hleft, hch, -⟩ := loop_of_outcome hout
  obtain ⟨-, hwaits, herr⟩ := hI.loop hleft
  have hlen := hrpcs hleft
  have hsel : r.pc ≠ .select := by
    rcases pc_of_outcome hout with ⟨_, hpc⟩ | ⟨_, _, hpc⟩ <;> rw [hpc] <;> nofun
  have henq : r.pc ≠ .enqueue := by
    rcases pc_of_outcome hout with ⟨_, hpc⟩ | ⟨_, _, hpc⟩ <;> rw [hpc] <;> nofun
  rw [hch, Nat.add_zero] at hfail hlen
  rw [if_neg henq] at hqueue
  constructor
  · simpa [hsel, hnone'] using hnone
  · simpa [henq, henq', hnone'] using hqueue
  · simp [hout, List.countP_append, List.countP_cons, hcap, hcap']
  · simp [hout, List.countP_append, List.countP_cons, hfail, hfail']
  · intro hl
    -- The result is counted once: as a failure or as a node at capacity.
    rcases hloop' hl with hat | hf
    · rw [if_pos hat] at hcap'
      rw [if_neg (by simp [failed_of_atCapacity hat])] at hfail'
      simp [hout, hlen]
      omega
    · rw [if_pos hf] at hfail'
      rw [if_neg (by simp [atCapacity_of_failed hf])] at hcap'
      simp [hout, hlen]
      omega
  · simp [hout, hlen]
    omega

theorem Tally.step (hT : Tally ms r) (hI : InBudget r) (h : Next X r a r') :
    Tally (ms ++ [⟨r, a, r'⟩]) r' := by
  cases h with
  | advance hadv hout =>
      obtain ⟨hleft, hch, hch', -⟩ := hadv.frame
      obtain ⟨hsel, henq, henq'⟩ := hadv.ne
      refine hT.quiet hout (by simp [hsel]) (by simp [henq']) rfl ?_ fun hl => hleft ▸ hl
      rw [hch, hch']
  | dispatch hpc hnode =>
      exact hT.quiet (by simp [outcome, hpc]) (by simp [hnode]) rfl rfl (by rw [hpc]; rfl)
        fun _ => (loop_of_select hpc).1
  | retry hpc hnode =>
      exact hT.quiet (by simp [outcome, hpc]) (by simp [hnode]) rfl rfl (by rw [hpc]; rfl)
        fun _ => (loop_of_select hpc).1
  | noNode hpc hnone hlt =>
      refine hT.quiet (by simp [outcome, hpc]) (by simp [hpc, hnone]) ?_ rfl (by rw [hpc]; rfl)
        fun _ => (loop_of_select hpc).1
      simp only [if_true]
      omega
  | giveUp hpc hnone hle =>
      refine hT.quiet (by simp [outcome, hpc]) (by simp [hpc, hnone]) ?_ rfl (by rw [hpc]; rfl)
        (by rintro ⟨⟩)
      simp only [reduceCtorEq, if_false]
      omega
  | enqueue hpc =>
      exact hT.quiet (by simp [outcome, hpc]) (by simp [hpc]) rfl rfl (by rw [hpc]; rfl)
        fun _ => by rw [hpc]; rfl
  | backoff hpc =>
      exact hT.quiet (by simp [outcome, hpc]) (by simp [hpc]) rfl rfl (by rw [hpc]; rfl)
        fun _ => (loop_of_recordFailure hpc).1
  | lastAttempt hpc =>
      exact hT.quiet (by simp [outcome, hpc]) (by simp [hpc]) rfl rfl (by rw [hpc]; rfl)
        (by rintro ⟨⟩)
  | store hst =>
      rcases pc_of_stores hst with hpc | ⟨_, _, hpc⟩ | hpc <;>
        exact hT.quiet (by simp [outcome, hpc]) (by simp [hpc]) rfl rfl (by rw [hpc]; rfl)
          (by rintro ⟨⟩)
  | success hout hs =>
      refine hT.result hI hout rfl (by rintro ⟨⟩) rfl ?_ (by rintro ⟨⟩)
      simp [failed, hs, DispatchPc.charging]
  | failure hout hf =>
      refine hT.result hI hout rfl (by rintro ⟨⟩) ?_ ?_ fun _ => .inr hf
      · simp [onFailure, atCapacity_of_failed hf]
      · simp [onFailure, hf, DispatchPc.charging]
  | capacityWait hout hat =>
      refine hT.result hI hout rfl (by rintro ⟨⟩) ?_ ?_ fun _ => .inl hat
      · simp [hat]
      · simp [failed_of_atCapacity hat, DispatchPc.charging]
  | noCapacity hout hat =>
      refine hT.result hI hout rfl (by rintro ⟨⟩) ?_ ?_ (by rintro ⟨⟩)
      · simp [hat]
      · simp [failed_of_atCapacity hat, DispatchPc.charging]

/-! ## What is stored -/

/-- A run has stored its result when it has returned, and nothing before. -/
structure StoresOnce (spec : TaskSpec) (ms : List (Move DispatchRun Answers)) (r : DispatchRun) :
    Prop where
  task : r.spec = spec
  none : r.pc ≠ .done → stored ms = []
  one : r.pc = .done → ∃ v, stored ms = [(spec.taskId, v)] ∧ v.taskId = spec.taskId

theorem Next.keeps_spec (h : Next X r a r') : r'.spec = r.spec := by
  cases h <;> rfl

theorem taskId_of_stores {id : String} {v : TaskResult} (h : r.stores = some (id, v)) :
    v.taskId = r.spec.taskId := by
  unfold stores at h
  split at h <;> cases h <;> rfl

/-- The step that stores the result is the one that returns. -/
theorem Next.stores_iff (h : Next X r a r') :
    r.pc ≠ .done ∧ (r'.pc = .done ∧ (∃ v, r.stores = some (r.spec.taskId, v)) ∨
      r'.pc ≠ .done ∧ r.stores = none) := by
  have hin : ∀ x, r.outcome a = some x → r.pc ≠ .done ∧ r.stores = none := by
    intro x hout
    rcases pc_of_outcome hout with ⟨_, hpc⟩ | ⟨_, _, hpc⟩ <;> simp [stores, hpc]
  cases h with
  | advance hadv =>
      generalize hpc : r.pc = pc at hadv
      cases hadv <;> simp [stores, hpc]
  | store hst =>
      refine ⟨?_, .inl ⟨rfl, _, hst⟩⟩
      rcases pc_of_stores hst with hpc | ⟨_, _, hpc⟩ | hpc <;> simp [hpc]
  | success hout => exact ⟨(hin _ hout).1, .inr ⟨by rintro ⟨⟩, (hin _ hout).2⟩⟩
  | failure hout => exact ⟨(hin _ hout).1, .inr ⟨by rintro ⟨⟩, (hin _ hout).2⟩⟩
  | capacityWait hout => exact ⟨(hin _ hout).1, .inr ⟨by rintro ⟨⟩, (hin _ hout).2⟩⟩
  | noCapacity hout => exact ⟨(hin _ hout).1, .inr ⟨by rintro ⟨⟩, (hin _ hout).2⟩⟩
  | dispatch hpc => simp [stores, hpc]
  | retry hpc => simp [stores, hpc]
  | noNode hpc => simp [stores, hpc]
  | giveUp hpc => simp [stores, hpc]
  | enqueue hpc => simp [stores, hpc]
  | backoff hpc => simp [stores, hpc]
  | lastAttempt hpc => simp [stores, hpc]

theorem StoresOnce.step (hS : StoresOnce spec ms r) (h : Next X r a r') :
    StoresOnce spec (ms ++ [⟨r, a, r'⟩]) r' := by
  have htask := h.keeps_spec.trans hS.task
  obtain ⟨hdone, ⟨hdone', v, hst⟩ | ⟨hdone', hst⟩⟩ := h.stores_iff
  · refine ⟨htask, fun hne => absurd hdone' hne, fun _ => ⟨v, ?_, ?_⟩⟩
    · simp [hS.none hdone, hst, hS.task]
    · rw [← hS.task]
      exact taskId_of_stores hst
  · refine ⟨htask, fun _ => ?_, fun hd => absurd hd hdone'⟩
    simp [hS.none hdone, hst]

/-! ## Runs -/

theorem inBudget {ms : List (Move DispatchRun Answers)} (h : Run (next X) (.new spec) ms r) :
    InBudget r :=
  h.always (.new spec) fun _ _ _ hI hs => hI.step (next_inv hs)

/-- The counters and the results along a run. -/
theorem tally (h : Run (next X) (.new spec) ms r) : Tally ms r ∧ StoresOnce spec ms r := by
  induction h with
  | nil => exact ⟨.new spec, rfl, fun _ => rfl, nofun⟩
  | snoc hrun hs ih =>
      obtain ⟨hT, hS⟩ := ih
      exact ⟨hT.step (inBudget hrun) (next_inv hs), hS.step (next_inv hs)⟩

/-- Whatever the scheduler and the nodes answer, the run ends within its budget, and it has
stored one result, under the task id that it returns. -/
theorem dispatch_terminates (X : Externals) (spec : TaskSpec) (told : Nat → Answers) :
    ∃ n ≤ 394, ∃ r, exec (next X) (.new spec) ((List.range n).map told) = some r ∧
      r.pc = .done ∧ (Proc.dispatch r).returned? = some spec.taskId ∧
      ∃ ms, ms = moves (next X) (.new spec) ((List.range n).map told) ∧
        (outcomes ms).length ≤ 33 ∧
        (outcomes ms).countP (fun x => failed x.2) ≤ 3 ∧
        (outcomes ms).countP (fun x => atCapacity x.2) ≤ 31 ∧
        noNodes ms ≤ 4 ∧ queueWaits ms ≤ 3 ∧
        ∃ v, stored ms = [(spec.taskId, v)] ∧ v.taskId = spec.taskId := by
  have hnext : ∀ (r : DispatchRun) (a : Answers), InBudget r → ¬ r.pc = .done →
      ∃ r', r.next X a = some r' ∧ InBudget r' ∧ r'.remaining < r.remaining := by
    intro r a hI hdone
    obtain ⟨r', hr'⟩ := next_isSome X a hdone
    exact ⟨r', hr', hI.step (next_inv hr'), hI.remaining_lt (next_inv hr')⟩
  obtain ⟨n, hn, r, hexec, hdone⟩ := exec_ends hnext told (InBudget.new spec)
  have hrun := exec_run hexec
  obtain ⟨hT, hS⟩ := tally hrun
  have hI := inBudget hrun
  refine ⟨n, hn, r, hexec, hdone, ?_, _, rfl, hT.rpcs_le, ?_, ?_, ?_, ?_, hS.one hdone⟩
  · rw [Proc.returned?, if_pos hdone, hS.task]
  · rw [hT.failures]
    exact hI.failures
  · rw [hT.capacity]
    exact hI.capacityWaits
  · rw [hT.noNode]
    exact hI.noNodes
  · have hwaits := hT.waits
    omega

end DispatchRun

end FerroEdge.ControlPlane
