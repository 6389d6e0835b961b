import FerroEdge.ControlPlane.System

/-!
# One run of `dispatch_task` against its environment

The machine of the control plane interleaves all dispatches.  Here one of them is followed, and
the rest of the world is its environment.  There are two levels.

*Views.*  `stepIn` lets the run take a step in an arbitrary state of the control plane at an
arbitrary time.  Nothing relates the states of two steps, so whatever else happens in between is
covered: `dispatch_run` says that every dispatch of the control plane is such a run.

*Answers.*  `next` keeps of a view only what the run is told: the node that the scheduler
returns, the channel, the outcome of the RPC.  The scheduler may answer anything here, and a
sleep is over when the run is asked for its next step.  `stepIn_next` says that a step in a view
is a step with the answers that the view gives.

`Next` lists the steps of the second level by what they do to the local variables of the run.
-/

namespace FerroEdge.ControlPlane

open Machine

/-- The end of the sleep that a run is in. -/
def DispatchPc.wake : DispatchPc → Option Nat
  | .queueSleep wake | .backoff wake | .capacitySleep wake => some wake
  | _ => none

namespace DispatchRun

/-! ## Views -/

/-- What a run finds at a step. -/
structure View where
  now : Nat
  env : Env
  shared : Shared

def stepIn (X : Externals) (r : DispatchRun) (v : View) : Option DispatchRun :=
  (r.step X v.now v.env v.shared).map Prod.snd

/-! ## Answers -/

/-- What a run is told at a step. -/
structure Answers where
  now : Nat
  /-- The answer of `select_node_for_task`. -/
  selected : Option NodeInfo
  /-- The answer of `get_or_create`. -/
  channel : Except Status Channel
  /-- How the RPC in flight ended. -/
  rpc : Except Status ExecuteTaskResponse
  /-- The gauge that is read before it is decremented. -/
  queued : Nat

/-- The answers that a view gives to a run. -/
def answers (X : Externals) (r : DispatchRun) (v : View) : Answers where
  now := v.now
  selected := (selectNodeForTask v.now v.env.seed r.triedNodes v.shared.app).2
  channel :=
    match r.pc with
    | .lockPool node => (v.shared.pool.getOrCreate X node.id node.address).1
    | _ => .error ⟨.unavailable, ""⟩
  rpc := v.env.rpc
  queued := v.shared.app.queued

/-- The next step of a run that is told `a`, `none` when it has returned. -/
def next (X : Externals) (r : DispatchRun) (a : Answers) : Option DispatchRun :=
  match r.pc with
  | .submit => some { r with pc := .select }
  | .select => some (r.onSelect a.selected)
  | .enqueue => some { r with pc := .queueSleep (a.now + 10 ^ 9) }
  | .queueSleep _ => some { r with pc := .dequeueRead }
  | .dequeueRead => some { r with pc := .dequeueWrite (a.queued - 1) }
  | .dequeueWrite _ => some { r with pc := .select }
  | .countRetry node => some { r with pc := .clonePool node }
  | .clonePool node => some { r with pc := .lockPool node }
  | .lockPool node =>
      match a.channel with
      | .ok client => some { r with pc := .inFlight node client }
      | .error status => some (r.onResult X a.now node (.error status))
  | .inFlight node _ => some (r.onResult X a.now node a.rpc)
  | .recordSuccess node resp => some { r with pc := .storeSuccess node resp }
  | .recordFailure _ => some (r.afterFailure a.now)
  | .backoff _ | .capacitySleep _ => some { r with pc := .select }
  | .giveUp | .storeSuccess _ _ | .exhausted => some { r with pc := .done }
  | .done => none

/-- The result of `grpc_execute` that a run is told, and the node it was called for. -/
def outcome (r : DispatchRun) (a : Answers) :
    Option (NodeInfo × Except Status ExecuteTaskResponse) :=
  match r.pc with
  | .lockPool node =>
      match a.channel with
      | .ok _ => none
      | .error status => some (node, .error status)
  | .inFlight node _ => some (node, a.rpc)
  | _ => none

/-- The task has failed on the node, which is not offered it again. -/
def failed : Except Status ExecuteTaskResponse → Bool
  | .ok resp => !resp.success
  | .error status => status.code ≠ .resourceExhausted

/-- The node had no room for the task. -/
def atCapacity : Except Status ExecuteTaskResponse → Bool
  | .ok _ => false
  | .error status => status.code = .resourceExhausted

/-- The error text of a failure. -/
def failureText (X : Externals) : Except Status ExecuteTaskResponse → String
  | .ok resp => resp.error
  | .error status => X.statusText status

/-- The result that a run stores in its next step, and the id it stores it under. -/
def stores (r : DispatchRun) : Option (String × TaskResult) :=
  match r.pc with
  | .giveUp => some (r.spec.taskId, r.failedResult r.lastError)
  | .storeSuccess node resp => some (r.spec.taskId, r.successResult node resp)
  | .exhausted => some (r.spec.taskId, r.failedResult s!"All nodes failed: {r.lastError}")
  | _ => none

variable {X : Externals} {now : Nat} {env : Env} {sh sh' : Shared} {r r' : DispatchRun}
  {a : Answers} {v : View}

/-- A step in a view is a step with the answers of the view, and none while the run sleeps. -/
theorem stepIn_eq (X : Externals) (r : DispatchRun) (v : View) :
    r.stepIn X v =
      if ∀ wake ∈ r.pc.wake, wake ≤ v.now then r.next X (r.answers X v) else none := by
  cases hpc : r.pc with
  | queueSleep wake =>
      simp only [stepIn, step, next, hpc, DispatchPc.wake, Option.mem_some_iff, forall_eq']
      split <;> rfl
  | backoff wake =>
      simp only [stepIn, step, next, hpc, DispatchPc.wake, Option.mem_some_iff, forall_eq']
      split <;> rfl
  | capacitySleep wake =>
      simp only [stepIn, step, next, hpc, DispatchPc.wake, Option.mem_some_iff, forall_eq']
      split <;> rfl
  | lockPool node =>
      simp only [stepIn, step, next, answers, hpc, DispatchPc.wake]
      rcases v.shared.pool.getOrCreate X node.id node.address with ⟨_ | _, _⟩ <;> simp
  | _ => simp [stepIn, step, next, answers, hpc, DispatchPc.wake]

theorem stepIn_next (h : r.stepIn X v = some r') : r.next X (r.answers X v) = some r' := by
  rw [stepIn_eq] at h
  split at h
  · exact h
  · cases h

/-- The moves of a run, with what it was told in place of what it has found. -/
def told (X : Externals) (ms : List (Move DispatchRun View)) : List (Move DispatchRun Answers) :=
  ms.map fun m => ⟨m.pre, m.pre.answers X m.ev, m.post⟩

theorem told_run {r₀ : DispatchRun} {ms : List (Move DispatchRun View)}
    (h : Run (stepIn X) r₀ ms r) : Run (next X) r₀ (told X ms) r :=
  h.relabel (answers X) fun _ _ _ hs => stepIn_next hs

/-- A step writes to the task map what the run stores, and nothing else. -/
theorem step_tasks (h : r.step X now env sh = some (sh', r')) :
    (r.stores = none ∧ sh'.app.tasks = sh.app.tasks) ∨
    ∃ id result, r.stores = some (id, result) ∧
      sh'.app.tasks = sh.app.tasks.insert id result := by
  cases step_inv h with
  | select hpc =>
      obtain ⟨k, hk⟩ := selectNodeForTask_fst now env.seed r.triedNodes sh.app
      refine Or.inl ⟨by rw [stores, hpc], ?_⟩
      rw [hk]
      rfl
  | endSleep hpc => rcases hpc with hpc | hpc <;> simp [stores, hpc]
  | storeFailure hpc => rcases hpc with ⟨hpc, rfl⟩ | ⟨hpc, rfl⟩ <;> simp [stores, hpc]
  | submit hpc => simp [stores, hpc]
  | enqueue hpc => simp [stores, hpc]
  | endQueueSleep hpc => simp [stores, hpc]
  | dequeueRead hpc => simp [stores, hpc]
  | dequeueWrite hpc => simp [stores, hpc]
  | countRetry hpc => simp [stores, hpc]
  | clonePool hpc => simp [stores, hpc]
  | channel hpc => simp [stores, hpc]
  | noChannel hpc => simp [stores, hpc]
  | answer hpc => simp [stores, hpc]
  | recordSuccess hpc => simp [stores, hpc]
  | recordFailure hpc => simp [stores, hpc]
  | storeSuccess hpc => simp [stores, hpc]

/-! ## What a step with answers can be -/

/-- The steps that only go on to the next line. -/
inductive Advances : DispatchPc → DispatchPc → Prop where
  | submit : Advances .submit .select
  | endQueueSleep (wake : Nat) : Advances (.queueSleep wake) .dequeueRead
  | dequeueRead (queued : Nat) : Advances .dequeueRead (.dequeueWrite queued)
  | dequeueWrite (queued : Nat) : Advances (.dequeueWrite queued) .select
  | countRetry (node : NodeInfo) : Advances (.countRetry node) (.clonePool node)
  | clonePool (node : NodeInfo) : Advances (.clonePool node) (.lockPool node)
  | channel (node : NodeInfo) (client : Channel) :
      Advances (.lockPool node) (.inFlight node client)
  | recordSuccess (node : NodeInfo) (resp : ExecuteTaskResponse) :
      Advances (.recordSuccess node resp) (.storeSuccess node resp)
  | endBackoff (wake : Nat) : Advances (.backoff wake) .select
  | endCapacitySleep (wake : Nat) : Advances (.capacitySleep wake) .select

/-- The steps of a run by what they do to its local variables. -/
inductive Next (X : Externals) (r : DispatchRun) (a : Answers) : DispatchRun → Prop where
  | advance {pc : DispatchPc} :
      Advances r.pc pc → r.outcome a = none → Next X r a { r with pc := pc }
  | dispatch {node : NodeInfo} :
      r.pc = .select → a.selected = some node → r.errorRetries = 0 →
      Next X r a { r with pc := .clonePool node }
  | retry {node : NodeInfo} :
      r.pc = .select → a.selected = some node → 0 < r.errorRetries →
      Next X r a { r with pc := .countRetry node }
  | noNode :
      r.pc = .select → a.selected = none → r.noNodeCount < 3 →
      Next X r a { r with noNodeCount := r.noNodeCount + 1, pc := .enqueue }
  | giveUp :
      r.pc = .select → a.selected = none → 3 ≤ r.noNodeCount →
      Next X r a { r with
        noNodeCount := r.noNodeCount + 1, lastError := "no nodes available", pc := .giveUp }
  | enqueue : r.pc = .enqueue → Next X r a { r with pc := .queueSleep (a.now + 10 ^ 9) }
  | success {node : NodeInfo} {resp : ExecuteTaskResponse} :
      r.outcome a = some (node, .ok resp) → resp.success = true →
      Next X r a { r with pc := .recordSuccess node resp }
  | failure {node : NodeInfo} {result : Except Status ExecuteTaskResponse} :
      r.outcome a = some (node, result) → failed result = true →
      Next X r a (r.onFailure node (failureText X result))
  | capacityWait {node : NodeInfo} {result : Except Status ExecuteTaskResponse} :
      r.outcome a = some (node, result) → atCapacity result = true →
      r.capacityWaits < maxCapacityWaits →
      Next X r a { r with
        capacityWaits := r.capacityWaits + 1, pc := .capacitySleep (a.now + 100 * 10 ^ 6) }
  | noCapacity {node : NodeInfo} {result : Except Status ExecuteTaskResponse} :
      r.outcome a = some (node, result) → atCapacity result = true →
      maxCapacityWaits ≤ r.capacityWaits →
      Next X r a { r with
        capacityWaits := r.capacityWaits + 1
        lastError := "all nodes persistently at capacity"
        pc := .exhausted }
  | backoff {node : NodeInfo} :
      r.pc = .recordFailure node → r.errorRetries + 1 < maxAttempts →
      Next X r a { r with
        errorRetries := r.errorRetries + 1, pc := .backoff (a.now + ControlPlane.backoff) }
  | lastAttempt {node : NodeInfo} :
      r.pc = .recordFailure node → maxAttempts ≤ r.errorRetries + 1 →
      Next X r a { r with errorRetries := r.errorRetries + 1, pc := .exhausted }
  | store {result : TaskResult} :
      r.stores = some (r.spec.taskId, result) → Next X r a { r with pc := .done }

theorem next_select (hpc : r.pc = .select) : Next X r a (r.onSelect a.selected) := by
  cases hsel : a.selected with
  | some node =>
      rw [onSelect]
      split
      case isTrue hpos => exact .retry hpc hsel hpos
      case isFalse hzero => exact .dispatch hpc hsel (by omega)
  | none =>
      rw [onSelect]
      dsimp only
      split
      case isTrue hlt => exact .giveUp hpc hsel (by omega)
      case isFalse hle => exact .noNode hpc hsel (by omega)

theorem next_result {node : NodeInfo} {result : Except Status ExecuteTaskResponse}
    (h : r.outcome a = some (node, result)) : Next X r a (r.onResult X a.now node result) := by
  cases result with
  | ok resp =>
      rw [onResult]
      split
      case isTrue hs => exact .success h hs
      case isFalse hs => exact .failure h (by simpa [failed] using hs)
  | error status =>
      rw [onResult]
      dsimp only
      split
      case isTrue hcode =>
        split
        case isTrue hlt => exact .noCapacity h (by simpa [atCapacity] using hcode) (by omega)
        case isFalse hle => exact .capacityWait h (by simpa [atCapacity] using hcode) (by omega)
      case isFalse hcode => exact .failure h (by simpa [failed] using hcode)

theorem next_recordFailure {node : NodeInfo} (hpc : r.pc = .recordFailure node) :
    Next X r a (r.afterFailure a.now) := by
  rw [afterFailure]
  dsimp only
  split
  case isTrue hle => exact .lastAttempt hpc hle
  case isFalse hlt => exact .backoff hpc (by omega)

theorem next_inv (h : r.next X a = some r') : Next X r a r' := by
  unfold next at h
  split at h
  case h_1 hpc => cases h; exact .advance (hpc ▸ .submit) (by simp [outcome, hpc])
  case h_2 hpc => cases h; exact next_select hpc
  case h_3 hpc => cases h; exact .enqueue hpc
  case h_4 hpc => cases h; exact .advance (hpc ▸ .endQueueSleep _) (by simp [outcome, hpc])
  case h_5 hpc => cases h; exact .advance (hpc ▸ .dequeueRead _) (by simp [outcome, hpc])
  case h_6 hpc => cases h; exact .advance (hpc ▸ .dequeueWrite _) (by simp [outcome, hpc])
  case h_7 hpc => cases h; exact .advance (hpc ▸ .countRetry _) (by simp [outcome, hpc])
  case h_8 hpc => cases h; exact .advance (hpc ▸ .clonePool _) (by simp [outcome, hpc])
  case h_9 node hpc =>
    split at h <;> cases h
    case h_1 hch => exact .advance (hpc ▸ .channel _ _) (by simp [outcome, hpc, hch])
    case h_2 hch => exact next_result (by simp [outcome, hpc, hch])
  case h_10 hpc => cases h; exact next_result (by simp [outcome, hpc])
  case h_11 hpc => cases h; exact .advance (hpc ▸ .recordSuccess _ _) (by simp [outcome, hpc])
  case h_12 hpc => cases h; exact next_recordFailure hpc
  case h_13 hpc => cases h; exact .advance (hpc ▸ .endBackoff _) (by simp [outcome, hpc])
  case h_14 hpc => cases h; exact .advance (hpc ▸ .endCapacitySleep _) (by simp [outcome, hpc])
  case h_15 hpc => cases h; exact .store (by rw [stores, hpc])
  case h_16 hpc => cases h; exact .store (by rw [stores, hpc])
  case h_17 hpc => cases h; exact .store (by rw [stores, hpc])
  case h_18 => cases h

/-- A run that has not returned has a next step. -/
theorem next_isSome (X : Externals) (a : Answers) (h : r.pc ≠ .done) :
    ∃ r', r.next X a = some r' := by
  apply Option.isSome_iff_exists.mp
  cases hpc : r.pc with
  | done => exact absurd hpc h
  | lockPool node => cases hch : a.channel <;> simp [next, hpc, hch]
  | _ => simp [next, hpc]

end DispatchRun

/-! ## The dispatches of the control plane -/

/-- The step that the dispatch `i` takes in a move. -/
def viewOf (i : Nat) (m : Move Sys Event) : Option (Move DispatchRun DispatchRun.View) :=
  match m.ev, m.pre.procs[i]?, m.post.procs[i]? with
  | .run j env, some (.dispatch r), some (.dispatch r') =>
      if j = i then some ⟨r, ⟨m.pre.now, env, m.pre.shared⟩, r'⟩ else none
  | _, _, _ => none

/-- The steps of the dispatch `i` in a run. -/
def views (i : Nat) (ms : List (Move Sys Event)) : List (Move DispatchRun DispatchRun.View) :=
  ms.filterMap (viewOf i)

variable {X : Externals} {s t : Sys} {e : Event} {i : Nat} {ms : List (Move Sys Event)}
  {r r' : DispatchRun}

theorem views_snoc (i : Nat) (ms : List (Move Sys Event)) (m : Move Sys Event) :
    views i (ms ++ [m]) = views i ms ++ (viewOf i m).toList := by
  rw [views, views, List.filterMap_append]
  cases h : viewOf i m <;> simp [h]

/-- In a move that is no step of the dispatch `i`, it has no step. -/
theorem viewOf_none (h : ∀ env r, e = .run i env → s.procs[i]? ≠ some (.dispatch r)) :
    viewOf i ⟨s, e, t⟩ = none := by
  unfold viewOf
  split
  case h_1 j env r r' he hpre hpost =>
    rw [if_neg]
    rintro rfl
    exact h env r he hpre
  case h_2 => rfl

theorem viewOf_run {env : Env} (hpre : s.procs[i]? = some (.dispatch r))
    (hpost : t.procs[i]? = some (.dispatch r')) :
    viewOf i ⟨s, .run i env, t⟩ = some ⟨r, ⟨s.now, env, s.shared⟩, r'⟩ := by
  simp [viewOf, hpre, hpost]

/-- A step of the dispatch `i` in a step of the machine. -/
theorem Sys.Step.run_inv {env : Env} (h : Sys.Step X s (.run i env) t)
    (hr : s.procs[i]? = some (.dispatch r)) :
    ∃ r', r.step X s.now env s.shared = some (t.shared, r') ∧
      t.procs[i]? = some (.dispatch r') := by
  rcases h.quiet_or_dispatch with hq | ⟨j, env', r₁, r', sh, heq, hj, hrun, rfl⟩
  · rw [Sys.stepping_run hr] at hq
    cases hq
  · cases heq
    rw [hr] at hj
    cases hj
    exact ⟨r', hrun, getElem?_set_self hr⟩

/-- A dispatch of the control plane is a run of `dispatch_task` in some views, and a process
that is no dispatch has taken none of its steps. -/
theorem dispatch_run {s₀ : Sys} (h0 : s₀.procs = []) (h : Run (Sys.step X) s₀ ms t) (i : Nat) :
    (∀ r, t.procs[i]? = some (.dispatch r) →
      ∃ spec, Run (DispatchRun.stepIn X) (.new spec) (views i ms) r) ∧
    ((∀ r, t.procs[i]? ≠ some (.dispatch r)) → views i ms = []) := by
  induction h with
  | nil => exact ⟨fun r hr => by simp [h0] at hr, fun _ => rfl⟩
  | @snoc ms s t e _ hstep ih =>
      obtain ⟨ihrun, ihnone⟩ := ih
      have hinv := Sys.step_inv hstep
      rw [views_snoc]
      by_cases hact : ∃ env r, e = .run i env ∧ s.procs[i]? = some (.dispatch r)
      · obtain ⟨env, r, rfl, hr⟩ := hact
        obtain ⟨r', hrun, hr'⟩ := hinv.run_inv hr
        refine ⟨fun r₁ hr₁ => ?_, fun hnot => absurd hr' (hnot r')⟩
        rw [hr'] at hr₁
        cases hr₁
        obtain ⟨spec, hspec⟩ := ihrun r hr
        rw [viewOf_run hr hr']
        exact ⟨spec, hspec.snoc (by rw [DispatchRun.stepIn, hrun]; rfl)⟩
      · rw [viewOf_none fun env r he hr => hact ⟨env, r, he, hr⟩, Option.toList_none,
          List.append_nil]
        refine ⟨fun r hr => ?_, fun hnot => ihnone fun r hr => ?_⟩
        · rcases hinv.dispatch_inv hr with hold | ⟨spec, rfl, hnot⟩ | ⟨env, r₁, he, hold, -⟩
          · exact ihrun r hold
          · rw [ihnone hnot]
            exact ⟨spec, .nil⟩
          · exact absurd ⟨env, r₁, he, hold⟩ hact
        · refine hnot r (hinv.getElem?_frame (fun hi => ?_) hr)
          cases e with
          | run j env =>
              cases hi
              exact hact ⟨env, r, rfl, hr⟩
          | _ => cases hi

/-! ## Pieces of concrete runs -/

/-- The task of the concrete runs. -/
def TaskSpec.sample : TaskSpec := SubmitTaskRequest.sample.spec "t" "" [] (.wasmBytes [])

/-- Two nodes. -/
def DispatchRun.twoNodes : HashMap String NodeInfo :=
  (AList.insert "a" ⟨"a", "http://a:50051", "", 0, true, 10⟩ ∅).insert "b"
    ⟨"b", "http://b:50051", "", 0, true, 10⟩

/-- What a run finds in a control plane with two nodes, when its RPC ends with `rpc`. -/
def DispatchRun.viewAt (now : Nat) (rpc : Except Status ExecuteTaskResponse) : View where
  now := now
  env := { rpc := rpc }
  shared := { Shared.init "" "round_robin" with app.nodes := twoNodes }

end FerroEdge.ControlPlane
