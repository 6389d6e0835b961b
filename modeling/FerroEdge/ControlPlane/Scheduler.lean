import FerroEdge.ControlPlane.State

/-!
# Choosing a node

`select_node_for_task` of `api/handlers.rs` with the two strategies it chooses between.  It
asks every circuit breaker whether it lets a request through, which moves breakers whose
cooldown is over to half-open, and excludes the nodes of those that do not together with the
nodes the task has already tried.  Sets of node ids are lists that are used through
membership only.

`selectNodeForTask_sound` and `selectNodeForTask_complete` say that a node is returned
exactly when one is eligible, and that the node is eligible then.  `selectNodeForTask_fst`
says what else the call changes.
-/

namespace FerroEdge.ControlPlane

open Machine

/-- `select_least_loaded`.  `seed` is the sub-second part of the wall clock. -/
def selectLeastLoaded (nodes : HashMap String NodeInfo) (exclude : List String) (seed : Nat) :
    Option NodeInfo :=
  let available := nodes.values.filter fun n =>
    n.healthy && decide (n.activeTasks < n.maxConcurrentTasks) && !exclude.contains n.id
  if available.isEmpty then none
  else
    match (available.map NodeInfo.activeTasks).min? with
    | none => none
    | some minTasks =>
        let tied := available.filter fun n => n.activeTasks == minTasks
        if tied.length = 1 then tied[0]? else tied[seed % tied.length]?

/-- The loop over the breakers: `tried` with the ids of those that refuse a request. -/
def excludedNodes (now : Nat) (tried : List String) (st : AppState) : List String :=
  tried ++ (st.circuitBreakers.entries.filter fun e => !(e.2.allowRequest now).1).map (·.1)

/-- The loop over the breakers: what it leaves in the state. -/
def AppState.probeBreakers (now : Nat) (st : AppState) : AppState :=
  { st with circuitBreakers := st.circuitBreakers.mapValues fun cb => (cb.allowRequest now).2 }

/-- `select_node_for_task`. -/
def selectNodeForTask (now seed : Nat) (tried : List String) (st : AppState) :
    AppState × Option NodeInfo :=
  let excluded := excludedNodes now tried st
  let st := st.probeBreakers now
  if st.schedulingStrategy = "least_loaded" then
    (st, selectLeastLoaded st.nodes excluded seed)
  else
    let candidates := st.nodes.values.filter fun n => n.healthy && !excluded.contains n.id
    if candidates.isEmpty then (st, none)
    else
      let idx := st.schedulerIndex % candidates.length
      ({ st with schedulerIndex := (st.schedulerIndex + 1) % 2 ^ 64 }, candidates[idx]?)

/-! ## Eligible nodes -/

/-- A node the scheduler may hand to a task that has tried `tried`. -/
structure Eligible (now : Nat) (tried : List String) (st : AppState) (n : NodeInfo) : Prop where
  registered : n ∈ st.nodes.values
  healthy : n.healthy = true
  untried : n.id ∉ tried
  allowed : ∀ cb, st.circuitBreakers.lookup n.id = some cb → cb.Allows now
  headroom : st.schedulingStrategy = "least_loaded" → n.activeTasks < n.maxConcurrentTasks

instance (now : Nat) (tried : List String) (st : AppState) :
    DecidablePred (Eligible now tried st) := fun n =>
  decidable_of_iff
    (n ∈ st.nodes.values ∧ n.healthy = true ∧ n.id ∉ tried ∧
      (∀ cb ∈ st.circuitBreakers.lookup n.id, cb.Allows now) ∧
      (st.schedulingStrategy = "least_loaded" → n.activeTasks < n.maxConcurrentTasks))
    ⟨fun ⟨hr, hh, ht, ha, hl⟩ => ⟨hr, hh, ht, ha, hl⟩,
      fun h => ⟨h.registered, h.healthy, h.untried, h.allowed, h.headroom⟩⟩

instance (now : Nat) (tried : List String) (st : AppState) :
    Decidable (∃ n, Eligible now tried st n) :=
  decidable_of_iff (∃ n ∈ st.nodes.values, Eligible now tried st n)
    ⟨fun ⟨n, _, h⟩ => ⟨n, h⟩, fun ⟨n, h⟩ => ⟨n, h.registered, h⟩⟩

variable {now seed : Nat} {tried : List String} {st : AppState} {n : NodeInfo}

theorem mem_excludedNodes {id : String} :
    id ∈ excludedNodes now tried st ↔
      id ∈ tried ∨ ∃ cb, st.circuitBreakers.lookup id = some cb ∧ ¬ cb.Allows now := by
  rw [excludedNodes, List.mem_append, List.mem_map]
  refine or_congr_right ⟨?_, ?_⟩
  · rintro ⟨⟨k, cb⟩, hmem, rfl⟩
    obtain ⟨hin, hno⟩ := List.mem_filter.mp hmem
    refine ⟨cb, AList.mem_lookup_iff.mpr hin, fun hal => ?_⟩
    rw [CircuitBreaker.allowRequest_fst.mpr hal] at hno
    cases hno
  · rintro ⟨cb, hcb, hno⟩
    refine ⟨⟨id, cb⟩, List.mem_filter.mpr ⟨AList.mem_lookup_iff.mp hcb, ?_⟩, rfl⟩
    cases hb : (cb.allowRequest now).1 with
    | false => rfl
    | true => exact absurd (CircuitBreaker.allowRequest_fst.mp hb) hno

theorem contains_excludedNodes :
    (!(excludedNodes now tried st).contains n.id) = true ↔
      n.id ∉ tried ∧ ∀ cb, st.circuitBreakers.lookup n.id = some cb → cb.Allows now := by
  rw [Bool.not_eq_true', List.contains_eq_mem, decide_eq_false_iff_not, mem_excludedNodes]
  push Not
  rfl

/-- The nodes `select_least_loaded` picks from are the eligible ones. -/
theorem mem_available (hs : st.schedulingStrategy = "least_loaded") :
    n ∈ (st.nodes.values.filter fun n => n.healthy &&
        decide (n.activeTasks < n.maxConcurrentTasks) &&
        !(excludedNodes now tried st).contains n.id) ↔ Eligible now tried st n := by
  rw [List.mem_filter, Bool.and_eq_true, Bool.and_eq_true, decide_eq_true_eq,
    contains_excludedNodes]
  constructor
  · rintro ⟨hr, ⟨hh, hl⟩, ht, ha⟩
    exact ⟨hr, hh, ht, ha, fun _ => hl⟩
  · rintro ⟨hr, hh, ht, ha, hl⟩
    exact ⟨hr, ⟨hh, hl hs⟩, ht, ha⟩

/-- The nodes the round-robin strategy picks from are the eligible ones. -/
theorem mem_candidates (hs : st.schedulingStrategy ≠ "least_loaded") :
    n ∈ (st.nodes.values.filter fun n => n.healthy &&
        !(excludedNodes now tried st).contains n.id) ↔ Eligible now tried st n := by
  rw [List.mem_filter, Bool.and_eq_true, contains_excludedNodes]
  constructor
  · rintro ⟨hr, hh, ht, ha⟩
    exact ⟨hr, hh, ht, ha, fun h => absurd h hs⟩
  · rintro ⟨hr, hh, ht, ha, -⟩
    exact ⟨hr, hh, ht, ha⟩

/-! ## The least-loaded strategy -/

/-- A least-loaded pick is one of the available nodes. -/
theorem selectLeastLoaded_mem {nodes : HashMap String NodeInfo} {exclude : List String}
    (h : selectLeastLoaded nodes exclude seed = some n) :
    n ∈ nodes.values.filter fun n => n.healthy &&
      decide (n.activeTasks < n.maxConcurrentTasks) && !exclude.contains n.id := by
  unfold selectLeastLoaded at h
  dsimp only at h
  split at h
  · cases h
  · split at h
    · cases h
    · split at h
      · exact (List.mem_filter.mp (List.mem_of_getElem? h)).1
      · exact (List.mem_filter.mp (List.mem_of_getElem? h)).1

/-- When a node is available, one is picked: the tied nodes are never none, so the index is
in bounds. -/
theorem selectLeastLoaded_some {nodes : HashMap String NodeInfo} {exclude : List String}
    (h : n ∈ nodes.values.filter fun n => n.healthy &&
      decide (n.activeTasks < n.maxConcurrentTasks) && !exclude.contains n.id) :
    ∃ m, selectLeastLoaded nodes exclude seed = some m := by
  unfold selectLeastLoaded
  generalize hav : (nodes.values.filter fun n => n.healthy &&
    decide (n.activeTasks < n.maxConcurrentTasks) && !exclude.contains n.id) = available at h ⊢
  dsimp only
  have hne : available ≠ [] := List.ne_nil_of_mem h
  rw [if_neg (by simpa using hne)]
  cases hmin : (available.map NodeInfo.activeTasks).min? with
  | none => exact absurd (List.map_eq_nil_iff.mp (List.min?_eq_none_iff.mp hmin)) hne
  | some k =>
      obtain ⟨m, hm, hk⟩ := List.mem_map.mp (List.min?_mem hmin)
      have htied : 0 < (available.filter fun n => n.activeTasks == k).length :=
        List.length_pos_of_mem (List.mem_filter.mpr ⟨hm, by simpa using hk⟩)
      dsimp only
      split
      · exact ⟨_, List.getElem?_eq_getElem htied⟩
      · exact ⟨_, List.getElem?_eq_getElem (Nat.mod_lt _ htied)⟩

/-! ## The call -/

theorem selectNodeForTask_leastLoaded (hs : st.schedulingStrategy = "least_loaded") :
    (selectNodeForTask now seed tried st).2 =
      selectLeastLoaded st.nodes (excludedNodes now tried st) seed := by
  rw [selectNodeForTask, if_pos (show (st.probeBreakers now).schedulingStrategy = _ from hs)]
  rfl

theorem selectNodeForTask_roundRobin (hs : st.schedulingStrategy ≠ "least_loaded") :
    (selectNodeForTask now seed tried st).2 =
      let candidates := st.nodes.values.filter fun n =>
        n.healthy && !(excludedNodes now tried st).contains n.id
      if candidates.isEmpty then none else candidates[st.schedulerIndex % candidates.length]? := by
  rw [selectNodeForTask, if_neg (show (st.probeBreakers now).schedulingStrategy ≠ _ from hs)]
  dsimp only
  exact apply_ite Prod.snd _ _ _

/-- Only eligible nodes are handed out. -/
theorem selectNodeForTask_sound (h : (selectNodeForTask now seed tried st).2 = some n) :
    Eligible now tried st n := by
  by_cases hs : st.schedulingStrategy = "least_loaded"
  · rw [selectNodeForTask_leastLoaded hs] at h
    exact (mem_available hs).mp (selectLeastLoaded_mem h)
  · rw [selectNodeForTask_roundRobin hs] at h
    dsimp only at h
    split at h
    · cases h
    · exact (mem_candidates hs).mp (List.mem_of_getElem? h)

/-- When a node is eligible, one is handed out. -/
theorem selectNodeForTask_complete (seed : Nat) (h : Eligible now tried st n) :
    ∃ m, (selectNodeForTask now seed tried st).2 = some m := by
  by_cases hs : st.schedulingStrategy = "least_loaded"
  · rw [selectNodeForTask_leastLoaded hs]
    exact selectLeastLoaded_some ((mem_available hs).mpr h)
  · rw [selectNodeForTask_roundRobin hs]
    have hmem := (mem_candidates hs).mpr h
    rw [if_neg (by simpa using List.ne_nil_of_mem hmem)]
    exact ⟨_, List.getElem?_eq_getElem (Nat.mod_lt _ (List.length_pos_of_mem hmem))⟩

/-- The call changes the breakers as `allow_request` does and the cursor, and nothing else. -/
theorem selectNodeForTask_fst (now seed : Nat) (tried : List String) (st : AppState) :
    ∃ k, (selectNodeForTask now seed tried st).1 =
      { st.probeBreakers now with schedulerIndex := k } := by
  unfold selectNodeForTask
  dsimp only
  split
  · exact ⟨st.schedulerIndex, rfl⟩
  · split
    · exact ⟨st.schedulerIndex, rfl⟩
    · exact ⟨_, rfl⟩

theorem lookup_probeBreakers {id : String} :
    (st.probeBreakers now).circuitBreakers.lookup id =
      (st.circuitBreakers.lookup id).map fun cb => (cb.allowRequest now).2 :=
  HashMap.lookup_mapValues _

end FerroEdge.ControlPlane
