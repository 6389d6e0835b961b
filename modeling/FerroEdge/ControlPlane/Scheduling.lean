import FerroEdge.ControlPlane.Scheduler

/-!
# The scheduling decision

What `select_node_for_task` promises to a task that asks for a node.  It answers with a node
exactly when one is eligible.  The node is an eligible entry of the map, and under the
least-loaded strategy no eligible node has fewer active tasks.  Besides, it changes the cursor
of the round-robin strategy and the breakers whose cooldown is over.

Three places in the code can panic: two slice accesses of `select_least_loaded`, one of
`select_node_for_task`, and the remainders that compute their indices.
`selectNodeForTaskChecked` is the call with these panics, and `selectNodeForTaskChecked_eq`
says that none of them happens.
-/

namespace FerroEdge.ControlPlane

open Machine

/-! ## The call with its panics -/

inductive Panic where
  | indexOutOfBounds
  | remainderByZero
deriving DecidableEq, Repr

/-- The slice access `l[i]`. -/
def index {α : Type} (l : List α) (i : Nat) : Except Panic α :=
  match l[i]? with
  | some a => .ok a
  | none => .error .indexOutOfBounds

/-- The remainder `a % b`. -/
def remainder (a b : Nat) : Except Panic Nat :=
  if b = 0 then .error .remainderByZero else .ok (a % b)

/-- `select_least_loaded` with its panics. -/
def selectLeastLoadedChecked (nodes : HashMap String NodeInfo) (exclude : List String)
    (seed : Nat) : Except Panic (Option NodeInfo) :=
  let available := nodes.values.filter fun n =>
    n.healthy && decide (n.activeTasks < n.maxConcurrentTasks) && !exclude.contains n.id
  if available.isEmpty then .ok none
  else
    match (available.map NodeInfo.activeTasks).min? with
    | none => .ok none
    | some minTasks =>
        let tied := available.filter fun n => n.activeTasks == minTasks
        if tied.length = 1 then (index tied 0).map some
        else do
          let i ← remainder seed tied.length
          (index tied i).map some

/-- `select_node_for_task` with its panics. -/
def selectNodeForTaskChecked (now seed : Nat) (tried : List String) (st : AppState) :
    Except Panic (AppState × Option NodeInfo) :=
  let excluded := excludedNodes now tried st
  let st := st.probeBreakers now
  if st.schedulingStrategy = "least_loaded" then
    (selectLeastLoadedChecked st.nodes excluded seed).map (st, ·)
  else
    let candidates := st.nodes.values.filter fun n => n.healthy && !excluded.contains n.id
    if candidates.isEmpty then .ok (st, none)
    else do
      let idx ← remainder st.schedulerIndex candidates.length
      let node ← index candidates idx
      .ok ({ st with schedulerIndex := (st.schedulerIndex + 1) % 2 ^ 64 }, some node)

variable {now seed : Nat} {tried : List String} {st : AppState} {n : NodeInfo}

theorem index_of_lt {α : Type} {l : List α} {i : Nat} (h : i < l.length) :
    index l i = .ok l[i] := by
  rw [index, List.getElem?_eq_getElem h]

theorem remainder_of_pos {a b : Nat} (h : 0 < b) : remainder a b = .ok (a % b) :=
  if_neg (Nat.ne_of_gt h)

theorem selectLeastLoadedChecked_eq (nodes : HashMap String NodeInfo) (exclude : List String)
    (seed : Nat) :
    selectLeastLoadedChecked nodes exclude seed = .ok (selectLeastLoaded nodes exclude seed) := by
  unfold selectLeastLoadedChecked selectLeastLoaded
  generalize nodes.values.filter _ = available
  dsimp only
  split
  · rfl
  cases hmin : (available.map NodeInfo.activeTasks).min? with
  | none => rfl
  | some minTasks =>
      obtain ⟨m, hm, hk⟩ := List.mem_map.mp (List.min?_mem hmin)
      have htied : 0 < (available.filter fun n => n.activeTasks == minTasks).length :=
        List.length_pos_of_mem (List.mem_filter.mpr ⟨hm, by simpa using hk⟩)
      dsimp only
      split
      · rw [index_of_lt htied, List.getElem?_eq_getElem htied]
        rfl
      · have hlt := Nat.mod_lt seed htied
        rw [remainder_of_pos htied, List.getElem?_eq_getElem hlt]
        exact congrArg (Except.map some) (index_of_lt hlt)

/-- No index is out of bounds and no remainder is by zero. -/
theorem selectNodeForTaskChecked_eq (now seed : Nat) (tried : List String) (st : AppState) :
    selectNodeForTaskChecked now seed tried st = .ok (selectNodeForTask now seed tried st) := by
  unfold selectNodeForTaskChecked selectNodeForTask
  dsimp only
  split
  · rw [selectLeastLoadedChecked_eq]
    rfl
  · generalize List.filter _ (st.probeBreakers now).nodes.values = candidates
    split
    · rfl
    case isFalse hne =>
      have hpos : 0 < candidates.length := List.length_pos_iff.mpr (by simpa using hne)
      have hlt := Nat.mod_lt (st.probeBreakers now).schedulerIndex hpos
      rw [remainder_of_pos hpos, List.getElem?_eq_getElem hlt]
      exact congrArg (Except.map fun node => (_, some node)) (index_of_lt hlt)

/-! ## The decision -/

/-- A least-loaded pick has the fewest active tasks. -/
theorem selectLeastLoaded_le {nodes : HashMap String NodeInfo} {exclude : List String}
    {m : NodeInfo} (h : selectLeastLoaded nodes exclude seed = some n)
    (hm : m ∈ nodes.values.filter fun n => n.healthy &&
      decide (n.activeTasks < n.maxConcurrentTasks) && !exclude.contains n.id) :
    n.activeTasks ≤ m.activeTasks := by
  unfold selectLeastLoaded at h
  generalize nodes.values.filter _ = available at h hm
  dsimp only at h
  split at h
  · cases h
  cases hmin : (available.map NodeInfo.activeTasks).min? with
  | none => simp [hmin] at h
  | some minTasks =>
      have hn : n ∈ available.filter fun n => n.activeTasks == minTasks := by
        simp only [hmin] at h
        split at h <;> exact List.mem_of_getElem? h
      have heq : n.activeTasks = minTasks := by simpa using (List.mem_filter.mp hn).2
      rw [heq]
      exact (List.min?_eq_some_iff.mp hmin).2 _ (List.mem_map_of_mem hm)

/-- The cursor moves when the round-robin strategy hands out a node. -/
theorem selectNodeForTask_schedulerIndex (now seed : Nat) (tried : List String) (st : AppState) :
    (selectNodeForTask now seed tried st).1.schedulerIndex =
      if st.schedulingStrategy ≠ "least_loaded" ∧
          (selectNodeForTask now seed tried st).2.isSome
      then (st.schedulerIndex + 1) % 2 ^ 64 else st.schedulerIndex := by
  by_cases hs : st.schedulingStrategy = "least_loaded"
  · rw [if_neg (fun hand => hand.1 hs), selectNodeForTask,
      if_pos (show (st.probeBreakers now).schedulingStrategy = _ from hs)]
    rfl
  · rw [selectNodeForTask, if_neg (show (st.probeBreakers now).schedulingStrategy ≠ _ from hs)]
    generalize List.filter _ (st.probeBreakers now).nodes.values = candidates
    dsimp only
    split
    · exact (if_neg (fun hand => by cases hand.2)).symm
    case isFalse hne =>
      have hpos : 0 < candidates.length := List.length_pos_iff.mpr (by simpa using hne)
      have hlt := Nat.mod_lt (st.probeBreakers now).schedulerIndex hpos
      rw [List.getElem?_eq_getElem hlt, if_pos ⟨hs, rfl⟩]
      rfl

/-- The scheduling decision is sound, complete and framed. -/
theorem selectNodeForTask_spec (now seed : Nat) (tried : List String) (st : AppState)
    (hkeys : KeyedById st.nodes) :
    selectNodeForTaskChecked now seed tried st = .ok (selectNodeForTask now seed tried st) ∧
    ((selectNodeForTask now seed tried st).2.isSome ↔ ∃ n, Eligible now tried st n) ∧
    (∀ n, (selectNodeForTask now seed tried st).2 = some n →
      Eligible now tried st n ∧ st.nodes.lookup n.id = some n ∧
      (st.schedulingStrategy = "least_loaded" →
        ∀ m, Eligible now tried st m → n.activeTasks ≤ m.activeTasks)) ∧
    (selectNodeForTask now seed tried st).1 = { st with
      schedulerIndex :=
        if st.schedulingStrategy ≠ "least_loaded" ∧
          (selectNodeForTask now seed tried st).2.isSome
        then (st.schedulerIndex + 1) % 2 ^ 64 else st.schedulerIndex
      circuitBreakers := (selectNodeForTask now seed tried st).1.circuitBreakers } ∧
    ∀ id, (selectNodeForTask now seed tried st).1.circuitBreakers.lookup id =
      (st.circuitBreakers.lookup id).map fun cb =>
        if cb.state = .open ∧ cb.cooldown ≤ cb.elapsed now then { cb with state := .halfOpen }
        else cb := by
  refine ⟨selectNodeForTaskChecked_eq .., ⟨fun h => ?_, ?_⟩, fun n hn => ⟨?_, ?_, ?_⟩, ?_, ?_⟩
  · obtain ⟨n, hn⟩ := Option.isSome_iff_exists.mp h
    exact ⟨n, selectNodeForTask_sound hn⟩
  · rintro ⟨n, hn⟩
    exact Option.isSome_iff_exists.mpr (selectNodeForTask_complete seed hn)
  · exact selectNodeForTask_sound hn
  · obtain ⟨id, hid⟩ := HashMap.mem_values.mp (selectNodeForTask_sound hn).registered
    rw [hkeys id n hid]
    exact hid
  · intro hs m hm
    rw [selectNodeForTask_leastLoaded hs] at hn
    exact selectLeastLoaded_le hn ((mem_available hs).mpr hm)
  · rw [← selectNodeForTask_schedulerIndex]
    obtain ⟨k, hk⟩ := selectNodeForTask_fst now seed tried st
    rw [hk]
    rfl
  · intro id
    obtain ⟨k, hk⟩ := selectNodeForTask_fst now seed tried st
    rw [hk]
    simp only [lookup_probeBreakers, CircuitBreaker.allowRequest_snd]

/-- Two nodes of which the second has fewer active tasks, and a breaker that is open. -/
def unevenLoad : AppState :=
  { AppState.init "" "least_loaded" with
    nodes := (AList.insert "a" ⟨"a", "", "", 2, true, 10⟩ ∅).insert "b" ⟨"b", "", "", 1, true, 10⟩
    circuitBreakers := AList.insert "a" ⟨.open, 5, 5, some 0, 30⟩ ∅ }

theorem unevenLoad_spec :
    (∃ n, (selectNodeForTask 30 7 [] unevenLoad).2 = some n ∧ n.id = "b" ∧
      ∀ m, Eligible 30 [] unevenLoad m → n.activeTasks ≤ m.activeTasks) ∧
    ((selectNodeForTask 30 7 [] unevenLoad).1.circuitBreakers.lookup "a").map (·.state) =
      some .halfOpen := by
  have hnone : KeyedById ∅ := fun _ _ hn => by cases hn
  have hkeys : KeyedById unevenLoad.nodes :=
    (hnone.insert ⟨"a", "", "", 2, true, 10⟩).insert ⟨"b", "", "", 1, true, 10⟩
  obtain ⟨-, -, hnode, -, hbreakers⟩ := selectNodeForTask_spec 30 7 [] unevenLoad hkeys
  refine ⟨⟨_, rfl, rfl, (hnode _ rfl).2.2 rfl⟩, ?_⟩
  rw [hbreakers]
  rfl

end FerroEdge.ControlPlane
