import FerroEdge.ControlPlane.Breakers
import FerroEdge.ControlPlane.Scheduling
import FerroEdge.Machine.Cursor

/-!
# Round robin

All dispatches share one cursor.  While the candidates stay the same list, the selections go
round it, whichever dispatches make them and whatever else happens in between: `schedulerIndex`
moves with a selection and with nothing else.  `roundRobin_balanced` says so for whole runs.

The cursor wraps at `2 ^ 64`, which is a multiple of the number of candidates only by chance.
The result is about runs in which it does not wrap.
-/

namespace FerroEdge.ControlPlane

open Machine

/-- `select_node_excluded` of `scheduler/round_robin.rs`: the node and the index after it. -/
def selectNodeExcluded (nodes : HashMap String NodeInfo) (index : Nat) (exclude : List String) :
    Option NodeInfo × Nat :=
  let candidates := nodes.values.filter fun n => n.healthy && !exclude.contains n.id
  if candidates.isEmpty then (none, index)
  else (candidates[index % candidates.length]?, (index + 1) % 2 ^ 64)

/-- The nodes that the round-robin strategy picks from. -/
def candidates (now : Nat) (tried : List String) (st : AppState) : List NodeInfo :=
  st.nodes.values.filter fun n => n.healthy && !(excludedNodes now tried st).contains n.id

/-- The nodes that are selected in a run, in order. -/
def selections (ms : List (Move Sys Event)) : List NodeInfo :=
  ms.filterMap fun m => m.pre.selected m.ev

/-- The number of calls of `select_node_for_task` in a run. -/
def selectCalls (ms : List (Move Sys Event)) : Nat :=
  ms.countP fun m => (m.pre.selecting m.ev).isSome

variable {X : Externals} {now seed : Nat} {tried : List String} {st : AppState} {s t u : Sys}
  {e : Event} {ms : List (Move Sys Event)} {l : List NodeInfo}

/-- The round-robin branch of `select_node_for_task`. -/
theorem selectNodeForTask_excluded (hs : st.schedulingStrategy ≠ "least_loaded") :
    selectNodeForTask now seed tried st =
      ({ st.probeBreakers now with
          schedulerIndex :=
            (selectNodeExcluded st.nodes st.schedulerIndex (excludedNodes now tried st)).2 },
        (selectNodeExcluded st.nodes st.schedulerIndex (excludedNodes now tried st)).1) := by
  rw [selectNodeForTask, if_neg (show (st.probeBreakers now).schedulingStrategy ≠ _ from hs)]
  unfold selectNodeExcluded
  dsimp only [AppState.probeBreakers]
  split <;> rfl

/-- A call with candidates hands out the one under the cursor and moves the cursor. -/
theorem selectNodeForTask_candidates (seed : Nat) (hs : st.schedulingStrategy ≠ "least_loaded")
    (hc : candidates now tried st = l) (hl : l ≠ []) :
    (selectNodeForTask now seed tried st).2 = l[st.schedulerIndex % l.length]? ∧
    (selectNodeForTask now seed tried st).1.schedulerIndex = (st.schedulerIndex + 1) % 2 ^ 64 := by
  have hpick : selectNodeExcluded st.nodes st.schedulerIndex (excludedNodes now tried st) =
      (l[st.schedulerIndex % l.length]?, (st.schedulerIndex + 1) % 2 ^ 64) := by
    rw [selectNodeExcluded, ← candidates, hc]
    exact if_neg (by simpa using hl)
  rw [selectNodeForTask_excluded hs, hpick]
  exact ⟨rfl, rfl⟩

/-- The candidates are distinct, since their ids are. -/
theorem candidates_nodup (hkeys : KeyedById st.nodes) : (candidates now tried st).Nodup := by
  have hids : (st.nodes.values.map NodeInfo.id).Nodup := by
    rw [hkeys.map_id_values]
    exact st.nodes.keys_nodup
  exact (List.Nodup.of_map _ hids).filter _

/-! ## Steps -/

/-- No step changes the strategy, and the cursor stays unless a dispatch selects a node. -/
theorem Sys.Step.strategy (h : Sys.Step X s e t) :
    t.shared.app.schedulingStrategy = s.shared.app.schedulingStrategy ∧
    (s.selecting e = none → t.shared.app.schedulerIndex = s.shared.app.schedulerIndex) := by
  obtain hq | ⟨i, env, r, r', sh, rfl, hi, hrun, rfl⟩ := h.quiet_or_dispatch
  · rw [h.app_quiet hq]
    exact ⟨rfl, fun _ => rfl⟩
  · cases DispatchRun.step_inv hrun with
    | select hpc =>
        obtain ⟨k, hk⟩ := selectNodeForTask_fst s.now env.seed r.triedNodes s.shared.app
        dsimp only
        rw [Sys.selecting_run hi hpc, hk]
        exact ⟨rfl, nofun⟩
    | _ => exact ⟨rfl, fun _ => rfl⟩

/-- A step in which a dispatch selects a node. -/
theorem Sys.Step.select_inv {r : DispatchRun} (h : Sys.Step X s e t)
    (hr : s.selecting e = some r) :
    ∃ i env, e = .run i env ∧
      s.selected e = (selectNodeForTask s.now env.seed r.triedNodes s.shared.app).2 ∧
      t.shared.app = (selectNodeForTask s.now env.seed r.triedNodes s.shared.app).1 := by
  obtain ⟨hstepping, hpc⟩ := Option.filter_eq_some_iff.mp hr
  obtain hq | ⟨i, env, r', r'', sh, rfl, hi, hrun, rfl⟩ := h.quiet_or_dispatch
  · rw [hq] at hstepping
    cases hstepping
  · rw [Sys.stepping_run hi] at hstepping
    cases hstepping
    refine ⟨i, env, rfl, by rw [Sys.selected, hr]; rfl, ?_⟩
    rw [decide_eq_true_eq] at hpc
    simp only [DispatchRun.step, hpc] at hrun
    cases hrun
    rfl

/-! ## Runs -/

/-- What holds after the moves `ms` that start with the cursor at `start`. -/
structure Rotating (l : List NodeInfo) (start : Nat) (ms : List (Move Sys Event)) (s : Sys) :
    Prop where
  strategy : s.shared.app.schedulingStrategy ≠ "least_loaded"
  length : (selections ms).length = selectCalls ms
  cursor : start + selectCalls ms < 2 ^ 64 → s.shared.app.schedulerIndex = start + selectCalls ms
  rotates : Rotates l start (selections ms)

theorem selected_none (h : s.selecting e = none) : s.selected e = none := by
  cases e with
  | run i env => rw [Sys.selected, h]; rfl
  | _ => rfl

theorem Rotating.quiet {start : Nat} (hI : Rotating l start ms s) (h : Sys.Step X s e t)
    (hq : s.selecting e = none) : Rotating l start (ms ++ [⟨s, e, t⟩]) t := by
  have hcalls : selectCalls (ms ++ [⟨s, e, t⟩]) = selectCalls ms := by
    simp [selectCalls, List.countP_append, hq]
  have hsel : selections (ms ++ [⟨s, e, t⟩]) = selections ms := by
    simp [selections, selected_none hq]
  constructor
  · rw [h.strategy.1]
    exact hI.strategy
  · rw [hcalls, hsel]
    exact hI.length
  · rw [hcalls, h.strategy.2 hq]
    exact hI.cursor
  · rw [hsel]
    exact hI.rotates

theorem Rotating.select {start : Nat} {r : DispatchRun} (hI : Rotating l start ms s)
    (h : Sys.Step X s e t) (hr : s.selecting e = some r)
    (hc : candidates s.now r.triedNodes s.shared.app = l) (hl : l ≠ [])
    (hlt : start + selectCalls ms < 2 ^ 64) : Rotating l start (ms ++ [⟨s, e, t⟩]) t := by
  obtain ⟨i, env, rfl, hsel, happ⟩ := h.select_inv hr
  obtain ⟨hnode, hindex⟩ := selectNodeForTask_candidates env.seed hI.strategy hc hl
  rw [hI.cursor hlt] at hnode hindex
  have hpos : 0 < l.length := List.length_pos_iff.mpr hl
  obtain ⟨n, hn⟩ : ∃ n, l[(start + selectCalls ms) % l.length]? = some n :=
    ⟨_, List.getElem?_eq_getElem (Nat.mod_lt _ hpos)⟩
  have hcalls : selectCalls (ms ++ [⟨s, .run i env, t⟩]) = selectCalls ms + 1 := by
    simp [selectCalls, List.countP_append, hr]
  have hsels : selections (ms ++ [⟨s, .run i env, t⟩]) = selections ms ++ [n] := by
    simp [selections, hsel, hnode, hn]
  constructor
  · rw [h.strategy.1]
    exact hI.strategy
  · rw [hcalls, hsels, List.length_append, hI.length, List.length_singleton]
  · intro hlt'
    rw [hcalls] at hlt' ⊢
    rw [happ, hindex, Nat.mod_eq_of_lt (by omega)]
    omega
  · rw [hsels]
    exact hI.rotates.snoc (by rwa [hI.length])

theorem selectCalls_snoc_le (ms : List (Move Sys Event)) (m : Move Sys Event) :
    selectCalls ms ≤ selectCalls (ms ++ [m]) := by
  rw [selectCalls, selectCalls, List.countP_append]
  exact Nat.le_add_right _ _

/-- The selections of a run go round the candidates. -/
theorem rotating (h : Run (Sys.step X) s ms t)
    (hs : s.shared.app.schedulingStrategy ≠ "least_loaded") (hl : l ≠ [])
    (hcand : ∀ m ∈ ms, ∀ r ∈ m.pre.selecting m.ev,
      candidates m.pre.now r.triedNodes m.pre.shared.app = l)
    (hidx : s.shared.app.schedulerIndex + selectCalls ms ≤ 2 ^ 64) :
    Rotating l s.shared.app.schedulerIndex ms t := by
  induction h with
  | nil => exact ⟨hs, rfl, fun _ => rfl, .nil⟩
  | @snoc ms u v e hrun hstep ih =>
      have hle := selectCalls_snoc_le ms ⟨u, e, v⟩
      have hI := ih (fun m hm => hcand m (List.mem_append_left _ hm)) (by omega)
      cases hr : u.selecting e with
      | none => exact hI.quiet (Sys.step_inv hstep) hr
      | some r =>
          have hcalls : selectCalls (ms ++ [⟨u, e, v⟩]) = selectCalls ms + 1 := by
            simp [selectCalls, List.countP_append, hr]
          exact hI.select (Sys.step_inv hstep) hr (hcand ⟨u, e, v⟩ (by simp) r hr) hl (by omega)

/-- Round robin is balanced: while the candidates are the same distinct nodes, each is selected
as often as every other one, up to one selection, and a node is selected again only after all
the others. -/
theorem roundRobin_balanced (h : Run (Sys.step X) s ms t)
    (hs : s.shared.app.schedulingStrategy ≠ "least_loaded") (hl : l ≠ []) (hnodup : l.Nodup)
    (hcand : ∀ m ∈ ms, ∀ r ∈ m.pre.selecting m.ev,
      candidates m.pre.now r.triedNodes m.pre.shared.app = l)
    (hidx : s.shared.app.schedulerIndex + selectCalls ms ≤ 2 ^ 64) :
    (selections ms).length = selectCalls ms ∧
    (∀ n ∈ l, (selections ms).count n = selectCalls ms / l.length ∨
      (selections ms).count n = (selectCalls ms + l.length - 1) / l.length) ∧
    ∀ i, (((selections ms).drop i).take l.length).Nodup := by
  have hI := rotating h hs hl hcand hidx
  refine ⟨hI.length, fun n hn => ?_, fun i => hI.rotates.nodup_window hnodup i⟩
  rw [← hI.length]
  exact hI.rotates.count_eq hnodup hn

/-- Two nodes, and a cursor that is about to wrap. -/
def twoCandidates : Sys :=
  { Sys.init "" "round_robin" with
    shared.app.nodes := (AList.insert "a" ⟨"a", "", "", 0, true, 10⟩ ∅).insert "b"
      ⟨"b", "", "", 0, true, 10⟩
    shared.app.schedulerIndex := 2 ^ 64 - 3 }

/-- Three tasks are scheduled, the third before the second. -/
def threeScheduled : List Event :=
  .submitTask "a" "" .sample :: .submitTask "b" "" .sample :: .submitTask "c" "" .sample ::
  List.replicate 3 (.run 0 {}) ++ List.replicate 3 (.run 2 {}) ++ List.replicate 3 (.run 1 {})

theorem threeScheduled_balanced :
    ∃ s, Run (Sys.step .sample) twoCandidates
        (moves (Sys.step .sample) twoCandidates threeScheduled) s ∧
      (selections (moves (Sys.step .sample) twoCandidates threeScheduled)).length = 3 ∧
      ∀ i, (((selections (moves (Sys.step .sample) twoCandidates threeScheduled)).drop i).take
        2).Nodup := by
  have hnone : KeyedById ∅ := fun _ _ hn => by cases hn
  have hnodup : (candidates 0 [] twoCandidates.shared.app).Nodup :=
    candidates_nodup ((hnone.insert ⟨"a", "", "", 0, true, 10⟩).insert ⟨"b", "", "", 0, true, 10⟩)
  have htest : (exec (Sys.step .sample) twoCandidates threeScheduled).any (fun s =>
      s.procs.length == 3) = true := by decide
  obtain ⟨s, h, -⟩ := exec_any_run htest
  obtain ⟨hlen, -, hwindow⟩ := roundRobin_balanced h (by decide) (by decide) hnodup (by decide)
    (by decide)
  exact ⟨s, h, hlen, hwindow⟩

end FerroEdge.ControlPlane
