import FerroEdge.ControlPlane.HealthChecks

/-!
# What a health round leaves behind

A round that is not disturbed, by a registration or by another round, gives every registered
node the verdict of its own probe and sets the gauge to the number of healthy nodes.  Dispatches
and uploads may run in between, and the iteration order of the node map may change.

`RoundInv` is the invariant of the loop: the nodes already written about have their verdict,
the others are as they were, and together they are the nodes of the snapshot.
-/

namespace FerroEdge.ControlPlane

open Machine

/-- The move is neither a registration nor a step of a round other than `i`. -/
def Alone (i : Nat) (m : Move Sys Event) : Prop :=
  m.pre.registering m.ev = none ∧ ∀ h ∈ m.pre.checking m.ev, m.ev.actor = some i

instance (i : Nat) : DecidablePred (Alone i) := fun _ => instDecidableAnd

/-- The id that the round `i` probes in a move, and the outcome. -/
def probeOf (i : Nat) (m : Move Sys Event) : Option (String × Option HealthResponse) :=
  match m.ev with
  | .run j env =>
      match m.pre.procs[j]? with
      | some (.round (.probe ((nodeId, _) :: _) _)) =>
          if j = i then some (nodeId, env.probe) else none
      | _ => none
  | _ => none

/-- The probes of the round `i`. -/
def probes (i : Nat) (ms : List (Move Sys Event)) : List (String × Option HealthResponse) :=
  ms.filterMap (probeOf i)

/-- What a round has probed and not yet written. -/
def HealthRound.answered : HealthRound → List (String × Option HealthResponse)
  | .write nodeId _ outcome _ _ => [(nodeId, outcome)]
  | _ => []

/-- The healthy nodes that a round has counted. -/
def HealthRound.counted (sh : Shared) : HealthRound → Nat
  | .snapshot => 0
  | .probe _ healthyCount | .write _ _ _ _ healthyCount => healthyCount
  | .done => sh.healthyNodesGauge

theorem NodeInfo.probed_eq (outcome : Option HealthResponse) (n : NodeInfo) :
    NodeInfo.probed outcome n = { n with
      healthy := outcome.isSome
      activeTasks := (outcome.map fun resp => resp.activeTasks.toNat).getD n.activeTasks } := by
  cases outcome <;> rfl

variable {X : Externals} {env : Env} {i : Nat} {s t u : Sys} {e : Event} {h h' : HealthRound}
  {ns : List (Move Sys Event)} {written : List (String × Option HealthResponse)}

/-! ## What other processes leave alone -/

/-- The gauge is set by rounds only, and the nodes are written by registrations and verdicts. -/
theorem Proc.step_nodes {p p' : Proc} {sh : Shared} {new : Option DispatchRun}
    (hstep : p.step X env s = some (sh, p', new)) :
    ((∀ hr, p ≠ .round hr) → sh.healthyNodesGauge = s.shared.healthyNodesGauge) ∧
    (sh.app.nodes = s.shared.app.nodes ∨
      (∃ node, p = .register node ∧ sh.app.nodes = s.shared.app.nodes.insert node.id node) ∨
      ∃ nodeId address outcome nodes count,
        p = .round (.write nodeId address outcome nodes count) ∧
        sh.app.nodes = s.shared.app.nodes.modify nodeId (NodeInfo.probed outcome)) := by
  cases Proc.step_inv hstep with
  | dispatch hr =>
      exact ⟨fun _ => DispatchRun.step_healthyNodesGauge hr, Or.inl (DispatchRun.step_nodes hr)⟩
  | register node => exact ⟨fun _ => rfl, Or.inr (Or.inl ⟨node, rfl, rfl⟩)⟩
  | upload hu =>
      have happ := UploadRun.step_app hu
      refine ⟨fun _ => rfl, Or.inl ?_⟩
      dsimp only
      rw [happ]
  | write => exact ⟨fun _ => rfl, Or.inr (Or.inr ⟨_, _, _, _, _, rfl, rfl⟩)⟩
  | finish => exact ⟨fun hn => absurd rfl (hn _), Or.inl rfl⟩
  | _ => exact ⟨fun _ => rfl, Or.inl rfl⟩

/-- What a step does to the registered nodes: nothing, a registration, or a verdict. -/
theorem Sys.Step.nodes_cases (hs : Sys.Step X s e t) :
    (∀ id, t.shared.app.nodes.lookup id = s.shared.app.nodes.lookup id) ∨
    (∃ node, s.registering e = some node ∧
      t.shared.app.nodes = s.shared.app.nodes.insert node.id node) ∨
    ∃ nodeId address outcome nodes count,
      s.checking e = some (.write nodeId address outcome nodes count) ∧
      t.shared.app.nodes = s.shared.app.nodes.modify nodeId (NodeInfo.probed outcome) := by
  cases hs with
  | start => exact Or.inl fun _ => rfl
  | tick => exact Or.inl fun _ => rfl
  | rehash hperm => exact Or.inl fun _ => AList.perm_lookup hperm
  | dispatch _ hr => exact Or.inl fun _ => by rw [DispatchRun.step_nodes hr]
  | other hi _ hstep =>
      obtain ⟨-, hsame | ⟨node, rfl, hins⟩ | ⟨_, _, _, _, _, rfl, hmod⟩⟩ := Proc.step_nodes hstep
      · exact Or.inl fun _ => by rw [hsame]
      · exact Or.inr (Or.inl ⟨node, by simp [Sys.registering, hi], hins⟩)
      · exact Or.inr (Or.inr ⟨_, _, _, _, _, Sys.checking_run hi, hmod⟩)

/-- Without a registration and without a verdict, the registered nodes stay as they are. -/
theorem Sys.Step.nodes_frame (hs : Sys.Step X s e t) (hreg : s.registering e = none)
    (hw : s.writing e = none) (id : String) :
    t.shared.app.nodes.lookup id = s.shared.app.nodes.lookup id := by
  obtain hsame | ⟨node, hnode, -⟩ | ⟨_, _, _, _, _, hc, -⟩ := hs.nodes_cases
  · exact hsame id
  · rw [hreg] at hnode
    cases hnode
  · rw [Sys.writing, hc] at hw
    cases hw

/-- Without a step of a round, the gauge stays as it is. -/
theorem Sys.Step.gauge_frame (hs : Sys.Step X s e t) (hc : s.checking e = none) :
    t.shared.healthyNodesGauge = s.shared.healthyNodesGauge := by
  cases hs with
  | start => rfl
  | tick => rfl
  | rehash => rfl
  | dispatch _ hr => exact DispatchRun.step_healthyNodesGauge hr
  | other hi _ hstep =>
      refine (Proc.step_nodes hstep).1 ?_
      rintro hr rfl
      rw [Sys.checking_run hi] at hc
      cases hc

theorem Sys.writing_of_checking (hc : s.checking e = none) : s.writing e = none := by
  rw [Sys.writing, hc]

/-! ## The loop -/

/-- The round `i`, which has read the nodes of `s`, is at `h` after the moves `ns` and has
written about `written`. -/
structure RoundInv (i : Nat) (s : Sys) (ns : List (Move Sys Event)) (u : Sys) (h : HealthRound)
    (written : List (String × Option HealthResponse)) : Prop where
  round : u.procs[i]? = some (.round h)
  verdict : ∀ id outcome, (id, outcome) ∈ written →
    u.shared.app.nodes.lookup id =
      (s.shared.app.nodes.lookup id).map (NodeInfo.probed outcome)
  untouched : ∀ id, id ∉ written.map Prod.fst →
    u.shared.app.nodes.lookup id = s.shared.app.nodes.lookup id
  probed : probes i ns = written ++ h.answered
  start : h = .snapshot → written = []
  ids : h ≠ .snapshot →
    (written.map Prod.fst ++ h.outstanding.map Prod.fst).Perm s.shared.app.nodes.keys
  counted : h.counted u.shared = written.countP fun probe => probe.2.isSome

theorem probes_snoc (i : Nat) (ns : List (Move Sys Event)) (m : Move Sys Event) :
    probes i (ns ++ [m]) = probes i ns ++ (probeOf i m).toList := by
  rw [probes, List.filterMap_append]
  rfl

/-- A step of another process. -/
theorem RoundInv.other (hI : RoundInv i s ns u h written) (hs : Sys.Step X u e t)
    (hact : e.actor ≠ some i) (hreg : u.registering e = none) (hc : u.checking e = none) :
    RoundInv i s (ns ++ [⟨u, e, t⟩]) t h written := by
  have hnodes := hs.nodes_frame hreg (Sys.writing_of_checking hc)
  have hnone : probeOf i ⟨u, e, t⟩ = none := by
    unfold probeOf
    dsimp only
    split
    case h_1 j env =>
      split
      · exact if_neg fun hji => hact (congrArg some hji)
      · rfl
    case h_2 => rfl
  refine ⟨hs.getElem?_frame hact hI.round, ?_, ?_, ?_, hI.start, hI.ids, ?_⟩
  · intro id outcome hmem
    rw [hnodes id]
    exact hI.verdict id outcome hmem
  · intro id hmem
    rw [hnodes id]
    exact hI.untouched id hmem
  · rw [probes_snoc, hnone]
    simpa using hI.probed
  · rw [← hI.counted]
    cases h with
    | done => exact hs.gauge_frame hc
    | _ => rfl

/-- A step of the round is a step of `check_all_nodes`. -/
theorem Sys.Step.round_inv (hs : Sys.Step X u (.run i env) t)
    (hi : u.procs[i]? = some (.round h)) :
    ∃ sh h', h.step env u.shared = some (sh, h') ∧
      t = { u with shared := sh, procs := u.procs.set i (.round h') } := by
  cases hs with
  | start he => cases he
  | dispatch hj => rw [hi] at hj; cases hj
  | other hj hp hstep =>
      rw [hi] at hj
      cases hj
      simp only [Proc.step, Option.map_eq_some_iff] at hstep
      obtain ⟨⟨sh', h'⟩, hh, heq⟩ := hstep
      cases heq
      exact ⟨sh', h', hh, by simp⟩

theorem Sys.keyedById (hkeys : ∀ id n, u.registered id = some n → n.1 = id) :
    KeyedById u.shared.app.nodes := by
  intro id n hn
  exact hkeys id (n.id, n.address) (by rw [Sys.registered, hn]; rfl)

/-- The round takes its snapshot. -/
theorem RoundInv.snapshot (hI : RoundInv i s ns u .snapshot [])
    (hkeys : ∀ id n, u.registered id = some n → n.1 = id) :
    RoundInv i s (ns ++ [⟨u, .run i env, t⟩])
      { u with procs := u.procs.set i (.round
        (.probe (u.shared.app.nodes.values.map fun n => (n.id, n.address)) 0)) }
      (.probe (u.shared.app.nodes.values.map fun n => (n.id, n.address)) 0) [] := by
  refine ⟨getElem?_set_self hI.round, by simp, hI.untouched, ?_, nofun, fun _ => ?_, rfl⟩
  · rw [probes_snoc, hI.probed]
    simp [probeOf, hI.round, HealthRound.answered]
  · have hids : (u.shared.app.nodes.values.map fun n => (n.id, n.address)).map Prod.fst =
        u.shared.app.nodes.keys := by
      rw [List.map_map]
      exact (Sys.keyedById hkeys).map_id_values
    simp only [List.map_nil, List.nil_append, HealthRound.outstanding, hids]
    exact HashMap.perm_keys fun id => hI.untouched id (by simp)

/-- The round probes the next node. -/
theorem RoundInv.probe {nodeId address : String} {nodes : List (String × String)} {count : Nat}
    (hI : RoundInv i s ns u (.probe ((nodeId, address) :: nodes) count) written) :
    RoundInv i s (ns ++ [⟨u, .run i env, t⟩])
      { u with procs := u.procs.set i (.round (.write nodeId address env.probe nodes count)) }
      (.write nodeId address env.probe nodes count) written := by
  refine ⟨getElem?_set_self hI.round, hI.verdict, hI.untouched, ?_, nofun, fun _ => hI.ids nofun,
    hI.counted⟩
  rw [probes_snoc, hI.probed]
  simp [probeOf, hI.round, HealthRound.answered]

/-- The round writes a verdict. -/
theorem RoundInv.write {nodeId address : String} {outcome : Option HealthResponse}
    {nodes : List (String × String)} {count : Nat}
    (hI : RoundInv i s ns u (.write nodeId address outcome nodes count) written) :
    RoundInv i s (ns ++ [⟨u, .run i env, t⟩])
      { u with
        shared.app.nodes := u.shared.app.nodes.modify nodeId (NodeInfo.probed outcome)
        procs := u.procs.set i (.round
          (.probe nodes (if outcome.isSome then count + 1 else count))) }
      (.probe nodes (if outcome.isSome then count + 1 else count))
      (written ++ [(nodeId, outcome)]) := by
  have hids := hI.ids nofun
  have hnew : nodeId ∉ written.map Prod.fst := by
    have hnodup := hids.nodup_iff.mpr s.shared.app.nodes.keys_nodup
    intro hmem
    exact (List.nodup_append.mp hnodup).2.2 _ hmem nodeId (by simp [HealthRound.outstanding]) rfl
  refine ⟨getElem?_set_self hI.round, ?_, ?_, ?_, nofun, fun _ => ?_, ?_⟩
  · intro id outcome' hmem
    rw [HashMap.lookup_modify]
    obtain hmem | hmem := List.mem_append.mp hmem
    · have hne : id ≠ nodeId := fun heq =>
        hnew (List.mem_map.mpr ⟨(id, outcome'), hmem, heq⟩)
      rw [if_neg hne]
      exact hI.verdict id outcome' hmem
    · obtain ⟨rfl, rfl⟩ := Prod.mk.inj (List.mem_singleton.mp hmem)
      rw [if_pos rfl, hI.untouched id hnew]
  · intro id hmem
    rw [List.map_append, List.mem_append, not_or] at hmem
    have hne : id ≠ nodeId := by simpa using hmem.2
    rw [HashMap.lookup_modify, if_neg hne]
    exact hI.untouched id hmem.1
  · rw [probes_snoc, hI.probed]
    simp [probeOf, hI.round, HealthRound.answered]
  · simpa [HealthRound.outstanding] using hids
  · have hcount : count = written.countP fun probe => probe.2.isSome := hI.counted
    simp only [HealthRound.counted, List.countP_append, List.countP_singleton]
    rw [hcount]
    split <;> rfl

/-- The round ends. -/
theorem RoundInv.finish {count : Nat} (hI : RoundInv i s ns u (.probe [] count) written) :
    RoundInv i s (ns ++ [⟨u, .run i env, t⟩])
      { u with shared.healthyNodesGauge := count, procs := u.procs.set i (.round .done) }
      .done written := by
  refine ⟨getElem?_set_self hI.round, hI.verdict, hI.untouched, ?_, nofun, fun _ => hI.ids nofun,
    hI.counted⟩
  rw [probes_snoc, hI.probed]
  simp [probeOf, hI.round, HealthRound.answered]

theorem RoundInv.step (hI : RoundInv i s ns u h written)
    (hkeys : ∀ id n, u.registered id = some n → n.1 = id) (halone : Alone i ⟨u, e, t⟩)
    (hs : Sys.Step X u e t) :
    ∃ h' written', RoundInv i s (ns ++ [⟨u, e, t⟩]) t h' written' := by
  obtain ⟨hreg, hround⟩ := halone
  by_cases hact : e.actor = some i
  · cases e with
    | run j env =>
        cases hact
        obtain ⟨sh, h', hstep, ht⟩ := hs.round_inv hI.round
        cases h with
        | snapshot =>
            obtain rfl := hI.start rfl
            cases hstep
            exact ⟨_, _, ht ▸ hI.snapshot hkeys⟩
        | probe nodes count =>
            cases nodes with
            | nil =>
                cases hstep
                exact ⟨_, _, ht ▸ hI.finish⟩
            | cons node nodes =>
                cases hstep
                exact ⟨_, _, ht ▸ hI.probe⟩
        | write nodeId address outcome nodes count =>
            cases hstep
            exact ⟨_, _, ht ▸ hI.write⟩
        | done => cases hstep
    | _ => cases hact
  · have hc : u.checking e = none := by
      cases hc : u.checking e with
      | none => rfl
      | some h => exact absurd (hround h hc) hact
    exact ⟨h, written, hI.other hs hact hreg hc⟩

/-- The invariant over a whole round. -/
theorem roundInv (hkeys : ∀ id n, s.registered id = some n → n.1 = id)
    (hi : s.procs[i]? = some (.round .snapshot)) (hrun : Run (Sys.step X) s ns u)
    (halone : ∀ m ∈ ns, Alone i m) :
    (∀ id n, u.registered id = some n → n.1 = id) ∧
    ∃ h written, RoundInv i s ns u h written := by
  induction hrun with
  | nil =>
      refine ⟨hkeys, .snapshot, [], hi, by simp, fun _ _ => rfl, rfl, fun _ => rfl, ?_, rfl⟩
      exact fun hne => absurd rfl hne
  | snoc _ hs ih =>
      obtain ⟨hkeys, h, written, hI⟩ := ih fun m hm => halone m (List.mem_append_left _ hm)
      have hstep := Sys.step_inv hs
      exact ⟨hstep.keys hkeys, hI.step hkeys (halone _ (by simp)) hstep⟩

/-! ## After the round -/

namespace RoundInv

/-- At its end the round has written about every node it has read, and about no other. -/
theorem mem_keys (hI : RoundInv i s ns t .done written) (id : String) :
    id ∈ written.map Prod.fst ↔ (s.shared.app.nodes.lookup id).isSome := by
  have hids := hI.ids nofun
  simp only [HealthRound.outstanding, List.map_nil, List.append_nil] at hids
  rw [hids.mem_iff, ← AList.mem_keys, AList.lookup_isSome]

theorem probes_eq (hI : RoundInv i s ns t .done written) : probes i ns = written := by
  simpa [HealthRound.answered] using hI.probed

/-- The nodes written about are those registered after the round. -/
theorem perm_keys (hI : RoundInv i s ns t .done written) :
    t.shared.app.nodes.keys.Perm (written.map Prod.fst) := by
  have hids := hI.ids nofun
  simp only [HealthRound.outstanding, List.map_nil, List.append_nil] at hids
  have hnodup := hids.nodup_iff.mpr s.shared.app.nodes.keys_nodup
  refine (List.perm_ext_iff_of_nodup t.shared.app.nodes.keys_nodup hnodup).mpr fun id => ?_
  rw [← AList.mem_keys, ← AList.lookup_isSome]
  by_cases hmem : id ∈ written.map Prod.fst
  · obtain ⟨probe, hprobe, rfl⟩ := List.mem_map.mp hmem
    rw [hI.verdict probe.1 probe.2 hprobe, Option.isSome_map]
    exact (hI.mem_keys probe.1).symm
  · rw [hI.untouched id hmem]
    exact (hI.mem_keys id).symm

theorem gauge_eq (hI : RoundInv i s ns t .done written) :
    t.shared.healthyNodesGauge = t.shared.app.nodes.values.countP fun n => n.healthy := by
  have hgauge : t.shared.healthyNodesGauge = written.countP fun probe => probe.2.isSome :=
    hI.counted
  rw [hgauge, HashMap.countP_values, hI.perm_keys.countP_eq, List.countP_map]
  refine List.countP_congr fun probe hmem => ?_
  have hverdict := hI.verdict probe.1 probe.2 hmem
  have hsome := (hI.mem_keys probe.1).mp (List.mem_map_of_mem hmem)
  obtain ⟨n, hn⟩ := Option.isSome_iff_exists.mp hsome
  simp [hverdict, hn, NodeInfo.probed_eq]

/-- Until the next registration or verdict, a node whose probe has failed is not handed out. -/
theorem not_selected {ls : List (Move Sys Event)} {now seed : Nat} {tried : List String}
    {n : NodeInfo} (hI : RoundInv i s ns t .done written)
    (hkeys : ∀ id n, t.registered id = some n → n.1 = id) (hlater : Run (Sys.step X) t ls u)
    (hquiet : ∀ m ∈ ls, m.pre.registering m.ev = none ∧ m.pre.writing m.ev = none)
    (hsel : (selectNodeForTask now seed tried u.shared.app).2 = some n) :
    (n.id, none) ∉ written := by
  intro hmem
  have hsame : ∀ id, u.shared.app.nodes.lookup id = t.shared.app.nodes.lookup id :=
    hlater.invariant
      (I := fun u => ∀ id, u.shared.app.nodes.lookup id = t.shared.app.nodes.lookup id)
      (fun _ => rfl)
      (fun _ _ _ hI hC hs id => ((Sys.step_inv hs).nodes_frame hC.1 hC.2 id).trans (hI id))
      hquiet
  have helig := selectNodeForTask_sound hsel
  obtain ⟨k, hk⟩ := HashMap.mem_values.mp helig.registered
  rw [hsame] at hk
  have hid : n.id = k := hkeys k (n.id, n.address) (by rw [Sys.registered, hk]; rfl)
  have hverdict := hI.verdict n.id none hmem
  rw [hid, hk] at hverdict
  -- The entry of a failed probe is not healthy, and the scheduler returns healthy nodes.
  obtain ⟨n₀, -, hn₀⟩ := Option.map_eq_some_iff.mp hverdict.symm
  have hhealthy := helig.healthy
  rw [← hn₀, NodeInfo.probed_eq] at hhealthy
  cases hhealthy

end RoundInv

/-- After a round during which no registration and no other round took a step: every node has
the verdict of its probe and is otherwise as it was, no node was added, the gauge is the number
of healthy nodes, and until the next registration or verdict the scheduler hands out no node
whose probe has failed. -/
theorem round_settles {url strategy : String} {ms ns : List (Move Sys Event)}
    (hreach : Run (Sys.step X) (Sys.init url strategy) ms s)
    (hi : s.procs[i]? = some (.round .snapshot)) (hrun : Run (Sys.step X) s ns t)
    (halone : ∀ m ∈ ns, Alone i m) (hdone : t.procs[i]? = some (.round .done)) :
    (∀ id n, s.shared.app.nodes.lookup id = some n →
      (∃ outcome, (id, outcome) ∈ probes i ns) ∧
      ∀ outcome, (id, outcome) ∈ probes i ns →
        t.shared.app.nodes.lookup id = some { n with
          healthy := outcome.isSome
          activeTasks := (outcome.map fun resp => resp.activeTasks.toNat).getD n.activeTasks }) ∧
    (∀ id, s.shared.app.nodes.lookup id = none → t.shared.app.nodes.lookup id = none) ∧
    t.shared.healthyNodesGauge = (t.shared.app.nodes.values.countP fun n => n.healthy) ∧
    ∀ ls u, Run (Sys.step X) t ls u →
      (∀ m ∈ ls, m.pre.registering m.ev = none ∧ m.pre.writing m.ev = none) →
      ∀ now seed tried n, (selectNodeForTask now seed tried u.shared.app).2 = some n →
        (n.id, none) ∉ probes i ns := by
  have hkeys : ∀ id n, s.registered id = some n → n.1 = id :=
    hreach.always (I := fun s => ∀ id n, s.registered id = some n → n.1 = id)
      (fun id n hn => by cases hn) fun _ _ _ hI hs => (Sys.step_inv hs).keys hI
  obtain ⟨hkeys', h, written, hI⟩ := roundInv hkeys hi hrun halone
  obtain rfl : h = .done := by
    have hround := hI.round
    rw [hdone] at hround
    cases hround
    rfl
  rw [hI.probes_eq]
  refine ⟨fun id n hn => ⟨?_, fun outcome hmem => ?_⟩, fun id hnone => ?_, hI.gauge_eq, ?_⟩
  · obtain ⟨probe, hmem, rfl⟩ := List.mem_map.mp ((hI.mem_keys id).mpr (by rw [hn]; rfl))
    exact ⟨probe.2, hmem⟩
  · rw [hI.verdict id outcome hmem, hn, Option.map_some, NodeInfo.probed_eq]
  · have hnot : id ∉ written.map Prod.fst := by
      rw [hI.mem_keys, hnone]
      simp
    rw [hI.untouched id hnot, hnone]
  · intro ls u hlater hquiet now seed tried n hsel
    exact hI.not_selected hkeys' hlater hquiet hsel

/-- Two nodes register and a round is started. -/
def twoNodes : List Event :=
  [.registerNode (.sample "a" "http://a:50051"), .run 0 {},
    .registerNode (.sample "b" "http://b:50051"), .run 1 {}, .checkAllNodes]

/-- The round takes its snapshot and probes both nodes, of which one answers, while a task is
submitted. -/
def oneFails : List Event :=
  [.run 2 {}, .run 2 { probe := some ⟨"", 3, true⟩ }, .submitTask "t" "" .sample, .run 2 {},
    .run 3 {}, .run 2 {}, .run 2 {}, .run 3 {}, .run 2 {}]

/-- The health round that a process runs. -/
def Proc.round? : Proc → Option HealthRound
  | .round h => some h
  | _ => none

theorem Proc.round_inv {p : Proc} {h : HealthRound} (hp : p.round? = some h) : p = .round h := by
  cases p <;> cases hp
  rfl

theorem oneFails_settles :
    ∃ s t ns, Run (Sys.step .sample) (Sys.init "" "round_robin")
        (moves (Sys.step .sample) (Sys.init "" "round_robin") twoNodes) s ∧
      Run (Sys.step .sample) s ns t ∧ t.shared.healthyNodesGauge = 1 ∧
      t.shared.healthyNodesGauge = t.shared.app.nodes.values.countP fun n => n.healthy := by
  have htest : (exec (Sys.step .sample) (Sys.init "" "round_robin") twoNodes).any (fun s =>
      decide (s.procs[2]?.bind Proc.round? = some .snapshot) &&
      decide (∀ m ∈ moves (Sys.step .sample) s oneFails, Alone 2 m) &&
      (exec (Sys.step .sample) s oneFails).any fun t =>
        decide (t.procs[2]?.bind Proc.round? = some .done) &&
          t.shared.healthyNodesGauge == 1) = true := by decide
  obtain ⟨s, hreach, hs⟩ := exec_any_run htest
  simp only [Bool.and_eq_true, decide_eq_true_eq] at hs
  obtain ⟨⟨hsnap, halone⟩, hlater⟩ := hs
  obtain ⟨t, hrun, ht⟩ := exec_any_run hlater
  simp only [Bool.and_eq_true, decide_eq_true_eq, beq_iff_eq] at ht
  have hround : ∀ {u : Sys} {h : HealthRound}, u.procs[2]?.bind Proc.round? = some h →
      u.procs[2]? = some (.round h) := by
    intro u h hu
    obtain ⟨p, hp, hh⟩ := Option.bind_eq_some_iff.mp hu
    rw [hp, Proc.round_inv hh]
  have hi := hround hsnap
  have hdone := hround ht.1
  exact ⟨s, t, _, hreach, hrun, ht.2, (round_settles hreach hi hrun halone hdone).2.2.1⟩

end FerroEdge.ControlPlane
