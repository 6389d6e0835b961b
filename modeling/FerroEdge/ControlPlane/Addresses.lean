import FerroEdge.ControlPlane.System

/-!
# Where an RPC is sent

Two maps are keyed by node id: the registered nodes, which `register_node` overwrites, and
the pooled channels, which it leaves alone.  A channel is created for the address a dispatch
has read from the first map and is handed out from then on for every address.

`dispatch_addressed` says that every RPC goes to the address in the `NodeInfo` it is for, in
every run in which a registration agrees with what is pooled for its id and with what a
dispatch is about to pool for it.  `reregistered_misdirected` is the run in which a node
registers again under a new address.
-/

namespace FerroEdge.ControlPlane

open Machine

/-- The node of a dispatch that has been scheduled and has no channel yet. -/
def DispatchPc.scheduled : DispatchPc → Option NodeInfo
  | .countRetry node | .clonePool node | .lockPool node => some node
  | _ => none

def Proc.scheduled (p : Proc) : Option NodeInfo := p.run?.bind fun r => r.pc.scheduled

/-- The id and the address that are registered under an id. -/
def Sys.registered (s : Sys) (id : String) : Option (String × String) :=
  (s.shared.app.nodes.lookup id).map fun n => (n.id, n.address)

/-- The node that `register_node` inserts in a step. -/
def Sys.registering (s : Sys) : Event → Option NodeInfo
  | .run i _ =>
      match s.procs[i]? with
      | some (.register node) => some node
      | _ => none
  | _ => none

/-- Every RPC is sent over a channel to the address in the `NodeInfo` it is for, and so is
the channel that `get_or_create` returns for such a `NodeInfo`. -/
structure Addressed (X : Externals) (s : Sys) : Prop where
  rpc : ∀ (i : Nat) (r : DispatchRun) (node : NodeInfo) (ch : Channel),
    s.procs[i]? = some (.dispatch r) → r.pc = .inFlight node ch → ch.endpoint = node.address
  getOrCreate : ∀ (i : Nat) (r : DispatchRun) (node : NodeInfo) (ch : Channel),
    s.procs[i]? = some (.dispatch r) → r.pc = .lockPool node →
    (s.shared.pool.getOrCreate X node.id node.address).1 = .ok ch → ch.endpoint = node.address

/-- A registration agrees with the channel pooled for its id, and with the address that a
scheduled dispatch is about to pool for it. -/
def Consistent (m : Move Sys Event) : Prop :=
  ∀ node ∈ m.pre.registering m.ev,
    (∀ ch ∈ m.pre.shared.pool.connections.lookup node.id, ch.endpoint = node.address) ∧
    ∀ p ∈ m.pre.procs, ∀ n ∈ p.scheduled, n.id = node.id → n.address = node.address

instance : DecidablePred Consistent := fun _ => Option.decidableForallMem _

variable {X : Externals} {env : Env} {s t : Sys} {e : Event} {i : Nat} {r r' : DispatchRun}
  {node : NodeInfo}

/-! ## Steps of a dispatch -/

theorem DispatchRun.onResult_scheduled (X : Externals) (now : Nat) (node : NodeInfo)
    (result : Except Status ExecuteTaskResponse) (r : DispatchRun) :
    (r.onResult X now node result).pc.scheduled = none ∧
    ∀ n ch, (r.onResult X now node result).pc ≠ .inFlight n ch := by
  obtain ⟨_, _, _, h⟩ | ⟨_, h⟩ | ⟨_, _, h⟩ | ⟨_, _, h⟩ := onResult_cases X now node result r
  all_goals
    rw [h]
    exact ⟨rfl, fun n ch hpc => by cases hpc⟩

/-- A dispatch is scheduled on the node the scheduler gives it. -/
theorem DispatchRun.step_scheduled {now : Nat} {sh sh' : Shared}
    (h : r.step X now env sh = some (sh', r')) (hn : r'.pc.scheduled = some node) :
    r.pc.scheduled = some node ∨
    (selectNodeForTask now env.seed r.triedNodes sh.app).2 = some node := by
  cases step_inv h with
  | select hpc =>
      obtain ⟨n, hsel, h | h⟩ | h | h := onSelect_pc r _ <;> rw [h] at hn <;> cases hn
      · exact Or.inr hsel
      · exact Or.inr hsel
  | countRetry hpc =>
      rw [hpc]
      exact Or.inl hn
  | clonePool hpc =>
      rw [hpc]
      exact Or.inl hn
  | noChannel =>
      rw [(onResult_scheduled ..).1] at hn
      cases hn
  | answer =>
      rw [(onResult_scheduled ..).1] at hn
      cases hn
  | recordFailure =>
      obtain ⟨_, h⟩ | ⟨_, _, h⟩ := afterFailure_cases now r <;> rw [h] at hn <;> cases hn
  | _ => cases hn

/-- A dispatch sends its RPC over the channel that `get_or_create` has returned. -/
theorem DispatchRun.step_inFlight {now : Nat} {sh sh' : Shared} {ch : Channel}
    (h : r.step X now env sh = some (sh', r')) (hpc' : r'.pc = .inFlight node ch) :
    r.pc = .lockPool node ∧ (sh.pool.getOrCreate X node.id node.address).1 = .ok ch := by
  cases step_inv h with
  | channel hpc hget =>
      cases hpc'
      exact ⟨hpc, by rw [hget]⟩
  | select => obtain ⟨n, -, h | h⟩ | h | h := onSelect_pc r _ <;> rw [h] at hpc' <;> cases hpc'
  | noChannel => exact absurd hpc' ((onResult_scheduled ..).2 _ _)
  | answer => exact absurd hpc' ((onResult_scheduled ..).2 _ _)
  | recordFailure =>
      obtain ⟨_, h⟩ | ⟨_, _, h⟩ := afterFailure_cases now r <;> rw [h] at hpc' <;> cases hpc'
  | _ => cases hpc'

/-- A channel of the pool was there before, or a dispatch has just created it. -/
theorem DispatchRun.step_pool {now : Nat} {sh sh' : Shared} {id : String} {ch : Channel}
    (h : r.step X now env sh = some (sh', r')) (hch : sh'.pool.connections.lookup id = some ch) :
    sh.pool.connections.lookup id = some ch ∨
    ∃ node, r.pc = .lockPool node ∧ node.id = id ∧ ch = ⟨node.address⟩ := by
  have hget : ∀ n, r.pc = .lockPool n → sh'.pool = (sh.pool.getOrCreate X n.id n.address).2 →
      sh.pool.connections.lookup id = some ch ∨
      ∃ node, r.pc = .lockPool node ∧ node.id = id ∧ ch = ⟨node.address⟩ := by
    intro n hpc hpool
    rw [hpool] at hch
    obtain ⟨_, _, h⟩ | ⟨_, _, _, h⟩ | ⟨_, h⟩ :=
      NodeConnectionPool.getOrCreate_cases X n.id n.address sh.pool
    · rw [h] at hch
      exact Or.inl hch
    · rw [h] at hch
      exact Or.inl hch
    · rw [h] at hch
      dsimp only at hch
      rw [HashMap.lookup_insert_if] at hch
      split at hch
      case isTrue hid =>
        cases hch
        exact Or.inr ⟨n, hpc, hid.symm, rfl⟩
      case isFalse => exact Or.inl hch
  cases step_inv h with
  | channel hpc hres => exact hget _ hpc (by rw [hres])
  | noChannel hpc hres => exact hget _ hpc (by rw [hres])
  | _ => exact Or.inl hch

/-! ## Steps of the control plane -/

theorem Sys.registering_none {p : Proc} (h : s.procs[i]? = some p)
    (hp : ∀ node, p ≠ .register node) : s.registering (.run i env) = none := by
  simp only [Sys.registering, h]
  split
  case h_1 heq => exact absurd (Option.some.inj heq) (hp _)
  case h_2 => rfl

theorem Sys.registering_inv (h : s.registering e = some node) :
    ∃ i env, e = .run i env ∧ s.procs[i]? = some (.register node) := by
  cases e with
  | run i env =>
      simp only [Sys.registering] at h
      split at h
      case h_1 hi =>
        cases h
        exact ⟨i, env, rfl, hi⟩
      case h_2 => cases h
  | _ => cases h

theorem map_probed (outcome : Option HealthResponse) (o : Option NodeInfo) :
    (o.map (NodeInfo.probed outcome)).map (fun n => (n.id, n.address)) =
      o.map fun n => (n.id, n.address) := by
  cases o with
  | none => rfl
  | some n => cases outcome <;> rfl

/-- A registration is the only step that changes an address. -/
theorem Sys.Step.registered (h : Sys.Step X s e t) (id : String) :
    t.registered id =
      match s.registering e with
      | some node => if id = node.id then some (node.id, node.address) else s.registered id
      | none => s.registered id := by
  cases h with
  | start he => cases e <;> first | rfl | cases he
  | tick => rfl
  | rehash hperm =>
      simp only [Sys.registered, Sys.registering]
      rw [AList.perm_lookup hperm]
  | dispatch hi hstep =>
      rw [Sys.registering_none hi nofun]
      simp only [Sys.registered, DispatchRun.step_nodes hstep]
  | @other i env p p' sh new hi hp hstep =>
      obtain ⟨node, rfl, hn⟩ | ⟨hnr, hn⟩ := (Proc.step_other hp hstep).nodes
      · simp only [Sys.registered, Sys.registering, hi, hn, HashMap.lookup_insert_if]
        split <;> rfl
      · rw [Sys.registering_none hi hnr]
        simp only [Sys.registered]
        obtain hn | ⟨nid, outcome, hn⟩ := hn
        · rw [hn]
        · rw [hn, HashMap.lookup_modify]
          split
          case isTrue hid => rw [map_probed, hid]
          case isFalse => rfl

/-- A node is registered under its own id. -/
theorem Sys.Step.keys (h : Sys.Step X s e t)
    (hs : ∀ id n, s.registered id = some n → n.1 = id) :
    ∀ id n, t.registered id = some n → n.1 = id := by
  intro id n hn
  rw [h.registered id] at hn
  split at hn
  · split at hn
    case isTrue hid =>
      cases hn
      exact hid.symm
    case isFalse => exact hs id n hn
  · exact hs id n hn

theorem Sys.registered_of_mem (hs : ∀ id n, s.registered id = some n → n.1 = id)
    (hn : node ∈ s.shared.app.nodes.values) :
    s.registered node.id = some (node.id, node.address) := by
  obtain ⟨k, hk⟩ := HashMap.mem_values.mp hn
  have hreg : s.registered k = some (node.id, node.address) := by rw [Sys.registered, hk]; rfl
  rw [← hs k _ hreg] at hreg
  exact hreg

/-- A channel of the pool was there before, or a dispatch has just created it. -/
theorem Sys.Step.pool_inv {id : String} {ch : Channel} (h : Sys.Step X s e t)
    (hch : t.shared.pool.connections.lookup id = some ch) :
    s.shared.pool.connections.lookup id = some ch ∨
    ∃ i env r node, e = .run i env ∧ s.procs[i]? = some (.dispatch r) ∧
      r.pc = .lockPool node ∧ node.id = id ∧ ch = ⟨node.address⟩ := by
  cases h with
  | @dispatch i env r r' sh hi hstep =>
      obtain hold | ⟨node, hpc, hid, hch⟩ := DispatchRun.step_pool hstep hch
      · exact Or.inl hold
      · exact Or.inr ⟨i, env, r, node, rfl, hi, hpc, hid, hch⟩
  | other _ hp hstep =>
      rw [(Proc.step_other hp hstep).pool] at hch
      exact Or.inl hch
  | _ => exact Or.inl hch

/-! ## The two maps agree -/

/-- The registered nodes, the pool and the dispatches agree about addresses. -/
structure AddressInv (s : Sys) : Prop where
  keys : ∀ id n, s.registered id = some n → n.1 = id
  pooled : ∀ id n ch, s.registered id = some n →
    s.shared.pool.connections.lookup id = some ch → ch.endpoint = n.2
  scheduled : ∀ (i : Nat) (r : DispatchRun) (node : NodeInfo),
    s.procs[i]? = some (.dispatch r) → r.pc.scheduled = some node →
    s.registered node.id = some (node.id, node.address)
  rpc : ∀ (i : Nat) (r : DispatchRun) (node : NodeInfo) (ch : Channel),
    s.procs[i]? = some (.dispatch r) → r.pc = .inFlight node ch → ch.endpoint = node.address

/-- The channel that `get_or_create` returns for a registered node goes to its address, pooled or
not. -/
theorem AddressInv.endpoint (hI : AddressInv s) {id : String} {n : String × String} {ch : Channel}
    (hreg : s.registered id = some n)
    (hch : (s.shared.pool.getOrCreate X id n.2).1 = .ok ch) : ch.endpoint = n.2 := by
  obtain ⟨ch', hl, h⟩ | ⟨status, _, _, h⟩ | ⟨_, h⟩ :=
    NodeConnectionPool.getOrCreate_cases X id n.2 s.shared.pool
  · rw [h] at hch
    cases hch
    exact hI.pooled id n ch hreg hl
  · rw [h] at hch
    cases hch
  · rw [h] at hch
    cases hch
    rfl

theorem AddressInv.getOrCreate (hI : AddressInv s) {ch : Channel}
    (hr : s.procs[i]? = some (.dispatch r)) (hpc : r.pc = .lockPool node)
    (hch : (s.shared.pool.getOrCreate X node.id node.address).1 = .ok ch) :
    ch.endpoint = node.address :=
  hI.endpoint (hI.scheduled i r node hr (by rw [hpc]; rfl)) hch

theorem AddressInv.step (hI : AddressInv s) (hm : Consistent ⟨s, e, t⟩)
    (h : s.step X e = some t) : AddressInv t := by
  have hstep := Sys.step_inv h
  have hreg := hstep.registered
  refine ⟨hstep.keys hI.keys, ?_, ?_, ?_⟩
  · intro id n ch hn hch
    rw [hreg id] at hn
    obtain hold | ⟨i, env, r, node, rfl, hr, hpc, rfl, rfl⟩ := hstep.pool_inv hch
    · split at hn
      case h_1 node hnode =>
        split at hn
        case isTrue hid =>
          cases hn
          exact (hm node hnode).1 ch (hid ▸ hold)
        case isFalse => exact hI.pooled id n ch hn hold
      case h_2 => exact hI.pooled id n ch hn hold
    · rw [Sys.registering_none hr nofun] at hn
      rw [hI.scheduled i r node hr (by rw [hpc]; rfl)] at hn
      cases hn
      rfl
  · intro i r' node hr' hsch
    obtain hold | ⟨spec, rfl, -⟩ | ⟨env, r, rfl, hr, hrun⟩ := hstep.dispatch_inv hr'
    · -- A registration may have overwritten the entry, with the same address.
      have hs := hI.scheduled i r' node hold hsch
      rw [hreg node.id]
      split
      case h_1 n hn =>
        split
        case isTrue hid =>
          rw [(hm n hn).2 (.dispatch r') (List.mem_of_getElem? hold) node hsch hid, hid]
        case isFalse => exact hs
      case h_2 => exact hs
    · cases hsch
    · rw [hreg node.id, Sys.registering_none hr nofun]
      obtain hold | hsel := DispatchRun.step_scheduled hrun hsch
      · exact hI.scheduled i r node hr hold
      · exact Sys.registered_of_mem hI.keys (selectNodeForTask_sound hsel).registered
  · intro i r' node ch hr' hpc'
    obtain hold | ⟨spec, rfl, -⟩ | ⟨env, r, rfl, hr, hrun⟩ := hstep.dispatch_inv hr'
    · exact hI.rpc i r' node ch hold hpc'
    · cases hpc'
    · obtain ⟨hpc, hget⟩ := DispatchRun.step_inFlight hrun hpc'
      exact hI.getOrCreate hr hpc hget

theorem AddressInv.init (url strategy : String) : AddressInv (Sys.init url strategy) where
  keys _ _ h := by cases h
  pooled _ _ _ h := by cases h
  scheduled _ _ _ h := by cases h
  rpc _ _ _ _ h := by cases h

/-- In every run whose registrations are consistent, RPCs go to the registered address.  The same
is true of the channel that `get_or_create` returns for a node as it is registered, whether a
dispatch is about to ask for it or not. -/
theorem dispatch_addressed {url strategy : String} {ms : List (Move Sys Event)}
    (h : Run (Sys.step X) (Sys.init url strategy) ms s) (hm : ∀ m ∈ ms, Consistent m) :
    Addressed X s ∧
    ∀ id node ch, s.shared.app.nodes.lookup id = some node →
      (s.shared.pool.getOrCreate X id node.address).1 = .ok ch → ch.endpoint = node.address := by
  have hI : AddressInv s :=
    h.invariant (AddressInv.init url strategy) (fun _ _ _ hI hc hs => hI.step hc hs) hm
  refine ⟨⟨hI.rpc, fun i r node ch hr hpc hch => hI.getOrCreate hr hpc hch⟩, ?_⟩
  intro id node ch hnode hch
  have hreg : s.registered id = some (node.id, node.address) := by
    rw [Sys.registered, hnode, Option.map_some]
  exact hI.endpoint hreg hch

/-! ## Concrete runs -/

/-- A node registers twice under one address, and a task is dispatched to it. -/
def registeredTwice : List Event :=
  [.registerNode (.sample "n" "http://a:50051"), .run 0 {},
   .submitTask "t" "" .sample] ++ sending 1 ++
  [.registerNode (.sample "n" "http://a:50051"), .run 2 {}]

theorem registeredTwice_addressed :
    ∃ s node, Run (Sys.step .sample) (Sys.init "" "round_robin")
      (moves (Sys.step .sample) (Sys.init "" "round_robin") registeredTwice) s ∧
      Addressed .sample s ∧ s.shared.app.nodes.lookup "n" = some node ∧
      ∀ ch, (s.shared.pool.getOrCreate .sample "n" node.address).1 = .ok ch →
        ch.endpoint = node.address := by
  have htest : (exec (Sys.step .sample) (Sys.init "" "round_robin")
      registeredTwice).any (fun s => (s.shared.app.nodes.lookup "n").any fun node =>
        node.address = "http://a:50051") = true := by decide
  obtain ⟨s, h, hs⟩ := exec_any_run htest
  obtain ⟨node, hnode, -⟩ := (Option.any_eq_true _ _).mp hs
  obtain ⟨haddressed, hpooled⟩ := dispatch_addressed h (by decide)
  exact ⟨s, node, h, haddressed, hnode, fun ch => hpooled "n" node ch hnode⟩

/-- A node registers again under a new address after a task was dispatched to it, and a second
task is dispatched. -/
def reregistered : List Event :=
  [.registerNode (.sample "n" "http://a:50051"), .run 0 {},
   .submitTask "t" "" .sample] ++ sending 1 ++
  [.registerNode (.sample "n" "http://b:50051"), .run 2 {},
   .submitTask "u" "" .sample] ++ sending 3

/-- The RPC of the second task is sent to the old address. -/
theorem reregistered_misdirected :
    ∃ ms s, Run (Sys.step .sample) (Sys.init "" "round_robin") ms s ∧ ¬ Addressed .sample s := by
  have htest : (exec (Sys.step .sample) (Sys.init "" "round_robin") reregistered).any (fun s =>
      (s.procs[3]?.bind Proc.inFlight?).any fun (node, client) =>
        client.endpoint != node.address) = true := by decide
  obtain ⟨s, h, hs⟩ := exec_any_run htest
  refine ⟨_, s, h, fun haddr => ?_⟩
  obtain ⟨⟨node, client⟩, hfl, hne⟩ := (Option.any_eq_true _ _).mp hs
  obtain ⟨p, hp, hfl⟩ := Option.bind_eq_some_iff.mp hfl
  obtain ⟨r, rfl, hpc⟩ := Proc.inFlight_inv hfl
  exact bne_iff_ne.mp hne (haddr.rpc 3 r node client hp hpc)

end FerroEdge.ControlPlane
