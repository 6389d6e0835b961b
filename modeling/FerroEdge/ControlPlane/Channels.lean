import FerroEdge.ControlPlane.Addresses

/-!
# The channel of a node

`get_or_create` looks a channel up by the id of its node and compares no addresses, and nothing
in the control plane evicts a channel.  So the first RPC to a node decides where all later ones
go.

`channels_sticky` says this for every run: the channel of each RPC leads to the address that the
node had in the first RPC to its id, and that address was once registered for the id, though it
may have been replaced since.  `ChannelInv` ties the pool to the list of the RPCs: it is the map
from each id to the address of the first RPC.
-/

namespace FerroEdge.ControlPlane

open Machine

/-- The node whose channel is about to be taken from the pool. -/
def DispatchPc.locking? : DispatchPc → Option NodeInfo
  | .lockPool node => some node
  | _ => none

/-- The RPC that a step sends: the node it is for and its channel. -/
def Sys.calls (X : Externals) (s : Sys) (e : Event) : Option (NodeInfo × Channel) :=
  ((s.stepping e).bind fun r => r.pc.locking?).bind fun node =>
    (s.shared.pool.getOrCreate X node.id node.address).1.toOption.map (node, ·)

/-- The RPCs of a run. -/
def calls (X : Externals) (ms : List (Move Sys Event)) : List (NodeInfo × Channel) :=
  ms.filterMap fun m => m.pre.calls X m.ev

/-- The first RPC to a node. -/
def firstCall (X : Externals) (ms : List (Move Sys Event)) (id : String) :
    Option (NodeInfo × Channel) :=
  (calls X ms).find? fun c => c.1.id == id

/-- The address was registered for the id. -/
def Registered (ms : List (Move Sys Event)) (id address : String) : Prop :=
  ∃ m ∈ ms, ∃ node, m.pre.registering m.ev = some node ∧ node.id = id ∧ node.address = address

variable {X : Externals} {env : Env} {s t : Sys} {e : Event} {r r' : DispatchRun}
  {ms : List (Move Sys Event)} {node : NodeInfo}

/-! ## One step -/

/-- What a dispatch does to the pool. -/
theorem DispatchRun.step_locking {now : Nat} {sh sh' : Shared}
    (h : r.step X now env sh = some (sh', r')) :
    (r.pc.locking? = none ∧ sh'.pool = sh.pool) ∨
    ∃ node, r.pc.locking? = some node ∧
      sh'.pool = (sh.pool.getOrCreate X node.id node.address).2 := by
  cases step_inv h with
  | channel hpc hget => exact Or.inr ⟨_, by rw [hpc]; rfl, by rw [hget]⟩
  | noChannel hpc hget => exact Or.inr ⟨_, by rw [hpc]; rfl, by rw [hget]⟩
  | endSleep hpc => exact Or.inl ⟨by obtain hpc | hpc := hpc <;> rw [hpc] <;> rfl, rfl⟩
  | storeFailure hpc =>
      refine Or.inl ⟨?_, rfl⟩
      obtain ⟨hpc, -⟩ | ⟨hpc, -⟩ := hpc <;> rw [hpc] <;> rfl
  | _ hpc => exact Or.inl ⟨by rw [hpc]; rfl, rfl⟩

/-- A step sends no RPC and leaves the pool alone, or it sends one over the channel of the node,
which is new if the node had none. -/
theorem Sys.Step.pool_calls (h : Sys.Step X s e t) :
    (s.calls X e = none ∧ t.shared.pool = s.shared.pool) ∨
    ∃ node ch, s.calls X e = some (node, ch) ∧
      (s.shared.pool.connections.lookup node.id = some ch ∧ t.shared.pool = s.shared.pool ∨
        s.shared.pool.connections.lookup node.id = none ∧ ch = ⟨node.address⟩ ∧
        t.shared.pool = ⟨s.shared.pool.connections.insert node.id ch⟩) := by
  cases h with
  | start he => exact Or.inl ⟨(by cases e <;> first | rfl | cases he), rfl⟩
  | tick => exact Or.inl ⟨rfl, rfl⟩
  | rehash => exact Or.inl ⟨rfl, rfl⟩
  | @dispatch i env r r' sh hi hstep =>
      have hcalls : s.calls X (.run i env) = r.pc.locking?.bind fun node =>
          (s.shared.pool.getOrCreate X node.id node.address).1.toOption.map (node, ·) := by
        rw [Sys.calls, Sys.stepping_run hi]
        rfl
      obtain ⟨hnone, hpool⟩ | ⟨node, hnode, hpool⟩ := DispatchRun.step_locking hstep
      · exact Or.inl ⟨by rw [hcalls, hnone]; rfl, hpool⟩
      · rw [hcalls, hnode]
        obtain ⟨ch, hch, hget⟩ | ⟨status, -, -, hget⟩ | ⟨hnone, hget⟩ :=
          NodeConnectionPool.getOrCreate_cases X node.id node.address s.shared.pool
        · exact Or.inr ⟨node, ch, by simp [hget, Except.toOption], Or.inl ⟨hch, by
            rw [hpool, hget]⟩⟩
        · exact Or.inl ⟨by simp [hget, Except.toOption], by rw [hpool, hget]⟩
        · exact Or.inr ⟨node, ⟨node.address⟩, by simp [hget, Except.toOption],
            Or.inr ⟨hnone, rfl, by rw [hpool, hget]⟩⟩
  | @other i env p p' sh new hi hp hstep =>
      refine Or.inl ⟨?_, (Proc.step_other hp hstep).pool⟩
      rw [Sys.calls, Sys.stepping, hi]
      simp [hp]

/-! ## Whole runs -/

theorem Registered.mono {ns : List (Move Sys Event)} {id address : String}
    (h : Registered ms id address) : Registered (ms ++ ns) id address := by
  obtain ⟨m, hm, hnode⟩ := h
  exact ⟨m, List.mem_append_left _ hm, hnode⟩

theorem calls_snoc (X : Externals) (ms : List (Move Sys Event)) (m : Move Sys Event) :
    calls X (ms ++ [m]) = calls X ms ++ (m.pre.calls X m.ev).toList := by
  rw [calls, List.filterMap_append]
  rfl

/-- The pool and the dispatches know the addresses of the RPCs and of the registrations. -/
structure ChannelInv (X : Externals) (ms : List (Move Sys Event)) (s : Sys) : Prop where
  pool : ∀ id, s.shared.pool.connections.lookup id =
    (firstCall X ms id).map fun c => ⟨c.1.address⟩
  used : ∀ c ∈ calls X ms, s.shared.pool.connections.lookup c.1.id = some c.2
  keys : ∀ id n, s.registered id = some n → n.1 = id
  registered : ∀ id n, s.registered id = some n → Registered ms n.1 n.2
  scheduled : ∀ (i : Nat) (r : DispatchRun) (node : NodeInfo),
    s.procs[i]? = some (.dispatch r) → r.pc.scheduled = some node →
    Registered ms node.id node.address
  called : ∀ c ∈ calls X ms, Registered ms c.1.id c.1.address

theorem firstCall_snoc (X : Externals) (ms : List (Move Sys Event)) (m : Move Sys Event)
    (id : String) :
    firstCall X (ms ++ [m]) id =
      (firstCall X ms id).or ((m.pre.calls X m.ev).filter fun c => c.1.id == id) := by
  rw [firstCall, calls_snoc, List.find?_append, firstCall]
  cases m.pre.calls X m.ev with
  | none => rfl
  | some c => simp [Option.filter, List.find?_cons]; split <;> simp_all

theorem ChannelInv.pool_step (hI : ChannelInv X ms s) (h : Sys.Step X s e t) (id : String) :
    t.shared.pool.connections.lookup id =
      (firstCall X (ms ++ [⟨s, e, t⟩]) id).map fun c => ⟨c.1.address⟩ := by
  rw [firstCall_snoc]
  obtain ⟨hnone, hpool⟩ | ⟨node, ch, hcall, hkind⟩ := h.pool_calls
  · rw [hnone, hpool, hI.pool id]
    simp
  · rw [hcall]
    obtain ⟨hch, hpool⟩ | ⟨hfree, rfl, hpool⟩ := hkind
    · rw [hpool, hI.pool id]
      cases hfirst : firstCall X ms id with
      | some c => rfl
      | none =>
          -- The node has a channel, so an RPC was sent to it before.
          have hne : node.id ≠ id := by
            rintro rfl
            rw [hI.pool node.id, hfirst] at hch
            cases hch
          simp [Option.filter, hne]
    · rw [hpool]
      dsimp only
      rw [HashMap.lookup_insert_if]
      split
      case isTrue hid =>
        subst hid
        have hfirst : firstCall X ms node.id = none := by
          have hpooled := hI.pool node.id
          rw [hfree] at hpooled
          exact Option.map_eq_none_iff.mp hpooled.symm
        simp [hfirst, Option.filter]
      case isFalse hid =>
        rw [hI.pool id]
        simp [Option.filter, Ne.symm hid]

theorem ChannelInv.used_step (hI : ChannelInv X ms s) (h : Sys.Step X s e t) :
    ∀ c ∈ calls X (ms ++ [⟨s, e, t⟩]), t.shared.pool.connections.lookup c.1.id = some c.2 := by
  intro c hc
  rw [calls_snoc, List.mem_append] at hc
  obtain ⟨hnone, hpool⟩ | ⟨node, ch, hcall, hkind⟩ := h.pool_calls
  · rw [hnone] at hc
    obtain hc | hc := hc
    · rw [hpool]
      exact hI.used c hc
    · cases hc
  · rw [hcall] at hc
    obtain ⟨hch, hpool⟩ | ⟨hfree, -, hpool⟩ := hkind
    · rw [hpool]
      obtain hc | hc := hc
      · exact hI.used c hc
      · rw [List.mem_singleton.mp hc]
        exact hch
    · rw [hpool]
      dsimp only
      rw [HashMap.lookup_insert_if]
      obtain hc | hc := hc
      · rw [if_neg]
        · exact hI.used c hc
        · intro hid
          have hused := hI.used c hc
          rw [hid, hfree] at hused
          cases hused
      · rw [List.mem_singleton.mp hc, if_pos rfl]

/-- The node of an RPC was scheduled. -/
theorem Sys.calls_inv {c : NodeInfo × Channel} (h : s.calls X e = some c) :
    ∃ i env r, e = .run i env ∧ s.procs[i]? = some (.dispatch r) ∧
      r.pc.scheduled = some c.1 := by
  obtain ⟨node, hnode, hch⟩ := Option.bind_eq_some_iff.mp h
  obtain ⟨ch, -, rfl⟩ := Option.map_eq_some_iff.mp hch
  obtain ⟨r, hr, hlock⟩ := Option.bind_eq_some_iff.mp hnode
  cases e with
  | run i env =>
      obtain ⟨p, hp, hrun⟩ := Option.bind_eq_some_iff.mp hr
      cases p with
      | dispatch r' =>
          cases hrun
          refine ⟨i, env, r, rfl, hp, ?_⟩
          cases hpc : r.pc <;> rw [hpc] at hlock <;> cases hlock
          rfl
      | _ => cases hrun
  | _ => cases hr

theorem ChannelInv.step (hI : ChannelInv X ms s) (h : Sys.Step X s e t) :
    ChannelInv X (ms ++ [⟨s, e, t⟩]) t := by
  have hreg := h.registered
  refine ⟨hI.pool_step h, hI.used_step h, h.keys hI.keys, fun id n hn => ?_, ?_, fun c hc => ?_⟩
  · rw [hreg id] at hn
    split at hn
    case h_1 node hnode =>
      split at hn
      case isTrue =>
        cases hn
        exact ⟨_, List.mem_concat_self, node, hnode, rfl, rfl⟩
      case isFalse => exact (hI.registered id n hn).mono
    case h_2 => exact (hI.registered id n hn).mono
  · intro i r' node hr' hsch
    obtain hold | ⟨spec, rfl, -⟩ | ⟨env, r, rfl, hr, hrun⟩ := h.dispatch_inv hr'
    · exact (hI.scheduled i r' node hold hsch).mono
    · cases hsch
    · obtain hold | hsel := DispatchRun.step_scheduled hrun hsch
      · exact (hI.scheduled i r node hr hold).mono
      · have hnode := Sys.registered_of_mem hI.keys (selectNodeForTask_sound hsel).registered
        exact (hI.registered _ _ hnode).mono
  · rw [calls_snoc, List.mem_append] at hc
    obtain hc | hc := hc
    · exact (hI.called c hc).mono
    · obtain ⟨i, env, r, -, hr, hsch⟩ := Sys.calls_inv (Option.mem_toList.mp hc)
      exact (hI.scheduled i r c.1 hr hsch).mono

theorem channelInv {url strategy : String}
    (h : Run (Sys.step X) (Sys.init url strategy) ms s) : ChannelInv X ms s := by
  induction h with
  | nil =>
      refine ⟨fun id => rfl, fun c hc => ?_, fun id n hn => ?_, fun id n hn => ?_,
        fun i r node hr => ?_, fun c hc => ?_⟩
      · cases hc
      · cases hn
      · cases hn
      · cases hr
      · cases hc
  | snoc _ hs ih => exact ih.step (Sys.step_inv hs)

/-- Every RPC of a run goes to the address that its node had in the first RPC to that id, which
is an address that was registered for the id. -/
theorem channels_sticky {url strategy : String} {c : NodeInfo × Channel}
    (h : Run (Sys.step X) (Sys.init url strategy) ms s) (hc : c ∈ calls X ms) :
    ∃ first, firstCall X ms c.1.id = some first ∧ c.2.endpoint = first.1.address ∧
      Registered ms c.1.id c.2.endpoint := by
  have hI := channelInv h
  have hused := hI.used c hc
  rw [hI.pool c.1.id] at hused
  obtain ⟨first, hfirst, hch⟩ := Option.map_eq_some_iff.mp hused
  have hid : first.1.id = c.1.id := by simpa using List.find?_some hfirst
  refine ⟨first, hfirst, by rw [← hch], ?_⟩
  rw [← hch, ← hid]
  exact hI.called first (List.mem_of_find?_eq_some hfirst)

/-- A node registers once more under another address between two tasks. -/
def movedNode : List Event :=
  [.registerNode (.sample "n" "http://a:50051"), .run 0 {}, .submitTask "t" "" .sample] ++
  sending 1 ++ [.registerNode (.sample "n" "http://b:50051"), .run 2 {},
    .submitTask "u" "" .sample] ++ sending 3

theorem movedNode_sticky :
    ∃ ms s c, Run (Sys.step .sample) (Sys.init "" "round_robin") ms s ∧ c ∈ calls .sample ms ∧
      c.1.address = "http://b:50051" ∧ c.2.endpoint = "http://a:50051" ∧
      Registered ms c.1.id c.2.endpoint := by
  have hsome : (exec (Sys.step .sample) (Sys.init "" "round_robin") movedNode).isSome = true := by
    decide
  have hmoved : (calls .sample (moves (Sys.step .sample) (Sys.init "" "round_robin")
      movedNode)).any (fun c => decide (c.1.address = "http://b:50051") &&
        decide (c.2.endpoint = "http://a:50051")) = true := by decide
  obtain ⟨s, hs⟩ := Option.isSome_iff_exists.mp hsome
  obtain ⟨c, hc, haddr⟩ := List.any_eq_true.mp hmoved
  simp only [Bool.and_eq_true, decide_eq_true_eq] at haddr
  obtain ⟨first, -, -, hreg⟩ := channels_sticky (exec_run hs) hc
  exact ⟨_, s, c, exec_run hs, hc, haddr.1, haddr.2, hreg⟩

end FerroEdge.ControlPlane
