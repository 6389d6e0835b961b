import FerroEdge.ControlPlane.Addresses

/-!
# Health checks

`check_all_nodes` takes a snapshot of the ids and addresses of the nodes, and then for each of
them probes the address and writes the verdict into the entry of the id.  The state is locked
for the snapshot and for each write, and for nothing in between.

* A registration may change the address of an id while the round still has the old one to
  probe or to write.  `verdicts_current` says that the verdicts belong to the registered
  addresses in every run without such a registration.
-/

namespace FerroEdge.ControlPlane

open Machine

/-- The ids and addresses that a round has still to probe or to write about. -/
def HealthRound.outstanding : HealthRound → List (String × String)
  | .probe nodes _ => nodes
  | .write nodeId address _ nodes _ => (nodeId, address) :: nodes
  | .snapshot | .done => []

def Proc.outstanding : Proc → List (String × String)
  | .round h => h.outstanding
  | _ => []

/-- The round that takes a step. -/
def Sys.checking (s : Sys) : Event → Option HealthRound
  | .run i _ =>
      match s.procs[i]? with
      | some (.round h) => some h
      | _ => none
  | _ => none

/-- The id whose entry is written in a step, and the address that was probed for it. -/
def Sys.writing (s : Sys) (e : Event) : Option (String × String) :=
  match s.checking e with
  | some (.write nodeId address _ _ _) => some (nodeId, address)
  | _ => none

/-- What is written into the entry of an id comes from the address in that entry. -/
def Current (m : Move Sys Event) : Prop :=
  ∀ probe ∈ m.pre.writing m.ev,
    ∀ n ∈ m.pre.shared.app.nodes.lookup probe.1, n.address = probe.2

instance : DecidablePred Current := fun _ => Option.decidableForallMem _

/-- A registration does not change the address of an id that a round has still to probe or to
write about. -/
def Undisturbed (m : Move Sys Event) : Prop :=
  ∀ node ∈ m.pre.registering m.ev, ∀ p ∈ m.pre.procs, ∀ probe ∈ p.outstanding,
    probe.1 = node.id → probe.2 = node.address

instance : DecidablePred Undisturbed := fun _ => Option.decidableForallMem _

variable {X : Externals} {env : Env} {s t : Sys} {e : Event}

/-! ## Outstanding probes -/

/-- What a process has to probe it had to probe before, or it has just read it from the state. -/
theorem Proc.step_outstanding {p p' : Proc} {sh : Shared} {new : Option DispatchRun}
    {probe : String × String} (h : p.step X env s = some (sh, p', new))
    (hp : probe ∈ p'.outstanding) :
    probe ∈ p.outstanding ∨
    p = .round .snapshot ∧ ∃ n ∈ s.shared.app.nodes.values, probe = (n.id, n.address) := by
  cases Proc.step_inv h with
  | snapshot =>
      obtain ⟨n, hn, rfl⟩ := List.mem_map.mp hp
      exact Or.inr ⟨rfl, n, hn, rfl⟩
  | probe => exact Or.inl hp
  | write => exact Or.inl (List.mem_cons_of_mem _ hp)
  | _ => cases hp

theorem Sys.Step.outstanding_inv {p' : Proc} {probe : String × String} (h : Sys.Step X s e t)
    (hp' : p' ∈ t.procs) (hprobe : probe ∈ p'.outstanding) :
    (∃ p ∈ s.procs, probe ∈ p.outstanding) ∨
    s.registering e = none ∧ ∃ n ∈ s.shared.app.nodes.values, probe = (n.id, n.address) := by
  obtain hold | (he | ⟨spec, rfl⟩) | ⟨i, env, p, sh, new, rfl, hi, hstep⟩ := h.mem_procs hp'
  · exact Or.inl ⟨p', hold, hprobe⟩
  · cases e <;> cases he <;> cases hprobe
  · cases hprobe
  · obtain hold | ⟨rfl, hread⟩ := Proc.step_outstanding hstep hprobe
    · exact Or.inl ⟨p, List.mem_of_getElem? hi, hold⟩
    · exact Or.inr ⟨Sys.registering_none hi nofun, hread⟩

/-! ## Verdicts -/

/-- What the rounds have to probe is registered. -/
structure ProbeInv (s : Sys) : Prop where
  keys : ∀ id n, s.registered id = some n → n.1 = id
  current : ∀ p ∈ s.procs, ∀ probe ∈ p.outstanding,
    ∀ n, s.registered probe.1 = some n → n.2 = probe.2

theorem ProbeInv.step (hI : ProbeInv s) (hm : Undisturbed ⟨s, e, t⟩) (h : Sys.Step X s e t) :
    ProbeInv t := by
  refine ⟨h.keys hI.keys, fun p' hp' probe hprobe n hn => ?_⟩
  have hreg := h.registered probe.1
  rw [hn] at hreg
  obtain ⟨p, hp, hprobe⟩ | ⟨hnone, n', hn', rfl⟩ := h.outstanding_inv hp' hprobe
  · split at hreg
    case h_1 node hnode =>
      split at hreg
      case isTrue hid =>
        cases hreg
        exact (hm node hnode p hp probe hprobe hid).symm
      case isFalse => exact hI.current p hp probe hprobe n hreg.symm
    case h_2 => exact hI.current p hp probe hprobe n hreg.symm
  · rw [hnone] at hreg
    have hown : s.registered n'.id = some (n'.id, n'.address) :=
      Sys.registered_of_mem hI.keys hn'
    rw [hown] at hreg
    cases hreg
    rfl

theorem Sys.checking_run {i : Nat} {h : HealthRound} (hi : s.procs[i]? = some (.round h)) :
    s.checking (.run i env) = some h := by
  simp [Sys.checking, hi]

theorem Sys.checking_inv {h : HealthRound} (hc : s.checking e = some h) :
    ∃ i env, e = .run i env ∧ s.procs[i]? = some (.round h) := by
  cases e with
  | run i env =>
      simp only [Sys.checking] at hc
      split at hc
      case h_1 hi =>
        cases hc
        exact ⟨i, env, rfl, hi⟩
      case h_2 => cases hc
  | _ => cases hc

theorem Sys.writing_inv {probe : String × String} (h : s.writing e = some probe) :
    ∃ p ∈ s.procs, probe ∈ p.outstanding := by
  unfold Sys.writing at h
  split at h
  case h_1 hc =>
    cases h
    obtain ⟨i, env, -, hi⟩ := Sys.checking_inv hc
    exact ⟨_, List.mem_of_getElem? hi, List.mem_cons_self⟩
  case h_2 => cases h

/-- In every run in which no registration changes the address of an id that a round has still
to probe or to write about, every verdict comes from the registered address. -/
theorem verdicts_current {url strategy : String} {ms : List (Move Sys Event)}
    (h : Run (Sys.step X) (Sys.init url strategy) ms s) (hm : ∀ m ∈ ms, Undisturbed m) :
    ∀ m ∈ ms, Current m := by
  intro m hmem probe hprobe n hn
  have hinit : ProbeInv (Sys.init url strategy) :=
    ⟨fun id n hn => (by cases hn), fun p hp => (by cases hp)⟩
  have hI : ProbeInv m.pre := (h.invariant_mem hinit
    (fun _ _ _ hI hC hs => hI.step hC (Sys.step_inv hs)) hm m hmem).1
  obtain ⟨p, hp, hout⟩ := Sys.writing_inv hprobe
  have hreg : m.pre.registered probe.1 = some (n.id, n.address) := by
    rw [Sys.registered, Option.mem_def.mp hn]
    rfl
  exact hI.current p hp probe hout _ hreg

/-- A node registers, and a round has probed it. -/
def probing : List Event :=
  [.registerNode (.sample "n" "http://a:50051"), .run 0 {}, .checkAllNodes, .run 1 {},
    .run 1 { probe := some ⟨"n", 0, true⟩ }]

/-- The node registers again and the round writes its verdict. -/
def reregistering (address : String) : List Event :=
  [.registerNode (.sample "n" address), .run 2 {}, .run 1 {}]

theorem reregistering_current :
    ∃ ms s, Run (Sys.step .sample) (Sys.init "" "round_robin") ms s ∧ ∀ m ∈ ms, Current m := by
  have htest : (exec (Sys.step .sample) (Sys.init "" "round_robin")
      (probing ++ reregistering "http://a:50051")).any (fun _ => true) = true := by decide
  obtain ⟨s, h, -⟩ := exec_any_run htest
  exact ⟨_, s, h, verdicts_current h (by decide)⟩

/-- The probe of the old address makes the node healthy under the new one. -/
theorem reregistering_stale :
    ∃ s, Run (Sys.step .sample) (Sys.init "" "round_robin")
        (moves (Sys.step .sample) (Sys.init "" "round_robin")
          (probing ++ reregistering "http://b:50051")) s ∧
      ¬ ∀ m ∈ moves (Sys.step .sample) (Sys.init "" "round_robin")
        (probing ++ reregistering "http://b:50051"), Current m := by
  have htest : (exec (Sys.step .sample) (Sys.init "" "round_robin")
      (probing ++ reregistering "http://b:50051")).any (fun _ => true) = true := by decide
  obtain ⟨s, h, -⟩ := exec_any_run htest
  exact ⟨s, h, by decide⟩

end FerroEdge.ControlPlane
