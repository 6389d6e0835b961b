import FerroEdge.ControlPlane.System

/-!
# Circuit breakers under concurrent dispatches

The breaker of a node is asked in every scheduling decision and told the outcome of every
dispatch to the node, in whatever order the answers arrive.

*Open breakers.*  `record_success` closes a breaker in any state, so the answer of a request
that was sent before the breaker opened can close it, at once or after the cooldown.
`cooldown_kept_iff` says that an open breaker is left by `allow_request` after the cooldown, and
by nothing else, and keeps its node out of the scheduler until then, exactly in the runs in which
no success is recorded on an open breaker.  `lateSuccess_reopens` is a run in which one is.

*Half-open breakers.*  A half-open breaker lets every request through, not one.
`singleProbe_of_awaited` says that a half-open node is handed out once, as long as no dispatch
asks for a node while one that has been handed out so is eligible for it.  `secondProbe_sent`
is a run in which one does.
-/

namespace FerroEdge.ControlPlane

open Machine

namespace Sys

/-- The circuit breaker of a node. -/
def breaker (s : Sys) (id : String) : Option CircuitBreaker :=
  s.shared.app.circuitBreakers.lookup id

/-- The node that `select_node_for_task` returns in a step. -/
def selected (s : Sys) : Event → Option NodeInfo
  | .run i env => (s.selecting (.run i env)).bind fun r =>
      (selectNodeForTask s.now env.seed r.triedNodes s.shared.app).2
  | _ => none

/-- The node on whose breaker `record_success` is called in a step. -/
def recordsSuccess (s : Sys) (e : Event) : Option String :=
  match (s.stepping e).map DispatchRun.pc with
  | some (.recordSuccess node _) => some node.id
  | _ => none

/-- The node on whose breaker `record_failure` is called in a step. -/
def recordsFailure (s : Sys) (e : Event) : Option String :=
  match (s.stepping e).map DispatchRun.pc with
  | some (.recordFailure node) => some node.id
  | _ => none

/-- What becomes of the breaker of a node in a step. -/
def breakerAfter (s : Sys) (e : Event) (id : String) : Option CircuitBreaker :=
  match (s.stepping e).map DispatchRun.pc with
  | some .select => (s.breaker id).map fun cb => (cb.allowRequest s.now).2
  | some (.recordSuccess node _) =>
      if id = node.id then some ((s.breaker node.id).getD .default).recordSuccess
      else s.breaker id
  | some (.recordFailure node) =>
      if id = node.id then some (((s.breaker node.id).getD .default).recordFailure s.now)
      else s.breaker id
  | _ => s.breaker id

end Sys

variable {X : Externals} {env : Env} {s t : Sys} {e : Event}

/-- The breakers after a step. -/
theorem Sys.Step.breaker (h : Sys.Step X s e t) (id : String) :
    t.breaker id = s.breakerAfter e id := by
  cases h with
  | start he => cases e <;> first | rfl | cases he
  | tick => rfl
  | rehash => rfl
  | @dispatch i env r r' sh hi hrun =>
      simp only [Sys.breakerAfter, Sys.stepping_run hi, Option.map_some]
      cases DispatchRun.step_inv hrun with
      | select hpc =>
          obtain ⟨k, hk⟩ := selectNodeForTask_fst s.now env.seed r.triedNodes s.shared.app
          simp only [hpc, Sys.breaker, hk]
          exact lookup_probeBreakers
      | recordSuccess hpc =>
          simp only [hpc]
          exact HashMap.lookup_upsert _
      | recordFailure hpc =>
          simp only [hpc]
          exact HashMap.lookup_upsert _
      | endSleep hpc =>
          cases hpc with
          | inl hpc => simp only [hpc]; rfl
          | inr hpc => simp only [hpc]; rfl
      | storeFailure hpc =>
          cases hpc with
          | inl hpc => simp only [hpc.1]; rfl
          | inr hpc => simp only [hpc.1]; rfl
      | _ => simp only [*]; rfl
  | other hi hp hrun =>
      rw [Sys.breakerAfter, Sys.stepping_none hi hp, Sys.breaker, (Proc.step_other hp hrun).app]
      rfl

theorem Sys.Step.now_le (h : Sys.Step X s e t) : s.now ≤ t.now := by
  cases h with
  | tick d => exact Nat.le_add_right s.now d
  | _ => exact Nat.le_refl s.now

theorem Sys.selected_eligible {n : NodeInfo} (h : s.selected e = some n) :
    ∃ r, s.selecting e = some r ∧ Eligible s.now r.triedNodes s.shared.app n := by
  cases e with
  | run i env =>
      obtain ⟨r, hr, hn⟩ := Option.bind_eq_some_iff.mp h
      exact ⟨r, hr, selectNodeForTask_sound hn⟩
  | _ => cases h

/-! ## Open breakers -/

/-- When the first move records a failure that leaves the breaker open, the second returns the
node only after the cooldown. -/
def Cooled (m₁ m₂ : Move Sys Event) : Prop :=
  ∀ id ∈ m₁.pre.recordsFailure m₁.ev, ∀ cb ∈ m₁.post.breaker id, cb.state = .open →
    ∀ n ∈ m₂.pre.selected m₂.ev, n.id = id → m₁.pre.now + cb.cooldown ≤ m₂.pre.now

instance (m₁ m₂ : Move Sys Event) : Decidable (Cooled m₁ m₂) := Option.decidableForallMem _

def Sys.HalfOpen (s : Sys) (id : String) : Prop :=
  (s.breaker id).map CircuitBreaker.state = some .halfOpen

instance (s : Sys) (id : String) : Decidable (s.HalfOpen id) := inferInstanceAs (Decidable (_ = _))

/-- A breaker that is open before the move and not after it has been asked by `allow_request`, in
a decision of the scheduler, when its cooldown since the last failure was over, and is half-open. -/
def LeftByProbe (m : Move Sys Event) : Prop :=
  ∀ id cb, m.pre.breaker id = some cb → cb.state = .open →
    (m.post.breaker id).map CircuitBreaker.state ≠ some .open →
    (m.pre.selecting m.ev).isSome = true ∧ cb.cooldown ≤ cb.elapsed m.pre.now ∧
      m.post.HalfOpen id

/-- No success is recorded on an open breaker. -/
def Timely (m : Move Sys Event) : Prop :=
  ∀ id ∈ m.pre.recordsSuccess m.ev, ∀ cb ∈ m.pre.breaker id, cb.state ≠ .open

instance : DecidablePred Timely := fun _ => Option.decidableForallMem _

/-- The breaker of `id` failed at `t₀` and is open since, or the cooldown `c` is over. -/
def CoolingDown (id : String) (t₀ c : Nat) (s : Sys) : Prop :=
  t₀ ≤ s.now ∧ (t₀ + c ≤ s.now ∨
    ∃ cb t₁, s.breaker id = some cb ∧ cb.state = .open ∧ cb.cooldown = c ∧
      cb.lastFailure = some t₁ ∧ t₀ ≤ t₁ ∧ t₁ ≤ s.now)

theorem CircuitBreaker.allows_iff {now t₁ : Nat} {cb : CircuitBreaker} (ho : cb.state = .open)
    (hl : cb.lastFailure = some t₁) : cb.Allows now ↔ cb.cooldown ≤ now - t₁ := by
  simp [CircuitBreaker.Allows, CircuitBreaker.elapsed, ho, hl]

theorem CircuitBreaker.allowRequest_of_not_allows {now : Nat} {cb : CircuitBreaker}
    (h : ¬ cb.Allows now) : (cb.allowRequest now).2 = cb := by
  rw [CircuitBreaker.Allows, Classical.not_imp] at h
  rw [CircuitBreaker.allowRequest_snd, if_neg (fun hc => h.2 hc.2)]

/-- A step keeps a breaker that cools down, unless it records a success on it. -/
theorem CoolingDown.step {id : String} {t₀ c : Nat} (hI : CoolingDown id t₀ c s)
    (hm : Timely ⟨s, e, t⟩) (h : s.step X e = some t) : CoolingDown id t₀ c t := by
  have hstep := Sys.step_inv h
  have hnow := hstep.now_le
  obtain ⟨ht₀, hI⟩ := hI
  refine ⟨Nat.le_trans ht₀ hnow, ?_⟩
  obtain hover | ⟨cb, t₁, hcb, hopen, hc, hlast, h01, h1⟩ := hI
  · exact Or.inl (Nat.le_trans hover hnow)
  · by_cases hal : cb.Allows s.now
    · rw [cb.allows_iff hopen hlast, hc] at hal
      exact Or.inl (by omega)
    · right
      have hkeep : t.breaker id = some cb →
          ∃ cb t₁, t.breaker id = some cb ∧ cb.state = .open ∧ cb.cooldown = c ∧
            cb.lastFailure = some t₁ ∧ t₀ ≤ t₁ ∧ t₁ ≤ t.now :=
        fun hcb' => ⟨cb, t₁, hcb', hopen, hc, hlast, h01, Nat.le_trans h1 hnow⟩
      have hafter := hstep.breaker id
      unfold Sys.breakerAfter at hafter
      split at hafter
      case h_1 =>
        rw [hcb, Option.map_some, CircuitBreaker.allowRequest_of_not_allows hal] at hafter
        exact hkeep hafter
      case h_2 node resp hpc =>
        split at hafter
        case isTrue hid =>
          subst hid
          exact absurd hopen (hm node.id (by simp [Sys.recordsSuccess, hpc]) cb hcb)
        case isFalse => exact hkeep (hafter.trans hcb)
      case h_3 node hpc =>
        split at hafter
        case isTrue hid =>
          subst hid
          rw [hcb] at hafter
          exact ⟨_, s.now, hafter, CircuitBreaker.recordFailure_open hopen,
            (CircuitBreaker.recordFailure_cooldown _ _).trans hc,
            CircuitBreaker.recordFailure_lastFailure _ _, ht₀, hnow⟩
        case isFalse => exact hkeep (hafter.trans hcb)
      case h_4 => exact hkeep (hafter.trans hcb)

/-- A node whose breaker cools down is not handed out. -/
theorem CoolingDown.not_selected {id : String} {t₀ c : Nat} {n : NodeInfo}
    (hI : CoolingDown id t₀ c s) (hn : s.selected e = some n) (hid : n.id = id) :
    t₀ + c ≤ s.now := by
  obtain ⟨r, -, hel⟩ := Sys.selected_eligible hn
  obtain ⟨ht₀, hover | ⟨cb, t₁, hcb, hopen, hc, hlast, h01, h1⟩⟩ := hI
  · exact hover
  · have hal := hel.allowed cb (hid ▸ hcb)
    rw [cb.allows_iff hopen hlast, hc] at hal
    omega

/-- A failure that leaves the breaker open starts the cooldown. -/
theorem coolingDown_of_failure {id : String} {cb : CircuitBreaker} (h : s.step X e = some t)
    (hf : s.recordsFailure e = some id) (hcb : t.breaker id = some cb) (hopen : cb.state = .open) :
    CoolingDown id s.now cb.cooldown t := by
  have hstep := Sys.step_inv h
  have hafter := hstep.breaker id
  unfold Sys.recordsFailure at hf
  split at hf
  case h_1 node hpc =>
    cases hf
    simp only [Sys.breakerAfter, hpc, if_true] at hafter
    rw [hcb, Option.some.injEq] at hafter
    refine ⟨hstep.now_le, Or.inr ⟨cb, s.now, hcb, hopen, rfl, ?_, Nat.le_refl _, hstep.now_le⟩⟩
    rw [hafter, CircuitBreaker.recordFailure_lastFailure]
  case h_2 => cases hf

theorem cooled_of_timely {s₀ : Sys} {ms : List (Move Sys Event)} (h : Run (Sys.step X) s₀ ms s)
    (hm : ∀ m ∈ ms, Timely m) : ms.Pairwise Cooled := by
  induction h with
  | nil => exact List.Pairwise.nil
  | @snoc ms s t e hrun hs ih =>
      have hms : ∀ m ∈ ms, Timely m := fun m hm' => hm m (List.mem_append_left _ hm')
      refine List.pairwise_append.mpr ⟨ih hms, List.pairwise_singleton _ _, ?_⟩
      intro m₁ hm₁ m₂ hm₂
      rw [List.mem_singleton] at hm₂
      subst hm₂
      intro id hf cb hcb hopen n hn hid
      -- The run from the failure to the present keeps the breaker cooling down.
      obtain ⟨as, bs, rfl⟩ := List.append_of_mem hm₁
      obtain ⟨-, hstep, hrest⟩ := hrun.at_move
      have hI : CoolingDown id m₁.pre.now cb.cooldown s :=
        hrest.invariant (coolingDown_of_failure hstep hf hcb hopen)
          (fun _ _ _ hI hc hs => hI.step hc hs) fun m hm' => hms m (by simp [hm'])
      exact hI.not_selected hn hid

/-- A success on an open breaker closes it, without a probe. -/
theorem timely_of_leftByProbe (h : s.step X e = some t) (hleft : LeftByProbe ⟨s, e, t⟩) :
    Timely ⟨s, e, t⟩ := by
  intro id hid cb hcb hopen
  have hafter := (Sys.step_inv h).breaker id
  dsimp only [Sys.recordsSuccess] at hid
  split at hid
  case h_1 node resp hpc =>
    cases hid
    have hclosed : (t.breaker node.id).map CircuitBreaker.state = some .closed := by
      simp [hafter, Sys.breakerAfter, hpc, CircuitBreaker.recordSuccess]
    obtain ⟨-, -, hhalf⟩ := hleft node.id cb hcb hopen (by simp [hclosed])
    rw [Sys.HalfOpen, hclosed] at hhalf
    cases hhalf
  case h_2 => cases hid

/-- An open breaker that no success is recorded on is left by `allow_request` only. -/
theorem leftByProbe_of_timely (h : s.step X e = some t) (hm : Timely ⟨s, e, t⟩) :
    LeftByProbe ⟨s, e, t⟩ := by
  intro id cb hcb hopen hleft
  dsimp only at hcb hleft ⊢
  have hafter := (Sys.step_inv h).breaker id
  have hkept : t.breaker id ≠ some cb := by
    intro hsame
    exact hleft (by rw [hsame, Option.map_some, hopen])
  unfold Sys.breakerAfter at hafter
  split at hafter
  case h_1 hpc =>
    obtain ⟨r, hr, hsel⟩ := Option.map_eq_some_iff.mp hpc
    rw [hcb, Option.map_some] at hafter
    have hover : cb.Allows s.now := by
      by_contra hal
      exact hkept (by rw [hafter, CircuitBreaker.allowRequest_of_not_allows hal])
    refine ⟨by simp [Sys.selecting, hr, hsel], hover hopen, ?_⟩
    rw [Sys.HalfOpen, hafter, Option.map_some, CircuitBreaker.allowRequest_snd,
      if_pos ⟨hopen, hover hopen⟩]
  case h_2 node resp hpc =>
    split at hafter
    case isTrue hid =>
      subst hid
      exact absurd hopen (hm node.id (by simp [Sys.recordsSuccess, hpc]) cb hcb)
    case isFalse => exact absurd (hafter.trans hcb) hkept
  case h_3 node hpc =>
    split at hafter
    case isTrue hid =>
      subst hid
      rw [hcb, Option.getD_some] at hafter
      exact absurd (by rw [hafter, Option.map_some, CircuitBreaker.recordFailure_open hopen]) hleft
    case isFalse => exact absurd (hafter.trans hcb) hkept
  case h_4 => exact absurd (hafter.trans hcb) hkept

/-- An open breaker keeps its node out of the scheduler until the cooldown is over, and is left
by `allow_request` after the cooldown and by nothing else, exactly when no success is recorded on
an open breaker. -/
theorem cooldown_kept_iff {url strategy : String} {ms : List (Move Sys Event)}
    (h : Run (Sys.step X) (Sys.init url strategy) ms s) :
    (ms.Pairwise Cooled ∧ ∀ m ∈ ms, LeftByProbe m) ↔ ∀ m ∈ ms, Timely m := by
  constructor
  · rintro ⟨-, hleft⟩ m hm
    exact timely_of_leftByProbe (h.step_of_mem hm) (hleft m hm)
  · intro htimely
    exact ⟨cooled_of_timely h htimely, fun m hm =>
      leftByProbe_of_timely (h.step_of_mem hm) (htimely m hm)⟩

/-- Six tasks are on their way to one node. -/
def sixInFlight : List Event :=
  [.registerNode (.sample "n" "http://n:50051"), .run 0 {}] ++
  .submitTask "a" "" .sample :: sending 1 ++ .submitTask "b" "" .sample :: sending 2 ++
  .submitTask "c" "" .sample :: sending 3 ++ .submitTask "d" "" .sample :: sending 4 ++
  .submitTask "e" "" .sample :: sending 5 ++ .submitTask "f" "" .sample :: sending 6

/-- Five of them fail, which opens the breaker. -/
def fiveFail : List Event :=
  sixInFlight ++ answering 1 false ++ answering 2 false ++ answering 3 false ++
  answering 4 false ++ answering 5 false

/-- A seventh task is submitted when the cooldown is over, and is given the node. -/
def afterCooldown : List Event :=
  fiveFail ++ .tick (30 * 10 ^ 9) :: .submitTask "g" "" .sample :: List.replicate 3 (.run 7 {})

/-- The seventh task succeeds, which closes the half-open breaker. -/
def probeAnswered : List Event :=
  afterCooldown ++ List.replicate 2 (.run 7 {}) ++ answering 7 true

theorem probeAnswered_cooled :
    ∃ ms s, Run (Sys.step .sample) (Sys.init "" "round_robin") ms s ∧
      (∃ m ∈ ms, m.post.breaker "n" ≠ m.pre.breaker "n" ∧ m.post.HalfOpen "n") ∧
      (∃ m ∈ ms, m.pre.recordsSuccess m.ev = some "n") ∧
      ms.Pairwise Cooled ∧ ∀ m ∈ ms, LeftByProbe m := by
  have htest : (exec (Sys.step .sample) (Sys.init "" "round_robin") probeAnswered).any
      (fun s => s.procs.length == 8) = true := by decide
  obtain ⟨s, h, -⟩ := exec_any_run htest
  exact ⟨_, s, h, by decide, by decide, (cooldown_kept_iff h).mpr (by decide)⟩

/-- The sixth task succeeds after the breaker has opened, and a seventh is submitted. -/
def lateSuccess : List Event :=
  fiveFail ++ answering 6 true ++ .submitTask "g" "" .sample :: List.replicate 3 (.run 7 {})

/-- The seventh task is given the node at the time of the fifth failure. -/
theorem lateSuccess_reopens :
    ∃ ms s, Run (Sys.step .sample) (Sys.init "" "round_robin") ms s ∧ ¬ ms.Pairwise Cooled := by
  have htest : (exec (Sys.step .sample) (Sys.init "" "round_robin") lateSuccess).any
      (fun s => s.procs.length == 8) = true := by decide
  obtain ⟨s, h, -⟩ := exec_any_run htest
  exact ⟨_, s, h, by decide⟩

/-! ## Half-open breakers -/

/-- An outcome is recorded on the breaker of `id`. -/
def Sys.Records (s : Sys) (e : Event) (id : String) : Prop :=
  s.recordsSuccess e = some id ∨ s.recordsFailure e = some id

instance (s : Sys) (e : Event) (id : String) : Decidable (s.Records e id) :=
  inferInstanceAs (Decidable (_ ∨ _))

/-- Until an outcome is recorded on the breaker of `id`, it is half-open and the node is not
handed out. -/
def AwaitsOutcome (id : String) : List (Move Sys Event) → Prop
  | [] => True
  | m :: ms =>
      m.pre.Records m.ev id ∨
      m.post.HalfOpen id ∧ (∀ n ∈ m.pre.selected m.ev, n.id ≠ id) ∧ AwaitsOutcome id ms

/-- After a half-open node is handed out, it is not handed out again before an outcome is
recorded on its breaker. -/
def SingleProbe : List (Move Sys Event) → Prop
  | [] => True
  | m :: ms =>
      (∀ n ∈ m.pre.selected m.ev, m.post.HalfOpen n.id → AwaitsOutcome n.id ms) ∧ SingleProbe ms

/-- The nodes that were handed out half-open and have had no outcome since, after one more
move. -/
def probed (out : List String) (m : Move Sys Event) : List String :=
  let out := out.filter fun id => ¬ m.pre.Records m.ev id
  match m.pre.selected m.ev with
  | some n => if m.post.HalfOpen n.id then n.id :: out else out
  | none => out

/-- No dispatch asks for a node while one that is being probed is eligible for it.  `out` are
the nodes that are being probed at the start. -/
def ProbesAwaited : List String → List (Move Sys Event) → Prop
  | _, [] => True
  | out, m :: ms =>
      (∀ r ∈ m.pre.selecting m.ev, ∀ n ∈ m.pre.shared.app.nodes.values,
        Eligible m.pre.now r.triedNodes m.pre.shared.app n → n.id ∉ out) ∧
      ProbesAwaited (probed out m) ms

instance decidableAwaitsOutcome (id : String) :
    (ms : List (Move Sys Event)) → Decidable (AwaitsOutcome id ms)
  | [] => inferInstanceAs (Decidable True)
  | _ :: ms =>
      have := decidableAwaitsOutcome id ms
      inferInstanceAs (Decidable (_ ∨ _ ∧ _ ∧ _))

instance decidableSingleProbe : (ms : List (Move Sys Event)) → Decidable (SingleProbe ms)
  | [] => inferInstanceAs (Decidable True)
  | _ :: ms =>
      have := decidableSingleProbe ms
      inferInstanceAs (Decidable (_ ∧ _))

instance decidableProbesAwaited :
    (out : List String) → (ms : List (Move Sys Event)) → Decidable (ProbesAwaited out ms)
  | _, [] => inferInstanceAs (Decidable True)
  | out, m :: ms =>
      have := decidableProbesAwaited (probed out m) ms
      inferInstanceAs (Decidable (_ ∧ _))

/-- A half-open breaker stays so until an outcome is recorded. -/
theorem Sys.HalfOpen.step {id : String} (hh : s.HalfOpen id) (h : s.step X e = some t)
    (hr : ¬ s.Records e id) : t.HalfOpen id := by
  obtain ⟨cb, hcb, hstate⟩ := Option.map_eq_some_iff.mp hh
  rw [Sys.HalfOpen, (Sys.step_inv h).breaker id]
  unfold Sys.breakerAfter
  split
  case h_1 =>
    have hsame : (cb.allowRequest s.now).2 = cb := by
      rw [CircuitBreaker.allowRequest_snd, if_neg (by simp [hstate])]
    rw [hcb, Option.map_some, hsame, Option.map_some, hstate]
  case h_2 node resp hpc =>
    split
    case isTrue hid => exact absurd (Or.inl (by simp [Sys.recordsSuccess, hpc, hid])) hr
    case isFalse => exact hh
  case h_3 node hpc =>
    split
    case isTrue hid => exact absurd (Or.inr (by simp [Sys.recordsFailure, hpc, hid])) hr
    case isFalse => exact hh
  case h_4 => exact hh

theorem singleProbe_from {ms : List (Move Sys Event)} {s₀ : Sys} {out : List String}
    (h : Run (Sys.step X) s₀ ms s) (hp : ProbesAwaited out ms) :
    SingleProbe ms ∧ ∀ id ∈ out, s₀.HalfOpen id → AwaitsOutcome id ms := by
  induction ms generalizing s₀ out with
  | nil => exact ⟨trivial, fun _ _ _ => trivial⟩
  | cons m ms ih =>
      obtain ⟨rfl, hs, hrest⟩ := h.cons_inv
      obtain ⟨hsingle, hawait⟩ := ih hrest hp.2
      refine ⟨⟨fun n hn hho => ?_, hsingle⟩, fun id hid hho => ?_⟩
      · refine hawait n.id ?_ hho
        rw [probed, Option.mem_def.mp hn]
        simp [hho]
      · by_cases hr : m.pre.Records m.ev id
        · exact Or.inl hr
        · have hpost := hho.step hs hr
          refine Or.inr ⟨hpost, fun n hn hnid => ?_, hawait id ?_ hpost⟩
          · obtain ⟨r, hsel, hel⟩ := Sys.selected_eligible hn
            exact hp.1 r hsel n hel.registered hel (hnid ▸ hid)
          · have hfil : id ∈ out.filter fun id => ¬ m.pre.Records m.ev id :=
              List.mem_filter.mpr ⟨hid, by simpa using hr⟩
            unfold probed
            dsimp only
            split
            · split
              · exact List.mem_cons_of_mem _ hfil
              · exact hfil
            · exact hfil

/-- In every run in which no dispatch asks for a node while one that is being probed is
eligible for it, a half-open node is handed out once per outcome. -/
theorem singleProbe_of_awaited {url strategy : String} {ms : List (Move Sys Event)}
    (h : Run (Sys.step X) (Sys.init url strategy) ms s) (hp : ProbesAwaited [] ms) :
    SingleProbe ms :=
  (singleProbe_from h hp).1

/-- The probe of `afterCooldown` succeeds before the next task is submitted. -/
def awaitedProbe : List Event :=
  probeAnswered ++ .submitTask "h" "" .sample :: List.replicate 3 (.run 8 {})

theorem awaitedProbe_single :
    SingleProbe (moves (Sys.step .sample) (Sys.init "" "round_robin") awaitedProbe) := by
  have htest : (exec (Sys.step .sample) (Sys.init "" "round_robin") awaitedProbe).any
      (fun s => s.procs.length == 9) = true := by decide
  obtain ⟨s, h, -⟩ := exec_any_run htest
  exact singleProbe_of_awaited h (by decide)

/-- An eighth task is submitted while the probe of `afterCooldown` is on its way. -/
def secondProbe : List Event :=
  afterCooldown ++ .submitTask "h" "" .sample :: List.replicate 3 (.run 8 {})

/-- The eighth task is given the half-open node too. -/
theorem secondProbe_sent :
    ∃ ms s, Run (Sys.step .sample) (Sys.init "" "round_robin") ms s ∧ ¬ SingleProbe ms := by
  have htest : (exec (Sys.step .sample) (Sys.init "" "round_robin") secondProbe).any
      (fun s => s.procs.length == 9) = true := by decide
  obtain ⟨s, h, -⟩ := exec_any_run htest
  exact ⟨_, s, h, by decide⟩

end FerroEdge.ControlPlane
