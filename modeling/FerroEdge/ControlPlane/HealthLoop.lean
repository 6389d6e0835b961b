import FerroEdge.ControlPlane.Breakers
import FerroEdge.ControlPlane.HealthRounds
import FerroEdge.ControlPlane.Retries

/-!
# The health-check loop

`health_check_loop` is the only caller of `check_all_nodes`.  It awaits a tick of its ticker,
runs a round to the end, and awaits the next tick.  The first tick comes at once.  A tick that
was missed while a round was running is not dropped: each deadline is one interval after the
last one, so late rounds follow each other without a pause until the loop has caught up.

* `rounds_paced`: there is at most one round at a time, no round comes early, and a loop that
  has caught up has run one round for each interval.
* `loop_settles`: from the end of a round to the beginning of the next one the nodes have the
  verdicts of that round and the gauge is right, unless a node has registered meanwhile.
-/

namespace FerroEdge.ControlPlane

open Machine

/-- The control plane with its health-check loop: the deadline of the next tick, and the last
round that was started. -/
structure HealthLoop where
  control : Sys
  deadline : Nat
  round : Option Nat

inductive LoopEvent where
  | control (e : Event)
  | ticked

def Event.isRound : Event → Bool
  | .checkAllNodes => true
  | _ => false

/-- The call of `check_all_nodes` that is the process `i` has returned. -/
def Sys.roundDone (s : Sys) (i : Nat) : Bool := s.procs[i]?.bind Proc.round? = some .done

namespace HealthLoop

def init (selfUrl schedulingStrategy : String) : HealthLoop :=
  ⟨.init selfUrl schedulingStrategy, 0, none⟩

def step (X : Externals) (interval : Nat) (l : HealthLoop) : LoopEvent → Option HealthLoop
  | .control e =>
      if e.isRound then none
      else (l.control.step X e).map fun s => { l with control := s }
  | .ticked =>
      -- The loop polls the ticker only after the call of `check_all_nodes` has returned.
      if l.deadline ≤ l.control.now ∧ l.round.all l.control.roundDone then
        (l.control.step X .checkAllNodes).map fun s =>
          ⟨s, l.deadline + interval, some l.control.procs.length⟩
      else none

end HealthLoop

def LoopEvent.event : LoopEvent → Event
  | .control e => e
  | .ticked => .checkAllNodes

/-- The moves of the control plane in a run of the loop. -/
def controlMoves (ms : List (Move HealthLoop LoopEvent)) : List (Move Sys Event) :=
  Run.project HealthLoop.control (fun _ e => some e.event) ms

def Proc.isRound (p : Proc) : Bool := p.round?.isSome

/-- The number of rounds that have been started. -/
def Sys.rounds (s : Sys) : Nat := s.procs.countP Proc.isRound

/-- The steps of the loop by their kind. -/
inductive HealthLoop.Step (X : Externals) (interval : Nat) (l : HealthLoop) :
    LoopEvent → HealthLoop → Prop where
  | control {e : Event} {s : Sys} :
      e ≠ .checkAllNodes → Sys.Step X l.control e s →
      Step X interval l (.control e) { l with control := s }
  | ticked {s : Sys} :
      l.deadline ≤ l.control.now → (∀ i, l.round = some i → l.control.roundDone i) →
      Sys.Step X l.control .checkAllNodes s →
      Step X interval l .ticked ⟨s, l.deadline + interval, some l.control.procs.length⟩

variable {X : Externals} {env : Env} {interval i : Nat} {s t : Sys} {l l' : HealthLoop}
  {e : Event} {ev : LoopEvent} {h h' : HealthRound} {ns : List (Move HealthLoop LoopEvent)}

theorem HealthLoop.step_inv (hs : l.step X interval ev = some l') :
    HealthLoop.Step X interval l ev l' ∧ l.control.step X ev.event = some l'.control := by
  cases ev with
  | control e =>
      simp only [HealthLoop.step] at hs
      split at hs
      case isTrue => cases hs
      case isFalse hround =>
        obtain ⟨s, hstep, rfl⟩ := Option.map_eq_some_iff.mp hs
        refine ⟨.control ?_ (Sys.step_inv hstep), hstep⟩
        rintro rfl
        exact hround rfl
  | ticked =>
      simp only [HealthLoop.step] at hs
      split at hs
      case isTrue hdue =>
        obtain ⟨s, hstep, rfl⟩ := Option.map_eq_some_iff.mp hs
        refine ⟨.ticked hdue.1 (fun i hi => ?_) (Sys.step_inv hstep), hstep⟩
        simpa [hi] using hdue.2
      case isFalse => cases hs

/-- A run of the loop is a run of the control plane. -/
theorem HealthLoop.control_run {l₀ : HealthLoop}
    (hrun : Run (HealthLoop.step X interval) l₀ ns l) :
    Run (Sys.step X) l₀.control (controlMoves ns) l.control := by
  refine hrun.run_project HealthLoop.control (fun _ e => some e.event) fun l ev l' hs => ?_
  refine ⟨fun e he => ?_, fun he => by cases he⟩
  cases he
  exact (HealthLoop.step_inv hs).2

/-! ## Rounds -/

theorem Sys.roundDone_iff : s.roundDone i = true ↔ s.procs[i]? = some (.round .done) := by
  rw [Sys.roundDone, decide_eq_true_eq, Option.bind_eq_some_iff]
  constructor
  · rintro ⟨p, hp, hround⟩
    rw [hp, Proc.round_inv hround]
  · intro hi
    exact ⟨_, hi, rfl⟩

/-- A process that is a round after its step was one before. -/
theorem Proc.step_isRound {p p' : Proc} {sh : Shared} {new : Option DispatchRun}
    (hstep : p.step X env s = some (sh, p', new)) : p'.isRound = p.isRound := by
  cases Proc.step_inv hstep <;> rfl

/-- A round that has returned takes no step. -/
theorem Sys.Step.not_roundDone (hs : Sys.Step X s (.run i env) t) : s.roundDone i = false := by
  rw [Bool.eq_false_iff]
  intro hdone
  obtain ⟨sh, h', hstep, -⟩ := hs.round_inv (Sys.roundDone_iff.mp hdone)
  cases hstep

/-- A round was there before the step, unless the step starts it. -/
theorem Sys.Step.round_prev (hs : Sys.Step X s e t) (hi : t.procs[i]? = some (.round h)) :
    (∃ h₀, s.procs[i]? = some (.round h₀) ∧ (h₀ = .done → h = .done)) ∨
    e = .checkAllNodes ∧ i = s.procs.length := by
  by_cases hact : e.actor = some i
  · cases e with
    | run j env =>
        cases hact
        left
        cases hs with
        | start he => cases he
        | dispatch hj =>
            rw [getElem?_set_self hj] at hi
            cases hi
        | @other _ _ p p' sh new hj _ hstep =>
            rw [getElem?_set_append_self hj] at hi
            cases hi
            have hround : p.isRound = true := (Proc.step_isRound hstep).symm
            obtain ⟨h₀, hh₀⟩ := Option.isSome_iff_exists.mp hround
            cases Proc.round_inv hh₀
            refine ⟨h₀, hj, ?_⟩
            rintro rfl
            cases hstep
    | _ => cases hact
  · obtain hold | ⟨hnone, he | ⟨spec, hspec⟩⟩ := hs.getElem?_inv hact hi
    · exact Or.inl ⟨h, hold, id⟩
    · right
      cases hs with
      | @start _ p hp =>
          rw [he] at hp
          cases hp
          refine ⟨by cases e <;> cases he; rfl, ?_⟩
          obtain ⟨hlen, -⟩ | ⟨hlt, hold⟩ := getElem?_snoc_inv hi
          · exact hlen
          · rw [hnone] at hold
            cases hold
      | _ => cases he
    · cases hspec

/-- Only the beginning of a round adds to the number of rounds. -/
theorem Sys.Step.rounds_eq (hs : Sys.Step X s e t) :
    t.rounds = s.rounds + if e.isRound then 1 else 0 := by
  cases hs with
  | @start e p he =>
      simp only [Sys.rounds, List.countP_append, List.countP_singleton]
      cases e <;> cases he <;> rfl
  | tick => rfl
  | rehash => rfl
  | @dispatch i env r r' sh hi =>
      have hset := countP_set_add (b := Proc.dispatch r') Proc.isRound hi
      simpa [Sys.rounds, Event.isRound, Proc.isRound, Proc.round?] using hset
  | @other i env p p' sh new hi _ hstep =>
      have hset := countP_set_add (b := p') Proc.isRound hi
      rw [Proc.step_isRound hstep] at hset
      have hnew : ((new.map Proc.dispatch).toList).countP Proc.isRound = 0 := by
        cases new <;> rfl
      simp only [Sys.rounds, List.countP_append, hnew, Event.isRound, Bool.false_eq_true, if_false]
      omega

/-! ## The loop -/

/-- The rounds of the loop: all but the last have returned, and the deadline counts them. -/
structure LoopInv (interval : Nat) (l : HealthLoop) : Prop where
  last : ∀ (i : Nat) h, l.control.procs[i]? = some (.round h) → h ≠ .done → l.round = some i
  deadline : l.deadline = l.control.rounds * interval
  early : (l.control.rounds - 1) * interval ≤ l.control.now

theorem LoopInv.step (hI : LoopInv interval l) (hs : HealthLoop.Step X interval l ev l') :
    LoopInv interval l' := by
  cases hs with
  | @control e s hne hs =>
      have hrounds : s.rounds = l.control.rounds := by
        rw [hs.rounds_eq, if_neg]
        · rfl
        · cases e <;> simp_all [Event.isRound]
      refine ⟨fun i h hi hopen => ?_, ?_, ?_⟩
      · obtain ⟨h₀, hi₀, hdone⟩ | ⟨hround, -⟩ := hs.round_prev hi
        · exact hI.last i h₀ hi₀ fun h₀done => hopen (hdone h₀done)
        · exact absurd hround hne
      · rw [hrounds]
        exact hI.deadline
      · rw [hrounds]
        exact Nat.le_trans hI.early hs.now_le
  | @ticked s hdue hlast hs =>
      have hrounds : s.rounds = l.control.rounds + 1 := hs.rounds_eq
      refine ⟨fun i h hi hopen => ?_, ?_, ?_⟩
      · obtain ⟨h₀, hi₀, hdone⟩ | ⟨-, rfl⟩ := hs.round_prev hi
        · -- The round before has returned, and so it has after the step.
          exfalso
          have hopen₀ : h₀ ≠ .done := fun h₀done => hopen (hdone h₀done)
          have hi₁ := Sys.roundDone_iff.mp (hlast i (hI.last i h₀ hi₀ hopen₀))
          rw [hi₀] at hi₁
          cases hi₁
          exact hopen₀ rfl
        · rfl
      · rw [hrounds, Nat.succ_mul, ← hI.deadline]
      · rw [hrounds, Nat.add_sub_cancel, ← hI.deadline]
        exact Nat.le_trans hdue hs.now_le

theorem loopInv {url strategy : String}
    (hrun : Run (HealthLoop.step X interval) (.init url strategy) ns l) : LoopInv interval l := by
  refine hrun.always (I := LoopInv interval) ⟨?_, ?_, ?_⟩ fun _ _ _ hI hs =>
    hI.step (HealthLoop.step_inv hs).1
  · intro i h hi
    cases hi
  · exact (Nat.zero_mul interval).symm
  · exact Nat.le_of_eq (Nat.zero_mul interval)

/-- At most one round is under way, the `n`-th round does not begin before `n - 1` intervals have
passed, and when no tick is due there has been one round for each interval. -/
theorem rounds_paced {url strategy : String}
    (hrun : Run (HealthLoop.step X interval) (.init url strategy) ns l) :
    (∀ (i j : Nat) hi hj, l.control.procs[i]? = some (.round hi) → hi ≠ .done →
      l.control.procs[j]? = some (.round hj) → hj ≠ .done → i = j) ∧
    (l.control.rounds - 1) * interval ≤ l.control.now ∧
    (l.control.now < l.deadline → l.control.rounds = l.control.now / interval + 1) := by
  have hI := loopInv hrun
  refine ⟨fun i j hi hj hpi hopen hpj hopen' => ?_, hI.early, fun hnext => ?_⟩
  · have hlast := hI.last i hi hpi hopen
    rw [hI.last j hj hpj hopen'] at hlast
    exact (Option.some.inj hlast).symm
  · rw [hI.deadline] at hnext
    have hearly := hI.early
    obtain ⟨n, hn⟩ : ∃ n, l.control.rounds = n + 1 := by
      refine Nat.exists_eq_succ_of_ne_zero fun hzero => ?_
      rw [hzero, Nat.zero_mul] at hnext
      exact absurd hnext (Nat.not_lt_zero _)
    rw [hn] at hnext hearly ⊢
    rw [Nat.div_eq_of_lt_le hearly hnext, Nat.add_sub_cancel]

/-! ## Between two rounds -/

/-- All rounds but the last have returned, so a round that takes a step is the last one. -/
theorem LoopInv.checking_last (hI : LoopInv interval l) (hs : Sys.Step X l.control e s)
    (hc : l.control.checking e = some h) : e.actor = l.round := by
  obtain ⟨j, env, rfl, hj⟩ := Sys.checking_inv hc
  refine (hI.last j h hj ?_).symm
  rintro rfl
  have hopen := hs.not_roundDone
  rw [Sys.roundDone_iff.mpr hj] at hopen
  cases hopen

/-- A later round has a larger number, so a run of the loop that ends in the round `i` has been
in it since the round was the last one. -/
theorem round_kept (hrun : Run (HealthLoop.step X interval) l ns l') (hi : l.round = some i)
    (hlt : i < l.control.procs.length) :
    i < l'.control.procs.length ∧ (∃ j, l'.round = some j ∧ i ≤ j) ∧
    (l'.round = some i → ∀ m ∈ ns, m.pre.round = some i) := by
  induction hrun with
  | nil => exact ⟨hlt, ⟨i, hi, Nat.le_refl i⟩, fun _ m hm => by cases hm⟩
  | @snoc ns u v ev _ hs ih =>
      obtain ⟨hbound, ⟨j, hj, hij⟩, hkept⟩ := ih
      have hall : u.round = some i → ∀ m ∈ ns ++ [⟨u, ev, v⟩], m.pre.round = some i := by
        intro hu m hm
        obtain hm | hm := List.mem_append.mp hm
        · exact hkept hu m hm
        · rw [List.mem_singleton.mp hm]
          exact hu
      cases (HealthLoop.step_inv hs).1 with
      | control _ hstep => exact ⟨Nat.lt_of_lt_of_le hbound hstep.length_le, ⟨j, hj, hij⟩, hall⟩
      | ticked _ _ hstep =>
          refine ⟨Nat.lt_of_lt_of_le hbound hstep.length_le, ⟨_, rfl, Nat.le_of_lt hbound⟩, ?_⟩
          intro hsame
          rw [Option.some.inj hsame] at hbound
          exact absurd hbound (Nat.lt_irrefl i)

/-- From the end of a round to the beginning of the next one, and while no node registers: every
node that the round has read has the verdict of its probe and is otherwise as it was, no node was
added, and the gauge is the number of healthy nodes. -/
theorem loop_settles {url strategy : String} {ms : List (Move HealthLoop LoopEvent)}
    (hreach : Run (HealthLoop.step X interval) (.init url strategy) ms l)
    (hi : l.control.procs[i]? = some (.round .snapshot))
    (hrun : Run (HealthLoop.step X interval) l ns l')
    (hreg : ∀ m ∈ controlMoves ns, m.pre.registering m.ev = none)
    (hlast : l'.round = some i) (hdone : l'.control.roundDone i = true) :
    (∀ id n, l.control.shared.app.nodes.lookup id = some n →
      ∃ outcome, (id, outcome) ∈ probes i (controlMoves ns) ∧
        l'.control.shared.app.nodes.lookup id = some { n with
          healthy := outcome.isSome
          activeTasks := (outcome.map fun resp => resp.activeTasks.toNat).getD n.activeTasks }) ∧
    (∀ id, l.control.shared.app.nodes.lookup id = none →
      l'.control.shared.app.nodes.lookup id = none) ∧
    l'.control.shared.healthyNodesGauge =
      l'.control.shared.app.nodes.values.countP fun n => n.healthy := by
  have hround : l.round = some i := (loopInv hreach).last i .snapshot hi (by rintro ⟨⟩)
  have hkept := (round_kept hrun hround (List.getElem?_eq_some_iff.mp hi).1).2.2 hlast
  have halone : ∀ m ∈ controlMoves ns, Alone i m := by
    intro m' hm'
    refine ⟨hreg m' hm', fun h hc => ?_⟩
    obtain ⟨m, hm, hev, hpre, -⟩ := Run.mem_project hm'
    have hmlast := hkept m hm
    obtain ⟨as, bs, rfl⟩ := List.append_of_mem hm
    obtain ⟨hbefore, hstep, -⟩ := hrun.at_move
    rw [hpre, ← Option.some.inj hev] at hc
    rw [← Option.some.inj hev, ← hmlast]
    exact (loopInv (hreach.append hbefore)).checking_last
      (Sys.step_inv (HealthLoop.step_inv hstep).2) hc
  have hkeys : ∀ id n, l.control.registered id = some n → n.1 = id :=
    (HealthLoop.control_run hreach).always
      (I := fun s => ∀ id n, s.registered id = some n → n.1 = id)
      (fun id n hn => by cases hn) fun _ _ _ hI hs => (Sys.step_inv hs).keys hI
  obtain ⟨-, h, written, hI⟩ := roundInv hkeys hi (HealthLoop.control_run hrun) halone
  obtain rfl : h = .done := by
    have hend := hI.round
    rw [Sys.roundDone_iff.mp hdone] at hend
    cases hend
    rfl
  rw [hI.probes_eq]
  refine ⟨fun id n hn => ?_, fun id hnone => ?_, hI.gauge_eq⟩
  · obtain ⟨probe, hmem, rfl⟩ := List.mem_map.mp ((hI.mem_keys id).mpr (by rw [hn]; rfl))
    refine ⟨probe.2, hmem, ?_⟩
    rw [hI.verdict probe.1 probe.2 hmem, hn, Option.map_some, NodeInfo.probed_eq]
  · have hnot : id ∉ written.map Prod.fst := by
      rw [hI.mem_keys, hnone]
      simp
    rw [hI.untouched id hnot, hnone]

/-- The interval of the loop that `main` spawns: ten seconds, in nanoseconds. -/
def healthInterval : Nat := 10000000000

/-- A round begins at once and finds no node, then two nodes register. -/
def firstRound : List LoopEvent :=
  [.ticked, .control (.run 0 {}), .control (.run 0 {}),
    .control (.registerNode (.sample "a" "http://a:50051")), .control (.run 1 {}),
    .control (.registerNode (.sample "b" "http://b:50051")), .control (.run 2 {}),
    .control (.tick healthInterval)]

/-- The second round probes both nodes, of which one answers, while a task is submitted. -/
def secondRound : List LoopEvent :=
  [.control (.run 3 {}), .control (.run 3 { probe := some ⟨"", 3, true⟩ }),
    .control (.submitTask "t" "" .sample), .control (.run 3 {}), .control (.run 4 {}),
    .control (.run 3 {}), .control (.run 3 {}), .control (.run 3 {}), .control (.run 4 {})]

theorem twoRounds_paced :
    ∃ ms l, Run (HealthLoop.step .sample healthInterval) (.init "" "round_robin") ms l ∧
      l.control.rounds = 2 ∧ l.control.rounds = l.control.now / healthInterval + 1 := by
  have htest : (exec (HealthLoop.step .sample healthInterval) (.init "" "round_robin")
      (firstRound ++ .ticked :: secondRound)).any (fun l =>
        decide (l.control.rounds = 2) && decide (l.control.now < l.deadline)) = true := by decide
  obtain ⟨l, hrun, hl⟩ := exec_any_run htest
  simp only [Bool.and_eq_true, decide_eq_true_eq] at hl
  exact ⟨_, l, hrun, hl.1, (rounds_paced hrun).2.2 hl.2⟩

theorem secondRound_settles :
    ∃ ms ns l l', Run (HealthLoop.step .sample healthInterval) (.init "" "round_robin") ms l ∧
      Run (HealthLoop.step .sample healthInterval) l ns l' ∧
      l'.control.shared.healthyNodesGauge = 1 ∧
      l'.control.shared.healthyNodesGauge =
        l'.control.shared.app.nodes.values.countP fun n => n.healthy := by
  have htest : (exec (HealthLoop.step .sample healthInterval) (.init "" "round_robin")
      (firstRound ++ [.ticked])).any (fun l =>
        decide (l.control.procs[3]?.bind Proc.round? = some .snapshot) &&
        decide (∀ m ∈ controlMoves (moves (HealthLoop.step .sample healthInterval) l secondRound),
          m.pre.registering m.ev = none) &&
        (exec (HealthLoop.step .sample healthInterval) l secondRound).any fun l' =>
          decide (l'.round = some 3) && l'.control.roundDone 3 &&
            l'.control.shared.healthyNodesGauge == 1) = true := by decide
  obtain ⟨l, hreach, hl⟩ := exec_any_run htest
  simp only [Bool.and_eq_true, decide_eq_true_eq] at hl
  obtain ⟨⟨hsnap, hreg⟩, hlater⟩ := hl
  obtain ⟨l', hrun, hl'⟩ := exec_any_run hlater
  simp only [Bool.and_eq_true, decide_eq_true_eq, beq_iff_eq] at hl'
  obtain ⟨p, hp, hround⟩ := Option.bind_eq_some_iff.mp hsnap
  have hi : l.control.procs[3]? = some (.round .snapshot) := by rw [hp, Proc.round_inv hround]
  have hsettled := loop_settles hreach hi hrun hreg hl'.1.1 hl'.1.2
  exact ⟨_, _, l, l', hreach, hrun, hl'.2, hsettled.2.2⟩

end FerroEdge.ControlPlane
