import FerroEdge.ControlPlane.Accounting
import FerroEdge.ControlPlane.TriedNodes
import Mathlib.Algebra.BigOperators.Group.Finset.Piecewise
import Mathlib.Algebra.Order.BigOperators.Group.Finset
import Mathlib.Data.List.TakeWhile

/-!
# Counting retried tasks

`total_retried` is documented as the number of tasks that were retried at least once.  It is
incremented whenever a run with a recorded failure is given a node, so a run that is given one
again counts again: after a second failure, or after a node without room.

`totalRetried_iff` says that the counter is right exactly as long as the scheduler has given every
run a node at most once after its first recorded failure, the node that a run is about to go on to
apart: whatever the RPCs answer, a run that finds no node any more, or whose one retry succeeds or
is its last attempt, counts once.  `retriedTwice_counted` is a single task that counts two.
-/

namespace FerroEdge.ControlPlane

open Machine

/-- The next step of the run counts a retry. -/
def DispatchPc.counts : DispatchPc → Bool
  | .countRetry _ => true
  | _ => false

/-- The run has called `record_failure`, and has gone on to call `grpc_execute` after that. -/
def retried {E : Type} (ms : List (Move DispatchRun E)) : Bool :=
  (ms.dropWhile fun m => m.pre.charges.isNone).any fun m => m.post.calls.isSome

/-- The number of runs that have been dispatched again after a recorded failure. -/
def retriedRuns (ms : List (Move Sys Event)) (s : Sys) : Nat :=
  (List.range s.procs.length).countP fun i => retried (views i ms)

/-- The node that `select_node_for_task` gives to the run in a step. -/
def given (m : Move DispatchRun DispatchRun.View) : Option NodeInfo :=
  match m.pre.pc with
  | .select => (selectNodeForTask m.ev.now m.ev.env.seed m.pre.triedNodes m.ev.shared.app).2
  | _ => none

/-- How often the run has been given a node since it has first called `record_failure`. -/
def regiven (ms : List (Move DispatchRun DispatchRun.View)) : Nat :=
  (ms.dropWhile fun m => m.pre.charges.isNone).countP fun m => (given m).isSome

/-- Every run has been given a node at most once since its first recorded failure.  A node that it
was given in its latest step is one that it has not gone on to yet. -/
def GivenOnce (ms : List (Move Sys Event)) (s : Sys) : Prop :=
  ∀ i < s.procs.length, regiven (views i ms).dropLast ≤ 1

instance (ms : List (Move Sys Event)) (s : Sys) : Decidable (GivenOnce ms s) :=
  inferInstanceAs (Decidable (∀ i < _, _))

variable {X : Externals} {s t : Sys} {e : Event} {i : Nat} {r r' : DispatchRun} {spec : TaskSpec}
  {env : Env}

/-! ## One run -/

namespace DispatchRun

variable {a : Answers} {v : View} {ms : List (Move DispatchRun View)}

/-- How often a run has counted a retry. -/
def counted {E : Type} (ms : List (Move DispatchRun E)) : Nat :=
  ms.countP fun m => m.pre.pc.counts

theorem dropWhile_eq_nil {E : Type} (ms : List (Move DispatchRun E)) :
    (ms.dropWhile fun m => m.pre.charges.isNone) = [] ↔ charged ms = [] := by
  rw [List.dropWhile_eq_nil_iff, charged, List.filterMap_eq_nil_iff]
  simp

/-- A move retries the run when it goes on to a node after a charge. -/
theorem retried_snoc {E : Type} (ms : List (Move DispatchRun E)) (m : Move DispatchRun E) :
    retried (ms ++ [m]) =
      (retried ms ||
        m.post.calls.isSome && (!(charged ms).isEmpty || m.pre.charges.isSome)) := by
  have hnil := dropWhile_eq_nil ms
  rw [retried, retried, List.dropWhile_append]
  by_cases hch : charged ms = []
  · rw [hnil.mpr hch, hch]
    cases hm : m.pre.charges <;> simp [hm]
  · have hne := mt hnil.mp hch
    have hempty : (charged ms).isEmpty = false := by simpa using hch
    rw [if_neg (by simpa using hne), List.any_append]
    simp [hempty]

/-- A move gives the run a node again when it gives it one after a charge. -/
theorem regiven_snoc (ms : List (Move DispatchRun View)) (m : Move DispatchRun View) :
    regiven (ms ++ [m]) =
      regiven ms + if (given m).isSome && !(charged ms).isEmpty then 1 else 0 := by
  have hnil := dropWhile_eq_nil ms
  rw [regiven, regiven, List.dropWhile_append]
  by_cases hch : charged ms = []
  · rw [hnil.mpr hch, hch]
    cases hm : m.pre.charges with
    | none => simp [hm]
    | some id =>
        -- A run that calls `record_failure` is not asking for a node.
        have hgiven : given m = none := by
          unfold charges at hm
          split at hm
          case h_1 hpc => simp [given, hpc]
          case h_2 => cases hm
        simp [hm, hgiven]
  · have hempty : (charged ms).isEmpty = false := by simpa using hch
    rw [if_neg (by simpa using mt hnil.mp hch), List.countP_append, hempty]
    simp [List.countP_singleton]

/-- No step leads back to the start. -/
theorem Next.ne_submit (h : Next X r a r') : r'.pc ≠ .submit := by
  cases h with
  | advance hadv =>
      generalize r.pc = pc at hadv
      cases hadv <;> nofun
  | _ => nofun

/-- A run counts a retry only after a failure. -/
theorem Next.errorRetries_pos (h : Next X r a r') (hc : r'.pc.counts = true) :
    0 < r'.errorRetries := by
  cases h with
  | retry _ _ hpos => exact hpos
  | advance hadv =>
      generalize r.pc = pc at hadv
      cases hadv <;> cases hc
  | _ => cases hc

/-- A run goes on to a node from the step that counts a retry, or before any failure. -/
theorem Next.calls_inv (h : Next X r a r') :
    (r.pc.counts = true ∧ r'.calls.isSome = true) ∨
    (r.pc.counts = false ∧ (r'.calls.isSome = false ∨ r.errorRetries = 0 ∧ r.charges = none)) := by
  have hcounts : ∀ x, r.outcome a = some x → r.pc.counts = false := by
    intro x hout
    rcases pc_of_outcome hout with ⟨_, hpc⟩ | ⟨_, _, hpc⟩ <;> rw [hpc] <;> rfl
  cases h with
  | advance hadv =>
      generalize hpc : r.pc = pc at hadv
      cases hadv with
      | countRetry => exact .inl ⟨rfl, rfl⟩
      | _ => exact .inr ⟨rfl, .inl rfl⟩
  | dispatch hpc _ hzero =>
      exact .inr ⟨by rw [hpc]; rfl, .inr ⟨hzero, by simp [charges, hpc]⟩⟩
  | success hout => exact .inr ⟨hcounts _ hout, .inl rfl⟩
  | failure hout => exact .inr ⟨hcounts _ hout, .inl rfl⟩
  | capacityWait hout => exact .inr ⟨hcounts _ hout, .inl rfl⟩
  | noCapacity hout => exact .inr ⟨hcounts _ hout, .inl rfl⟩
  | store hst =>
      refine .inr ⟨?_, .inl rfl⟩
      rcases pc_of_stores hst with hpc | ⟨_, _, hpc⟩ | hpc <;> rw [hpc] <;> rfl
  | retry hpc => exact .inr ⟨by rw [hpc]; rfl, .inl rfl⟩
  | noNode hpc => exact .inr ⟨by rw [hpc]; rfl, .inl rfl⟩
  | giveUp hpc => exact .inr ⟨by rw [hpc]; rfl, .inl rfl⟩
  | enqueue hpc => exact .inr ⟨by rw [hpc]; rfl, .inl rfl⟩
  | backoff hpc => exact .inr ⟨by rw [hpc]; rfl, .inl rfl⟩
  | lastAttempt hpc => exact .inr ⟨by rw [hpc]; rfl, .inl rfl⟩

/-- A run that is given a node after a failure counts a retry next. -/
theorem Next.counts_eq {v : View} (h : Next X r (r.answers X v) r') :
    r'.pc.counts = ((given ⟨r, v, r'⟩).isSome && decide (0 < r.errorRetries)) := by
  have hgiven : r.pc ≠ .select → given ⟨r, v, r'⟩ = none := by
    intro hpc
    unfold given
    split
    case h_1 hsel => exact absurd hsel hpc
    case h_2 => rfl
  have hselect : r.pc = .select → given ⟨r, v, r'⟩ = (r.answers X v).selected := by
    intro hpc
    simp only [given, hpc, answers]
  have hanswered : ∀ x, r.outcome (r.answers X v) = some x → given ⟨r, v, r'⟩ = none := by
    intro x hout
    refine hgiven ?_
    rcases pc_of_outcome hout with ⟨_, hpc⟩ | ⟨_, _, hpc⟩ <;> simp [hpc]
  cases h with
  | advance hadv =>
      generalize hpc : r.pc = pc at hadv
      rw [hgiven (by rw [hpc]; rintro rfl; cases hadv)]
      cases hadv <;> rfl
  | dispatch hpc hsel hzero => simp [hzero, DispatchPc.counts]
  | retry hpc hsel hpos => simp [hselect hpc, hsel, hpos, DispatchPc.counts]
  | noNode hpc hsel => simp [hselect hpc, hsel, DispatchPc.counts]
  | giveUp hpc hsel => simp [hselect hpc, hsel, DispatchPc.counts]
  | enqueue hpc => rw [hgiven (by simp [hpc])]; rfl
  | success hout => rw [hanswered _ hout]; rfl
  | failure hout => rw [hanswered _ hout]; rfl
  | capacityWait hout => rw [hanswered _ hout]; rfl
  | noCapacity hout => rw [hanswered _ hout]; rfl
  | backoff hpc => rw [hgiven (by simp [hpc])]; rfl
  | lastAttempt hpc => rw [hgiven (by simp [hpc])]; rfl
  | store hst =>
      rw [hgiven]
      · rfl
      · rcases pc_of_stores hst with hpc | ⟨_, _, hpc⟩ | hpc <;> simp [hpc]

theorem errorRetries_pos (h : Run (stepIn X) (.new spec) ms r) (hc : r.pc.counts = true) :
    0 < r.errorRetries := by
  cases h with
  | nil => cases hc
  | snoc _ hs => exact (next_inv (stepIn_next hs)).errorRetries_pos hc

/-- A run is retried in the step that counts the retry. -/
theorem retried_step (h : Run (stepIn X) (.new spec) ms r) (hs : r.stepIn X v = some r') :
    retried (ms ++ [⟨r, v, r'⟩]) = (retried ms || r.pc.counts) := by
  have hlen := (tried_told h).length
  rw [charged_told] at hlen
  rw [retried_snoc]
  congr 1
  rcases (next_inv (stepIn_next hs)).calls_inv with ⟨hc, hcalls⟩ | ⟨hc, hcalls | ⟨hzero, hch⟩⟩
  · have hpos := errorRetries_pos h hc
    have hne : charged ms ≠ [] := fun hnil => by simp [hnil] at hlen; omega
    simp [hc, hcalls, hne]
  · simp [hc, hcalls]
  · have hnil : charged ms = [] := List.length_eq_zero_iff.mp (hlen.trans hzero)
    simp [hc, hnil, hch]

/-- A run has been retried once it has counted a retry. -/
theorem retried_eq (h : Run (stepIn X) (.new spec) ms r) :
    retried ms = decide (0 < counted ms) := by
  induction h with
  | nil => rfl
  | @snoc ms r r' v hrun hs ih =>
      rw [retried_step hrun hs, ih, counted, counted, List.countP_append, List.countP_singleton]
      cases r.pc.counts <;> simp

/-- A run counts a retry for each node that it is given after its first failure, one step
later. -/
theorem regiven_eq (h : Run (stepIn X) (.new spec) ms r) :
    regiven ms = counted ms + if r.pc.counts then 1 else 0 := by
  induction h with
  | nil => rfl
  | @snoc ms r r' v hrun hs ih =>
      have hlen := (tried_told hrun).length
      rw [charged_told] at hlen
      have hempty : (!(charged ms).isEmpty) = decide (0 < r.errorRetries) := by
        rw [← hlen]
        cases charged ms <;> rfl
      rw [regiven_snoc, hempty, ← (next_inv (stepIn_next hs)).counts_eq, ih, counted, counted,
        List.countP_append, List.countP_singleton]

/-- A run has counted a retry for each node that it was given before its latest step. -/
theorem regiven_dropLast (h : Run (stepIn X) (.new spec) ms r) :
    regiven ms.dropLast = counted ms := by
  cases h with
  | nil => rfl
  | snoc hrun hs =>
      rw [List.dropLast_concat, regiven_eq hrun, counted, counted, List.countP_append,
        List.countP_singleton]

/-- A run that has been retried has been submitted. -/
theorem ne_submit_of_retried (h : Run (stepIn X) (.new spec) ms r) (hr : retried ms = true) :
    r.pc ≠ .submit := by
  cases h with
  | nil => cases hr
  | snoc _ hs => exact (next_inv (stepIn_next hs)).ne_submit

/-- The counter moves in the step that counts a retry. -/
theorem step_totalRetried {now : Nat} {sh sh' : Shared}
    (h : r.step X now env sh = some (sh', r')) :
    sh'.app.totalRetried = sh.app.totalRetried + if r.pc.counts then 1 else 0 := by
  cases step_inv h with
  | countRetry hpc => simp [hpc, DispatchPc.counts]
  | select hpc =>
      obtain ⟨k, hk⟩ := selectNodeForTask_fst now env.seed r.triedNodes sh.app
      simp only [hpc, DispatchPc.counts, hk]
      rfl
  | endSleep hpc => rcases hpc with hpc | hpc <;> simp [hpc, DispatchPc.counts]
  | storeFailure hpc => rcases hpc with ⟨hpc, -⟩ | ⟨hpc, -⟩ <;> simp [hpc, DispatchPc.counts]
  | submit hpc => simp [hpc, DispatchPc.counts]
  | enqueue hpc => simp [hpc, DispatchPc.counts]
  | endQueueSleep hpc => simp [hpc, DispatchPc.counts]
  | dequeueRead hpc => simp [hpc, DispatchPc.counts]
  | dequeueWrite hpc => simp [hpc, DispatchPc.counts]
  | clonePool hpc => simp [hpc, DispatchPc.counts]
  | channel hpc => simp [hpc, DispatchPc.counts]
  | noChannel hpc => simp [hpc, DispatchPc.counts]
  | answer hpc => simp [hpc, DispatchPc.counts]
  | recordSuccess hpc => simp [hpc, DispatchPc.counts]
  | recordFailure hpc => simp [hpc, DispatchPc.counts]
  | storeSuccess hpc => simp [hpc, DispatchPc.counts]

end DispatchRun

/-! ## All runs -/

variable {ms : List (Move Sys Event)}

/-- A step of the dispatch `i` is one more move of `i` and of no other. -/
theorem counted_views (hi : s.procs[i]? = some (.dispatch r))
    (ht : t.procs[i]? = some (.dispatch r')) (j : Nat) :
    DispatchRun.counted (views j (ms ++ [⟨s, .run i env, t⟩])) =
      DispatchRun.counted (views j ms) + if j = i then (if r.pc.counts then 1 else 0) else 0 := by
  rw [views_snoc]
  by_cases hj : j = i
  · subst hj
    rw [viewOf_run hi ht, if_pos rfl, DispatchRun.counted, DispatchRun.counted,
      Option.toList_some, List.countP_append, List.countP_singleton]
  · rw [viewOf_none, if_neg hj]
    · simp
    · rintro env' r₁ heq hr₁
      cases heq
      exact hj rfl

/-- A process that is not there yet has counted nothing. -/
theorem counted_unborn {s₀ : Sys} (h0 : s₀.procs = []) (h : Run (Sys.step X) s₀ ms s)
    (hi : s.procs.length ≤ i) : DispatchRun.counted (views i ms) = 0 := by
  rw [(dispatch_run h0 h i).2 fun r hr => ?_]
  · rfl
  · rw [List.getElem?_eq_none hi] at hr
    cases hr

/-- `total_retried` is the number of times that the runs have counted a retry. -/
theorem totalRetried_eq {s₀ : Sys} (h0 : s₀.procs = []) (hr0 : s₀.shared.app.totalRetried = 0)
    (h : Run (Sys.step X) s₀ ms s) :
    s.shared.app.totalRetried =
      ∑ i ∈ Finset.range s.procs.length, DispatchRun.counted (views i ms) := by
  induction h with
  | nil => simp [h0, hr0]
  | @snoc ms s t e hrun hs ih =>
      have hstep := Sys.step_inv hs
      rcases hstep.quiet_or_dispatch with hq | ⟨i, env, r, r', sh, rfl, hi, hr, rfl⟩
      · have hviews : ∀ i, views i (ms ++ [⟨s, e, t⟩]) = views i ms := by
          intro i
          rw [views_snoc, viewOf_none, Option.toList_none, List.append_nil]
          rintro env r rfl hr
          rw [Sys.stepping_run hr] at hq
          cases hq
        rw [hstep.app_quiet hq]
        simp only [hviews, ih]
        refine Finset.sum_subset (Finset.range_mono hstep.length_le) fun i _ hi => ?_
        exact counted_unborn h0 hrun (by simpa using hi)
      · have hlt : i < s.procs.length := (List.getElem?_eq_some_iff.mp hi).1
        have hself : (Sys.mk sh s.now (s.procs.set i (.dispatch r'))).procs[i]? =
            some (.dispatch r') := getElem?_set_self hi
        simp only [counted_views hi hself]
        rw [List.length_set, Finset.sum_add_distrib, Finset.sum_ite_eq',
          if_pos (Finset.mem_range.mpr hlt), ← ih]
        exact DispatchRun.step_totalRetried hr

/-- Runs that count one each, counted. -/
theorem retriedRuns_eq {s₀ : Sys} (h0 : s₀.procs = []) (h : Run (Sys.step X) s₀ ms s) :
    retriedRuns ms s = ∑ i ∈ Finset.range s.procs.length,
      if 0 < DispatchRun.counted (views i ms) then 1 else 0 := by
  have hretried : ∀ i, retried (views i ms) = decide (0 < DispatchRun.counted (views i ms)) := by
    intro i
    by_cases hr : ∃ r, s.procs[i]? = some (.dispatch r)
    · obtain ⟨r, hr⟩ := hr
      obtain ⟨spec, hspec⟩ := (dispatch_run h0 h i).1 r hr
      exact DispatchRun.retried_eq hspec
    · rw [(dispatch_run h0 h i).2 fun r hi => hr ⟨r, hi⟩]
      rfl
  simp only [retriedRuns, hretried]
  rw [← Finset.card_filter, List.countP_eq_length_filter]
  rfl

theorem givenOnce_iff {s₀ : Sys} (h0 : s₀.procs = []) (h : Run (Sys.step X) s₀ ms s) :
    GivenOnce ms s ↔ ∀ i < s.procs.length, DispatchRun.counted (views i ms) ≤ 1 := by
  have hcounted : ∀ i, regiven (views i ms).dropLast = DispatchRun.counted (views i ms) := by
    intro i
    by_cases hr : ∃ r, s.procs[i]? = some (.dispatch r)
    · obtain ⟨r, hr⟩ := hr
      obtain ⟨spec, hspec⟩ := (dispatch_run h0 h i).1 r hr
      exact DispatchRun.regiven_dropLast hspec
    · rw [(dispatch_run h0 h i).2 fun r hi => hr ⟨r, hi⟩]
      rfl
  simp only [GivenOnce, hcounted]

/-- The counter is not below the number of retried runs, and above it once a run has counted
twice. -/
theorem totalRetried_eq_iff {s₀ : Sys} (h0 : s₀.procs = [])
    (hr0 : s₀.shared.app.totalRetried = 0) (h : Run (Sys.step X) s₀ ms s) :
    s.shared.app.totalRetried = retriedRuns ms s ↔ GivenOnce ms s := by
  rw [totalRetried_eq h0 hr0 h, retriedRuns_eq h0 h, givenOnce_iff h0 h, eq_comm,
    Finset.sum_eq_sum_iff_of_le]
  · simp only [Finset.mem_range]
    refine forall₂_congr fun i _ => ?_
    split <;> omega
  · intro i _
    split <;> omega

/-! ## Submitted runs -/

/-- The process is a run that has been counted as submitted. -/
def Proc.submitted (p : Proc) : Bool := p.run?.any fun r => r.pc ≠ .submit

theorem DispatchPc.ne_submit_of_pending {pc : DispatchPc} (h : pc.pending = true) :
    pc ≠ .submit := by
  rintro rfl
  cases h

theorem Sys.Step.totalSubmitted (h : Sys.Step X s e t)
    (hI : s.shared.app.totalSubmitted = s.procs.countP Proc.submitted) :
    t.shared.app.totalSubmitted = t.procs.countP Proc.submitted := by
  rcases h.quiet_or_dispatch with hq | ⟨i, env, r, r', sh, rfl, hi, hrun, rfl⟩
  · rw [(h.books_quiet hq).2.1, hI]
    exact (h.countP_quiet hq (fun r => r.pc ≠ .submit) fun spec => by simp [DispatchRun.new]).symm
  · have hset : (s.procs.set i (.dispatch r')).countP Proc.submitted +
        (if r.pc ≠ .submit then 1 else 0) =
        s.procs.countP Proc.submitted + if r'.pc ≠ .submit then 1 else 0 := by
      simpa [Proc.submitted, Proc.run?] using countP_set_add (b := .dispatch r') Proc.submitted hi
    cases DispatchRun.books hrun with
    | keep hdone hpend' _ htotal =>
        dsimp only
        rw [if_pos (DispatchPc.ne_submit_of_pending hpend')] at hset
        rw [htotal, hI]
        cases hpc : r.pc with
        | submit =>
            rw [if_neg (fun hne => hne hpc)] at hset
            exact hset.symm
        | done => exact absurd hpc hdone
        | _ =>
            rw [if_pos (by rw [hpc]; rintro ⟨⟩)] at hset
            exact (Nat.succ.inj hset).symm
    | store v hpend hdone' _ htotal =>
        dsimp only
        have hdone : r'.pc ≠ .submit := by
          rw [hdone']
          rintro ⟨⟩
        rw [if_pos (DispatchPc.ne_submit_of_pending hpend), if_pos hdone] at hset
        rw [htotal, hI]
        exact (Nat.succ.inj hset).symm

/-- The runs that have been retried have been submitted. -/
theorem retriedRuns_le {s₀ : Sys} (h0 : s₀.procs = []) (h : Run (Sys.step X) s₀ ms s) :
    retriedRuns ms s ≤ s.procs.countP Proc.submitted := by
  refine countP_le_countP (by simp) fun i j p hj hp hr => ?_
  obtain ⟨hlt, rfl⟩ := List.getElem?_eq_some_iff.mp hj
  rw [List.getElem_range] at hr
  cases p with
  | dispatch r =>
      obtain ⟨spec, hspec⟩ := (dispatch_run h0 h i).1 r hp
      simpa [Proc.submitted, Proc.run?] using DispatchRun.ne_submit_of_retried hspec hr
  | _ =>
      rw [(dispatch_run h0 h i).2 (by simp [hp])] at hr
      cases hr

theorem retriedRuns_le_totalSubmitted {url strategy : String}
    (h : Run (Sys.step X) (Sys.init url strategy) ms t) :
    retriedRuns ms t ≤ t.shared.app.totalSubmitted := by
  have hsub : t.shared.app.totalSubmitted = t.procs.countP Proc.submitted :=
    h.always (I := fun s => s.shared.app.totalSubmitted = s.procs.countP Proc.submitted) rfl
      fun _ _ _ hI hs => (Sys.step_inv hs).totalSubmitted hI
  rw [hsub]
  exact retriedRuns_le rfl h

/-- `total_retried` is the number of retried runs exactly as long as every run has been given a
node at most once since its first recorded failure, and then it does not exceed
`total_submitted`. -/
theorem totalRetried_iff {url strategy : String}
    (h : Run (Sys.step X) (Sys.init url strategy) ms t) :
    (t.shared.app.totalRetried = retriedRuns ms t ↔ GivenOnce ms t) ∧
    (GivenOnce ms t → t.shared.app.totalRetried ≤ t.shared.app.totalSubmitted) := by
  have hiff := totalRetried_eq_iff rfl rfl h
  refine ⟨hiff, fun hone => ?_⟩
  rw [hiff.mpr hone]
  exact retriedRuns_le_totalSubmitted h

/-- Three nodes, and a task that is scheduled and fails on the first. -/
def firstFails : List Event :=
  [.registerNode (.sample "a" "http://a:50051"), .run 0 {},
    .registerNode (.sample "b" "http://b:50051"), .run 1 {},
    .registerNode (.sample "c" "http://c:50051"), .run 2 {}] ++
  .submitTask "t" "" .sample :: sending 3 ++ answering 3 false

/-- The task waits for its backoff and goes to another node. -/
def retrying : List Event := .tick backoff :: List.replicate 5 (.run 3 {})

theorem retrying_counted :
    ∃ ms s, Run (Sys.step .sample) (Sys.init "" "round_robin") ms s ∧ GivenOnce ms s ∧
      s.shared.app.totalRetried = 1 ∧ s.shared.app.totalRetried = retriedRuns ms s := by
  have htest : (exec (Sys.step .sample) (Sys.init "" "round_robin") (firstFails ++ retrying)).any
      (fun s => s.shared.app.totalRetried = 1 ∧ GivenOnce (moves (Sys.step .sample)
        (Sys.init "" "round_robin") (firstFails ++ retrying)) s) = true := by decide
  obtain ⟨s, h, hs⟩ := exec_any_run htest
  obtain ⟨hone, hgiven⟩ := of_decide_eq_true hs
  exact ⟨_, s, h, hgiven, hone, (totalRetried_iff h).1.mpr hgiven⟩

/-- The task fails again and goes to the third node. -/
theorem retriedTwice_counted :
    ∃ ms s, Run (Sys.step .sample) (Sys.init "" "round_robin") ms s ∧
      s.shared.app.totalRetried ≠ retriedRuns ms s ∧
      s.shared.app.totalSubmitted < s.shared.app.totalRetried := by
  have htest : (exec (Sys.step .sample) (Sys.init "" "round_robin")
      (firstFails ++ retrying ++ answering 3 false ++ retrying)).any (fun s =>
      s.shared.app.totalRetried == 2 && s.shared.app.totalSubmitted == 1) = true := by decide
  obtain ⟨s, h, hs⟩ := exec_any_run htest
  rw [Bool.and_eq_true, beq_iff_eq, beq_iff_eq] at hs
  have hle := retriedRuns_le_totalSubmitted h
  exact ⟨_, s, h, by omega, by omega⟩

end FerroEdge.ControlPlane
