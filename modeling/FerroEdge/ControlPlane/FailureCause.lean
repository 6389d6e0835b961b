import FerroEdge.ControlPlane.RetryBudget

/-!
# The cause of a failure

A run keeps the text of its latest failure in `last_error` and stores it when its attempts are
used up.  Two other exits overwrite it first: the fourth answer without a node and the 31st
answer that a node is at capacity.  When the task has failed on a node before, what is stored
does not say so.

`failure_explained` says that the text of the latest failure is stored unless a run leaves its
loops through one of these exits after a failure.  `capacityExit_unexplained` is a run that does:
one node fails the task and the other has no room for it.
-/

namespace FerroEdge.ControlPlane

open Machine

namespace DispatchRun

/-- The texts of the failures that a run has been told of, in order. -/
def failureTexts (X : Externals) (ms : List (Move DispatchRun Answers)) : List String :=
  (outcomes ms).filterMap fun x => if failed x.2 then some (failureText X x.2) else none

/-- A failed result that the run stores next contains the text of its latest failure. -/
def Explained (X : Externals) (ms : List (Move DispatchRun Answers)) (r : DispatchRun) : Prop :=
  ∀ id v, r.stores = some (id, v) → v.success = false →
    ∀ text ∈ (failureTexts X ms).getLast?, ∃ error ∈ v.error, text.toList <:+: error.toList

/-- A run that has recorded a failure is not told for the fourth time that there is no node, nor
for the 31st time that a node is at capacity. -/
def Informed (r : DispatchRun) (a : Answers) : Prop :=
  0 < r.errorRetries →
    ¬ (r.pc = .select ∧ a.selected = none ∧ 3 ≤ r.noNodeCount) ∧
    ∀ x ∈ r.outcome a, atCapacity x.2 = true → r.capacityWaits < maxCapacityWaits

instance (r : DispatchRun) (a : Answers) : Decidable (Informed r a) :=
  inferInstanceAs (Decidable (0 < r.errorRetries → _ ∧ ∀ x ∈ r.outcome a, _))

variable {X : Externals} {spec : TaskSpec} {r r' : DispatchRun} {a : Answers}
  {ms : List (Move DispatchRun Answers)}

/-- A run that has failed on a node keeps the text of the latest failure. -/
structure Remembers (X : Externals) (ms : List (Move DispatchRun Answers)) (r : DispatchRun) :
    Prop where
  none : r.errorRetries + r.pc.charging = 0 → failureTexts X ms = []
  latest : 0 < r.errorRetries + r.pc.charging → (failureTexts X ms).getLast? = some r.lastError

theorem failureTexts_quiet (h : ∀ x ∈ r.outcome a, failed x.2 = false) :
    failureTexts X (ms ++ [⟨r, a, r'⟩]) = failureTexts X ms := by
  rw [failureTexts, outcomes_snoc, List.filterMap_append]
  cases hout : r.outcome a with
  | none => simp [failureTexts]
  | some x => simp [failureTexts, h x hout]

theorem failureTexts_failure {x : NodeInfo × Except Status ExecuteTaskResponse}
    (hout : r.outcome a = some x) (hf : failed x.2 = true) :
    failureTexts X (ms ++ [⟨r, a, r'⟩]) = failureTexts X ms ++ [failureText X x.2] := by
  rw [failureTexts, outcomes_snoc, List.filterMap_append]
  simp [failureTexts, hout, hf]

/-- A step in which the run hears of no failure and keeps its error. -/
theorem Remembers.quiet (hR : Remembers X ms r) (hout : ∀ x ∈ r.outcome a, failed x.2 = false)
    (hcount : r'.errorRetries + r'.pc.charging = r.errorRetries + r.pc.charging)
    (herror : 0 < r.errorRetries + r.pc.charging → r'.lastError = r.lastError) :
    Remembers X (ms ++ [⟨r, a, r'⟩]) r' := by
  refine ⟨fun hzero => ?_, fun hpos => ?_⟩
  · rw [failureTexts_quiet hout]
    exact hR.none (hcount ▸ hzero)
  · rw [hcount] at hpos
    rw [failureTexts_quiet hout, herror hpos]
    exact hR.latest hpos

/-- A step in which the run hears from a node that has not failed the task. -/
theorem Remembers.answered {node : NodeInfo} {result : Except Status ExecuteTaskResponse}
    (hR : Remembers X ms r) (hout : r.outcome a = some (node, result))
    (hf : failed result = false) (hcount : r'.errorRetries + r'.pc.charging = r.errorRetries)
    (herror : 0 < r.errorRetries → r'.lastError = r.lastError) :
    Remembers X (ms ++ [⟨r, a, r'⟩]) r' := by
  obtain ⟨-, hch, -⟩ := loop_of_outcome hout
  have hquiet : ∀ x ∈ r.outcome a, failed x.2 = false := by simp [hout, hf]
  refine hR.quiet hquiet ?_ ?_
  · rw [hcount, hch, Nat.add_zero]
  · rw [hch, Nat.add_zero]
    exact herror

theorem Remembers.step (hR : Remembers X ms r) (hinf : Informed r a) (h : Next X r a r') :
    Remembers X (ms ++ [⟨r, a, r'⟩]) r' := by
  cases h with
  | advance hadv hout =>
      obtain ⟨-, hch, hch', -⟩ := hadv.frame
      exact hR.quiet (by simp [hout]) (by rw [hch, hch']) fun _ => rfl
  | dispatch hpc => exact hR.quiet (by simp [outcome, hpc]) (by rw [hpc]; rfl) fun _ => rfl
  | retry hpc => exact hR.quiet (by simp [outcome, hpc]) (by rw [hpc]; rfl) fun _ => rfl
  | noNode hpc => exact hR.quiet (by simp [outcome, hpc]) (by rw [hpc]; rfl) fun _ => rfl
  | enqueue hpc => exact hR.quiet (by simp [outcome, hpc]) (by rw [hpc]; rfl) fun _ => rfl
  | giveUp hpc hnone hle =>
      refine hR.quiet (by simp [outcome, hpc]) (by rw [hpc]; rfl) fun hpos => ?_
      rw [hpc] at hpos
      exact absurd ⟨hpc, hnone, hle⟩ (hinf hpos).1
  | success hout hs => exact hR.answered hout (by simp [failed, hs]) rfl fun _ => rfl
  | failure hout hf =>
      refine ⟨fun hzero => ?_, fun _ => ?_⟩
      · simp [onFailure, DispatchPc.charging] at hzero
      · rw [failureTexts_failure hout hf]
        simp [onFailure]
  | capacityWait hout hat => exact hR.answered hout (failed_of_atCapacity hat) rfl fun _ => rfl
  | noCapacity hout hat hle =>
      refine hR.answered hout (failed_of_atCapacity hat) rfl fun hpos => ?_
      exact absurd ((hinf hpos).2 _ hout hat) (Nat.not_lt.mpr hle)
  | backoff hpc => exact hR.quiet (by simp [outcome, hpc]) (by rw [hpc]; rfl) fun _ => rfl
  | lastAttempt hpc => exact hR.quiet (by simp [outcome, hpc]) (by rw [hpc]; rfl) fun _ => rfl
  | store hst =>
      rcases pc_of_stores hst with hpc | ⟨_, _, hpc⟩ | hpc <;>
        exact hR.quiet (by simp [outcome, hpc]) (by rw [hpc]; rfl) fun _ => rfl

theorem remembers (h : Run (next X) (.new spec) ms r) (hinf : ∀ m ∈ ms, Informed m.pre m.ev) :
    Remembers X ms r := by
  induction h with
  | nil => exact ⟨fun _ => rfl, fun hpos => absurd hpos (Nat.lt_irrefl 0)⟩
  | @snoc ms s t a _ hs ih =>
      have hR := ih fun m hm => hinf m (List.mem_append_left _ hm)
      exact hR.step (hinf ⟨s, a, t⟩ (by simp)) (next_inv hs)

/-- The error that a run stores ends with its last error. -/
theorem error_of_stores {id : String} {v : TaskResult} (h : r.stores = some (id, v))
    (hv : v.success = false) : ∃ error ∈ v.error, r.lastError.toList <:+: error.toList := by
  unfold stores at h
  split at h
  case h_1 =>
    cases h
    exact ⟨r.lastError, rfl, List.infix_rfl⟩
  case h_2 =>
    cases h
    cases hv
  case h_3 =>
    cases h
    refine ⟨_, rfl, List.IsSuffix.isInfix ?_⟩
    rw [String.toList_append]
    exact List.suffix_append _ _
  case h_4 => cases h

/-- The cause of a failure is stored, in every run that does not leave its loops for want of a
node or of room after a failure.  What the run stores is what its next step writes to the task
map. -/
theorem failure_explained (h : Run (next X) (.new spec) ms r)
    (hinf : ∀ m ∈ ms, Informed m.pre m.ev) :
    Explained X ms r ∧
    ∀ now env sh sh' r', r.step X now env sh = some (sh', r') →
      (r.stores = none ∧ sh'.app.tasks = sh.app.tasks) ∨
      ∃ id v, r.stores = some (id, v) ∧ sh'.app.tasks = sh.app.tasks.insert id v := by
  refine ⟨?_, fun now env sh sh' r' hs => step_tasks hs⟩
  intro id v hst hv text htext
  have hR := remembers h hinf
  have hpos : 0 < r.errorRetries + r.pc.charging := by
    by_contra hzero
    rw [hR.none (by omega)] at htext
    cases htext
  rw [hR.latest hpos] at htext
  cases htext
  exact error_of_stores hst hv

/-- The answers of `n` steps in which the node is asked for the task and fails it. -/
def failsOn (id text : String) (n : Nat) : List Answers :=
  List.replicate n ⟨0, some ⟨id, "", "", 0, true, 10⟩, .ok ⟨""⟩, .error ⟨.unavailable, text⟩, 0⟩

/-- Three nodes fail the task. -/
def threeFail : List Answers :=
  failsOn "a" "a is down" 7 ++ failsOn "b" "b is down" 7 ++ failsOn "c" "c is down" 6

theorem threeFail_explained :
    ∃ ms r, Run (next .sample) (.new .sample) ms r ∧ r.pc = .exhausted ∧
      r.triedNodes = ["c", "b", "a"] ∧
      failureTexts .sample ms = ["a is down", "b is down", "c is down"] ∧
      Explained .sample ms r := by
  have htest : (exec (next .sample) (.new .sample) threeFail).any (fun r =>
      r.pc = .exhausted ∧ r.triedNodes = ["c", "b", "a"]) = true := by decide
  obtain ⟨r, h, hr⟩ := exec_any_run htest
  obtain ⟨hpc, htried⟩ := of_decide_eq_true hr
  exact ⟨_, r, h, hpc, htried, by decide, (failure_explained h (by decide)).1⟩

/-! ## A run that does not say why it failed -/

/-- A run of the concrete task that was told of the failures `texts` leads to `r`. -/
def Reaches (texts : List String) (r : DispatchRun) : Prop :=
  ∃ ms, Run (stepIn .sample) (.new .sample) ms r ∧ failureTexts .sample (told .sample ms) = texts

theorem Reaches.quiet {texts : List String} (v : View) (h : Reaches texts r)
    (hstep : r.stepIn .sample v = some r')
    (hout : ∀ x ∈ r.outcome (r.answers .sample v), failed x.2 = false) : Reaches texts r' := by
  obtain ⟨ms, hrun, htexts⟩ := h
  refine ⟨_, hrun.snoc hstep, ?_⟩
  rw [told, List.map_append]
  exact (failureTexts_quiet hout).trans htexts

theorem Reaches.silent {texts : List String} (v : View) (h : Reaches texts r)
    (hstep : r.stepIn .sample v = some r') (hout : r.outcome (r.answers .sample v) = none) :
    Reaches texts r' :=
  h.quiet v hstep (by rw [hout]; nofun)

/-- The run has failed on the node `b`, and `a` has had no room for its task `k` times. -/
def refused (k : Nat) (pc : DispatchPc) : DispatchRun where
  spec := .sample
  triedNodes := ["b"]
  lastError := "down"
  noNodeCount := 0
  capacityWaits := k
  errorRetries := 1
  pc := pc

/-- `a` has no room. -/
def noRoom (now : Nat) : View := viewAt now (.error ⟨.resourceExhausted, ""⟩)

/-- `a` is asked, and has no room. -/
theorem refused_asked {texts : List String} {k : Nat} (now : Nat)
    (h : Reaches texts (refused k .select)) :
    Reaches texts ((refused k .select).onResult .sample now ⟨"a", "http://a:50051", "", 0, true, 10⟩
      (.error ⟨.resourceExhausted, ""⟩)) := by
  have hselect := h.silent (noRoom now) rfl rfl
  have hcount := hselect.silent (noRoom now) rfl rfl
  have hclone := hcount.silent (noRoom now) rfl rfl
  have hlock := hclone.silent (noRoom now) rfl rfl
  refine hlock.quiet (noRoom now) rfl fun x hx => ?_
  cases hx
  rfl

theorem refused_reached {k : Nat} (hk : k ≤ maxCapacityWaits) :
    Reaches ["down"] (refused k .select) := by
  induction k with
  | zero =>
      have hexec : exec (stepIn .sample) (.new .sample)
          (List.replicate 6 (viewAt 0 (.error ⟨.unavailable, "down"⟩)) ++
            [viewAt (10 ^ 9) (.error ⟨.unavailable, "down"⟩)]) = some (refused 0 .select) := by
        decide
      exact ⟨_, exec_run hexec, by decide⟩
  | succ k ih =>
      have hasked := refused_asked ((k + 1) * 10 ^ 9) (ih (Nat.le_of_succ_le hk))
      have hsleep : (refused k .select).onResult .sample ((k + 1) * 10 ^ 9)
          ⟨"a", "http://a:50051", "", 0, true, 10⟩ (.error ⟨.resourceExhausted, ""⟩) =
          refused (k + 1) (.capacitySleep ((k + 1) * 10 ^ 9 + 100 * 10 ^ 6)) :=
        if_neg (Nat.not_lt.mpr hk)
      rw [hsleep] at hasked
      refine hasked.silent (noRoom ((k + 2) * 10 ^ 9)) ?_ rfl
      rw [stepIn_eq, if_pos]
      · rfl
      · intro wake hwake
        cases hwake
        show (k + 1) * 10 ^ 9 + 100 * 10 ^ 6 ≤ (k + 2) * 10 ^ 9
        omega

/-- One node fails the task and the other has no room for it each time it is asked.  What is
stored says nothing of the failure. -/
theorem capacityExit_unexplained :
    ∃ ms r, Run (stepIn .sample) (.new .sample) ms r ∧ ¬ Explained .sample (told .sample ms) r := by
  have hreached := refused_reached (Nat.le_refl maxCapacityWaits)
  obtain ⟨ms, hrun, htexts⟩ := refused_asked (31 * 10 ^ 9) hreached
  refine ⟨ms, _, hrun, fun hexp => ?_⟩
  obtain ⟨error, herror, hinfix⟩ := hexp _ _ rfl rfl "down" (by rw [htexts]; rfl)
  cases herror
  have hnot : ¬ "down".toList <:+:
      ("All nodes failed: " ++ "all nodes persistently at capacity").toList := by
    simp only [String.reduceAppend, String.reduceToList]
    decide
  exact hnot hinfix

end DispatchRun

end FerroEdge.ControlPlane
