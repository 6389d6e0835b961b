import FerroEdge.LoadTester.Tester

/-!
# What the load tester reports

`Books` relates the shared counters to the requests and to the run at every step, whatever the
threads do in between: a request counts an error before it pushes its latency, pushes its latency
before it counts itself as completed, and does that before it drops its permit.

* `report_exact`: the final report is that of the run.
* `reporter_sound`: the lines printed on the way are of a moment of the run, and the subtraction
  in them does not overflow.
* `report_reachable`: with at least one permit the tester is never stuck.
-/

namespace FerroEdge.LoadTester

open Machine

/-! ## The run as the specification -/

/-- The event answers a request. -/
def Event.answers : Event → Bool
  | .respond _ _ => true
  | _ => false

/-- The event answers a request with an error or with a status that is none of success. -/
def Event.fails : Event → Bool
  | .respond _ (.response success) => !success
  | .respond _ .error => true
  | _ => false

/-- The latency that a request takes when it is answered. -/
def Request.replyLatency (now : Nat) : Reply → Request → Option Nat
  | .response _, .sending start => some (elapsedMillis now start)
  | _, _ => none

/-- The latency that a request takes in a step of its own. -/
def Request.stepLatency (now : Nat) : Request → Option Nat
  | .countFailure start => some (elapsedMillis now start)
  | _ => none

/-- The latency that is taken in a step. -/
def Tester.measures (s : Tester) : Event → Option Nat
  | .respond k reply => s.requests[k]?.bind (Request.replyLatency s.now reply)
  | .request k => s.requests[k]?.bind (Request.stepLatency s.now)
  | _ => none

def answered (ms : List (Move Tester Event)) : Nat := ms.countP fun m => m.ev.answers

def failed (ms : List (Move Tester Event)) : Nat := ms.countP fun m => m.ev.fails

/-- The latencies taken in a run, in the order in which they are taken. -/
def measured (ms : List (Move Tester Event)) : List Nat :=
  ms.filterMap fun m => m.pre.measures m.ev

/-! ## What a request has still to do -/

namespace Request

def live (r : Request) : Bool := r ≠ .ended

def waiting : Request → Bool
  | .spawned | .sending _ => true
  | _ => false

def failing : Request → Bool
  | .countStatus _ | .countFailure _ => true
  | _ => false

def unpushed : Request → Bool
  | .countCompleted | .dropPermit | .ended => false
  | _ => true

def uncounted : Request → Bool
  | .dropPermit | .ended => false
  | _ => true

/-- The latency that is taken and not pushed yet. -/
def held : Request → Option Nat
  | .countStatus latencyMs | .pushLatency latencyMs => some latencyMs
  | _ => none

end Request

/-- The counters and the latencies, against the requests and the run. -/
structure Books (args : Args) (ms : List (Move Tester Event)) (s : Tester) : Prop where
  permits : s.shared.permits + s.requests.countP Request.live = args.concurrency
  answered : answered ms + s.requests.countP Request.waiting = s.requests.length
  failed : s.shared.errors + s.requests.countP Request.failing = failed ms
  pushed : s.shared.latencies.length + s.requests.countP Request.unpushed = s.requests.length
  completed : s.shared.completed + s.requests.countP Request.uncounted = s.requests.length
  latencies : (s.requests.filterMap Request.held ++ s.shared.latencies).Perm (measured ms)

variable {args : Args} {s t : Tester} {e : Event} {ms : List (Move Tester Event)} {now k : Nat}
  {sh sh' : Shared} {r r' : Request}

theorem answered_snoc :
    answered (ms ++ [⟨s, e, t⟩]) = answered ms + if e.answers then 1 else 0 := by
  rw [answered, List.countP_append, List.countP_singleton]
  rfl

theorem failed_snoc : failed (ms ++ [⟨s, e, t⟩]) = failed ms + if e.fails then 1 else 0 := by
  rw [failed, List.countP_append, List.countP_singleton]
  rfl

theorem measured_snoc : measured (ms ++ [⟨s, e, t⟩]) = measured ms ++ (s.measures e).toList := by
  rw [measured, List.filterMap_append]
  cases hm : s.measures e <;> simp [measured, hm]

/-! ## One step -/

theorem Books.init (args : Args) : Books args [] (.init args) where
  permits := rfl
  answered := rfl
  failed := rfl
  pushed := rfl
  completed := rfl
  latencies := .refl _

/-- A step that leaves the requests and what they share alone. -/
theorem Books.quiet (h : Books args ms s) (hsh : t.shared = s.shared)
    (hreq : t.requests = s.requests) (hanswers : e.answers = false) (hfails : e.fails = false)
    (hmeasures : s.measures e = none) : Books args (ms ++ [⟨s, e, t⟩]) t where
  permits := by rw [hsh, hreq]; exact h.permits
  answered := by rw [answered_snoc, hanswers, hreq]; exact h.answered
  failed := by rw [failed_snoc, hfails, hsh, hreq]; exact h.failed
  pushed := by rw [hsh, hreq]; exact h.pushed
  completed := by rw [hsh, hreq]; exact h.completed
  latencies := by rw [measured_snoc, hmeasures, hsh, hreq]; simpa using h.latencies

theorem Books.spawn (h : Books args ms s) (hpermits : 0 < s.shared.permits)
    (hsh : t.shared = { s.shared with permits := s.shared.permits - 1 })
    (hreq : t.requests = s.requests ++ [.spawned]) : Books args (ms ++ [⟨s, .main, t⟩]) t := by
  have hnew : ∀ p : Request → Bool,
      t.requests.countP p = s.requests.countP p + if p .spawned then 1 else 0 := by
    intro p
    rw [hreq, List.countP_append, List.countP_singleton]
  have hlen : t.requests.length = s.requests.length + 1 := by rw [hreq, List.length_append]; rfl
  have hpermits' := h.permits
  have hanswered := h.answered
  have hpushed := h.pushed
  have hcompleted := h.completed
  refine ⟨?_, ?_, ?_, ?_, ?_, ?_⟩
  · simp only [hnew, hsh, Request.live]
    simp
    omega
  · simp only [hnew, hlen, answered_snoc, Event.answers, Request.waiting, if_true]
    simp
    omega
  · simpa [hnew, hsh, failed_snoc, Event.fails, Request.failing] using h.failed
  · simp only [hnew, hlen, hsh, Request.unpushed, if_true]
    omega
  · simp only [hnew, hlen, hsh, Request.uncounted, if_true]
    omega
  · have hheld : t.requests.filterMap Request.held = s.requests.filterMap Request.held := by
      rw [hreq, List.filterMap_append]
      exact List.append_nil _
    rw [measured_snoc, hheld, hsh]
    simpa [Tester.measures] using h.latencies

/-- What the step of one request keeps in balance: it takes nothing from the request that it does
not add to the counters, but what the event adds to the run. -/
structure Balanced (e : Event) (latency : Option Nat) (sh sh' : Shared) (r r' : Request) :
    Prop where
  permits : sh'.permits + (if r'.live then 1 else 0) = sh.permits + if r.live then 1 else 0
  answered : (if e.answers then 1 else 0) + (if r'.waiting then 1 else 0) =
    if r.waiting then 1 else 0
  failed : sh'.errors + (if r'.failing then 1 else 0) =
    sh.errors + (if r.failing then 1 else 0) + if e.fails then 1 else 0
  pushed : sh'.latencies.length + (if r'.unpushed then 1 else 0) =
    sh.latencies.length + if r.unpushed then 1 else 0
  completed : sh'.completed + (if r'.uncounted then 1 else 0) =
    sh.completed + if r.uncounted then 1 else 0
  latencies : (r'.held.toList ++ sh'.latencies).Perm
    (r.held.toList ++ sh.latencies ++ latency.toList)

theorem Books.set (h : Books args ms s) (hk : s.requests[k]? = some r)
    (hreq : t.requests = s.requests.set k r')
    (hb : Balanced e (s.measures e) s.shared t.shared r r') : Books args (ms ++ [⟨s, e, t⟩]) t := by
  have hset : ∀ p : Request → Bool, t.requests.countP p + (if p r then 1 else 0) =
      s.requests.countP p + if p r' then 1 else 0 := by
    intro p
    rw [hreq]
    exact countP_set_add p hk
  have hlen : t.requests.length = s.requests.length := by rw [hreq, List.length_set]
  refine ⟨?_, ?_, ?_, ?_, ?_, ?_⟩
  · have hcount := hset Request.live
    have hstep := hb.permits
    have hold := h.permits
    omega
  · rw [answered_snoc, hlen]
    have hcount := hset Request.waiting
    have hstep := hb.answered
    have hold := h.answered
    omega
  · rw [failed_snoc]
    have hcount := hset Request.failing
    have hstep := hb.failed
    have hold := h.failed
    omega
  · rw [hlen]
    have hcount := hset Request.unpushed
    have hstep := hb.pushed
    have hold := h.pushed
    omega
  · rw [hlen]
    have hcount := hset Request.uncounted
    have hstep := hb.completed
    have hold := h.completed
    omega
  · rw [measured_snoc, hreq, List.perm_iff_count]
    intro latency
    have hheld := (filterMap_set_perm (b := r') Request.held hk).count_eq latency
    have hstep := hb.latencies.count_eq latency
    have hold := h.latencies.count_eq latency
    simp only [List.count_append] at hheld hstep hold ⊢
    omega

theorem balanced_request (hk : s.requests[k]? = some r)
    (hr : r.step s.now s.shared = some (sh, r')) :
    Balanced (.request k) (s.measures (.request k)) s.shared sh r r' := by
  rw [Tester.measures, hk, Option.bind_some]
  cases r with
  | spawned =>
      cases hr
      exact ⟨rfl, rfl, rfl, rfl, rfl, by simp [Request.held, Request.stepLatency]⟩
  | sending => cases hr
  | countStatus latencyMs =>
      cases hr
      exact ⟨rfl, rfl, rfl, rfl, rfl, by simp [Request.held, Request.stepLatency]⟩
  | countFailure start =>
      cases hr
      exact ⟨rfl, rfl, rfl, rfl, rfl, List.perm_append_comm⟩
  | pushLatency latencyMs =>
      cases hr
      refine ⟨rfl, rfl, rfl, ?_, rfl, ?_⟩
      · rw [List.length_append]
        rfl
      · show (s.shared.latencies ++ [latencyMs]).Perm ([latencyMs] ++ s.shared.latencies ++ [])
        rw [List.append_nil]
        exact List.perm_append_comm
  | countCompleted =>
      cases hr
      exact ⟨rfl, rfl, rfl, rfl, rfl, by simp [Request.held, Request.stepLatency]⟩
  | dropPermit =>
      cases hr
      exact ⟨rfl, rfl, rfl, rfl, rfl, by simp [Request.held, Request.stepLatency]⟩
  | ended => cases hr

theorem balanced_respond {start : Nat} {reply : Reply}
    (hk : s.requests[k]? = some (.sending start)) :
    Balanced (.respond k reply) (s.measures (.respond k reply)) s.shared s.shared (.sending start)
      (.onReply s.now start reply) := by
  rw [Tester.measures, hk, Option.bind_some]
  cases reply with
  | error =>
      refine ⟨rfl, rfl, rfl, rfl, rfl, ?_⟩
      simp [Request.replyLatency, Request.onReply, Request.held]
  | response success => cases success <;> exact ⟨rfl, rfl, rfl, rfl, rfl, List.perm_append_comm⟩

theorem Books.step (h : Books args ms s) (hs : Tester.Step args s e t) :
    Books args (ms ++ [⟨s, e, t⟩]) t := by
  cases hs with
  | spawn _ hpermits => exact h.spawn hpermits rfl rfl
  | request hk hr => exact h.set hk rfl (balanced_request hk hr)
  | respond hk => exact h.set hk rfl (balanced_respond hk)
  | _ => exact h.quiet rfl rfl rfl rfl rfl

theorem books (h : Run (Tester.step args) (.init args) ms s) : Books args ms s := by
  induction h with
  | nil => exact .init args
  | snoc _ hs ih => exact ih.step (Tester.step_inv hs)

/-! ## Percentiles -/

/-- `v` is one of the values, at least `p` percent of them are at most `v`, and at most `p` percent
of them are less. -/
structure IsPercentile (l : List Nat) (p v : Nat) : Prop where
  mem : v ∈ l
  le : l.length * p ≤ 100 * l.countP fun a => a ≤ v
  lt : (100 * l.countP fun a => a < v) ≤ l.length * p

variable {l l' : List Nat} {p q v : Nat}

theorem IsPercentile.perm (h : IsPercentile l p v) (hperm : l.Perm l') : IsPercentile l' p v where
  mem := hperm.mem_iff.mp h.mem
  le := by
    rw [← hperm.length_eq, ← hperm.countP_eq]
    exact h.le
  lt := by
    rw [← hperm.length_eq, ← hperm.countP_eq]
    exact h.lt

theorem percentile_eq (h : l ≠ []) :
    ∃ i, ∃ hi : i < l.length, i = min (l.length * p / 100) (l.length - 1) ∧
      percentile l p = l[i] := by
  have hpos := List.length_pos_iff.mpr h
  exact ⟨min (l.length * p / 100) (l.length - 1), by omega, rfl, by rw [percentile, dif_neg h]; rfl⟩

theorem percentile_isPercentile (hsorted : l.Pairwise (· ≤ ·)) (h : l ≠ []) (hp : p ≤ 100) :
    IsPercentile l p (percentile l p) := by
  obtain ⟨i, hi, hmin, hval⟩ := percentile_eq (p := p) h
  have hle := lt_countP_le hsorted hi
  have hlt := countP_lt_le hsorted hi
  have hbound : l.length * p ≤ l.length * 100 := Nat.mul_le_mul_left _ hp
  rw [hval]
  refine ⟨List.getElem_mem hi, ?_, ?_⟩
  · omega
  · omega

theorem percentile_mono (hsorted : l.Pairwise (· ≤ ·)) (hpq : p ≤ q) :
    percentile l p ≤ percentile l q := by
  by_cases h : l = []
  · rw [percentile, dif_pos h]
    exact Nat.zero_le _
  · obtain ⟨i, hi, himin, hp⟩ := percentile_eq (p := p) h
    obtain ⟨j, hj, hjmin, hq⟩ := percentile_eq (p := q) h
    have hij : i ≤ j := by
      have hmul : l.length * p ≤ l.length * q := Nat.mul_le_mul_left _ hpq
      omega
    rw [hp, hq]
    obtain hlt | rfl := Nat.lt_or_eq_of_le hij
    · exact List.pairwise_iff_getElem.mp hsorted i j hi hj hlt
    · exact Nat.le_refl _

theorem sortLatencies_sorted (l : List Nat) : (sortLatencies l).Pairwise (· ≤ ·) :=
  l.pairwise_insertionSort _

theorem sortLatencies_perm (l : List Nat) : (sortLatencies l).Perm l := l.perm_insertionSort _

theorem sortLatencies_percentile (hl : l ≠ []) (hp : p ≤ 100) :
    IsPercentile l p (percentile (sortLatencies l) p) := by
  have hperm := sortLatencies_perm l
  have hnil : sortLatencies l ≠ [] := fun hnil => hl (List.perm_nil.mp (hnil ▸ hperm).symm)
  exact (percentile_isPercentile (sortLatencies_sorted l) hnil hp).perm hperm

theorem le_getLast (hsorted : l.Pairwise (· ≤ ·)) (hv : v ∈ l) :
    v ≤ l.getLast?.getD 0 := by
  have h : l ≠ [] := List.ne_nil_of_mem hv
  rw [List.getLast?_eq_some_getLast h, Option.getD_some]
  rw [← List.dropLast_append_getLast h] at hsorted hv
  obtain hv | hv := List.mem_append.mp hv
  · exact (List.pairwise_append.mp hsorted).2.2 v hv _ (List.mem_singleton.mpr rfl)
  · exact Nat.le_of_eq (List.mem_singleton.mp hv)

theorem getLast_mem (h : l ≠ []) : l.getLast?.getD 0 ∈ l := by
  rw [List.getLast?_eq_some_getLast h, Option.getD_some]
  exact List.getLast_mem h

/-! ## `main` -/

/-- All tasks have been submitted, or the time limit has been reached. -/
def Submitted (args : Args) (s : Tester) : Prop :=
  s.requests.length = args.tasks ∨ args.late s.now = true

def AllEnded (s : Tester) : Prop := ∀ r ∈ s.requests, r = .ended

/-- What `main` knows at each place. -/
def MainPc.Knows (args : Args) (s : Tester) : MainPc → Prop
  | .submit i => i = s.requests.length ∧ i ≤ args.tasks
  | .acquire i => i = s.requests.length ∧ i < args.tasks
  | .join k => Submitted args s ∧ ∀ j < k, s.requests[j]? = some .ended
  | .report => Submitted args s ∧ AllEnded s
  | .done final => Submitted args s ∧ AllEnded s ∧ final = s.shared.report

theorem Args.late_mono {now now' : Nat} (hle : now ≤ now') (h : args.late now = true) :
    args.late now' = true := by
  simp only [late, Bool.and_eq_true, decide_eq_true_eq] at h ⊢
  exact ⟨h.1, Nat.lt_of_lt_of_le h.2 hle⟩

theorem Submitted.mono (h : Submitted args s) (hlen : t.requests.length = s.requests.length)
    (hnow : s.now ≤ t.now) : Submitted args t := by
  obtain h | h := h
  · exact Or.inl (hlen.trans h)
  · exact Or.inr (Args.late_mono hnow h)

/-- A step that leaves the requests and what they share alone. -/
theorem MainPc.Knows.quiet {pc : MainPc} (h : pc.Knows args s) (hsh : t.shared = s.shared)
    (hreq : t.requests = s.requests) (hnow : s.now ≤ t.now) : pc.Knows args t := by
  have hsub : Submitted args s → Submitted args t := fun h => h.mono (by rw [hreq]) hnow
  cases pc with
  | submit i => simpa only [Knows, hreq] using h
  | acquire i => simpa only [Knows, hreq] using h
  | join k => exact ⟨hsub h.1, by simpa only [hreq] using h.2⟩
  | report => exact ⟨hsub h.1, by simpa only [AllEnded, hreq] using h.2⟩
  | done final =>
      exact ⟨hsub h.1, by simpa only [AllEnded, hreq] using h.2.1, by rw [hsh]; exact h.2.2⟩

/-- A step of a request, which has not ended. -/
theorem MainPc.Knows.set {pc : MainPc} (h : pc.Knows args s) (hk : s.requests[k]? = some r)
    (hr : r ≠ .ended) (hreq : t.requests = s.requests.set k r') (hnow : t.now = s.now) :
    pc.Knows args t := by
  have hlen : t.requests.length = s.requests.length := by rw [hreq, List.length_set]
  have hsub : Submitted args s → Submitted args t :=
    fun h => h.mono hlen (Nat.le_of_eq hnow.symm)
  have hall : ¬ AllEnded s := fun hall => hr (hall r (List.mem_of_getElem? hk))
  cases pc with
  | submit i => simpa only [Knows, hlen] using h
  | acquire i => simpa only [Knows, hlen] using h
  | join k₀ =>
      refine ⟨hsub h.1, fun j hj => ?_⟩
      have hended := h.2 j hj
      have hjk : k ≠ j := by
        rintro rfl
        rw [hk] at hended
        exact hr (Option.some.inj hended)
      rw [hreq, List.getElem?_set_ne hjk]
      exact hended
  | report => exact absurd h.2 hall
  | done final => exact absurd h.2.1 hall

theorem Request.ne_ended_of_step (h : r.step now sh = some (sh', r')) : r ≠ .ended := by
  rintro rfl
  cases h

theorem MainPc.Knows.step (h : s.main.Knows args s) (hs : Tester.Step args s e t) :
    t.main.Knows args t := by
  cases hs with
  | tick d => exact h.quiet rfl rfl (Nat.le_add_right _ _)
  | next hmain hlt =>
      rw [hmain] at h
      exact ⟨h.1, hlt⟩
  | stop hmain hstop =>
      rw [hmain] at h
      refine ⟨?_, fun j hj => absurd hj (Nat.not_lt_zero j)⟩
      exact hstop.imp_left fun hle => h.1.symm.trans (Nat.le_antisymm h.2 hle)
  | spawn hmain =>
      rw [hmain] at h
      refine ⟨?_, h.2⟩
      rw [List.length_append, ← h.1]
      rfl
  | joined hmain hk =>
      rw [hmain] at h
      refine ⟨h.1, fun j hj => ?_⟩
      obtain hlt | rfl := Nat.lt_succ_iff_lt_or_eq.mp hj
      · exact h.2 j hlt
      · exact hk
  | allJoined hmain hk =>
      rw [hmain] at h
      refine ⟨h.1, fun r hr => ?_⟩
      obtain ⟨j, hj, rfl⟩ := List.getElem_of_mem hr
      have hended := h.2 j (Nat.lt_of_lt_of_le hj (List.getElem?_eq_none_iff.mp hk))
      rw [List.getElem?_eq_getElem hj] at hended
      exact Option.some.inj hended
  | report hmain =>
      rw [hmain] at h
      exact ⟨h.1, h.2, rfl⟩
  | request hk hr => exact h.set hk (Request.ne_ended_of_step hr) rfl rfl
  | respond hk => exact h.set hk (by simp) rfl rfl
  | reporter => exact h.quiet rfl rfl (Nat.le_refl _)

theorem knows (h : Run (Tester.step args) (.init args) ms s) : s.main.Knows args s := by
  refine h.always (I := fun s => s.main.Knows args s) ⟨rfl, Nat.zero_le _⟩ ?_
  exact fun s e t hI hs => hI.step (Tester.step_inv hs)

/-! ## The final report -/

theorem AllEnded.countP (h : AllEnded s) {p : Request → Bool} (hp : p .ended = false) :
    s.requests.countP p = 0 := by
  rw [List.countP_eq_zero]
  intro r hr
  rw [h r hr, hp]
  exact Bool.false_ne_true

theorem AllEnded.held (h : AllEnded s) : s.requests.filterMap Request.held = [] := by
  rw [List.filterMap_eq_nil_iff]
  intro r hr
  rw [h r hr]
  rfl

theorem Event.answers_of_fails (h : e.fails = true) : e.answers = true := by
  cases e with
  | respond => rfl
  | _ => cases h

/-- The latencies in a report are those of the list. -/
structure Report.Describes (report : Report) (l : List Nat) : Prop where
  p50 : l ≠ [] → IsPercentile l 50 report.p50
  p95 : l ≠ [] → IsPercentile l 95 report.p95
  p99 : l ≠ [] → IsPercentile l 99 report.p99
  max_mem : l ≠ [] → report.maxLat ∈ l
  le_max : ∀ latency ∈ l, latency ≤ report.maxLat
  ordered : report.p50 ≤ report.p95 ∧ report.p95 ≤ report.p99 ∧ report.p99 ≤ report.maxLat

theorem percentile_le_getLast (hsorted : l.Pairwise (· ≤ ·)) :
    percentile l p ≤ l.getLast?.getD 0 := by
  by_cases h : l = []
  · rw [percentile, dif_pos h]
    exact Nat.zero_le _
  · obtain ⟨i, hi, -, hval⟩ := percentile_eq (p := p) h
    rw [hval]
    exact le_getLast hsorted (List.getElem_mem hi)

theorem Shared.report_describes (h : sh.latencies.Perm l) : sh.report.Describes l := by
  have hsorted := sortLatencies_sorted sh.latencies
  have hperm := (sortLatencies_perm sh.latencies).trans h
  have hnil : l ≠ [] → sortLatencies sh.latencies ≠ [] :=
    fun hl hnil => hl (List.perm_nil.mp (hnil ▸ hperm).symm)
  have hpercentile : ∀ p ≤ 100, l ≠ [] →
      IsPercentile l p (percentile (sortLatencies sh.latencies) p) := by
    intro p hp hl
    have hlats : sh.latencies ≠ [] := fun hlats => hl (List.nil_perm.mp (hlats ▸ h))
    exact (sortLatencies_percentile hlats hp).perm h
  exact {
    p50 := hpercentile 50 (by decide)
    p95 := hpercentile 95 (by decide)
    p99 := hpercentile 99 (by decide)
    max_mem := fun hl => hperm.mem_iff.mp (getLast_mem (hnil hl))
    le_max := fun latency hlat => le_getLast hsorted (hperm.mem_iff.mpr hlat)
    ordered := ⟨percentile_mono hsorted (by decide), percentile_mono hsorted (by decide),
      percentile_le_getLast hsorted⟩ }

/-- In every run of the load tester, whatever the answers and however the threads interleave: when
`main` reports, every request has been answered and has ended, the report counts the requests and
their failures exactly, and its percentiles and its maximum are those of the latencies that the
run has taken, one for each request. -/
theorem report_exact {report : Report} (h : Run (Tester.step args) (.init args) ms s)
    (hmain : s.main = .done report) :
    Submitted args s ∧ AllEnded s ∧
    report.totalDone = s.requests.length ∧ report.totalDone = answered ms ∧
    report.totalErrs = failed ms ∧ report.totalSuccess + report.totalErrs = report.totalDone ∧
    (measured ms).length = report.totalDone ∧ report.Describes (measured ms) := by
  have hknows := knows h
  rw [hmain] at hknows
  obtain ⟨hsub, hended, rfl⟩ := hknows
  have hbooks := books h
  have hanswered := hbooks.answered
  have hfailed := hbooks.failed
  have hcompleted := hbooks.completed
  have hpushed := hbooks.pushed
  rw [hended.countP rfl] at hanswered hfailed hcompleted hpushed
  have hlats : s.shared.latencies.Perm (measured ms) := by
    simpa [hended.held] using hbooks.latencies
  have hlen := hlats.length_eq
  have hle : failed ms ≤ answered ms :=
    List.countP_mono_left fun _ _ hfails => Event.answers_of_fails hfails
  simp only [Shared.report]
  exact ⟨hsub, hended, by omega, by omega, by omega, by omega, by omega,
    Shared.report_describes hlats⟩

/-- One task succeeds, one fails, and the reporter has printed a line in between. -/
def twoTasks : List Event :=
  [.main, .main, .main, .main, .main, .request 0, .request 1, .tick 3000000,
   .respond 0 (.response true), .request 0, .request 0, .reporter, .reporter, .reporter,
   .tick 4000000, .respond 1 .error, .request 1, .request 1, .request 1, .request 1, .request 0,
   .main, .main, .main, .main]

theorem twoTasks_report :
    ∃ s ms report, Run (Tester.step { tasks := 2, concurrency := 2 })
        (.init { tasks := 2, concurrency := 2 }) ms s ∧ s.main = .done report ∧ AllEnded s ∧
      report = ⟨2, 1, 1, 7, 7, 7, 7⟩ ∧ report.totalErrs = failed ms ∧
      report.Describes (measured ms) := by
  have htest : (exec (Tester.step { tasks := 2, concurrency := 2 })
      (.init { tasks := 2, concurrency := 2 }) twoTasks).any (fun s =>
        s.main = .done ⟨2, 1, 1, 7, 7, 7, 7⟩) = true := by decide
  obtain ⟨s, h, hs⟩ := exec_any_run htest
  have hmain := of_decide_eq_true hs
  obtain ⟨-, hended, -, -, herrs, -, -, hdescribes⟩ := report_exact h hmain
  exact ⟨s, _, _, h, hmain, hended, rfl, herrs, hdescribes⟩

/-! ## The lines of the reporter -/

/-- The line is about the first so many latencies: those of at least the requests that it counts
as completed. -/
def Line.Describes (line : Line) (latencies : List Nat) : Prop :=
  ∃ lats, lats <+: latencies ∧ line.completed ≤ lats.length ∧
    (lats ≠ [] → IsPercentile lats 50 line.p50 ∧ IsPercentile lats 95 line.p95)

/-- What the reporter has subtracted and not printed yet. -/
def ReporterPc.unprinted : ReporterPc → Nat
  | .lockLatencies _ _ newlyCompleted => newlyCompleted
  | _ => 0

/-- What the reporter has read is not ahead of the counter, and not behind what it printed. -/
def ReporterPc.Reads (lastCompleted completed : Nat) : ReporterPc → Prop
  | .loadErrors nowDone => lastCompleted ≤ nowDone ∧ nowDone ≤ completed
  | .lockLatencies nowDone _ _ => nowDone = lastCompleted
  | .panicked => False
  | .tick | .stopped => True

structure Reporter.Sound (sh : Shared) (r : Reporter) : Prop where
  last : r.lastCompleted ≤ sh.completed
  reads : r.pc.Reads r.lastCompleted sh.completed
  total : (r.lines.map Line.newlyCompleted).sum + r.pc.unprinted = r.lastCompleted
  lines : ∀ line ∈ r.lines, line.completed ≤ r.lastCompleted ∧ line.Describes sh.latencies
  mono : r.lines.Pairwise fun line line' => line.completed ≤ line'.completed

/-- Nothing is taken back. -/
structure Shared.Grows (sh sh' : Shared) : Prop where
  completed : sh.completed ≤ sh'.completed
  latencies : sh.latencies <+: sh'.latencies

theorem Request.step_grows (h : r.step now sh = some (sh', r')) : sh.Grows sh' := by
  cases r with
  | sending => cases h
  | ended => cases h
  | countCompleted =>
      cases h
      exact ⟨Nat.le_succ _, List.prefix_refl _⟩
  | pushLatency latencyMs =>
      cases h
      exact ⟨Nat.le_refl _, List.prefix_append _ _⟩
  | _ =>
      cases h
      exact ⟨Nat.le_refl _, List.prefix_refl _⟩

variable {rep rep' : Reporter}

theorem Reporter.Sound.grows (h : rep.Sound sh) (hgrows : sh.Grows sh') : rep.Sound sh' where
  last := Nat.le_trans h.last hgrows.completed
  reads := by
    have hreads := h.reads
    cases hpc : rep.pc with
    | loadErrors nowDone =>
        rw [hpc] at hreads
        exact ⟨hreads.1, Nat.le_trans hreads.2 hgrows.completed⟩
    | _ =>
        rw [hpc] at hreads
        exact hreads
  total := h.total
  lines := by
    intro line hline
    obtain ⟨hle, lats, hlats, hrest⟩ := h.lines line hline
    exact ⟨hle, lats, hlats.trans hgrows.latencies, hrest⟩
  mono := h.mono

/-- The subtraction does not overflow, because the counter only grows. -/
theorem Reporter.Sound.step {total : Nat} (h : rep.Sound sh)
    (hpushed : sh.completed ≤ sh.latencies.length) (hs : rep.step total sh = some rep') :
    rep'.Sound sh := by
  have hreads := h.reads
  have htotal := h.total
  unfold Reporter.step at hs
  split at hs
  case h_1 hpc =>
    cases hs
    rw [hpc] at htotal
    exact { h with reads := ⟨h.last, Nat.le_refl _⟩, total := htotal }
  case h_2 nowDone hpc =>
    rw [hpc] at hreads htotal
    obtain ⟨hlast, hnow⟩ := hreads
    rw [if_neg (Nat.not_lt.mpr hlast)] at hs
    cases hs
    refine ⟨hnow, rfl, ?_, ?_, h.mono⟩
    · simp only [ReporterPc.unprinted] at htotal ⊢
      omega
    · exact fun line hline => ⟨Nat.le_trans (h.lines line hline).1 hlast, (h.lines line hline).2⟩
  case h_3 nowDone errs newlyCompleted hpc =>
    rw [hpc] at hreads htotal
    have hnow : nowDone = rep.lastCompleted := hreads
    cases hs
    refine ⟨h.last, ?_, ?_, ?_, ?_⟩
    · dsimp only
      split <;> trivial
    · have hpc' : (if total ≤ nowDone then ReporterPc.stopped else .tick).unprinted = 0 := by
        split <;> rfl
      simp only [ReporterPc.unprinted] at htotal
      simp only [List.map_append, List.sum_append, hpc']
      simpa using htotal
    · intro line hline
      obtain hline | hline := List.mem_append.mp hline
      · exact h.lines line hline
      · rw [List.mem_singleton.mp hline]
        refine ⟨Nat.le_of_eq hnow, sh.latencies, List.prefix_refl _, ?_, fun hl => ?_⟩
        · exact Nat.le_trans (Nat.le_of_eq hnow) (Nat.le_trans h.last hpushed)
        · exact ⟨sortLatencies_percentile hl (by decide), sortLatencies_percentile hl (by decide)⟩
    · refine List.pairwise_append.mpr ⟨h.mono, List.pairwise_singleton _ _, ?_⟩
      intro line hline line' hline'
      rw [List.mem_singleton.mp hline']
      exact Nat.le_trans (h.lines line hline).1 (Nat.le_of_eq hnow.symm)
  case h_4 => cases hs
  case h_5 => cases hs

/-- A request pushes its latency before it is counted. -/
theorem Books.completed_le (h : Books args ms s) :
    s.shared.completed ≤ s.shared.latencies.length := by
  have hle : s.requests.countP Request.unpushed ≤ s.requests.countP Request.uncounted :=
    List.countP_mono_left fun r _ hr => by cases r <;> first | rfl | cases hr
  have hpushed := h.pushed
  have hcompleted := h.completed
  omega

theorem reporter_invariant (h : Run (Tester.step args) (.init args) ms s) :
    s.reporter.Sound s.shared := by
  induction h with
  | nil => exact ⟨Nat.le_refl _, trivial, rfl, fun _ hline => (by cases hline), .nil⟩
  | snoc hrun hs ih =>
      cases Tester.step_inv hs with
      | spawn => exact ih.grows ⟨Nat.le_refl _, List.prefix_refl _⟩
      | request _ hr => exact ih.grows (Request.step_grows hr)
      | reporter hr => exact ih.step (books hrun).completed_le hr
      | _ => exact ih

/-- In every run of the load tester: at most so many requests as there are permits are in flight,
the subtraction of the reporter never overflows, and its lines never go back, count no more than
has been completed, add up, and give the percentiles of the latencies pushed so far. -/
theorem reporter_sound (h : Run (Tester.step args) (.init args) ms s) :
    s.requests.countP Request.live ≤ args.concurrency ∧ s.reporter.pc ≠ .panicked ∧
    (s.reporter.lines.Pairwise fun line line' => line.completed ≤ line'.completed) ∧
    (s.reporter.lines.map Line.newlyCompleted).sum ≤ s.requests.length ∧
    ∀ line ∈ s.reporter.lines, line.completed ≤ s.requests.length ∧
      line.Describes s.shared.latencies := by
  have hbooks := books h
  have hsound := reporter_invariant h
  have hpermits := hbooks.permits
  have hcompleted := hbooks.completed
  have hlast := hsound.last
  have htotal := hsound.total
  refine ⟨by omega, fun hpc => ?_, hsound.mono, by omega, fun line hline => ?_⟩
  · have hreads := hsound.reads
    rw [hpc] at hreads
    exact hreads
  · obtain ⟨hle, hdescribes⟩ := hsound.lines line hline
    exact ⟨by omega, hdescribes⟩

theorem twoTasks_lines :
    ∃ s ms, Run (Tester.step { tasks := 2, concurrency := 2 })
        (.init { tasks := 2, concurrency := 2 }) ms s ∧
      s.reporter.lines = [⟨1, 2, 1, 3, 3, 0⟩] ∧ s.reporter.pc ≠ .panicked ∧
      ∀ line ∈ s.reporter.lines, line.Describes s.shared.latencies := by
  have htest : (exec (Tester.step { tasks := 2, concurrency := 2 })
      (.init { tasks := 2, concurrency := 2 }) twoTasks).any (fun s =>
        s.reporter.lines = [⟨1, 2, 1, 3, 3, 0⟩]) = true := by decide
  obtain ⟨s, h, hs⟩ := exec_any_run htest
  obtain ⟨-, hpc, -, -, hlines⟩ := reporter_sound h
  exact ⟨s, _, h, of_decide_eq_true hs, hpc, fun line hline => (hlines line hline).2⟩

/-! ## The report is reached -/

/-- The steps that a request has still to take. -/
def Request.work : Request → Nat
  | .spawned => 7
  | .sending _ => 6
  | .countStatus _ | .countFailure _ => 4
  | .pushLatency _ => 3
  | .countCompleted => 2
  | .dropPermit => 1
  | .ended => 0

/-- The steps that `main` has still to take, with those of the requests that it has not spawned
yet. -/
def MainPc.work (args : Args) (s : Tester) : MainPc → Nat
  | .submit i => 10 * (args.tasks - i) + args.tasks + 4
  | .acquire i => 10 * (args.tasks - i) + args.tasks + 3
  | .join k => s.requests.length - k + 2
  | .report => 1
  | .done _ => 0

def Tester.work (args : Args) (s : Tester) : Nat :=
  s.main.work args s + (s.requests.map Request.work).sum

/-- A request that has not ended can take a step, if it is answered. -/
theorem exists_request_step (hk : s.requests[k]? = some r) (hr : r ≠ .ended) :
    ∃ e t, s.step args e = some t ∧ t.work args < s.work args := by
  have hwork : ∀ r', r'.work < r.work → ∀ sh : Shared,
      Tester.work args { s with shared := sh, requests := s.requests.set k r' } < s.work args := by
    intro r' hlt sh
    have hsum := sum_map_set_add (b := r') Request.work hk
    have hmain : s.main.work args { s with shared := sh, requests := s.requests.set k r' } =
        s.main.work args s := by
      cases s.main <;> simp only [MainPc.work, List.length_set]
    simp only [Tester.work, hmain]
    omega
  have hstep : ∀ sh r', r.step s.now s.shared = some (sh, r') → r'.work < r.work →
      ∃ e t, s.step args e = some t ∧ t.work args < s.work args := by
    intro sh r' hstep hlt
    refine ⟨.request k, _, ?_, hwork r' hlt sh⟩
    simp only [Tester.step, hk, hstep, Option.map_some]
  cases r with
  | spawned => exact hstep _ _ rfl (by simp [Request.work])
  | sending start =>
      have hlt : (Request.onReply s.now start (.response true)).work <
          (Request.sending start).work := by simp [Request.onReply, Request.work]
      refine ⟨.respond k (.response true), _, ?_, hwork _ hlt s.shared⟩
      simp only [Tester.step, hk]
  | countStatus latencyMs => exact hstep _ _ rfl (by simp [Request.work])
  | countFailure start => exact hstep _ _ rfl (by simp [Request.work])
  | pushLatency latencyMs => exact hstep _ _ rfl (by simp [Request.work])
  | countCompleted => exact hstep _ _ rfl (by decide)
  | dropPermit => exact hstep _ _ rfl (by decide)
  | ended => exact absurd rfl hr

/-- Without a permit left there is a request that can take a step. -/
theorem exists_live (h : Run (Tester.step args) (.init args) ms s)
    (hpermits : s.shared.permits = 0) (hc : 0 < args.concurrency) :
    ∃ (k : Nat) (r : Request), s.requests[k]? = some r ∧ r ≠ .ended := by
  have hlive : 0 < s.requests.countP Request.live := by
    have hbooks := (books h).permits
    omega
  obtain ⟨r, hr, hne⟩ := List.countP_pos_iff.mp hlive
  obtain ⟨k, hk⟩ := List.getElem?_of_mem hr
  exact ⟨k, r, hk, of_decide_eq_true hne⟩

theorem exists_step (h : Run (Tester.step args) (.init args) ms s) (hc : 0 < args.concurrency)
    (hmain : ¬ ∃ report, s.main = .done report) :
    ∃ e t, s.step args e = some t ∧ t.work args < s.work args := by
  have hknows := knows h
  cases hpc : s.main with
  | submit i =>
      rw [hpc] at hknows
      obtain ⟨hi, hle⟩ := hknows
      by_cases hnext : i < args.tasks ∧ args.late s.now = false
      · refine ⟨.main, { s with main := .acquire i }, ?_, ?_⟩
        · simp only [Tester.step, Tester.mainStep, hpc, if_pos hnext]
        · simp only [Tester.work, hpc, MainPc.work]
          omega
      · refine ⟨.main, { s with main := .join 0 }, ?_, ?_⟩
        · simp only [Tester.step, Tester.mainStep, hpc, if_neg hnext]
        · simp only [Tester.work, hpc, MainPc.work]
          omega
  | acquire i =>
      rw [hpc] at hknows
      obtain ⟨hi, hlt⟩ := hknows
      by_cases hpermits : s.shared.permits = 0
      · obtain ⟨k, r, hk, hr⟩ := exists_live h hpermits hc
        exact exists_request_step hk hr
      · refine ⟨.main, { s with
          shared.permits := s.shared.permits - 1
          requests := s.requests ++ [.spawned]
          main := .submit (i + 1) }, ?_, ?_⟩
        · simp only [Tester.step, Tester.mainStep, hpc, if_neg hpermits]
        · simp only [Tester.work, hpc, MainPc.work, List.map_append, List.sum_append,
            List.map_cons, List.map_nil, List.sum_singleton, Request.work]
          omega
  | join k =>
      cases hk : s.requests[k]? with
      | none =>
          refine ⟨.main, { s with main := .report }, ?_, ?_⟩
          · simp only [Tester.step, Tester.mainStep, hpc, hk]
          · simp only [Tester.work, hpc, MainPc.work]
            omega
      | some r =>
          by_cases hr : r = .ended
          · subst hr
            have hlt := (List.getElem?_eq_some_iff.mp hk).1
            refine ⟨.main, { s with main := .join (k + 1) }, ?_, ?_⟩
            · simp only [Tester.step, Tester.mainStep, hpc, hk]
            · simp only [Tester.work, hpc, MainPc.work]
              omega
          · exact exists_request_step hk hr
  | report =>
      refine ⟨.main, { s with main := .done s.shared.report }, ?_, ?_⟩
      · simp only [Tester.step, Tester.mainStep, hpc]
      · simp only [Tester.work, hpc, MainPc.work]
        omega
  | done report => exact absurd ⟨report, hpc⟩ hmain

/-- With at least one permit, every run of the load tester can be carried on to its report: no
state is reached in which `main` or the requests wait for each other. -/
theorem report_reachable (h : Run (Tester.step args) (.init args) ms s)
    (hc : 0 < args.concurrency) :
    ∃ ns t report, Run (Tester.step args) s ns t ∧ t.main = .done report := by
  have hreach : ∀ s, (∃ ms, Run (Tester.step args) (.init args) ms s) →
      ¬ (∃ report, s.main = .done report) → ∃ e t, s.step args e = some t ∧
        (∃ ms, Run (Tester.step args) (.init args) ms t) ∧ t.work args < s.work args := by
    rintro s ⟨ms, h⟩ hmain
    obtain ⟨e, t, hs, hlt⟩ := exists_step h hc hmain
    exact ⟨e, t, hs, ⟨_, h.snoc hs⟩, hlt⟩
  obtain ⟨ns, t, hrun, report, hmain⟩ := exists_run_final hreach ⟨ms, h⟩
  exact ⟨ns, t, report, hrun, hmain⟩

/-- The only permit is held by a request that waits for its answer. -/
theorem waiting_reachable :
    ∃ s ms, Run (Tester.step { tasks := 2, concurrency := 1 })
        (.init { tasks := 2, concurrency := 1 }) ms s ∧
      s.shared.permits = 0 ∧ s.requests = [.sending 0] ∧
      ∃ ns t report, Run (Tester.step { tasks := 2, concurrency := 1 }) s ns t ∧
        t.main = .done report := by
  have htest : (exec (Tester.step { tasks := 2, concurrency := 1 })
      (.init { tasks := 2, concurrency := 1 }) [.main, .main, .main, .request 0]).any (fun s =>
        s.shared.permits = 0 ∧ s.requests = [.sending 0]) = true := by decide
  obtain ⟨s, h, hs⟩ := exec_any_run htest
  obtain ⟨hpermits, hreq⟩ := of_decide_eq_true hs
  exact ⟨s, _, h, hpermits, hreq, report_reachable h (by decide)⟩

end FerroEdge.LoadTester
