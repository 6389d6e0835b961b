import FerroEdge.ControlPlane.Accounting
import FerroEdge.ControlPlane.Batch

/-!
# What a batch returns

A batch spawns a dispatch for each of its items in turn and then joins them.  The dispatches run
and end in any order, among whatever else the control plane does, and each stores its result
under an id that was generated for it.  The join hands back the ids in the order of the items.

`batch_lined_up` says that the ids are those of the items, that they are distinct and that each
has its result when the batch returns.  It also says that a batch is never stuck: only the join
waits, and for nothing but its dispatches.
-/

namespace FerroEdge.ControlPlane

open Machine

/-- The next item of the batch that the process `i` runs resolves, if it has one. -/
def Sys.resolves (X : Externals) (s : Sys) (i : Nat) : Bool :=
  match s.procs[i]? with
  | some (.batch ⟨_, _, _, .resolving (item :: _)⟩) =>
      (resolveTaskInputs X s.shared.app item).isOk
  | _ => true

/-- The move is no step of the batch `i` that finds an item that does not resolve. -/
def Resolves (X : Externals) (i : Nat) (m : Move Sys Event) : Prop :=
  m.ev.actor = some i → m.pre.resolves X i = true

instance (X : Externals) (i : Nat) (m : Move Sys Event) : Decidable (Resolves X i m) :=
  inferInstanceAs (Decidable (_ → _))

/-- The batch `i` has resolved the item and has spawned the dispatch of it as the process `j`. -/
def SpawnedFor (X : Externals) (ms : List (Move Sys Event)) (i : Nat) (traceId : String)
    (item : SubmitTaskRequest) (j : Nat) (spec : TaskSpec) : Prop :=
  ∃ m ∈ ms, m.ev.actor = some i ∧ TaskOf X m.pre.shared.app traceId item spec ∧
    m.pre.procs[j]? = none ∧ m.post.procs[j]? = some (.dispatch (.new spec))

/-- The dispatch `j` of this task has stored the result `v`. -/
def Stores (ms : List (Move Sys Event)) (j : Nat) (spec : TaskSpec) (v : TaskResult) : Prop :=
  ∃ m ∈ ms, ∃ r, m.ev.actor = some j ∧ m.pre.procs[j]? = some (.dispatch r) ∧ r.spec = spec ∧
    m.post.shared.app.tasks = m.pre.shared.app.tasks.insert spec.taskId v

/-- The dispatch of the item has stored its result under this id, and it is there. -/
def ResultOf (X : Externals) (ms : List (Move Sys Event)) (s : Sys) (i : Nat) (traceId : String)
    (item : SubmitTaskRequest) (id : String) : Prop :=
  ∃ j spec v, SpawnedFor X ms i traceId item j spec ∧ Stores ms j spec v ∧ spec.taskId = id ∧
    s.shared.app.tasks.lookup id = some v

/-- The ids that a batch returns are those of its items, one for each and in their order. -/
structure LinedUp (X : Externals) (ms : List (Move Sys Event)) (s : Sys) (i : Nat) (b : BatchRun)
    (ids : List String) : Prop where
  results : List.Forall₂ (ResultOf X ms s i b.traceId) b.tasks ids
  distinct : ids.Nodup

/-- The number of steps that a batch has left, at most. -/
def BatchRun.left (b : BatchRun) : Nat :=
  match b.pc with
  | .start => b.tasks.length + 2
  | .resolving items => items.length + 1
  | .returned _ => 0

variable {X : Externals} {env : Env} {s t : Sys} {e : Event} {i j : Nat} {traceId : String}
  {item : SubmitTaskRequest} {items : List SubmitTaskRequest} {futures : List Nat}
  {spec : TaskSpec} {ms ns : List (Move Sys Event)}

theorem SpawnedFor.mono (h : SpawnedFor X ms i traceId item j spec) :
    SpawnedFor X (ms ++ ns) i traceId item j spec := by
  obtain ⟨m, hm, hrest⟩ := h
  exact ⟨m, List.mem_append_left _ hm, hrest⟩

theorem Stores.mono {v : TaskResult} (h : Stores ms j spec v) : Stores (ms ++ ns) j spec v := by
  obtain ⟨m, hm, hrest⟩ := h
  exact ⟨m, List.mem_append_left _ hm, hrest⟩

/-! ## Dispatches -/

/-- A dispatch stays one of its task. -/
theorem Sys.Step.dispatch_next {r : DispatchRun} (h : Sys.Step X s e t)
    (hr : s.procs[j]? = some (.dispatch r)) :
    ∃ r', t.procs[j]? = some (.dispatch r') ∧ r'.spec = r.spec := by
  obtain hq | ⟨k, env, r₀, r', sh, rfl, hk, hrun, rfl⟩ := h.quiet_or_dispatch
  · exact ⟨r, h.dispatch_quiet hq hr, rfl⟩
  · by_cases hjk : k = j
    · subst hjk
      rw [hr] at hk
      cases hk
      exact ⟨r', getElem?_set_self hr, DispatchRun.step_spec hrun⟩
    · refine ⟨r, ?_, rfl⟩
      rwa [List.getElem?_set_ne hjk]

theorem Sys.result_eq_some {id : String} :
    s.result j = some id ↔
      ∃ r, s.procs[j]? = some (.dispatch r) ∧ r.pc = .done ∧ r.spec.taskId = id := by
  rw [Sys.result, Option.bind_eq_some_iff]
  constructor
  · rintro ⟨p, hp, hret⟩
    unfold Proc.returned? at hret
    split at hret
    · split at hret
      · cases hret
        exact ⟨_, hp, ‹_›, rfl⟩
      · cases hret
    · cases hret
  · rintro ⟨r, hr, hdone, hid⟩
    exact ⟨_, hr, by rw [Proc.returned?, if_pos hdone, hid]⟩

/-- A dispatch that has returned takes no more steps. -/
theorem Sys.Step.result_next {id : String} (h : Sys.Step X s e t) (hid : s.result j = some id) :
    t.result j = some id := by
  obtain ⟨r, hr, hdone, rfl⟩ := Sys.result_eq_some.mp hid
  refine Sys.result_eq_some.mpr ⟨r, ?_, hdone, rfl⟩
  obtain hq | ⟨k, env, r₀, r', sh, rfl, hk, hrun, rfl⟩ := h.quiet_or_dispatch
  · exact h.dispatch_quiet hq hr
  · have hjk : k ≠ j := by
      rintro rfl
      rw [hr] at hk
      cases hk
      cases DispatchRun.books hrun with
      | keep hpc => exact hpc hdone
      | store _ hpc => exact DispatchPc.ne_done_of_pending hpc hdone
    rwa [List.getElem?_set_ne hjk]

/-- A dispatch that has returned has stored its result, which is still there. -/
theorem stores_of_done {url strategy : String} {r : DispatchRun}
    (h : Run (Sys.step X) (Sys.init url strategy) ms s) (hr : s.procs[j]? = some (.dispatch r))
    (hdone : r.pc = .done) :
    ∃ v, Stores ms j r.spec v ∧ s.shared.app.tasks.lookup r.spec.taskId = some v := by
  induction h generalizing r with
  | nil => cases hr
  | @snoc ms s t e hrun hs ih =>
      obtain hold | ⟨spec, rfl, -⟩ | ⟨env, r₀, rfl, hr₀, hstep⟩ := (Sys.step_inv hs).dispatch_inv hr
      · obtain ⟨v, hv, hlookup⟩ := ih hold hdone
        exact ⟨v, hv.mono, (Conserved.of_run hrun).lookup_step hs hlookup⟩
      · cases hdone
      · cases DispatchRun.books hstep with
        | keep _ hpc => exact absurd hdone (DispatchPc.ne_done_of_pending hpc)
        | store v _ _ htasks =>
            rw [DispatchRun.step_spec hstep]
            refine ⟨v, ⟨⟨s, .run j env, t⟩, by simp, r₀, rfl, hr₀, rfl, htasks⟩, ?_⟩
            rw [htasks, AList.lookup_insert]

/-! ## The dispatches of a batch -/

/-- The process `j` is the dispatch that the batch has spawned for the item. -/
def DispatchOf (X : Externals) (ms : List (Move Sys Event)) (s : Sys) (i : Nat) (traceId : String)
    (item : SubmitTaskRequest) (j : Nat) : Prop :=
  ∃ r, s.procs[j]? = some (.dispatch r) ∧ SpawnedFor X ms i traceId item j r.spec

/-- The batch has spawned these processes as the dispatches of the items, in their order. -/
structure Spawned (X : Externals) (ms : List (Move Sys Event)) (s : Sys) (i : Nat)
    (traceId : String) (items : List SubmitTaskRequest) (futures : List Nat) : Prop where
  dispatches : List.Forall₂ (DispatchOf X ms s i traceId) items futures
  distinct : futures.Nodup

/-- How far a batch has come. -/
def BatchProgress (X : Externals) (ms : List (Move Sys Event)) (s : Sys) (i : Nat)
    (b : BatchRun) : Prop :=
  match b.pc with
  | .start => b.taskFutures = []
  | .resolving items =>
      ∃ spawned, b.tasks = spawned ++ items ∧ Spawned X ms s i b.traceId spawned b.taskFutures
  | .returned (.ok ids) =>
      Spawned X ms s i b.traceId b.tasks b.taskFutures ∧
        List.Forall₂ (fun j id => s.result j = some id) b.taskFutures ids
  | .returned (.error _) => 100 < b.tasks.length ∨ ∃ m ∈ ms, ¬ Resolves X i m

theorem Spawned.nil : Spawned X ms s i traceId [] [] := ⟨.nil, List.nodup_nil⟩

theorem Spawned.lt (h : Spawned X ms s i traceId items futures) :
    ∀ j ∈ futures, j < s.procs.length := by
  have hlt : List.Forall₂ (fun j _ => j < s.procs.length ∧ True) futures items :=
    h.dispatches.flip.imp fun j item ⟨_, hr, _⟩ => ⟨(List.getElem?_eq_some_iff.mp hr).1, trivial⟩
  exact ((List.forall₂_and_left _ _).mp hlt).1

theorem Spawned.step (h : Spawned X ms s i traceId items futures) (hs : Sys.Step X s e t) :
    Spawned X (ms ++ [⟨s, e, t⟩]) t i traceId items futures := by
  refine ⟨h.dispatches.imp fun item j hj => ?_, h.distinct⟩
  obtain ⟨r, hr, hspawned⟩ := hj
  obtain ⟨r', hr', hspec⟩ := hs.dispatch_next hr
  exact ⟨r', hr', hspec ▸ hspawned.mono⟩

/-- What a batch has done stays done. -/
theorem BatchProgress.step {b : BatchRun} (h : BatchProgress X ms s i b)
    (hs : Sys.Step X s e t) : BatchProgress X (ms ++ [⟨s, e, t⟩]) t i b := by
  unfold BatchProgress at h ⊢
  split at h
  case h_1 => exact h
  case h_2 =>
    obtain ⟨spawned, htasks, hspawned⟩ := h
    exact ⟨spawned, htasks, hspawned.step hs⟩
  case h_3 => exact ⟨h.1.step hs, h.2.imp fun j id hid => hs.result_next hid⟩
  case h_4 =>
    rcases h with hlen | ⟨m, hm, hres⟩
    · exact Or.inl hlen
    · exact Or.inr ⟨m, List.mem_append_left _ hm, hres⟩

theorem Sys.resolves_eq {b : BatchRun}
    (hb : s.procs[i]? = some (.batch b)) (hpc : b.pc = .resolving (item :: items)) :
    s.resolves X i = (resolveTaskInputs X s.shared.app item).isOk := by
  obtain ⟨traceId, tasks, futures, pc⟩ := b
  cases hpc
  rw [Sys.resolves, hb]

/-- A step of the batch takes it further. -/
theorem BatchProgress.step_self {b b' : BatchRun} {new : Option DispatchRun}
    (h : BatchProgress X ms s i b) (hb : s.procs[i]? = some (.batch b))
    (hstep : BatchRun.Step X env s.shared.app s.result s.procs.length s.fresh b b' new)
    (hs : Sys.Step X s (.run i env) t)
    (ht : t.procs = s.procs.set i (.batch b') ++ (new.map Proc.dispatch).toList) :
    BatchProgress X (ms ++ [⟨s, .run i env, t⟩]) t i b' := by
  cases hstep with
  | empty hpc htasks =>
      simp only [BatchProgress, hpc] at h
      simp only [BatchProgress, htasks, h]
      exact ⟨.nil, .nil⟩
  | tooMany hpc hlen => exact Or.inl hlen
  | begin hpc =>
      simp only [BatchProgress, hpc] at h
      refine ⟨[], rfl, ?_⟩
      rw [h]
      exact .nil
  | reject hpc herr =>
      refine Or.inr ⟨⟨s, .run i env, t⟩, by simp, fun hres => ?_⟩
      have hok := hres rfl
      rw [Sys.resolves_eq hb hpc, herr] at hok
      cases hok
  | @spawn item items input wasmSource hpc hok =>
      simp only [BatchProgress, hpc] at h
      obtain ⟨spawned, htasks, hspawned⟩ := h
      have hnew : t.procs[s.procs.length]? =
          some (.dispatch (.new (item.spec env.uuid b.traceId input wasmSource))) := by
        rw [ht, List.getElem?_append_right (by simp)]
        simp
      have hitem : DispatchOf X (ms ++ [⟨s, .run i env, t⟩]) t i b.traceId item s.procs.length :=
        ⟨_, hnew, ⟨s, .run i env, t⟩, by simp, rfl, .of_resolve hok,
          List.getElem?_eq_none (Nat.le_refl _), hnew⟩
      refine ⟨spawned ++ [item], by simp [htasks], ?_, ?_⟩
      · exact List.rel_append (hspawned.step hs).dispatches (.cons hitem .nil)
      · refine List.nodup_append.mpr ⟨hspawned.distinct, List.nodup_singleton _, ?_⟩
        intro j hj k hk
        rw [List.mem_singleton.mp hk]
        exact Nat.ne_of_lt (hspawned.lt j hj)
  | join hpc hids =>
      simp only [BatchProgress, hpc] at h
      obtain ⟨spawned, htasks, hspawned⟩ := h
      rw [List.append_nil] at htasks
      subst htasks
      exact ⟨hspawned.step hs, (forall₂_of_mapM hids).imp fun j id hid => hs.result_next hid⟩

theorem batchProgress {url strategy : String} {b : BatchRun}
    (h : Run (Sys.step X) (Sys.init url strategy) ms s) (hb : s.procs[i]? = some (.batch b)) :
    BatchProgress X ms s i b := by
  induction h generalizing b with
  | nil => cases hb
  | @snoc ms s t e _ hs ih =>
      have hstep := Sys.step_inv hs
      obtain ⟨-, hold⟩ | ⟨-, -, traceId, tasks, rfl⟩ | ⟨env, b₀, new, rfl, hb₀, hbatch, ht⟩ :=
        hstep.batch_inv hb
      · exact (ih hold).step hstep
      · rfl
      · exact (ih hb₀).step_self hb₀ hbatch hstep (by rw [ht])

/-! ## The answer of a batch -/

/-- The ids of a batch that has returned. -/
theorem Spawned.linedUp {url strategy : String} {b : BatchRun} {ids : List String}
    (h : Run (Sys.step X) (Sys.init url strategy) ms s)
    (hspawned : Spawned X ms s i b.traceId b.tasks b.taskFutures)
    (hids : List.Forall₂ (fun j id => s.result j = some id) b.taskFutures ids) :
    LinedUp X ms s i b ids := by
  constructor
  · refine forall₂_trans ?_ hspawned.dispatches hids
    rintro item j id ⟨r, hr, hfor⟩ hid
    obtain ⟨r', hr', hdone, rfl⟩ := Sys.result_eq_some.mp hid
    rw [hr] at hr'
    cases hr'
    obtain ⟨v, hstores, hlookup⟩ := stores_of_done h hr hdone
    exact ⟨j, r.spec, v, hfor, hstores, rfl, hlookup⟩
  · -- No two processes use one id, so distinct dispatches have distinct ids.
    have hunique : Relator.BiUnique fun j id => s.result j = some id := by
      constructor
      · intro j k id hj hk
        obtain ⟨r, hr, -, hid⟩ := Sys.result_eq_some.mp hj
        obtain ⟨r', hr', -, hid'⟩ := Sys.result_eq_some.mp hk
        exact (Conserved.of_run h).distinct j k _ _ id hr hr' (congrArg some hid)
          (congrArg some hid')
      · intro j id id' hj hk
        rw [hj] at hk
        exact Option.some.inj hk
    exact (List.rel_nodup hunique hids).mp hspawned.distinct

/-- Every step of a batch brings it closer to its end. -/
theorem BatchRun.Step.left_lt {st : AppState} {result : Nat → Option String} {slot : Nat}
    {fresh : String → Bool} {b b' : BatchRun} {new : Option DispatchRun}
    (h : BatchRun.Step X env st result slot fresh b b' new) : b'.left < b.left := by
  cases h with
  | empty hpc => simp [BatchRun.left, hpc]
  | tooMany hpc => simp [BatchRun.left, hpc]
  | begin hpc => simp [BatchRun.left, hpc]
  | reject hpc => simp [BatchRun.left, hpc]
  | spawn hpc => simp [BatchRun.left, hpc]
  | join hpc => simp [BatchRun.left, hpc]

/-- What a batch of at most 100 items that all resolve returns: in every run, whatever the order
in which its dispatches take their steps, a batch that has returned has returned the ids of its
items.  A batch that has not returned comes closer to its end with its next step, which waits for
nothing but, at the end, the dispatches. -/
theorem batch_lined_up {url strategy : String} {b : BatchRun}
    (h : Run (Sys.step X) (Sys.init url strategy) ms s) (hi : s.procs[i]? = some (.batch b))
    (hlen : b.tasks.length ≤ 100) (hres : ∀ m ∈ ms, Resolves X i m) :
    (∀ result, b.pc = .returned result → ∃ ids, result = .ok ids ∧ LinedUp X ms s i b ids) ∧
    ((∀ result, b.pc ≠ .returned result) →
      (b.pc = .resolving [] → ∀ j ∈ b.taskFutures, (s.result j).isSome = true) →
      ∀ env, s.fresh env.uuid = true →
        ∃ t b', s.step X (.run i env) = some t ∧ t.procs[i]? = some (.batch b') ∧
          b'.left < b.left) := by
  constructor
  · intro result hpc
    have hprogress := batchProgress h hi
    cases result with
    | ok ids =>
        simp only [BatchProgress, hpc] at hprogress
        exact ⟨ids, rfl, hprogress.1.linedUp h hprogress.2⟩
    | error err =>
        simp only [BatchProgress, hpc] at hprogress
        rcases hprogress with hmany | ⟨m, hm, hnot⟩
        · exact absurd hmany (Nat.not_lt.mpr hlen)
        · exact absurd (hres m hm) hnot
  · intro hpc hjoin env hfresh
    have hnext : ∃ b' new, b.step X env s.shared.app s.result s.procs.length s.fresh =
        some (b', new) := BatchRun.step_isSome hpc hjoin hfresh
    obtain ⟨b', new, hstep⟩ := hnext
    refine ⟨{ s with procs := s.procs.set i (.batch b') ++ (new.map Proc.dispatch).toList }, b', ?_,
      getElem?_set_append_self hi, (BatchRun.step_inv hstep).left_lt⟩
    simp only [Sys.step, hi, Proc.step, hstep, Option.map_some]

/-- A task that carries its module, and one that names it, with other inputs, functions and
limits. -/
def twoItems : List SubmitTaskRequest :=
  [⟨some "AGFzbQ==", none, none, "f", "Bw==", some 100, none⟩,
   ⟨none, some "m", some "1", "g", "CAk=", none, some 128⟩]

/-- The RPC of a task brings an output, and the dispatch stores it. -/
def outputting (i : Nat) (output : Bytes) : List Event :=
  .run i { rpc := .ok ⟨"", true, output, 1, ""⟩ } :: List.replicate 2 (.run i {})

/-- A module is uploaded, and a batch of two tasks is submitted.  The dispatch of the second ends
first. -/
def reversedBatch : List Event :=
  [.registerNode (.sample "n" "http://n:50051"), .run 0 {}, .uploadModule ⟨"m", "1", "AAAA"⟩,
   .run 1 {}, .run 1 {}, .submitTasksBatch "trace" twoItems,
   .run 2 {}, .run 2 { uuid := "a" }, .run 2 { uuid := "b" }] ++
  List.replicate 4 (.run 3 {}) ++ List.replicate 4 (.run 4 {}) ++
  outputting 4 [4] ++ outputting 3 [3] ++ [.run 2 {}]

/-- The batch that a process runs. -/
def Proc.batch? : Proc → Option BatchRun
  | .batch b => some b
  | _ => none

theorem reversedBatch_lined_up :
    ∃ s b, Run (Sys.step .base64) (Sys.init "" "round_robin")
        (moves (Sys.step .base64) (Sys.init "" "round_robin") reversedBatch) s ∧
      s.procs[2]? = some (.batch b) ∧ b.tasks = twoItems ∧ b.pc = .returned (.ok ["a", "b"]) ∧
      LinedUp .base64 (moves (Sys.step .base64) (Sys.init "" "round_robin") reversedBatch) s 2 b
        ["a", "b"] ∧
      s.shared.app.tasks.lookup "a" = some ⟨"a", "n", true, [3], 1, none⟩ ∧
      s.shared.app.tasks.lookup "b" = some ⟨"b", "n", true, [4], 1, none⟩ := by
  have htest : (exec (Sys.step .base64) (Sys.init "" "round_robin") reversedBatch).any (fun s =>
      s.shared.app.tasks.lookup "a" = some ⟨"a", "n", true, [3], 1, none⟩ ∧
      s.shared.app.tasks.lookup "b" = some ⟨"b", "n", true, [4], 1, none⟩ ∧
      (s.procs[2]?.bind Proc.batch?).any fun b =>
        b.tasks = twoItems ∧ b.pc = .returned (.ok ["a", "b"])) = true := by decide
  obtain ⟨s, h, hs⟩ := exec_any_run htest
  obtain ⟨hfirst, hsecond, hs⟩ := of_decide_eq_true hs
  obtain ⟨b, hb, hs⟩ := (Option.any_eq_true _ _).mp hs
  obtain ⟨p, hp, hpb⟩ := Option.bind_eq_some_iff.mp hb
  obtain ⟨htasks, hpc⟩ := of_decide_eq_true hs
  have hi : s.procs[2]? = some (.batch b) := by
    cases p with
    | batch b' =>
        cases hpb
        exact hp
    | _ => cases hpb
  have hlen : b.tasks.length ≤ 100 := by
    rw [htasks]
    decide
  obtain ⟨ids, hids, hlined⟩ := (batch_lined_up h hi hlen (by decide)).1 _ hpc
  cases hids
  exact ⟨s, b, h, hi, htasks, hpc, hlined, hfirst, hsecond⟩

end FerroEdge.ControlPlane
