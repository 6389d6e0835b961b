import FerroEdge.ControlPlane.System

/-!
# Where the tasks of the dispatches come from

A dispatch is started by `submit_task`, or spawned by a batch for one of its items.  Either way
its arguments are computed from a request of a client: the inputs are resolved in a state of the
control plane, and the rest is copied from the request, with the defaults filled in.

`requested` says so for every dispatch of every run.  The invariant follows each process back to
the request that started it.
-/

namespace FerroEdge.ControlPlane

open Machine

/-- A client has asked for the task, in a request of its own or in a batch: the task has the inputs
and the limits of the request, with its module as the registry had it at some point of the run. -/
def Requested (X : Externals) (ms : List (Move Sys Event)) (spec : TaskSpec) : Prop :=
  ∃ body traceId,
    (∃ m ∈ ms, m.ev = .submitTask spec.taskId traceId body ∨
      ∃ tasks, m.ev = .submitTasksBatch traceId tasks ∧ body ∈ tasks) ∧
    ∃ m ∈ ms, TaskOf X m.pre.shared.app traceId body spec

/-- The request that has started a process is in the run. -/
def Proc.Traced (X : Externals) (ms : List (Move Sys Event)) : Proc → Prop
  | .dispatch r => Requested X ms r.spec
  | .submit taskId traceId body => ∃ m ∈ ms, m.ev = .submitTask taskId traceId body
  | .batch b =>
      (∃ m ∈ ms, m.ev = .submitTasksBatch b.traceId b.tasks) ∧
      ∀ items, b.pc = .resolving items → items ⊆ b.tasks
  | _ => True

variable {X : Externals} {env : Env} {s t : Sys} {e : Event} {ms ns : List (Move Sys Event)}
  {spec : TaskSpec}

theorem Requested.mono (h : Requested X ms spec) : Requested X (ms ++ ns) spec := by
  obtain ⟨body, traceId, ⟨m, hm, hev⟩, m', hm', hres⟩ := h
  exact ⟨body, traceId, ⟨m, List.mem_append_left _ hm, hev⟩, m', List.mem_append_left _ hm', hres⟩

theorem Proc.Traced.mono {p : Proc} (h : p.Traced X ms) : p.Traced X (ms ++ ns) := by
  cases p with
  | dispatch r => exact Requested.mono h
  | submit taskId traceId body =>
      obtain ⟨m, hm, hev⟩ := h
      exact ⟨m, List.mem_append_left _ hm, hev⟩
  | batch b =>
      obtain ⟨⟨m, hm, hev⟩, hitems⟩ := h
      exact ⟨⟨m, List.mem_append_left _ hm, hev⟩, hitems⟩
  | _ => trivial

theorem traced_start {p : Proc} (he : e.starts = some p) :
    p.Traced X (ms ++ [⟨s, e, t⟩]) := by
  cases e with
  | submitTask taskId traceId body =>
      cases he
      exact ⟨_, List.mem_concat_self, rfl⟩
  | submitTasksBatch traceId tasks =>
      cases he
      exact ⟨⟨_, List.mem_concat_self, rfl⟩,
        fun _ hpc => by cases hpc⟩
  | _ => cases he <;> trivial

/-- A step of a batch keeps to its items, and the dispatch it spawns is for one of them. -/
theorem traced_batch {b b' : BatchRun} {new : Option DispatchRun} {i : Nat}
    (hb : (Proc.batch b).Traced X ms)
    (h : BatchRun.Step X env s.shared.app s.result s.procs.length s.fresh b b' new) :
    (Proc.batch b').Traced X (ms ++ [⟨s, .run i env, t⟩]) ∧
    ∀ r, new = some r → Requested X (ms ++ [⟨s, .run i env, t⟩]) r.spec := by
  have hnow : (Proc.batch b).Traced X (ms ++ [⟨s, .run i env, t⟩]) := hb.mono
  obtain ⟨hreceived, hitems⟩ := hnow
  cases h with
  | empty => exact ⟨⟨hreceived, fun _ hpc => (by cases hpc)⟩, fun _ hr => by cases hr⟩
  | tooMany => exact ⟨⟨hreceived, fun _ hpc => (by cases hpc)⟩, fun _ hr => by cases hr⟩
  | begin =>
      refine ⟨⟨hreceived, fun items hpc => ?_⟩, fun _ hr => by cases hr⟩
      cases hpc
      exact fun _ hitem => hitem
  | reject => exact ⟨⟨hreceived, fun _ hpc => (by cases hpc)⟩, fun _ hr => by cases hr⟩
  | @spawn item items input wasmSource hpc hok =>
      have htasks := hitems _ hpc
      refine ⟨⟨hreceived, fun items' hpc' => ?_⟩, fun r hr => ?_⟩
      · cases hpc'
        exact fun _ hitem => htasks (List.mem_cons_of_mem _ hitem)
      · cases hr
        obtain ⟨m, hm, hev⟩ := hreceived
        exact ⟨item, b.traceId, ⟨m, hm, Or.inr ⟨_, hev, htasks List.mem_cons_self⟩⟩, _,
          List.mem_concat_self, .of_resolve hok⟩
  | join => exact ⟨⟨hreceived, fun _ hpc => (by cases hpc)⟩, fun _ hr => by cases hr⟩

/-- A process that takes a step still has its request, and so has the dispatch that it spawns. -/
theorem traced_step {p p' : Proc} {sh : Shared} {new : Option DispatchRun} {i : Nat}
    (hp : p.Traced X ms) (h : p.step X env s = some (sh, p', new)) :
    p'.Traced X (ms ++ [⟨s, .run i env, t⟩]) ∧
    ∀ r, new = some r → Requested X (ms ++ [⟨s, .run i env, t⟩]) r.spec := by
  cases Proc.step_inv h with
  | dispatch hr =>
      refine ⟨?_, fun _ hnew => by cases hnew⟩
      rw [Proc.Traced, DispatchRun.step_spec hr]
      exact Requested.mono hp
  | @accept taskId traceId body input wasmSource hres =>
      obtain ⟨m, hm, hev⟩ := hp
      refine ⟨⟨body, traceId, ⟨m, List.mem_append_left _ hm, Or.inl hev⟩, _,
        List.mem_concat_self, .of_resolve hres⟩,
        fun _ hnew => by cases hnew⟩
  | batch hb => exact traced_batch hp (BatchRun.step_inv hb)
  | _ => exact ⟨trivial, fun _ hnew => by cases hnew⟩

theorem Sys.Step.traced (h : Sys.Step X s e t) (hs : ∀ p ∈ s.procs, p.Traced X ms) :
    ∀ p ∈ t.procs, p.Traced X (ms ++ [⟨s, e, t⟩]) := by
  have hold : ∀ p ∈ s.procs, p.Traced X (ms ++ [⟨s, e, t⟩]) := fun p hp => (hs p hp).mono
  intro p hp
  cases h with
  | start he =>
      obtain hp | hp := List.mem_append.mp hp
      · exact hold p hp
      · rw [List.mem_singleton.mp hp]
        exact traced_start he
  | tick => exact hold p hp
  | rehash => exact hold p hp
  | dispatch hi hrun =>
      obtain hp | rfl := List.mem_or_eq_of_mem_set hp
      · exact hold p hp
      · have hr := hold _ (List.mem_of_getElem? hi)
        rw [Proc.Traced] at hr ⊢
        rwa [DispatchRun.step_spec hrun]
  | @other i env q q' sh new hi _ hrun =>
      obtain ⟨hq, hnew⟩ := traced_step (t := { s with
        shared := sh, procs := s.procs.set i q' ++ (new.map Proc.dispatch).toList })
        (i := i) (hs q (List.mem_of_getElem? hi)) hrun
      obtain hp | hp := List.mem_append.mp hp
      · obtain hp | rfl := List.mem_or_eq_of_mem_set hp
        · exact hold p hp
        · exact hq
      · cases new with
        | none => cases hp
        | some r =>
            rw [List.mem_singleton.mp hp]
            exact hnew r rfl

/-- Every dispatch runs a task that a client has asked for. -/
theorem requested {url strategy : String} {i : Nat} {r : DispatchRun}
    (h : Run (Sys.step X) (Sys.init url strategy) ms s)
    (hi : s.procs[i]? = some (.dispatch r)) : Requested X ms r.spec := by
  have htraced : ∀ p ∈ s.procs, p.Traced X ms := by
    clear hi
    induction h with
    | nil => exact fun p hp => by cases hp
    | snoc _ hs ih => exact (Sys.step_inv hs).traced ih
  exact htraced _ (List.mem_of_getElem? hi)

end FerroEdge.ControlPlane
