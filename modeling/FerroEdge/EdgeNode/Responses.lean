import FerroEdge.EdgeNode.Cancellation
import FerroEdge.EdgeNode.Integrity

/-!
# What an answer of an edge node says

`execute_task` answers with a response or a status.  Each answer has one cause: an execution under
the requested limits, a request without a source, a download that fails or brings other bytes than
the digest asks for, bytes that do not compile, no permit, or the caller that has gone away.

What is executed are the bytes that the request carries or a module that it has `Obtained`: one
compiled from bytes with the requested digest, or whatever the cache had under the name and
version.

`response_explained` finds the cause of every answer in the run of the node: the step at which
the sandbox returned, the download failed, and so on.  `TaskRun.Explained` is what a request knows
at each of its `await`s.
-/

namespace FerroEdge.EdgeNode

open Machine WasmRuntime

/-- The request `k` was at `pc` and took a step with these answers from outside. -/
def Stepped (ms : List (Move GuestSys GuestEvent)) (k : Nat) (req : ExecuteTaskRequest)
    (pc : TaskPc) (env : Env) : Prop :=
  ∃ m ∈ ms, m.ev = .node (.run k env) ∧ m.pre.sys.procs[k]? = some (.task ⟨req, pc⟩)

/-- The request has asked the control plane for the module, and this was the answer. -/
def Downloaded (ms : List (Move GuestSys GuestEvent)) (k : Nat) (req : ExecuteTaskRequest)
    (ref : ModuleRef) (answer : Except String Bytes) : Prop :=
  req.wasmSource = some (.moduleRef ref) ∧
  ∃ env, Stepped ms k req (.download ref) env ∧ env.download ref.name ref.version = answer

/-- How a request has come by the module that it runs. -/
inductive Obtained (X : Externals) (ms : List (Move GuestSys GuestEvent)) (k : Nat)
    (req : ExecuteTaskRequest) (ref : ModuleRef) : Module → Prop where
  /-- The cache had it under the name and version, with whatever digest. -/
  | cached {m : Move GuestSys GuestEvent} {env : Env} {pc : TaskPc} {entry : CachedModule} :
      m ∈ ms → m.ev = .node (.run k env) → m.pre.sys.procs[k]? = some (.task ⟨req, pc⟩) →
      pc.lookup? = some ref → m.pre.sys.node.valid m.pre.sys.now ref = some entry →
      Obtained X ms k req ref entry.module
  /-- The request has downloaded the bytes, checked their digest and compiled them. -/
  | compiled {wasm : Bytes} :
      Downloaded ms k req ref (.ok wasm) → Matches X ref ⟨wasm⟩ → X.compile wasm = .ok () →
      Obtained X ms k req ref ⟨wasm⟩

/-- The sandbox was given `code`, the limits and the input of the request, and has returned
`result` in a step that met `env`. -/
inductive Executed (X : Externals) (ms : List (Move GuestSys GuestEvent)) (k : Nat)
    (req : ExecuteTaskRequest) : Bytes → Env → Except WasmError ExecutionResult → Prop where
  | bytes {code : Bytes} {env : Env} :
      req.wasmSource = some (.wasmBytes code) → Stepped ms k req (.execute code) env →
      Executed X ms k req code env (env.execute code (executionConfig req) req.input)
  | module {ref : ModuleRef} {module : Module} {env : Env} :
      req.wasmSource = some (.moduleRef ref) → Obtained X ms k req ref module →
      Stepped ms k req (.executeCompiled ref module) env →
      Executed X ms k req module.source env
        (env.executeCompiled module (executionConfig req) req.input)

/-- The cause of an answer. -/
inductive Cause (X : Externals) (ms : List (Move GuestSys GuestEvent)) (k : Nat)
    (req : ExecuteTaskRequest) : Except Status ExecuteTaskResponse → Prop where
  | executed {code : Bytes} {env : Env} {result : Except WasmError ExecutionResult} :
      Executed X ms k req code env result →
      Cause X ms k req (.ok (taskResponse req.taskId result))
  | noPermit {env : Env} :
      (∃ m ∈ ms, m.ev = .node (.run k env) ∧
        m.pre.sys.procs[k]? = some (.task ⟨req, .acquire⟩) ∧ m.pre.sys.node.permits = 0) →
      Cause X ms k req
        (.error ⟨.resourceExhausted, "node is at maximum concurrent task capacity"⟩)
  | noSource :
      req.wasmSource = none →
      Cause X ms k req
        (.error ⟨.invalidArgument, "wasm_source must be set (wasm_bytes or module_ref)"⟩)
  | noDownload {ref : ModuleRef} {text : String} :
      Downloaded ms k req ref (.error text) →
      Cause X ms k req (.error ⟨.internal, s!"module download failed: {text}"⟩)
  | mismatch {ref : ModuleRef} {wasm : Bytes} :
      Downloaded ms k req ref (.ok wasm) → ref.hash ≠ "" → X.hexSha256 wasm ≠ ref.hash →
      Cause X ms k req (.error ⟨.dataLoss, "module hash mismatch — possible tampering"⟩)
  | noCompile {ref : ModuleRef} {wasm : Bytes} {text : String} :
      Downloaded ms k req ref (.ok wasm) → X.compile wasm = .error text →
      Cause X ms k req
        (.error ⟨.internal,
          s!"compilation failed: {(WasmError.compilationFailed text).display}"⟩)
  | cancelled :
      (∃ m ∈ ms, m.ev = .cancel k) →
      Cause X ms k req (.error ⟨.cancelled, "request cancelled"⟩)

/-- What a request has returned. -/
def TaskPc.reply? : TaskPc → Option (Except Status ExecuteTaskResponse)
  | .refused status => some (.error status)
  | .returned result => some result
  | _ => none

/-- What the run so far says about a request. -/
def TaskRun.Explained (X : Externals) (ms : List (Move GuestSys GuestEvent)) (k : Nat)
    (r : TaskRun) : Prop :=
  match r.pc with
  | .acquire | .increment => True
  | .execute bytes => r.req.wasmSource = some (.wasmBytes bytes)
  | .getCached ref | .download ref => r.req.wasmSource = some (.moduleRef ref)
  | .getOrCompile ref wasm g =>
      Downloaded ms k r.req ref (.ok wasm) ∧ Matches X ref ⟨wasm⟩ ∧
      (g = .insert → X.compile wasm = .ok ())
  | .stats ref module | .executeCompiled ref module =>
      r.req.wasmSource = some (.moduleRef ref) ∧ Obtained X ms k r.req ref module
  | .fail status => Cause X ms k r.req (.error status)
  | .finish result => ∃ code env, Executed X ms k r.req code env result
  | .refused status => Cause X ms k r.req (.error status)
  | .returned result => Cause X ms k r.req result

variable {X : Externals} {now : Nat} {env : Env} {node node' : Node} {r r' : TaskRun}
  {ms ns : List (Move GuestSys GuestEvent)} {k : Nat} {req : ExecuteTaskRequest}
  {c d : GuestSys} {ev : GuestEvent}

/-! ## The history grows -/

theorem Stepped.mono {pc : TaskPc} (h : Stepped ms k req pc env) :
    Stepped (ms ++ ns) k req pc env := by
  obtain ⟨m, hm, hrest⟩ := h
  exact ⟨m, List.mem_append_left _ hm, hrest⟩

theorem Downloaded.mono {ref : ModuleRef} {answer : Except String Bytes}
    (h : Downloaded ms k req ref answer) : Downloaded (ms ++ ns) k req ref answer := by
  obtain ⟨hsource, env, hstep, hanswer⟩ := h
  exact ⟨hsource, env, hstep.mono, hanswer⟩

theorem Obtained.mono {ref : ModuleRef} {module : Module} (h : Obtained X ms k req ref module) :
    Obtained X (ms ++ ns) k req ref module := by
  cases h with
  | cached hm hev hk hlookup hvalid =>
      exact .cached (List.mem_append_left _ hm) hev hk hlookup hvalid
  | compiled hdown hmatches hcompile => exact .compiled hdown.mono hmatches hcompile

theorem Executed.mono {code : Bytes} {result : Except WasmError ExecutionResult}
    (h : Executed X ms k req code env result) : Executed X (ms ++ ns) k req code env result := by
  cases h with
  | bytes hsource hstep => exact .bytes hsource hstep.mono
  | module hsource hobtained hstep => exact .module hsource hobtained.mono hstep.mono

theorem Cause.mono {result : Except Status ExecuteTaskResponse} (h : Cause X ms k req result) :
    Cause X (ms ++ ns) k req result := by
  cases h with
  | executed hexec => exact .executed hexec.mono
  | noPermit hperm =>
      obtain ⟨m, hm, hrest⟩ := hperm
      exact .noPermit ⟨m, List.mem_append_left _ hm, hrest⟩
  | noSource hsource => exact .noSource hsource
  | noDownload hdown => exact .noDownload hdown.mono
  | mismatch hdown hhash hne => exact .mismatch hdown.mono hhash hne
  | noCompile hdown hcompile => exact .noCompile hdown.mono hcompile
  | cancelled hcancel =>
      obtain ⟨m, hm, hev⟩ := hcancel
      exact .cancelled ⟨m, List.mem_append_left _ hm, hev⟩

theorem TaskRun.Explained.mono (h : r.Explained X ms k) : r.Explained X (ms ++ ns) k := by
  obtain ⟨req, pc⟩ := r
  cases pc with
  | getOrCompile ref wasm g => exact ⟨h.1.mono, h.2⟩
  | stats ref module => exact ⟨h.1, h.2.mono⟩
  | executeCompiled ref module => exact ⟨h.1, h.2.mono⟩
  | finish result =>
      obtain ⟨code, env, hexec⟩ := h
      exact ⟨code, env, hexec.mono⟩
  | fail status => exact Cause.mono h
  | refused status => exact Cause.mono h
  | returned result => exact Cause.mono h
  | _ => exact h

/-! ## One step -/

theorem TaskRun.explained_resolve (req : ExecuteTaskRequest) :
    (TaskRun.mk req (.resolve req)).Explained X ms k := by
  cases hsource : req.wasmSource with
  | none => simpa [Explained, TaskPc.resolve, hsource] using Cause.noSource hsource
  | some source => cases source <;> simp [Explained, TaskPc.resolve, hsource]

theorem TaskRun.explained_downloaded {ref : ModuleRef} {wasm : Bytes}
    (h : Downloaded ms k req ref (.ok wasm)) :
    (TaskRun.mk req (.downloaded X ref wasm)).Explained X ms k := by
  unfold TaskPc.downloaded
  split
  case isTrue hcheck =>
    obtain ⟨hhash, hne⟩ := Bool.and_eq_true_iff.mp hcheck
    refine Cause.mismatch h ?_ ?_
    · simpa using hhash
    · simpa [verifyHash] using hne
  case isFalse hcheck =>
    have hmatches := TaskPc.downloaded_sound (X := X) ref wasm
    rw [TaskPc.downloaded, if_neg hcheck] at hmatches
    exact ⟨h, hmatches, fun hg => by cases hg⟩

/-- A step of a request keeps it explained. -/
theorem TaskRun.Explained.step {t : GuestSys} (h : r.Explained X ms k)
    (hk : c.sys.procs[k]? = some (.task r))
    (hstep : r.step X c.sys.now env c.sys.node = some (node', r')) :
    r'.Explained X (ms ++ [⟨c, .node (.run k env), t⟩]) k := by
  obtain ⟨req, pc⟩ := r
  have hnow : Stepped (ms ++ [⟨c, .node (.run k env), t⟩]) k req pc env :=
    ⟨_, List.mem_concat_self, rfl, hk⟩
  have hlookup : ∀ {ref : ModuleRef} {entry : CachedModule}, pc.lookup? = some ref →
      c.sys.node.valid c.sys.now ref = some entry →
      Obtained X (ms ++ [⟨c, .node (.run k env), t⟩]) k req ref entry.module := fun hl hv =>
    .cached (List.mem_concat_self) rfl hk hl hv
  replace h : (TaskRun.mk req pc).Explained X (ms ++ [⟨c, .node (.run k env), t⟩]) k := h.mono
  unfold TaskRun.step at hstep
  cases pc with
  | acquire =>
      dsimp only at hstep
      split at hstep
      case isTrue hzero =>
        cases hstep
        exact Cause.noPermit
          ⟨_, List.mem_concat_self, rfl, hk, hzero⟩
      case isFalse =>
        cases hstep
        trivial
  | increment =>
      cases hstep
      exact explained_resolve req
  | execute bytes =>
      cases hstep
      exact ⟨bytes, env, .bytes h hnow⟩
  | getCached ref =>
      simp only [CacheInner.getCached_fst] at hstep
      cases hvalid : c.sys.node.moduleCache.valid c.sys.node.cacheTtl c.sys.now
          (cacheKey ref.name ref.version) with
      | none =>
          rw [hvalid] at hstep
          cases hstep
          exact h
      | some entry =>
          rw [hvalid] at hstep
          cases hstep
          exact ⟨h, hlookup rfl hvalid⟩
  | download ref =>
      dsimp only at hstep
      split at hstep
      case h_1 text hdown =>
        cases hstep
        exact Cause.noDownload ⟨h, env, hnow, hdown⟩
      case h_2 wasm hdown =>
        cases hstep
        exact explained_downloaded ⟨h, env, hnow, hdown⟩
  | getOrCompile ref wasm g =>
      dsimp only at hstep
      split at hstep
      case h_1 hg =>
        cases hstep
        exact ⟨h.1, h.2.1, fun hinsert => GetOrCompile.step_insert (hinsert ▸ hg)⟩
      case h_2 e hg =>
        cases hstep
        cases g with
        | compile =>
            cases hc : X.compile wasm with
            | error text =>
                simp only [GetOrCompile.step, hc] at hg
                cases hg
                exact Cause.noCompile h.1 hc
            | ok =>
                simp only [GetOrCompile.step, hc] at hg
                cases hg
        | _ =>
            have hcompile := (GetOrCompile.step_error hg).1
            cases hcompile
      case h_3 hg =>
        cases hstep
        refine ⟨h.1.1, ?_⟩
        obtain ⟨rfl, entry, hvalid, rfl⟩ | ⟨rfl, rfl⟩ := GetOrCompile.step_ok hg
        · exact hlookup rfl hvalid
        · exact .compiled h.1 h.2.1 (h.2.2 rfl)
  | stats ref module =>
      cases hstep
      exact h
  | executeCompiled ref module =>
      cases hstep
      exact ⟨module.source, env, .module h.1 h.2 hnow⟩
  | fail status =>
      cases hstep
      exact h
  | finish result =>
      cases hstep
      obtain ⟨code, env', hexec⟩ := h
      exact Cause.executed hexec
  | refused status => cases hstep
  | returned result => cases hstep

theorem TaskRun.Explained.cancel (hcancel : r.cancel node = some (node', r'))
    (hev : ∃ m ∈ ms, m.ev = .cancel k) : r'.Explained X ms k := by
  cases TaskRun.cancel_inv hcancel with
  | waiting | holding => exact Cause.cancelled hev

theorem TaskRun.step_req (h : r.step X now env node = some (node', r')) : r'.req = r.req := by
  cases TaskRun.step_inv h <;> rfl

theorem TaskRun.cancel_req (h : r.cancel node = some (node', r')) : r'.req = r.req := by
  cases TaskRun.cancel_inv h <;> rfl

/-! ## Runs -/

/-- A request after a step is new, was there before, has taken the step or is cancelled in it. -/
theorem GuestSys.Step.task_inv (h : GuestSys.Step X c ev d)
    (hk : d.sys.procs[k]? = some (.task r')) :
    c.sys.procs[k]? = some (.task r') ∨ r'.pc = .acquire ∨
    (∃ env r, ev = .node (.run k env) ∧ c.sys.procs[k]? = some (.task r) ∧
      r.step X c.sys.now env c.sys.node = some (d.sys.node, r')) ∨
    ∃ r, ev = .cancel k ∧ c.sys.procs[k]? = some (.task r) ∧
      r.cancel c.sys.node = some (d.sys.node, r') := by
  cases h with
  | quiet _ hprocs =>
      rw [hprocs] at hk
      exact Or.inl hk
  | @start e p _ he _ hprocs =>
      rw [hprocs] at hk
      obtain ⟨-, heq⟩ | ⟨-, hold⟩ := getElem?_snoc_inv hk
      · subst heq
        cases e <;> cases he
        exact Or.inr (Or.inl rfl)
      · exact Or.inl hold
  | task hi hrun hprocs =>
      rw [hprocs] at hk
      obtain ⟨rfl, heq⟩ | ⟨-, hold⟩ := getElem?_set_inv hk
      · cases heq
        exact Or.inr (Or.inr (Or.inl ⟨_, _, rfl, hi, hrun⟩))
      · exact Or.inl hold
  | warm hi hrun hprocs =>
      rw [hprocs] at hk
      obtain ⟨-, heq⟩ | ⟨-, hold⟩ := getElem?_set_inv hk
      · cases heq
      · exact Or.inl hold
  | cancel hi hrun hprocs =>
      rw [hprocs] at hk
      obtain ⟨rfl, heq⟩ | ⟨-, hold⟩ := getElem?_set_inv hk
      · cases heq
        exact Or.inr (Or.inr (Or.inr ⟨_, rfl, hi, hrun⟩))
      · exact Or.inl hold

/-- A request stays the same request. -/
theorem GuestSys.Step.task_next (h : GuestSys.Step X c ev d)
    (hk : c.sys.procs[k]? = some (.task r)) :
    ∃ r', d.sys.procs[k]? = some (.task r') ∧ r'.req = r.req := by
  have hlt : k < c.sys.procs.length := (List.getElem?_eq_some_iff.mp hk).1
  have hset : ∀ {i : Nat} {r₀ r₁ : TaskRun}, c.sys.procs[i]? = some (.task r₀) →
      r₁.req = r₀.req → d.sys.procs = c.sys.procs.set i (.task r₁) →
      ∃ r', d.sys.procs[k]? = some (.task r') ∧ r'.req = r.req := by
    intro i r₀ r₁ hi hreq hprocs
    rw [hprocs]
    by_cases hik : i = k
    · subst hik
      rw [hk] at hi
      cases hi
      exact ⟨r₁, getElem?_set_self hk, hreq⟩
    · exact ⟨r, by rwa [List.getElem?_set_ne hik], rfl⟩
  cases h with
  | quiet _ hprocs => exact ⟨r, by rwa [hprocs], rfl⟩
  | start _ _ hprocs => exact ⟨r, by rwa [hprocs, List.getElem?_append_left hlt], rfl⟩
  | task hi hrun hprocs => exact hset hi (TaskRun.step_req hrun) hprocs
  | @warm i env w w' _ hi _ hprocs =>
      have hik : i ≠ k := by
        rintro rfl
        rw [hk] at hi
        cases hi
      exact ⟨r, by rwa [hprocs, List.getElem?_set_ne hik], rfl⟩
  | cancel hi hrun hprocs => exact hset hi (TaskRun.cancel_req hrun) hprocs

/-- Where no request reaches the node, every request was there before. -/
theorem GuestSys.Step.task_prev (h : GuestSys.Step X c ev d)
    (hint : ∀ e p, ev = .node e → e.starts ≠ some p) (hk : d.sys.procs[k]? = some (.task r')) :
    ∃ r, c.sys.procs[k]? = some (.task r) ∧ r'.req = r.req := by
  cases h with
  | quiet _ hprocs => exact ⟨r', by rwa [← hprocs], rfl⟩
  | start he => exact absurd he (hint _ _ rfl)
  | task hi hrun hprocs =>
      rw [hprocs] at hk
      obtain ⟨rfl, heq⟩ | ⟨-, hold⟩ := getElem?_set_inv hk
      · cases heq
        exact ⟨_, hi, TaskRun.step_req hrun⟩
      · exact ⟨r', hold, rfl⟩
  | warm hi _ hprocs =>
      rw [hprocs] at hk
      obtain ⟨-, heq⟩ | ⟨-, hold⟩ := getElem?_set_inv hk
      · cases heq
      · exact ⟨r', hold, rfl⟩
  | cancel hi hcancel hprocs =>
      rw [hprocs] at hk
      obtain ⟨rfl, heq⟩ | ⟨-, hold⟩ := getElem?_set_inv hk
      · cases heq
        exact ⟨_, hi, TaskRun.cancel_req hcancel⟩
      · exact ⟨r', hold, rfl⟩

theorem explained {nodeId : String} {maxTasks cacheMaxSize cacheTtl : Nat}
    (h : Run (GuestSys.step X) (.init nodeId maxTasks cacheMaxSize cacheTtl) ms c)
    (hk : c.sys.procs[k]? = some (.task r)) : r.Explained X ms k := by
  induction h generalizing r with
  | nil => cases hk
  | @snoc ms c d ev _ hs ih =>
      obtain hold | hpc | ⟨env, r₀, rfl, hr₀, hrun⟩ | ⟨r₀, rfl, -, hcancel⟩ :=
        (GuestSys.step_inv hs).task_inv hk
      · exact (ih hold).mono
      · rw [TaskRun.Explained, hpc]
        trivial
      · exact (ih hr₀).step hr₀ hrun
      · exact .cancel hcancel ⟨_, List.mem_concat_self, rfl⟩

/-- In every run of an edge node, with requests cancelled at any of their `await`s: whatever a
request has answered has its cause in the run. -/
theorem response_explained {nodeId : String} {maxTasks cacheMaxSize cacheTtl : Nat}
    {result : Except Status ExecuteTaskResponse}
    (h : Run (GuestSys.step X) (.init nodeId maxTasks cacheMaxSize cacheTtl) ms c)
    (hk : c.sys.procs[k]? = some (.task r)) (hreply : r.pc.reply? = some result) :
    Cause X ms k r.req result := by
  have hexp := explained h hk
  unfold TaskPc.reply? at hreply
  split at hreply
  case h_1 hpc =>
    cases hreply
    rw [TaskRun.Explained, hpc] at hexp
    exact hexp
  case h_2 hpc =>
    cases hreply
    rw [TaskRun.Explained, hpc] at hexp
    exact hexp
  case h_3 => cases hreply

/-- What the process `k` has answered, if it is a request that has. -/
def GuestSys.reply? (c : GuestSys) (k : Nat) : Option (Except Status ExecuteTaskResponse) :=
  match c.sys.procs[k]? with
  | some (.task r) => r.pc.reply?
  | _ => none

theorem GuestSys.reply_inv {result : Except Status ExecuteTaskResponse}
    (h : c.reply? k = some result) :
    ∃ r, c.sys.procs[k]? = some (.task r) ∧ r.pc.reply? = some result := by
  unfold GuestSys.reply? at h
  split at h
  case h_1 r hk => exact ⟨r, hk, h⟩
  case h_2 => cases h

/-- A request is served, and one that comes when the only permit is taken is not. -/
def servedAndRefused : List GuestEvent :=
  executing 0 ++
  [.node (.executeTask (.sample (.wasmBytes []))), .node (.run 1 {}), .finish 0,
   .node (.run 0 { execute := fun _ _ _ => .ok ⟨[7], 3, 0⟩ }), .node (.run 0 {})]

theorem servedAndRefused_explained :
    ∃ c ms r r', Run (GuestSys.step .sample) (.init "n" 1 1 1) ms c ∧
      c.sys.procs[0]? = some (.task r) ∧ Cause .sample ms 0 r.req (.ok ⟨"t", true, [7], 3, ""⟩) ∧
      c.sys.procs[1]? = some (.task r') ∧ Cause .sample ms 1 r'.req
        (.error ⟨.resourceExhausted, "node is at maximum concurrent task capacity"⟩) := by
  have htest : (exec (GuestSys.step .sample) (.init "n" 1 1 1) servedAndRefused).any (fun c =>
      c.reply? 0 = some (.ok ⟨"t", true, [7], 3, ""⟩) ∧ c.reply? 1 = some
        (.error ⟨.resourceExhausted, "node is at maximum concurrent task capacity"⟩)) = true := by
    decide
  obtain ⟨c, h, hc⟩ := exec_any_run htest
  obtain ⟨hserved, hrefused⟩ := of_decide_eq_true hc
  obtain ⟨r, hr, hreply⟩ := GuestSys.reply_inv hserved
  obtain ⟨r', hr', hreply'⟩ := GuestSys.reply_inv hrefused
  exact ⟨c, _, r, r', h, hr, response_explained h hr hreply, hr', response_explained h hr' hreply'⟩

end FerroEdge.EdgeNode
