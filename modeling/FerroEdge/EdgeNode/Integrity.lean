import FerroEdge.EdgeNode.System

/-!
# Module integrity on the edge

A task names a module by name, version and digest.  The edge checks the digest of the bytes
it downloads, but the cache is keyed by name and version alone, and neither `get_cached` nor
the fast path of `get_or_compile` compares digests.  Whatever `/cache/warm` or another task
has put under the key is run.

`verified_iff_lookupAgrees` says that these two lookups are the only way in: the modules of a
run all have the digests that their tasks ask for exactly if every lookup of the run that
finds an entry finds one with the digest it is for.  `lookupAgrees_of_pinned` gives a
condition on the requests alone under which that is so.
-/

namespace FerroEdge.EdgeNode

open Machine WasmRuntime

/-- The module was compiled from bytes with the digest of the reference, if it has one. -/
def Matches (X : Externals) (ref : ModuleRef) (module : Module) : Prop :=
  ref.hash ≠ "" → X.hexSha256 module.source = ref.hash

instance (X : Externals) (ref : ModuleRef) (module : Module) : Decidable (Matches X ref module) :=
  inferInstanceAs (Decidable (_ → _))

/-- The module that a request is going to pass to `execute_compiled`.  Once it has one, only
the size gauge is updated before that. -/
def TaskPc.chosen? : TaskPc → Option (ModuleRef × Module)
  | .stats ref module | .executeCompiled ref module => some (ref, module)
  | _ => none

/-- The reference that the next step of a request looks up in the cache. -/
def TaskPc.lookup? : TaskPc → Option ModuleRef
  | .getCached ref | .getOrCompile ref _ .lookup => some ref
  | _ => none

/-- Every request for a module with a digest runs one with that digest. -/
def Verified (X : Externals) (s : Sys) : Prop :=
  ∀ (i : Nat) (r : TaskRun) (ref : ModuleRef) (module : Module),
    s.procs[i]? = some (.task r) → r.pc.chosen? = some (ref, module) → Matches X ref module

/-- The reference that a task looks up in a step. -/
def Sys.lookup? (s : Sys) : Event → Option ModuleRef
  | .run i _ =>
      match s.procs[i]? with
      | some (.task r) => r.pc.lookup?
      | _ => none
  | _ => none

/-- If the move is a lookup and there is an entry that has not expired, the entry has the
digest of the reference. -/
def LookupAgrees (X : Externals) (m : Move Sys Event) : Prop :=
  ∀ ref ∈ m.pre.lookup? m.ev, ∀ entry ∈ m.pre.node.valid m.pre.now ref, Matches X ref entry.module

instance (X : Externals) (m : Move Sys Event) : Decidable (LookupAgrees X m) :=
  inferInstanceAs (Decidable (∀ ref ∈ _, ∀ entry ∈ _, _))

variable {X : Externals} {now : Nat} {env : Env} {node node' : Node} {r r' : TaskRun}
  {s t : Sys} {e : Event} {i : Nat}

/-! ## The bytes that a request holds -/

/-- The bytes that a request has downloaded and the module that it is going to run have the
digest of its reference. -/
def TaskPc.Sound (X : Externals) : TaskPc → Prop
  | .getOrCompile ref wasm _ => Matches X ref ⟨wasm⟩
  | .stats ref module | .executeCompiled ref module => Matches X ref module
  | _ => True

def Proc.Sound (X : Externals) : Proc → Prop
  | .task r => r.pc.Sound X
  | .warm _ => True

def Sys.Sound (X : Externals) (s : Sys) : Prop :=
  ∀ (i : Nat) (p : Proc), s.procs[i]? = some p → p.Sound X

theorem TaskPc.resolve_sound (req : ExecuteTaskRequest) : (TaskPc.resolve req).Sound X := by
  unfold TaskPc.resolve
  split <;> trivial

theorem TaskPc.downloaded_sound (ref : ModuleRef) (wasm : Bytes) :
    (TaskPc.downloaded X ref wasm).Sound X := by
  unfold TaskPc.downloaded
  split
  case isTrue => trivial
  case isFalse hcheck =>
    intro hne
    by_contra hmismatch
    simp [verifyHash, hne, hmismatch] at hcheck

theorem TaskRun.Step.sound (h : TaskRun.Step X now env node r node' r') (hs : r.pc.Sound X)
    (hagrees : ∀ ref entry, r.pc.lookup? = some ref → node.valid now ref = some entry →
      Matches X ref entry.module) : r'.pc.Sound X := by
  cases h with
  | increment hpc => exact TaskPc.resolve_sound r.req
  | hit hpc hv => exact hagrees _ _ (by rw [hpc]; rfl) hv
  | downloaded hpc hd => exact TaskPc.downloaded_sound _ _
  | compiling hpc hg =>
      rw [hpc] at hs
      exact hs
  | compiled hpc hg =>
      -- Another request may have filled the cache since the miss, or the bytes just checked
      -- were compiled.
      obtain ⟨rfl, entry, hv, rfl⟩ | ⟨rfl, rfl⟩ := GetOrCompile.step_ok (congrArg Prod.snd hg)
      · exact hagrees _ _ (by rw [hpc]; rfl) hv
      · rw [hpc] at hs
        exact hs
  | stats hpc =>
      rw [hpc] at hs
      exact hs
  | _ => trivial

/-- A lookup that finds an entry hands it to the request. -/
theorem TaskRun.chosen_of_valid {ref : ModuleRef} {entry : CachedModule}
    (h : r.step X now env node = some (node', r')) (hl : r.pc.lookup? = some ref)
    (hv : node.valid now ref = some entry) : r'.pc.chosen? = some (ref, entry.module) := by
  rw [Node.valid] at hv
  unfold TaskPc.lookup? at hl
  split at hl
  case h_1 hpc =>
    cases hl
    simp only [TaskRun.step, hpc, CacheInner.getCached_fst, hv] at h
    cases h
    rfl
  case h_2 hpc =>
    cases hl
    simp only [TaskRun.step, hpc, GetOrCompile.step_lookup hv] at h
    cases h
    rfl
  case h_3 => cases hl

/-! ## Runs -/

theorem Sys.Sound.step (hs : s.Sound X) (hagrees : LookupAgrees X ⟨s, e, t⟩)
    (h : s.step X e = some t) : t.Sound X := by
  refine (Sys.step_inv h).forall_procs hs ?_ ?_ ?_
  · intro p he
    cases e <;> cases he <;> trivial
  · intro i env r r' node he hi hstep
    subst he
    have hlookup : s.lookup? (.run i env) = r.pc.lookup? := by simp only [Sys.lookup?, hi]
    refine hstep.sound (hs i _ hi) ?_
    intro ref entry hl hv
    exact hagrees ref (hlookup.trans hl) entry hv
  · intro w w' node _ _
    trivial

theorem Sys.Sound.verified (hs : s.Sound X) : Verified X s := by
  intro i r ref module hi hc
  have hsound : r.pc.Sound X := hs i _ hi
  unfold TaskPc.chosen? at hc
  split at hc
  case h_1 hpc =>
    cases hc
    rw [hpc] at hsound
    exact hsound
  case h_2 hpc =>
    cases hc
    rw [hpc] at hsound
    exact hsound
  case h_3 => cases hc

theorem lookupAgrees_of_verified (h : s.step X e = some t) (hv : Verified X t) :
    LookupAgrees X ⟨s, e, t⟩ := by
  intro ref hl entry hentry
  cases Sys.step_inv h with
  | start he => cases e <;> cases he <;> cases hl
  | tick => cases hl
  | @task i env r r' node hi hrun =>
      have hlookup : r.pc.lookup? = some ref := by simpa [Sys.lookup?, hi] using hl
      have hchosen := TaskRun.chosen_of_valid hrun hlookup hentry
      exact hv i r' ref entry.module (getElem?_set_self hi) hchosen
  | warm hi => simp [Sys.lookup?, hi] at hl

variable {nodeId : String} {maxConcurrentTasks cacheMaxSize cacheTtl : Nat}
  {ms : List (Move Sys Event)}

/-- The modules of a run have the digests that their tasks ask for exactly if the lookups of
the run find no entry with another digest. -/
theorem verified_iff_lookupAgrees
    (h : Run (Sys.step X) (Sys.init nodeId maxConcurrentTasks cacheMaxSize cacheTtl) ms s) :
    (∀ m ∈ ms, Verified X m.post) ↔ ∀ m ∈ ms, LookupAgrees X m := by
  constructor
  · intro hverified m hm
    exact lookupAgrees_of_verified (h.step_of_mem hm) (hverified m hm)
  · intro hagrees m hm
    have hinit : (Sys.init nodeId maxConcurrentTasks cacheMaxSize cacheTtl).Sound X := by
      intro i p hp
      cases hp
    have hsound := h.invariant_mem (I := Sys.Sound X) (C := LookupAgrees X) hinit
      (fun s e t hs hag hstep => hs.step hag hstep) hagrees
    exact (hsound m hm).2.verified

/-- `/cache/warm` puts the empty bytes under `m:1`, and a task runs the module `m:1` with a
digest from the cache. -/
def warmThenRun (hash : String) : List Event :=
  [.warmCache ⟨"m", "1", ""⟩, .run 0 {}, .run 0 {}, .run 0 {}, .run 0 {}, .run 0 {},
    .executeTask (.sample (.moduleRef ⟨"m", "1", hash, ""⟩)), .run 1 {}, .run 1 {}, .run 1 {}]

/-- With the digest of the empty bytes, the task runs the module it asks for. -/
theorem warmedModule_verified :
    (∃ s, Run (Sys.step .sample) (Sys.init "n" 1 1 60)
        (moves (Sys.step .sample) (Sys.init "n" 1 1 60) (warmThenRun "e3b0")) s) ∧
      ∀ m ∈ moves (Sys.step .sample) (Sys.init "n" 1 1 60) (warmThenRun "e3b0"),
        Verified .sample m.post := by
  have htest : (exec (Sys.step .sample) (Sys.init "n" 1 1 60) (warmThenRun "e3b0")).any
      (fun _ => true) = true := by decide
  obtain ⟨s, h, -⟩ := exec_any_run htest
  exact ⟨⟨s, h⟩, (verified_iff_lookupAgrees h).mpr (by decide)⟩

/-- With another digest it is about to pass the same module to `execute_compiled`. -/
theorem otherModule_run :
    ∃ s, Run (Sys.step .sample) (Sys.init "n" 1 1 60)
        (moves (Sys.step .sample) (Sys.init "n" 1 1 60) (warmThenRun "ffff")) s ∧
      (∃ r, s.procs[1]? = some (.task r) ∧
        r.pc = .executeCompiled ⟨"m", "1", "ffff", ""⟩ ⟨[]⟩) ∧
      ¬ Verified .sample s := by
  have htest : (exec (Sys.step .sample) (Sys.init "n" 1 1 60) (warmThenRun "ffff")).any
      (fun s : Sys => match s.procs[1]? with
        | some (Proc.task r) => decide (r.pc = .executeCompiled ⟨"m", "1", "ffff", ""⟩ ⟨[]⟩)
        | _ => false) = true := by decide
  obtain ⟨s, h, hs⟩ := exec_any_run htest
  split at hs
  case h_1 r hr =>
    have hpc : r.pc = .executeCompiled ⟨"m", "1", "ffff", ""⟩ ⟨[]⟩ := of_decide_eq_true hs
    refine ⟨s, h, ⟨r, hr, hpc⟩, fun hverified => ?_⟩
    have hmatches := hverified 1 r _ _ hr (congrArg TaskPc.chosen? hpc)
    exact absurd hmatches (by decide)
  case h_2 => cases hs

/-! ## Requests that agree on the digests

If the tasks and the `/cache/warm` requests agree on one digest for each key, no lookup finds
an entry with another digest.  The key of a module joins its name and version by a colon, so
two modules may share one. -/

variable {digest : String → String}

/-- The module has the digest of the key, if there is one. -/
def Pins (X : Externals) (digest : String → String) (key : String) (module : Module) : Prop :=
  digest key ≠ "" → X.hexSha256 module.source = digest key

/-- A task asks for the digest of its key, and a `/cache/warm` request brings bytes with it. -/
def Event.Pinned (X : Externals) (digest : String → String) : Event → Prop
  | .executeTask req => ∀ ref, req.wasmSource = some (.moduleRef ref) →
      ref.hash = digest (cacheKey ref.name ref.version)
  | .warmCache body => ∀ wasm, X.b64Decode body.wasmBytesBase64 = .ok wasm →
      Pins X digest (cacheKey body.name body.version) ⟨wasm⟩
  | .tick _ | .run _ _ => True

def TaskPc.Pinned (X : Externals) (digest : String → String) : TaskPc → Prop
  | .getCached ref | .download ref => ref.hash = digest (cacheKey ref.name ref.version)
  | .getOrCompile ref wasm _ =>
      ref.hash = digest (cacheKey ref.name ref.version) ∧ Matches X ref ⟨wasm⟩
  | _ => True

def Proc.Pinned (X : Externals) (digest : String → String) : Proc → Prop
  | .task r => r.pc.Pinned X digest ∧ ∀ ref, r.req.wasmSource = some (.moduleRef ref) →
      ref.hash = digest (cacheKey ref.name ref.version)
  | .warm (.decode body) => Event.Pinned X digest (.warmCache body)
  | .warm (.getOrCompile key wasm _) => Pins X digest key ⟨wasm⟩
  | .warm _ => True

/-- What the requests agree on holds of the cache and of every process. -/
structure Sys.Pinned (X : Externals) (digest : String → String) (s : Sys) : Prop where
  cache : s.node.moduleCache.All (Pins X digest)
  procs : ∀ (i : Nat) (p : Proc), s.procs[i]? = some p → p.Pinned X digest

/-- The bytes that a task has downloaded have the digest of the key. -/
theorem TaskPc.Pinned.pins {ref : ModuleRef} {wasm : Bytes} {g : GetOrCompile}
    (h : (TaskPc.getOrCompile ref wasm g).Pinned X digest) :
    Pins X digest (cacheKey ref.name ref.version) ⟨wasm⟩ := by
  intro hne
  rw [← h.1] at hne ⊢
  exact h.2 hne

theorem TaskPc.Pinned.lookup {pc : TaskPc} {ref : ModuleRef} (h : pc.Pinned X digest)
    (hl : pc.lookup? = some ref) : ref.hash = digest (cacheKey ref.name ref.version) := by
  unfold TaskPc.lookup? at hl
  split at hl
  case h_1 =>
    cases hl
    exact h
  case h_2 =>
    cases hl
    exact h.1
  case h_3 => cases hl

theorem TaskRun.Step.pinned (h : TaskRun.Step X now env node r node' r')
    (hr : (Proc.task r).Pinned X digest) : (Proc.task r').Pinned X digest := by
  obtain ⟨hp, hreq⟩ := hr
  cases h with
  | increment hpc =>
      refine ⟨?_, hreq⟩
      dsimp only [TaskRun.atPc]
      unfold TaskPc.resolve
      split
      case h_1 => trivial
      case h_2 ref hsource => exact hreq ref hsource
      case h_3 => trivial
  | miss hpc =>
      rw [hpc] at hp
      exact ⟨hp, hreq⟩
  | @downloaded ref wasm hpc hd =>
      rw [hpc] at hp
      refine ⟨?_, hreq⟩
      have hsound := TaskPc.downloaded_sound (X := X) ref wasm
      dsimp only [TaskRun.atPc]
      unfold TaskPc.downloaded at hsound ⊢
      split
      case isTrue => trivial
      case isFalse hcheck =>
        rw [if_neg hcheck] at hsound
        exact ⟨hp, hsound⟩
  | compiling hpc hg =>
      rw [hpc] at hp
      exact ⟨hp, hreq⟩
  | _ => exact ⟨trivial, hreq⟩

theorem TaskRun.Step.cache_pinned (h : TaskRun.Step X now env node r node' r')
    (hr : (Proc.task r).Pinned X digest) (hc : node.moduleCache.All (Pins X digest)) :
    node'.moduleCache.All (Pins X digest) := by
  have hp := hr.1
  have hcompile : ∀ {ref wasm g cache next}, r.pc = .getOrCompile ref wasm g →
      node.compileStep X now (cacheKey ref.name ref.version) wasm g = (cache, next) →
      cache.All (Pins X digest) := by
    intro ref wasm g cache next hpc hg
    rw [hpc] at hp
    have hcache : (node.compileStep X now (cacheKey ref.name ref.version) wasm g).1 = cache :=
      congrArg Prod.fst hg
    rw [← hcache]
    exact GetOrCompile.step_all hc hp.pins
  cases h with
  | hit hpc hv hcache =>
      rw [hcache]
      exact hc.lookup
  | miss hpc hv hcache =>
      rw [hcache]
      exact hc.lookup
  | compiling hpc hg => exact hcompile hpc hg
  | compileFailed hpc hg => exact hcompile hpc hg
  | compiled hpc hg => exact hcompile hpc hg
  | _ => exact hc

theorem WarmRun.step_pinned {w w' : WarmRun} (h : w.step X now node = some (node', w'))
    (hw : (Proc.warm w).Pinned X digest) (hc : node.moduleCache.All (Pins X digest)) :
    (Proc.warm w').Pinned X digest ∧ node'.moduleCache.All (Pins X digest) := by
  cases w with
  | decode body =>
      simp only [WarmRun.step] at h
      split at h
      case h_1 =>
        cases h
        exact ⟨trivial, hc⟩
      case h_2 wasm hd =>
        cases h
        exact ⟨hw wasm hd, hc⟩
  | getOrCompile key wasm g =>
      cases h
      refine ⟨?_, GetOrCompile.step_all hc hw⟩
      split
      · exact hw
      · trivial
      · trivial
  | stats key =>
      cases h
      exact ⟨trivial, hc⟩
  | returned reply => cases h

theorem Sys.Pinned.step (hI : s.Pinned X digest) (he : e.Pinned X digest)
    (h : s.step X e = some t) : t.Pinned X digest := by
  have hstep := Sys.step_inv h
  constructor
  · cases hstep with
    | start => exact hI.cache
    | tick => exact hI.cache
    | task hi hrun => exact (TaskRun.step_inv hrun).cache_pinned (hI.procs _ _ hi) hI.cache
    | warm hi hrun => exact (WarmRun.step_pinned hrun (hI.procs _ _ hi) hI.cache).2
  · refine hstep.forall_procs hI.procs ?_ ?_ ?_
    · intro p hp
      cases e with
      | executeTask req =>
          cases hp
          exact ⟨trivial, he⟩
      | warmCache body =>
          cases hp
          exact he
      | tick => cases hp
      | run => cases hp
    · intro i env r r' node _ hi hrun
      exact hrun.pinned (hI.procs i _ hi)
    · intro w w' node hrun hw
      exact (WarmRun.step_pinned hrun hw hI.cache).1

theorem Sys.Pinned.lookupAgrees (hI : s.Pinned X digest) : LookupAgrees X ⟨s, e, t⟩ := by
  intro ref hl entry hv hne
  have hhash : ref.hash = digest (cacheKey ref.name ref.version) := by
    unfold Sys.lookup? at hl
    split at hl
    case h_1 =>
      split at hl
      case h_1 r hi => exact (hI.procs _ _ hi).1.lookup hl
      case h_2 => cases hl
    case h_2 => cases hl
  rw [hhash] at hne ⊢
  exact hI.cache.valid hv hne

/-- If the requests of a run agree on the digest of each key, so do its lookups. -/
theorem lookupAgrees_of_pinned
    (h : Run (Sys.step X) (Sys.init nodeId maxConcurrentTasks cacheMaxSize cacheTtl) ms s)
    (hp : ∀ m ∈ ms, m.ev.Pinned X digest) : ∀ m ∈ ms, LookupAgrees X m := by
  have hinit : (Sys.init nodeId maxConcurrentTasks cacheMaxSize cacheTtl).Pinned X digest := by
    constructor
    · intro key entry hmem
      cases hmem
    · intro i p hp
      cases hp
  intro m hm
  have hI := h.invariant_mem (I := Sys.Pinned X digest) (C := fun m => m.ev.Pinned X digest) hinit
    (fun s e t hI he hstep => hI.step he hstep) hp m hm
  exact hI.1.lookupAgrees

end FerroEdge.EdgeNode
