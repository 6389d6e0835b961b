import FerroEdge.ControlPlane.Retries
import FerroEdge.ControlPlane.ModuleDelivery

/-!
# Uploads

`upload_module` decodes the module, stores it under its name and version, and collects the nodes
to tell about it.  Any number of uploads may run at a time, also for one name and version.

`uploads_once` says that each key of the registry was taken by exactly one upload, which has
answered with the id of the entry, and that every upload that was refused had its reason: its
bytes do not decode, or its key is taken.  So no upload is lost and none overwrites another.
-/

namespace FerroEdge.ControlPlane

open Machine

variable {X : Externals} {env : Env} {s t : Sys} {e : Event} {reg reg' : ModuleRegistry} {i j : Nat}
  {u u' : UploadRun} {app app' : AppState} {body body' : UploadModuleRequest}
  {ms : List (Move Sys Event)}

/-! ## One upload -/

/-- The steps of an upload by their kind. -/
inductive UploadRun.Step (X : Externals) (env : Env) (app : AppState) :
    UploadRun → AppState → UploadRun → Prop where
  | badBase64 {body : UploadModuleRequest} {text : String} :
      X.b64Decode body.wasmBase64 = .error text →
      Step X env app (.start body) app (.returned (.error (.invalidWasm text)))
  | decoded {body : UploadModuleRequest} {bytes : Bytes} :
      X.b64Decode body.wasmBase64 = .ok bytes →
      Step X env app (.start body) app (.store body bytes)
  | taken {body : UploadModuleRequest} {bytes : Bytes} {v : ModuleMetadata × Bytes} :
      app.moduleRegistry.get body.name body.version = some v →
      Step X env app (.store body bytes) app (.returned (.error
        (.invalidWasm (RegistryError.alreadyExists body.name body.version).display)))
  | stored {body : UploadModuleRequest} {bytes : Bytes} {info : ModuleMetadata} :
      app.moduleRegistry.get body.name body.version = none → info.id = env.uuid →
      Step X env app (.store body bytes)
        { app with moduleRegistry := ⟨app.moduleRegistry.modules.insert
          (ModuleRegistry.key body.name body.version) (info, bytes)⟩ }
        (.collect env.uuid)
  | collected {moduleId : String} :
      Step X env app (.collect moduleId) app (.returned (.ok (moduleId, warmAddresses app)))

theorem UploadRun.step_inv (h : u.step X env app = some (app', u')) :
    UploadRun.Step X env app u app' u' := by
  cases u with
  | start body =>
      simp only [UploadRun.step] at h
      split at h
      case h_1 hdecode =>
        cases h
        exact .badBase64 hdecode
      case h_2 hdecode =>
        cases h
        exact .decoded hdecode
  | store body bytes =>
      obtain ⟨⟨v, hget⟩, hstore⟩ | ⟨hget, hstore⟩ := ModuleRegistry.store_cases X env.uuid
        env.createdAt body.name body.version bytes app.moduleRegistry
      · simp only [UploadRun.step, hstore] at h
        cases h
        exact .taken hget
      · simp only [UploadRun.step, hstore] at h
        cases h
        exact .stored hget rfl
  | collect moduleId =>
      cases h
      exact .collected
  | returned result => cases h

/-- What an upload knows of the request it is for and of the registry. -/
def UploadRun.Holds (X : Externals) (reg : ModuleRegistry) (body : UploadModuleRequest) :
    UploadRun → Prop
  | .start body' => body' = body
  | .store body' bytes => body' = body ∧ X.b64Decode body.wasmBase64 = .ok bytes
  | .collect moduleId | .returned (.ok (moduleId, _)) =>
      ∃ info bytes, X.b64Decode body.wasmBase64 = .ok bytes ∧
        reg.get body.name body.version = some (info, bytes) ∧ info.id = moduleId
  | .returned (.error e) =>
      (∃ text, X.b64Decode body.wasmBase64 = .error text ∧ e = .invalidWasm text) ∨
      (reg.get body.name body.version).isSome = true ∧
        e = .invalidWasm (RegistryError.alreadyExists body.name body.version).display

theorem ModuleRegistry.Extends.get_isSome {name version : String} (h : reg.Extends reg')
    (hget : (reg.get name version).isSome = true) : (reg'.get name version).isSome = true := by
  obtain ⟨v, hv⟩ := Option.isSome_iff_exists.mp hget
  exact Option.isSome_iff_exists.mpr ⟨v, h _ _ hv⟩

theorem UploadRun.Holds.extends (h : u.Holds X reg body) (hext : reg.Extends reg') :
    u.Holds X reg' body := by
  cases u with
  | start => exact h
  | store => exact h
  | collect moduleId =>
      obtain ⟨info, bytes, hdecode, hget, hid⟩ := h
      exact ⟨info, bytes, hdecode, hext _ _ hget, hid⟩
  | returned result =>
      cases result with
      | ok answer =>
          obtain ⟨info, bytes, hdecode, hget, hid⟩ := h
          exact ⟨info, bytes, hdecode, hext _ _ hget, hid⟩
      | error e =>
          obtain hbad | ⟨htaken, he⟩ := h
          · exact Or.inl hbad
          · exact Or.inr ⟨hext.get_isSome htaken, he⟩

/-- A step of an upload. -/
theorem UploadRun.Holds.step (h : u.Holds X app.moduleRegistry body)
    (hs : u.step X env app = some (app', u')) : u'.Holds X app'.moduleRegistry body := by
  cases UploadRun.step_inv hs with
  | badBase64 hdecode =>
      cases h
      exact Or.inl ⟨_, hdecode, rfl⟩
  | decoded hdecode =>
      cases h
      exact ⟨rfl, hdecode⟩
  | taken hget =>
      obtain ⟨rfl, -⟩ := h
      exact Or.inr ⟨by rw [hget]; rfl, rfl⟩
  | stored hget hid =>
      obtain ⟨rfl, hdecode⟩ := h
      exact ⟨_, _, hdecode, AList.lookup_insert _, hid⟩
  | collected => exact h

/-- An upload after a step was there before, is new, or has taken the step. -/
theorem Sys.Step.upload_inv (h : Sys.Step X s e t) (hi : t.procs[i]? = some (.upload u')) :
    s.procs[i]? = some (.upload u') ∨
    (∃ body, e = .uploadModule body ∧ u' = .start body ∧ i = s.procs.length) ∨
    ∃ env u, e = .run i env ∧ s.procs[i]? = some (.upload u) ∧
      u.step X env s.shared.app = some (t.shared.app, u') := by
  by_cases hact : e.actor = some i
  · cases h with
    | start he =>
        rw [Event.actor_of_starts he] at hact
        cases hact
    | tick => cases hact
    | rehash => cases hact
    | dispatch hj =>
        cases hact
        rw [getElem?_set_self hj] at hi
        cases hi
    | other hj _ hstep =>
        cases hact
        rw [getElem?_set_append_self hj] at hi
        cases hi
        cases Proc.step_inv hstep with
        | upload hu => exact Or.inr (Or.inr ⟨_, _, rfl, hj, hu⟩)
  · obtain hold | ⟨hnone, hstart | ⟨spec, hspec⟩⟩ := h.getElem?_inv hact hi
    · exact Or.inl hold
    · cases h with
      | @start e p he =>
          obtain ⟨hlen, -⟩ | ⟨-, hold⟩ := getElem?_snoc_inv hi
          · cases e with
            | uploadModule body =>
                cases hstart
                exact Or.inr (Or.inl ⟨body, rfl, rfl, hlen⟩)
            | _ => cases hstart
          · rw [hnone] at hold
            cases hold
      | _ => cases hstart
    · cases hspec

/-! ## All uploads -/

def Event.upload? : Event → Option UploadModuleRequest
  | .uploadModule body => some body
  | _ => none

/-- The request that has started the process `i`, if it is an upload. -/
def uploadBody (ms : List (Move Sys Event)) (i : Nat) : Option UploadModuleRequest :=
  ms.findSome? fun m => if m.pre.procs.length = i then m.ev.upload? else none

def UploadModuleRequest.key (body : UploadModuleRequest) : String :=
  ModuleRegistry.key body.name body.version

/-- The id of the entry that an upload has made. -/
def Proc.accepted? : Proc → Option String
  | .upload (.collect moduleId) | .upload (.returned (.ok (moduleId, _))) => some moduleId
  | _ => none

/-- The id of the entry that the process `i` has made. -/
def Sys.accepted (s : Sys) (i : Nat) : Option String := s.procs[i]?.bind Proc.accepted?

theorem uploadBody_snoc (ms : List (Move Sys Event)) (m : Move Sys Event) (i : Nat) :
    uploadBody (ms ++ [m]) i =
      (uploadBody ms i).or (if m.pre.procs.length = i then m.ev.upload? else none) := by
  rw [uploadBody, List.findSome?_append]
  simp [uploadBody]

/-- The uploads of a run and the registry. -/
structure UploadsInv (X : Externals) (ms : List (Move Sys Event)) (s : Sys) : Prop where
  known : ∀ i body, uploadBody ms i = some body → i < s.procs.length
  holds : ∀ (i : Nat) u, s.procs[i]? = some (.upload u) →
    ∃ body, uploadBody ms i = some body ∧ u.Holds X s.shared.app.moduleRegistry body
  winner : ∀ key v, s.shared.app.moduleRegistry.modules.lookup key = some v →
    ∃ i body, uploadBody ms i = some body ∧ body.key = key ∧ (s.accepted i).isSome = true
  once : ∀ i j body body', uploadBody ms i = some body → uploadBody ms j = some body' →
    (s.accepted i).isSome = true → (s.accepted j).isSome = true → body.key = body'.key → i = j

theorem Sys.accepted_inv {moduleId : String} (h : s.accepted i = some moduleId) :
    ∃ u, s.procs[i]? = some (.upload u) ∧
      (u = .collect moduleId ∨ ∃ addrs, u = .returned (.ok (moduleId, addrs))) := by
  obtain ⟨p, hp, hacc⟩ := Option.bind_eq_some_iff.mp h
  cases p with
  | upload u =>
      refine ⟨u, hp, ?_⟩
      cases u with
      | collect => exact Or.inl (by rw [Option.some.inj hacc])
      | returned result =>
          cases result with
          | ok answer => exact Or.inr ⟨answer.2, by rw [← Option.some.inj hacc]⟩
          | error e => cases hacc
      | _ => cases hacc
  | _ => cases hacc

/-- An upload that was accepted stays so. -/
theorem Sys.Step.accepted_mono (h : Sys.Step X s e t) (hacc : (s.accepted i).isSome = true) :
    (t.accepted i).isSome = true := by
  obtain ⟨moduleId, hid⟩ := Option.isSome_iff_exists.mp hacc
  obtain ⟨u, hu, hkind⟩ := Sys.accepted_inv hid
  by_cases hact : e.actor = some i
  · cases h with
    | start he =>
        rw [Event.actor_of_starts he] at hact
        cases hact
    | tick => cases hact
    | rehash => cases hact
    | dispatch hj =>
        cases hact
        rw [hu] at hj
        cases hj
    | other hj _ hstep =>
        cases hact
        rw [hu] at hj
        cases hj
        cases Proc.step_inv hstep with
        | upload hstep =>
            rw [Sys.accepted, getElem?_set_append_self hu]
            obtain rfl | ⟨addrs, rfl⟩ := hkind
            · cases hstep
              rfl
            · cases hstep
  · rw [Sys.accepted, h.getElem?_frame hact hu]
    obtain rfl | ⟨addrs, rfl⟩ := hkind <;> rfl

/-- An upload is accepted when it stores its module under a key that is free. -/
theorem Sys.Step.accepted_inv (h : Sys.Step X s e t) (hacc : (t.accepted i).isSome = true) :
    (s.accepted i).isSome = true ∨
    e.actor = some i ∧ ∃ body bytes, s.procs[i]? = some (.upload (.store body bytes)) ∧
      s.shared.app.moduleRegistry.get body.name body.version = none := by
  obtain ⟨moduleId, hid⟩ := Option.isSome_iff_exists.mp hacc
  obtain ⟨u', hu', hkind⟩ := Sys.accepted_inv hid
  obtain hold | ⟨body, -, rfl, -⟩ | ⟨env, u, rfl, hu, hstep⟩ := h.upload_inv hu'
  · left
    rw [Sys.accepted, hold]
    obtain rfl | ⟨addrs, rfl⟩ := hkind <;> rfl
  · obtain hkind | ⟨addrs, hkind⟩ := hkind <;> cases hkind
  · generalize t.shared.app = app' at hstep
    cases UploadRun.step_inv hstep with
    | stored hget => exact Or.inr ⟨rfl, _, _, hu, hget⟩
    | collected => exact Or.inl (by rw [Sys.accepted, hu]; rfl)
    | _ => obtain hkind | ⟨addrs, hkind⟩ := hkind <;> cases hkind

/-- An entry that is new was made by an upload, which has been accepted. -/
theorem Sys.Step.entry_inv {key : String} {v : ModuleMetadata × Bytes} (h : Sys.Step X s e t)
    (hv : t.shared.app.moduleRegistry.modules.lookup key = some v) :
    s.shared.app.moduleRegistry.modules.lookup key = some v ∨
    ∃ i body bytes, s.procs[i]? = some (.upload (.store body bytes)) ∧ body.key = key ∧
      (t.accepted i).isSome = true := by
  cases h with
  | start => exact Or.inl hv
  | tick => exact Or.inl hv
  | rehash => exact Or.inl hv
  | dispatch _ hr =>
      rw [DispatchRun.step_moduleRegistry hr] at hv
      exact Or.inl hv
  | @other i env p p' sh new hi hp hstep =>
      cases Proc.step_inv hstep with
      | dispatch => cases hp
      | upload hu =>
          cases UploadRun.step_inv hu with
          | @stored body bytes info hget hid =>
              dsimp only at hv
              rw [HashMap.lookup_insert_if] at hv
              split at hv
              case isTrue hkey =>
                refine Or.inr ⟨i, body, bytes, hi, hkey.symm, ?_⟩
                rw [Sys.accepted, getElem?_set_append_self hi]
                rfl
              case isFalse => exact Or.inl hv
          | _ => exact Or.inl hv
      | _ => exact Or.inl hv

/-- The entry that an upload has made. -/
theorem UploadsInv.entry {moduleId : String} (hI : UploadsInv X ms s)
    (hbody : uploadBody ms i = some body) (hacc : s.accepted i = some moduleId) :
    ∃ info bytes, X.b64Decode body.wasmBase64 = .ok bytes ∧
      s.shared.app.moduleRegistry.modules.lookup body.key = some (info, bytes) ∧
      info.id = moduleId := by
  obtain ⟨u, hu, hkind⟩ := Sys.accepted_inv hacc
  obtain ⟨body', hbody', hholds⟩ := hI.holds i u hu
  cases hbody'.symm.trans hbody
  obtain rfl | ⟨addrs, rfl⟩ := hkind <;> exact hholds

/-- An upload that finds its key free has another key than those that were accepted before. -/
theorem UploadsInv.key_ne {stored : UploadModuleRequest} {bytes : Bytes} (hI : UploadsInv X ms s)
    (hi : uploadBody ms i = some body) (hacc : (s.accepted i).isSome = true)
    (hj : uploadBody ms j = some body')
    (hstore : s.procs[j]? = some (.upload (.store stored bytes)))
    (hfree : s.shared.app.moduleRegistry.get stored.name stored.version = none) :
    body.key ≠ body'.key := by
  intro hkey
  obtain ⟨moduleId, hid⟩ := Option.isSome_iff_exists.mp hacc
  obtain ⟨info, bytes', -, hget, -⟩ := hI.entry hi hid
  obtain ⟨bodyj, hbodyj, rfl, -⟩ := hI.holds j _ hstore
  cases hbodyj.symm.trans hj
  change s.shared.app.moduleRegistry.modules.lookup body'.key = _ at hfree
  rw [hkey, hfree] at hget
  cases hget

theorem UploadsInv.step (hI : UploadsInv X ms s) (h : Sys.Step X s e t) :
    UploadsInv X (ms ++ [⟨s, e, t⟩]) t := by
  -- The requests of the uploads so far stay what they are.
  have hold : ∀ i body, uploadBody ms i = some body →
      uploadBody (ms ++ [⟨s, e, t⟩]) i = some body := by
    intro i body hbody
    rw [uploadBody_snoc, hbody]
    rfl
  have hknown : ∀ i body, uploadBody (ms ++ [⟨s, e, t⟩]) i = some body → i < s.procs.length →
      uploadBody ms i = some body := by
    intro i body hbody hlt
    rw [uploadBody_snoc, if_neg (Nat.ne_of_gt hlt), Option.or_none] at hbody
    exact hbody
  have hlt : ∀ i, (s.accepted i).isSome = true → i < s.procs.length := by
    intro i hacc
    obtain ⟨moduleId, hid⟩ := Option.isSome_iff_exists.mp hacc
    obtain ⟨u, hu, -⟩ := Sys.accepted_inv hid
    exact (List.getElem?_eq_some_iff.mp hu).1
  refine ⟨fun i body hbody => ?_, fun i u' hi => ?_, fun key v hv => ?_, ?_⟩
  · rw [uploadBody_snoc, Option.or_eq_some_iff] at hbody
    obtain hbody | ⟨-, hnew⟩ := hbody
    · exact Nat.lt_of_lt_of_le (hI.known i body hbody) h.length_le
    · split at hnew
      case isFalse => cases hnew
      case isTrue hlen =>
        dsimp only at hlen hnew
        subst hlen
        cases e with
        | uploadModule =>
            cases h with
            | start => simp
        | _ => cases hnew
  · obtain hsame | ⟨body, rfl, rfl, rfl⟩ | ⟨env, u, rfl, hu, hstep⟩ := h.upload_inv hi
    · obtain ⟨body, hbody, hholds⟩ := hI.holds i u' hsame
      exact ⟨body, hold i body hbody, hholds.extends h.moduleRegistry.1⟩
    · refine ⟨body, ?_, rfl⟩
      have hnone : uploadBody ms s.procs.length = none := by
        cases hbody : uploadBody ms s.procs.length with
        | none => rfl
        | some body' => exact absurd (hI.known _ _ hbody) (Nat.lt_irrefl _)
      rw [uploadBody_snoc, hnone, if_pos rfl]
      rfl
    · obtain ⟨body, hbody, hholds⟩ := hI.holds i u hu
      exact ⟨body, hold i body hbody, hholds.step hstep⟩
  · obtain hentry | ⟨i, body, bytes, hi, rfl, hacc⟩ := h.entry_inv hv
    · obtain ⟨i, body, hbody, hkey, hacc⟩ := hI.winner key v hentry
      exact ⟨i, body, hold i body hbody, hkey, h.accepted_mono hacc⟩
    · obtain ⟨body', hbody, rfl, -⟩ := hI.holds i _ hi
      exact ⟨i, body, hold i body hbody, rfl, hacc⟩
  · intro i j body body' hi hj hacc hacc' hkey
    have hbodyi := fun hlt => hknown i body hi hlt
    have hbodyj := fun hlt => hknown j body' hj hlt
    obtain holdi | ⟨hacti, bi, bytesi, hstorei, hfreei⟩ := h.accepted_inv hacc
    · obtain holdj | ⟨-, bj, bytesj, hstorej, hfreej⟩ := h.accepted_inv hacc'
      · exact hI.once i j body body' (hbodyi (hlt i holdi)) (hbodyj (hlt j holdj)) holdi holdj hkey
      · have hltj := (List.getElem?_eq_some_iff.mp hstorej).1
        exact absurd hkey (hI.key_ne (hbodyi (hlt i holdi)) holdi (hbodyj hltj) hstorej hfreej)
    · obtain holdj | ⟨hactj, -⟩ := h.accepted_inv hacc'
      · have hlti := (List.getElem?_eq_some_iff.mp hstorei).1
        exact absurd hkey.symm
          (hI.key_ne (hbodyj (hlt j holdj)) holdj (hbodyi hlti) hstorei hfreei)
      · rw [hacti] at hactj
        exact Option.some.inj hactj

theorem uploadsInv {url strategy : String}
    (h : Run (Sys.step X) (Sys.init url strategy) ms s) : UploadsInv X ms s := by
  induction h with
  | nil =>
      refine ⟨fun i body hbody => ?_, fun i u hi => ?_, fun key v hv => ?_,
        fun i j body body' hbody => ?_⟩
      · cases hbody
      · cases hi
      · cases hv
      · cases hbody
  | snoc _ hs ih => exact ih.step (Sys.step_inv hs)

/-- In every run: each entry of the registry was made by one upload of its key, with the bytes and
the id of that upload, and no other upload of the key was accepted.  An upload that has answered
with an id has made the entry with that id, and one that was refused has bytes that do not decode
or a key that is taken. -/
theorem uploads_once {url strategy : String}
    (h : Run (Sys.step X) (Sys.init url strategy) ms s) :
    (∀ key info bytes, s.shared.app.moduleRegistry.modules.lookup key = some (info, bytes) →
      ∃ i body, uploadBody ms i = some body ∧ body.key = key ∧ s.accepted i = some info.id ∧
        X.b64Decode body.wasmBase64 = .ok bytes ∧
        ∀ j body', uploadBody ms j = some body' → body'.key = key →
          (s.accepted j).isSome = true → j = i) ∧
    (∀ (i : Nat) moduleId addrs, s.procs[i]? = some (.upload (.returned (.ok (moduleId, addrs)))) →
      ∃ body info bytes, uploadBody ms i = some body ∧ info.id = moduleId ∧
        s.shared.app.moduleRegistry.get body.name body.version = some (info, bytes)) ∧
    ∀ (i : Nat) err, s.procs[i]? = some (.upload (.returned (.error err))) →
      ∃ body, uploadBody ms i = some body ∧
        ((∃ text, X.b64Decode body.wasmBase64 = .error text ∧ err = .invalidWasm text) ∨
          (s.shared.app.moduleRegistry.get body.name body.version).isSome = true ∧
            err = .invalidWasm (RegistryError.alreadyExists body.name body.version).display) := by
  have hI := uploadsInv h
  refine ⟨fun key info bytes hentry => ?_, fun i moduleId addrs hi => ?_, fun i err hi => ?_⟩
  · obtain ⟨i, body, hbody, rfl, hacc⟩ := hI.winner key _ hentry
    obtain ⟨moduleId, hid⟩ := Option.isSome_iff_exists.mp hacc
    obtain ⟨info', bytes', hdecode, hget, rfl⟩ := hI.entry hbody hid
    cases hget.symm.trans hentry
    exact ⟨i, body, hbody, rfl, hid, hdecode, fun j body' hj hkey haccj =>
      hI.once j i body' body hj hbody haccj hacc hkey⟩
  · obtain ⟨body, hbody, info, bytes, -, hget, hid⟩ := hI.holds i _ hi
    exact ⟨body, info, bytes, hbody, hid, hget⟩
  · obtain ⟨body, hbody, hholds⟩ := hI.holds i _ hi
    exact ⟨body, hbody, hholds⟩

/-- Two uploads of one name and version decode their modules, and the second one stores its module
first. -/
def racingUploads : List Event :=
  [.uploadModule ⟨"m", "1", ""⟩, .uploadModule ⟨"m", "1", ""⟩, .run 0 {}, .run 1 {},
    .run 1 { uuid := "b" }, .run 0 { uuid := "a" }, .run 1 {}]

theorem racingUploads_once :
    ∃ ms s, Run (Sys.step .sample) (Sys.init "" "round_robin") ms s ∧
      s.accepted 1 = some "b" ∧ s.accepted 0 = none ∧
      ∀ key info bytes, s.shared.app.moduleRegistry.modules.lookup key = some (info, bytes) →
        ∃ i body, uploadBody ms i = some body ∧ body.key = key ∧ s.accepted i = some info.id := by
  have htest : (exec (Sys.step .sample) (Sys.init "" "round_robin") racingUploads).any
      (fun s => decide (s.accepted 1 = some "b") && decide (s.accepted 0 = none)) = true := by
    decide
  obtain ⟨s, hrun, hs⟩ := exec_any_run htest
  simp only [Bool.and_eq_true, decide_eq_true_eq] at hs
  refine ⟨_, s, hrun, hs.1, hs.2, fun key info bytes hentry => ?_⟩
  obtain ⟨i, body, hbody, hkey, hacc, -⟩ := (uploads_once hrun).1 key info bytes hentry
  exact ⟨i, body, hbody, hkey, hacc⟩

end FerroEdge.ControlPlane
