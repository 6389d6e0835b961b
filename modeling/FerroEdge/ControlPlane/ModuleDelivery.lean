import FerroEdge.ControlPlane.System
import FerroEdge.EdgeNode.Server

/-!
# Modules reach the edge as they were referred to

A task that names a module carries the hash of its bytes, which the control plane reads when
it resolves the inputs of the task.  The bytes follow another way: the edge node downloads
them later, and compares their hash with the one it was sent.

The registry is write-once.  An upload adds an entry under a key that is free and nothing else
changes the registry, so an entry stays what it was when its hash was read.  Two pairs that
share a key share the entry, its hash and its bytes alike, so they make no difference here.
-/

namespace FerroEdge.ControlPlane

open Machine

/-- What the registry keeps about an entry agrees with its bytes. -/
def ModuleRegistry.Hashed (X : Externals) (reg : ModuleRegistry) : Prop :=
  ∀ key info bytes, reg.modules.lookup key = some (info, bytes) →
    info.hash = X.hexSha256 bytes ∧ info.sizeBytes = bytes.length

/-- Every entry of `reg` is the same in `reg'`. -/
def ModuleRegistry.Extends (reg reg' : ModuleRegistry) : Prop :=
  ∀ key v, reg.modules.lookup key = some v → reg'.modules.lookup key = some v

theorem ModuleRegistry.Extends.refl (reg : ModuleRegistry) : reg.Extends reg := fun _ _ hk => hk

variable {X : Externals} {env : Env} {s t : Sys} {e : Event}

/-! ## One step -/

namespace ModuleRegistry

variable {id name version : String} {createdAt : Nat} {bytes : Bytes} {reg : ModuleRegistry}

theorem store_hashed (h : reg.Hashed X) :
    (reg.store X id createdAt name version bytes).2.Hashed X := by
  obtain ⟨-, hs⟩ | ⟨-, hs⟩ := store_cases X id createdAt name version bytes reg
  · rw [hs]
    exact h
  · rw [hs]
    intro k info bytes' hk
    rw [HashMap.lookup_insert_if] at hk
    split at hk
    · cases hk
      exact ⟨rfl, rfl⟩
    · exact h k info bytes' hk

theorem store_extends : reg.Extends (reg.store X id createdAt name version bytes).2 := by
  obtain ⟨-, hs⟩ | ⟨hnone, hs⟩ := store_cases X id createdAt name version bytes reg
  · rw [hs]
    exact .refl _
  · rw [hs]
    intro k v hk
    have hne : k ≠ key name version := by
      rintro rfl
      rw [get, hk] at hnone
      cases hnone
    rw [HashMap.lookup_insert_if, if_neg hne]
    exact hk

end ModuleRegistry

/-- A step of the control plane keeps every entry, and what it adds is hashed. -/
theorem Sys.Step.moduleRegistry (h : Sys.Step X s e t) :
    s.shared.app.moduleRegistry.Extends t.shared.app.moduleRegistry ∧
    (s.shared.app.moduleRegistry.Hashed X → t.shared.app.moduleRegistry.Hashed X) := by
  obtain heq | ⟨_, _, name, version, bytes, heq⟩ := h.registry_inv
  · rw [heq]
    exact ⟨.refl _, id⟩
  · rw [heq]
    exact ⟨ModuleRegistry.store_extends, ModuleRegistry.store_hashed⟩

/-! ## Whole runs -/

theorem moduleRegistry_hashed {url strategy : String} {ms : List (Move Sys Event)}
    (h : Run (Sys.step X) (Sys.init url strategy) ms s) :
    s.shared.app.moduleRegistry.Hashed X := by
  refine h.always (I := fun s => s.shared.app.moduleRegistry.Hashed X) ?_ ?_
  · intro key info bytes hk
    cases hk
  · intro s e t hI hs
    exact (Sys.step_inv hs).moduleRegistry.2 hI

theorem moduleRegistry_extends {ms : List (Move Sys Event)} (h : Run (Sys.step X) s ms t) :
    s.shared.app.moduleRegistry.Extends t.shared.app.moduleRegistry := by
  refine h.always (I := fun t =>
    s.shared.app.moduleRegistry.Extends t.shared.app.moduleRegistry) ?_ ?_
  · exact .refl _
  · intro u e t hI hs key v hk
    exact (Sys.step_inv hs).moduleRegistry.1 key v (hI key v hk)

/-- In every run of the control plane: the registry describes its modules by their bytes, no
entry is ever overwritten or removed, and a module that a task was resolved to can be
downloaded from then on, with bytes that pass the check of the edge node. -/
theorem moduleRef_verifies {url strategy : String} {ms ns : List (Move Sys Event)}
    (h : Run (Sys.step X) (Sys.init url strategy) ms s) (h' : Run (Sys.step X) s ns t) :
    t.shared.app.moduleRegistry.Hashed X ∧
    s.shared.app.moduleRegistry.Extends t.shared.app.moduleRegistry ∧
    ∀ body input ref, resolveTaskInputs X s.shared.app body = .ok (input, .moduleRef ref) →
      ∃ bytes, getModuleBytes t.shared.app ref.name ref.version = .ok bytes ∧
        EdgeNode.verifyHash X bytes ref.hash = true := by
  have hhashed := moduleRegistry_hashed (h.append h')
  have hextends := moduleRegistry_extends h'
  refine ⟨hhashed, hextends, fun body input ref hres => ?_⟩
  obtain ⟨info, bytes, hget, hhash, -⟩ := resolveTaskInputs_moduleRef hres
  have hlater := hextends _ _ hget
  refine ⟨bytes, ?_, ?_⟩
  · rw [getModuleBytes, ModuleRegistry.get, hlater]
  · rw [EdgeNode.verifyHash, hhash, (hhashed _ _ _ hlater).1, beq_self_eq_true]

/-- The module `m` is uploaded by the process `i`. -/
def uploading (i : Nat) : List Event :=
  .uploadModule ⟨"m", "1", ""⟩ :: List.replicate 3 (.run i {})

/-- A task that runs the module `m`. -/
def runsModule : SubmitTaskRequest := ⟨none, some "m", some "1", "process", "", none, none⟩

/-- A module is uploaded, a task is resolved to it, and it is uploaded once more in vain. -/
theorem uploading_verifies :
    ∃ s t ns, Run (Sys.step .sample) (Sys.init "" "round_robin")
        (moves (Sys.step .sample) (Sys.init "" "round_robin") (uploading 0)) s ∧
      Run (Sys.step .sample) s ns t ∧
      resolveTaskInputs .sample s.shared.app runsModule =
        .ok ([], .moduleRef ⟨"m", "1", "e3b0", "/modules/m/1"⟩) ∧
      ∃ bytes, getModuleBytes t.shared.app "m" "1" = .ok bytes ∧
        EdgeNode.verifyHash .sample bytes "e3b0" = true := by
  have htest : (exec (Sys.step .sample) (Sys.init "" "round_robin") (uploading 0)).any (fun s =>
      decide (resolveTaskInputs .sample s.shared.app runsModule =
        .ok ([], .moduleRef ⟨"m", "1", "e3b0", "/modules/m/1"⟩)) &&
      (exec (Sys.step .sample) s ((uploading 1).take 3)).any fun _ => true) = true := by decide
  obtain ⟨s, h, hs⟩ := exec_any_run htest
  obtain ⟨hres, hlater⟩ := Bool.and_eq_true_iff.mp hs
  obtain ⟨t, h', -⟩ := exec_any_run hlater
  have hres := of_decide_eq_true hres
  exact ⟨s, t, _, h, h', hres, (moduleRef_verifies h h').2.2 _ _ _ hres⟩

end FerroEdge.ControlPlane
