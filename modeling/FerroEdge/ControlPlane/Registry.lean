import FerroEdge.Common.Types
import FerroEdge.Machine.HashMap

/-!
# The module registry

`services/control-plane/src/registry.rs`.  Modules are keyed by the string `name:version` and
kept with their bytes.  The id (`Uuid::new_v4`) and the creation time of a new entry are
arguments.
-/

namespace FerroEdge.ControlPlane

open Machine

/-- `ModuleRegistry`. -/
structure ModuleRegistry where
  modules : HashMap String (ModuleMetadata × Bytes)

namespace ModuleRegistry

def new : ModuleRegistry := ⟨∅⟩

/-- The key of a module, `format!("{name}:{version}")`. -/
def key (name version : String) : String := s!"{name}:{version}"

/-- `store`. -/
def store (X : Externals) (id : String) (createdAt : Nat) (name version : String) (bytes : Bytes)
    (reg : ModuleRegistry) : Except RegistryError ModuleMetadata × ModuleRegistry :=
  if key name version ∈ reg.modules then (.error (.alreadyExists name version), reg)
  else
    let m : ModuleMetadata := ⟨id, name, version, bytes.length, createdAt, X.hexSha256 bytes⟩
    (.ok m, ⟨reg.modules.insert (key name version) (m, bytes)⟩)

/-- `get`. -/
def get (name version : String) (reg : ModuleRegistry) : Option (ModuleMetadata × Bytes) :=
  reg.modules.lookup (key name version)

/-- A store finds its key taken and changes nothing, or it adds an entry under its key. -/
theorem store_cases (X : Externals) (id : String) (createdAt : Nat) (name version : String)
    (bytes : Bytes) (reg : ModuleRegistry) :
    ((∃ v, reg.get name version = some v) ∧
      reg.store X id createdAt name version bytes =
        (.error (.alreadyExists name version), reg)) ∨
    (reg.get name version = none ∧
      reg.store X id createdAt name version bytes =
        (.ok ⟨id, name, version, bytes.length, createdAt, X.hexSha256 bytes⟩,
          ⟨reg.modules.insert (key name version)
            (⟨id, name, version, bytes.length, createdAt, X.hexSha256 bytes⟩, bytes)⟩)) := by
  by_cases h : key name version ∈ reg.modules
  · refine Or.inl ⟨?_, by rw [store, if_pos h]⟩
    exact Option.isSome_iff_exists.mp (AList.lookup_isSome.mpr h)
  · exact Or.inr ⟨AList.lookup_eq_none.mpr h, by rw [store, if_neg h]⟩

end ModuleRegistry

end FerroEdge.ControlPlane
