import FerroEdge.ControlPlane.Registry
import FerroEdge.Machine.Run

/-!
# The registry as a map of pairs

The registry is meant as a map from a name and a version to a module.  Its key is the string
`name:version`, and names and versions are not checked, so two pairs share a key when one of
them has a colon in its name or version: `a:b` in version `c` and `a` in version `b:c`.

`refinesPairs_iff` says that this is the only way in which the registry differs from the map:
after any sequence of `store` calls it is the map of the pairs that were stored exactly if no
name and no version in the sequence has a colon.
-/

namespace FerroEdge.ControlPlane

open Machine

/-- A call of `store`, with the id and the time that it generates. -/
structure StoreCall where
  id : String
  createdAt : Nat
  name : String
  version : String
  bytes : Bytes

def StoreCall.run (X : Externals) (call : StoreCall) (reg : ModuleRegistry) :
    Except RegistryError ModuleMetadata × ModuleRegistry :=
  reg.store X call.id call.createdAt call.name call.version call.bytes

def ModuleRegistry.step (X : Externals) (reg : ModuleRegistry) (call : StoreCall) :
    Option ModuleRegistry :=
  some (call.run X reg).2

/-- A store of this pair has succeeded, with this metadata and these bytes. -/
def Stored (X : Externals) (ms : List (Move ModuleRegistry StoreCall)) (name version : String)
    (info : ModuleMetadata) (bytes : Bytes) : Prop :=
  ∃ m ∈ ms, m.ev.name = name ∧ m.ev.version = version ∧ m.ev.bytes = bytes ∧
    (m.ev.run X m.pre).1 = .ok info

/-- After the calls, the registry is the map from the pairs that were stored to what was
stored for them. -/
structure RefinesPairs (X : Externals) (ms : List (Move ModuleRegistry StoreCall))
    (reg : ModuleRegistry) : Prop where
  get : ∀ name version info bytes,
    reg.get name version = some (info, bytes) ↔ Stored X ms name version info bytes
  names : ∀ name version info bytes, reg.get name version = some (info, bytes) →
    info.name = name ∧ info.version = version
  /-- A store fails exactly if its pair was stored before. -/
  store : ∀ before m after, ms = before ++ m :: after →
    ((m.ev.run X m.pre).1 = .error (.alreadyExists m.ev.name m.ev.version) ↔
      ∃ info bytes, Stored X before m.ev.name m.ev.version info bytes)
  unchanged : ∀ m ∈ ms, ∀ e, (m.ev.run X m.pre).1 = .error e → m.post = m.pre

def ColonFree (text : String) : Prop := ':' ∉ text.toList

instance (text : String) : Decidable (ColonFree text) := inferInstanceAs (Decidable (¬ _))

/-! ## Keys -/

namespace ModuleRegistry

theorem key_toList (name version : String) :
    (key name version).toList = name.toList ++ ':' :: version.toList := by
  have hkey : key name version = name ++ ":" ++ version := rfl
  rw [hkey, String.toList_append, String.toList_append, List.append_assoc]
  rfl

theorem key_inj {name version name' version' : String} (hn : ColonFree name)
    (hv : ColonFree version) (h : key name version = key name' version') :
    name = name' ∧ version = version' := by
  have hlists := congrArg String.toList h
  rw [key_toList, key_toList, List.append_cons_inj_of_notMem hn hv] at hlists
  exact ⟨String.toList_inj.mp hlists.1, String.toList_inj.mp hlists.2.2⟩

/-- A pair with a colon shares its key with another pair. -/
theorem key_shared {name version : String} (h : ¬ (ColonFree name ∧ ColonFree version)) :
    ∃ name' version', key name' version' = key name version ∧ name' ≠ name := by
  have hmem : ':' ∈ name.toList ∨ ':' ∈ version.toList := by
    by_contra hnot
    exact h (not_or.mp hnot)
  cases hmem with
  | inl hn =>
      obtain ⟨a, b, hab⟩ := List.append_of_mem hn
      refine ⟨.ofList a, .ofList (b ++ ':' :: version.toList), ?_, ?_⟩
      · rw [← String.toList_inj, key_toList, key_toList, hab]
        simp
      · intro heq
        rw [← heq, String.toList_ofList] at hab
        simp at hab
  | inr hv =>
      obtain ⟨a, b, hab⟩ := List.append_of_mem hv
      refine ⟨.ofList (name.toList ++ ':' :: a), .ofList b, ?_, ?_⟩
      · rw [← String.toList_inj, key_toList, key_toList, hab]
        simp
      · intro heq
        have hlist := congrArg String.toList heq
        simp at hlist

end ModuleRegistry

variable {X : Externals} {ms : List (Move ModuleRegistry StoreCall)} {reg reg' : ModuleRegistry}
  {call : StoreCall}

/-! ## What the registry holds -/

/-- The metadata of a store that succeeds carries its pair. -/
theorem StoreCall.run_ok {info : ModuleMetadata} (h : (call.run X reg).1 = .ok info) :
    info.name = call.name ∧ info.version = call.version := by
  unfold StoreCall.run at h
  obtain ⟨-, hs⟩ | ⟨-, hs⟩ := ModuleRegistry.store_cases X call.id call.createdAt call.name
    call.version call.bytes reg <;> rw [hs] at h <;> cases h
  exact ⟨rfl, rfl⟩

theorem StoreCall.run_error_iff {e : RegistryError} :
    (call.run X reg).1 = .error e ↔
      e = .alreadyExists call.name call.version ∧ ∃ v, reg.get call.name call.version = some v := by
  unfold StoreCall.run
  obtain ⟨hv, hs⟩ | ⟨hv, hs⟩ := ModuleRegistry.store_cases X call.id call.createdAt call.name
    call.version call.bytes reg
  · rw [hs]
    constructor
    · intro he
      cases he
      exact ⟨rfl, hv⟩
    · rintro ⟨rfl, -⟩
      rfl
  · rw [hs, hv]
    constructor
    · intro he
      cases he
    · rintro ⟨-, v, hsome⟩
      cases hsome

/-- The registry holds under each key what was stored under it. -/
theorem lookup_iff_stored (h : Run (ModuleRegistry.step X) .new ms reg) (key : String)
    (info : ModuleMetadata) (bytes : Bytes) :
    reg.modules.lookup key = some (info, bytes) ↔
      ∃ m ∈ ms, ModuleRegistry.key m.ev.name m.ev.version = key ∧ m.ev.bytes = bytes ∧
        (m.ev.run X m.pre).1 = .ok info := by
  induction h with
  | nil => simp [ModuleRegistry.new]
  | @snoc ms reg reg' call _ hs ih =>
      have hpost : reg' = (call.run X reg).2 := (Option.some.inj hs).symm
      simp only [List.mem_append, List.mem_singleton, or_and_right, exists_or, exists_eq_left]
      obtain ⟨-, hrun⟩ | ⟨hnone, hrun⟩ := ModuleRegistry.store_cases X call.id call.createdAt
        call.name call.version call.bytes reg
      · -- The key is taken: nothing is stored and nothing changes.
        rw [show call.run X reg = _ from hrun] at hpost
        rw [hpost, show call.run X reg = _ from hrun, ih]
        simp
      · rw [show call.run X reg = _ from hrun] at hpost
        rw [hpost, show call.run X reg = _ from hrun, ← ih, HashMap.lookup_insert_if]
        by_cases hkey : key = ModuleRegistry.key call.name call.version
        · have hold : reg.modules.lookup key = none := hkey ▸ hnone
          rw [if_pos hkey, hold]
          simp [hkey, and_comm]
        · rw [if_neg hkey]
          simp [Ne.symm hkey]

/-- A call leaves an entry under its key, its own or an older one. -/
theorem lookup_of_call (h : Run (ModuleRegistry.step X) .new ms reg)
    {m : Move ModuleRegistry StoreCall} (hm : m ∈ ms) :
    ∃ v, reg.get m.ev.name m.ev.version = some v := by
  obtain ⟨before, after, rfl⟩ := List.append_of_mem hm
  have hpre := h.at_move.1
  -- In both cases some call up to `m` has stored under the key, and that stays.
  have hstored : ∃ m' ∈ before ++ m :: after,
      ModuleRegistry.key m'.ev.name m'.ev.version = ModuleRegistry.key m.ev.name m.ev.version ∧
        ∃ info, (m'.ev.run X m'.pre).1 = .ok info := by
    cases hres : (m.ev.run X m.pre).1 with
    | ok info => exact ⟨m, hm, rfl, info, hres⟩
    | error e =>
        obtain ⟨-, ⟨info, bytes⟩, hv⟩ := StoreCall.run_error_iff.mp hres
        obtain ⟨m', hm', hkey, -, hok⟩ := (lookup_iff_stored hpre _ info bytes).mp hv
        exact ⟨m', List.mem_append_left _ hm', hkey, info, hok⟩
  obtain ⟨m', hm', hkey, info, hok⟩ := hstored
  exact ⟨(info, m'.ev.bytes), (lookup_iff_stored h _ _ _).mpr ⟨m', hm', hkey, rfl, hok⟩⟩

/-- Where the calls have no colons, the registry returns what was stored for the pair. -/
theorem get_iff_stored (h : Run (ModuleRegistry.step X) .new ms reg)
    (hfree : ∀ m ∈ ms, ColonFree m.ev.name ∧ ColonFree m.ev.version) (name version : String)
    (info : ModuleMetadata) (bytes : Bytes) :
    reg.get name version = some (info, bytes) ↔ Stored X ms name version info bytes := by
  rw [ModuleRegistry.get, lookup_iff_stored h]
  constructor
  · rintro ⟨m, hm, hkey, hbytes, hok⟩
    obtain ⟨hn, hv⟩ := ModuleRegistry.key_inj (hfree m hm).1 (hfree m hm).2 hkey
    exact ⟨m, hm, hn, hv, hbytes, hok⟩
  · rintro ⟨m, hm, rfl, rfl, hbytes, hok⟩
    exact ⟨m, hm, rfl, hbytes, hok⟩

/-- After any sequence of stores, the registry is the map of the stored pairs exactly if no
name and no version in the sequence has a colon. -/
theorem refinesPairs_iff (h : Run (ModuleRegistry.step X) .new ms reg) :
    RefinesPairs X ms reg ↔ ∀ m ∈ ms, ColonFree m.ev.name ∧ ColonFree m.ev.version := by
  constructor
  · intro hrefines m hm
    by_contra hcolon
    obtain ⟨⟨info, bytes⟩, hv⟩ := lookup_of_call h hm
    obtain ⟨name', version', hkey, hne⟩ := ModuleRegistry.key_shared hcolon
    have hv' : reg.get name' version' = some (info, bytes) := by
      rw [ModuleRegistry.get, hkey]
      exact hv
    have hname := (hrefines.names _ _ _ _ hv).1
    have hname' := (hrefines.names _ _ _ _ hv').1
    exact hne (hname'.symm.trans hname)
  · intro hfree
    refine ⟨get_iff_stored h hfree, ?_, ?_, ?_⟩
    · intro name version info bytes hv
      obtain ⟨m, -, rfl, rfl, -, hok⟩ := (get_iff_stored h hfree _ _ _ _).mp hv
      exact StoreCall.run_ok hok
    · rintro before m after rfl
      have hpre := h.at_move.1
      have hfree' := fun m' hm' => hfree m' (List.mem_append_left _ hm')
      rw [StoreCall.run_error_iff]
      simp [← get_iff_stored hpre hfree']
    · intro m hm e he
      have hpost := Option.some.inj (h.step_of_mem hm)
      obtain ⟨-, hv⟩ := StoreCall.run_error_iff.mp he
      obtain ⟨-, hrun⟩ | ⟨hnone, -⟩ := ModuleRegistry.store_cases X m.ev.id m.ev.createdAt
        m.ev.name m.ev.version m.ev.bytes m.pre
      · rw [← hpost, show m.ev.run X m.pre = _ from hrun]
      · rw [hnone] at hv
        obtain ⟨v, hv⟩ := hv
        cases hv

/-- Two versions of one module, the first of them stored twice. -/
def storedTwice : List StoreCall :=
  [⟨"1", 0, "a", "1", []⟩, ⟨"2", 0, "a", "2", []⟩, ⟨"3", 0, "a", "1", []⟩]

theorem storedTwice_refines :
    ∃ reg, Run (ModuleRegistry.step .sample) .new
        (moves (ModuleRegistry.step .sample) .new storedTwice) reg ∧
      RefinesPairs .sample (moves (ModuleRegistry.step .sample) .new storedTwice) reg := by
  have htest : (exec (ModuleRegistry.step .sample) .new storedTwice).any
      (fun _ => true) = true := by decide
  obtain ⟨reg, h, -⟩ := exec_any_run htest
  exact ⟨reg, h, (refinesPairs_iff h).mpr (by decide)⟩

/-- The module `a:b` in version `c` is stored, and then `a` in version `b:c`. -/
def sharedKey : List StoreCall :=
  [⟨"1", 0, "a:b", "c", []⟩, ⟨"2", 0, "a", "b:c", []⟩]

/-- The second store fails, and its pair is found with the name of the first. -/
theorem sharedKey_not_refines :
    ∃ reg, Run (ModuleRegistry.step .sample) .new
        (moves (ModuleRegistry.step .sample) .new sharedKey) reg ∧
      reg.get "a" "b:c" = some (⟨"1", "a:b", "c", 0, 0, "e3b0"⟩, []) ∧
      ¬ RefinesPairs .sample (moves (ModuleRegistry.step .sample) .new sharedKey) reg := by
  have htest : (exec (ModuleRegistry.step .sample) .new sharedKey).any
      (fun reg => reg.get "a" "b:c" = some (⟨"1", "a:b", "c", 0, 0, "e3b0"⟩, [])) = true := by
    decide
  obtain ⟨reg, h, hget⟩ := exec_any_run htest
  have hget := of_decide_eq_true hget
  refine ⟨reg, h, hget, fun hrefines => ?_⟩
  have hname := (hrefines.names _ _ _ _ hget).1
  exact absurd hname (by decide)

end FerroEdge.ControlPlane
