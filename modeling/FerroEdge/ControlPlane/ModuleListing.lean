import FerroEdge.ControlPlane.RegistryMap
import FerroEdge.ControlPlane.System
import FerroEdge.Machine.Sort

/-!
# The listing of the registry

`list` collects the metadata of all entries and sorts it by name and version.  The entries come
in the order of the hash map, and the map is keyed by `name:version` and not by what the listing
is sorted by.  Still no two entries of a registry agree in name and version, since the key of an
entry is made of the two: the comparator never ties, and the listing does not depend on the order
of the map.
-/

namespace FerroEdge.ControlPlane

open Machine

/-- The comparator of `list`: by name, then by version. -/
def cmpModules (a b : ModuleMetadata) : Ordering :=
  (strCmp a.name b.name).then (strCmp a.version b.version)

/-- `list`. -/
def ModuleRegistry.list (reg : ModuleRegistry) : List ModuleMetadata :=
  sortBy cmpModules (reg.modules.values.map fun v => v.1)

/-- The metadata that the successful calls have returned, in the order of the calls. -/
def storedModules (X : Externals) (ms : List (Move ModuleRegistry StoreCall)) :
    List ModuleMetadata :=
  ms.filterMap fun m => (m.ev.run X m.pre).1.toOption

/-- The lexicographic order of name and version. -/
def PairLt (a b : ModuleMetadata) : Prop :=
  a.name < b.name ∨ a.name = b.name ∧ a.version < b.version

/-- The listing of a registry after these calls. -/
structure CanonicalListing (X : Externals) (ms : List (Move ModuleRegistry StoreCall))
    (reg : ModuleRegistry) : Prop where
  orderFree : ∀ modules modules' : HashMap String (ModuleMetadata × Bytes),
    modules.entries.Perm reg.modules.entries → modules'.entries.Perm reg.modules.entries →
    (ModuleRegistry.mk modules).list = (ModuleRegistry.mk modules').list
  increasing : reg.list.Pairwise PairLt
  /-- The listing has one entry for each successful store, and nothing else. -/
  complete : reg.list.Perm (storedModules X ms)
  once : ∀ m ∈ ms, ∀ info, (m.ev.run X m.pre).1 = .ok info → reg.list.count info = 1

/-! ## The comparator -/

theorem cmpModules_eq : cmpModules =
    compareLex (compareOn ModuleMetadata.name) (compareOn ModuleMetadata.version) := by
  funext a b
  rw [cmpModules, strCmp_eq_compare, strCmp_eq_compare]
  rfl

instance : Std.TransCmp cmpModules := by
  rw [cmpModules_eq]
  infer_instance

theorem cmpModules_eq_eq {a b : ModuleMetadata} :
    cmpModules a b = .eq ↔ a.name = b.name ∧ a.version = b.version := by
  rw [cmpModules, Ordering.then_eq_eq, strCmp_eq_compare, strCmp_eq_compare,
    Std.LawfulEqOrd.compare_eq_iff_eq, Std.LawfulEqOrd.compare_eq_iff_eq]

theorem cmpModules_eq_lt {a b : ModuleMetadata} : cmpModules a b = .lt ↔ PairLt a b := by
  rw [cmpModules, Ordering.then_eq_lt, strCmp_lt_iff, strCmp_lt_iff, strCmp_eq_compare,
    Std.LawfulEqOrd.compare_eq_iff_eq]
  rfl

/-! ## The entries -/

variable {X : Externals} {ms : List (Move ModuleRegistry StoreCall)} {reg : ModuleRegistry}

/-- The key of an entry is made of its name and version. -/
theorem key_of_entry (h : Run (ModuleRegistry.step X) .new ms reg)
    {e : Sigma fun _ : String => ModuleMetadata × Bytes} (he : e ∈ reg.modules.entries) :
    e.1 = ModuleRegistry.key e.2.1.name e.2.1.version := by
  obtain ⟨key, info, bytes⟩ := e
  have hlookup : reg.modules.lookup key = some (info, bytes) := AList.mem_lookup_iff.mpr he
  obtain ⟨m, -, hkey, -, hok⟩ := (lookup_iff_stored h key info bytes).mp hlookup
  obtain ⟨hname, hversion⟩ := StoreCall.run_ok hok
  rw [hname, hversion]
  exact hkey.symm

/-- No two entries tie. -/
theorem modules_pairwise_ne (h : Run (ModuleRegistry.step X) .new ms reg) :
    (reg.modules.values.map fun v => v.1).Pairwise fun a b => cmpModules a b ≠ .eq := by
  have hkeys := List.nodupKeys_iff_pairwise.mp reg.modules.nodupKeys
  rw [HashMap.values, List.map_map, List.pairwise_map]
  refine hkeys.imp_of_mem fun {a b} ha hb hne heq => hne ?_
  obtain ⟨hname, hversion⟩ := cmpModules_eq_eq.mp heq
  have ha := key_of_entry h ha
  have hb := key_of_entry h hb
  rw [ha, hb]
  exact congrArg₂ _ hname hversion

/-- The entries are those of the successful calls. -/
theorem modules_perm_stored (h : Run (ModuleRegistry.step X) .new ms reg) :
    (reg.modules.values.map fun v => v.1).Perm (storedModules X ms) := by
  induction h with
  | nil => exact .nil
  | @snoc ms reg reg' call _ hs ih =>
      have hpost : reg' = (call.run X reg).2 := (Option.some.inj hs).symm
      have hstored : storedModules X (ms ++ [⟨reg, call, reg'⟩]) =
          storedModules X ms ++ (call.run X reg).1.toOption.toList := by
        rw [storedModules, List.filterMap_append, List.filterMap_cons, List.filterMap_nil]
        cases (call.run X reg).1.toOption <;> rfl
      rw [hstored, hpost]
      obtain ⟨-, hrun⟩ | ⟨hnone, hrun⟩ := ModuleRegistry.store_cases X call.id call.createdAt
        call.name call.version call.bytes reg
      · rw [show call.run X reg = _ from hrun]
        change List.Perm _ (_ ++ [])
        rw [List.append_nil]
        exact ih
      · have hnot := AList.lookup_eq_none.mp hnone
        rw [show call.run X reg = _ from hrun]
        dsimp only
        rw [HashMap.values, AList.entries_insert_of_notMem hnot, List.map_cons, List.map_cons]
        exact (List.Perm.cons _ ih).trans (List.perm_append_singleton _ _).symm

/-- The registry of a running control plane is one that calls of `store` reach. -/
theorem moduleRegistry_reachable {url strategy : String} {ns : List (Move Sys Event)} {s : Sys}
    (h : Run (Sys.step X) (Sys.init url strategy) ns s) :
    ∃ ms, Run (ModuleRegistry.step X) .new ms s.shared.app.moduleRegistry := by
  refine h.always (I := fun s =>
    ∃ ms, Run (ModuleRegistry.step X) .new ms s.shared.app.moduleRegistry) ⟨[], .nil⟩ ?_
  rintro s e t ⟨ms, hms⟩ hs
  obtain heq | ⟨id, createdAt, name, version, bytes, heq⟩ := (Sys.step_inv hs).registry_inv
  · rw [heq]
    exact ⟨ms, hms⟩
  · rw [heq]
    exact ⟨_, hms.snoc (e := ⟨id, createdAt, name, version, bytes⟩) rfl⟩

/-! ## The listing -/

/-- The listing after the calls of a run. -/
theorem CanonicalListing.of_run (h : Run (ModuleRegistry.step X) .new ms reg) :
    CanonicalListing X ms reg := by
  have hne := modules_pairwise_ne h
  have hperm := (sortBy_perm cmpModules _).trans (modules_perm_stored h)
  have hincreasing : reg.list.Pairwise PairLt :=
    (sortBy_increasing hne).imp cmpModules_eq_lt.mp
  have hlist : ∀ modules : HashMap String (ModuleMetadata × Bytes),
      modules.entries.Perm reg.modules.entries → reg.list = (ModuleRegistry.mk modules).list :=
    fun modules hentries => sortBy_eq_of_perm hne ((hentries.symm.map _).map _)
  refine ⟨?_, hincreasing, hperm, ?_⟩
  · intro modules modules' hentries hentries'
    rw [← hlist modules hentries, ← hlist modules' hentries']
  · intro m hm info hok
    have hmem : info ∈ storedModules X ms := List.mem_filterMap.mpr ⟨m, hm, by rw [hok]; rfl⟩
    have hnodup : reg.list.Nodup := (sortBy_increasing hne).imp fun hlt heq => by
      rw [heq, cmpModules_eq_eq.mpr ⟨rfl, rfl⟩] at hlt
      cases hlt
    exact List.count_eq_one_of_mem hnodup (hperm.mem_iff.mpr hmem)

/-- After any sequence of stores the listing is the same in every order of the map, increases
strictly and has every stored module once.  The registry of a running control plane is one that
stores have led to, so its listing is of this kind. -/
theorem list_canonical (X : Externals) :
    (∀ ms reg, Run (ModuleRegistry.step X) .new ms reg → CanonicalListing X ms reg) ∧
    ∀ url strategy ns s, Run (Sys.step X) (Sys.init url strategy) ns s →
      ∃ ms, Run (ModuleRegistry.step X) .new ms s.shared.app.moduleRegistry ∧
        CanonicalListing X ms s.shared.app.moduleRegistry := by
  refine ⟨fun ms reg h => .of_run h, fun url strategy ns s h => ?_⟩
  obtain ⟨ms, hms⟩ := moduleRegistry_reachable h
  exact ⟨ms, hms, .of_run hms⟩

/-- The second store of a pair fails, and the listing has two entries. -/
theorem storedTwice_canonical :
    ∃ reg, Run (ModuleRegistry.step .sample) .new
        (moves (ModuleRegistry.step .sample) .new storedTwice) reg ∧ reg.list.length = 2 ∧
      CanonicalListing .sample (moves (ModuleRegistry.step .sample) .new storedTwice) reg := by
  have htest : (exec (ModuleRegistry.step .sample) .new storedTwice).any
      (fun _ => true) = true := by decide
  obtain ⟨reg, h, -⟩ := exec_any_run htest
  have hcanonical := (list_canonical .sample).1 _ reg h
  exact ⟨reg, h, hcanonical.complete.length_eq.trans (by decide), hcanonical⟩

end FerroEdge.ControlPlane
