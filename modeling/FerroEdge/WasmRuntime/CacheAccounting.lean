import FerroEdge.WasmRuntime.CacheSystem
import Mathlib.Algebra.GroupWithZero.Nat

/-!
# The books of the cache

The cache keeps two numbers by hand: the sum of the sizes of its modules and the number of
evictions.  Neither is right in every run.

* The sum is changed by what an operation is expected to remove.  An insertion subtracts the
  size of the least recently used entry when the map is full, whether or not that entry goes,
  and never the size of the entry it replaces.  `invalidate` subtracts nothing.
* An insertion into a full map counts an eviction, also when it only replaces the entry of its
  key.  Two calls of `get_or_compile` for one key that miss together end in such an insertion.

`balanced_iff` and `evictions_iff` say that these are the only ways to go wrong.
-/

namespace FerroEdge.WasmRuntime

open Machine

/-! ## Sizes -/

/-- The sum of the sizes of the modules in the map. -/
def CacheInner.cachedBytes (inner : CacheInner) : Nat :=
  (inner.lru.entries.map fun e => e.2.wasmBytes).sum

def CacheInner.Balanced (inner : CacheInner) : Prop := inner.totalWasmBytes = inner.cachedBytes

instance (inner : CacheInner) : Decidable inner.Balanced := inferInstanceAs (Decidable (_ = _))

/-- What an insertion subtracts: the size of the entry that goes if its key is new. -/
def CacheInner.guess (inner : CacheInner) : Nat :=
  if inner.lru.len = inner.lru.cap then
    match inner.lru.peekLru with
    | some (_, evicted) => evicted.wasmBytes
    | none => 0
  else 0

/-- The entry that an operation removes without regard to its size is as large as what the
operation subtracts. -/
def CacheInner.Settled (inner : CacheInner) : CacheOp → Prop
  | .lookup _ => True
  | .insert key _ => ∀ old ∈ inner.lru.peek key, old.wasmBytes = inner.guess
  | .invalidate key => ∀ old ∈ inner.lru.peek key, old.wasmBytes = 0

instance (inner : CacheInner) : (o : CacheOp) → Decidable (inner.Settled o)
  | .lookup _ => inferInstanceAs (Decidable True)
  | .insert _ _ => inferInstanceAs (Decidable (∀ old ∈ _, _))
  | .invalidate _ => inferInstanceAs (Decidable (∀ old ∈ _, _))

/-- Every operation of the run is settled in the state it finds. -/
def SettledMove (m : Move CacheSys CacheEvent) : Prop :=
  ∀ o ∈ m.pre.op m.ev, m.pre.inner.Settled o

instance (m : Move CacheSys CacheEvent) : Decidable (SettledMove m) :=
  inferInstanceAs (Decidable (∀ o ∈ _, _))

namespace CacheInner

variable {ttl now : Nat} {key : String} {wasm : Bytes} {inner : CacheInner} {o : CacheOp}
  {entry : CachedModule}

theorem insertCompiled_totalWasmBytes :
    (inner.insertCompiled now key wasm).totalWasmBytes =
      inner.totalWasmBytes - inner.guess + wasm.length := by
  unfold insertCompiled guess
  dsimp only
  split
  · cases inner.lru.peekLru <;> rfl
  · rfl

theorem insertCompiled_evictions :
    (inner.insertCompiled now key wasm).stats.evictions =
      inner.stats.evictions + if inner.lru.len = inner.lru.cap then 1 else 0 := by
  unfold insertCompiled
  dsimp only
  split <;> rfl

/-- The size of an entry and those of the others. -/
theorem cachedBytes_of_peek (h : inner.lru.peek key = some entry) :
    inner.cachedBytes = entry.wasmBytes +
      ((Lru.without key inner.lru.entries).map fun e => e.2.wasmBytes).sum := by
  have hperm := Lru.perm_cons_without inner.lru.nodupKeys (Lru.mem_of_peek h)
  rw [cachedBytes, (hperm.map _).sum_nat, List.map_cons, List.sum_cons]

theorem guess_of_full {last : String × CachedModule} (h : inner.lru.len = inner.lru.cap)
    (hlast : inner.lru.peekLru = some last) : inner.guess = last.2.wasmBytes := by
  rw [guess, if_pos h, hlast]

/-- The least recently used entry is in the map, so its size can be subtracted. -/
theorem guess_le_cachedBytes (inner : CacheInner) : inner.guess ≤ inner.cachedBytes := by
  unfold guess
  split
  · split
    case h_1 key evicted hlast =>
      rw [cachedBytes_of_peek (Lru.peek_iff_mem.mpr (List.mem_of_getLast? hlast))]
      exact Nat.le_add_right _ _
    case h_2 => exact Nat.zero_le _
  · exact Nat.zero_le _

/-- What the map weighs after an insertion. -/
theorem cachedBytes_insertCompiled (now : Nat) (key : String) (wasm : Bytes)
    (inner : CacheInner) :
    (inner.insertCompiled now key wasm).cachedBytes +
      (match inner.lru.peek key with
        | some old => old.wasmBytes
        | none => inner.guess) = inner.cachedBytes + wasm.length := by
  rw [cachedBytes, insertCompiled_lru]
  obtain ⟨old, hp, hput⟩ | ⟨hp, hroom, hput⟩ | ⟨hp, hfull, last, init, hlast, hsplit, hput⟩ :=
    Lru.put_cases key ⟨⟨wasm⟩, now, 0, wasm.length⟩ inner.lru
  · rw [hput, hp, cachedBytes_of_peek hp]
    simp only [List.map_cons, List.sum_cons]
    omega
  · rw [hput, hp, guess, if_neg hroom, cachedBytes]
    simp only [List.map_cons, List.sum_cons]
    omega
  · rw [hput, hp, guess_of_full hfull hlast, cachedBytes, hsplit]
    simp only [List.map_cons, List.sum_cons, List.map_append, List.sum_append, List.map_nil,
      List.sum_nil]
    omega

theorem balanced_lookup (h : inner.Balanced) : (inner.lookup ttl now key).2.Balanced := by
  rw [Balanced] at h
  obtain ⟨-, hinner⟩ | ⟨entry, hp, -, hinner⟩ | ⟨entry, hp, -, hinner⟩ :=
    lookup_cases ttl now key inner <;> rw [hinner, Balanced, h]
  · rw [cachedBytes_of_peek hp, cachedBytes, Lru.entries_getMut hp, List.map_cons, List.sum_cons]
  · rw [cachedBytes_of_peek hp, Nat.add_sub_cancel_left]
    rfl

/-- An operation keeps the sum right exactly if it is settled. -/
theorem balanced_apply (h : inner.Balanced) :
    (inner.apply ttl now o).Balanced ↔ inner.Settled o := by
  cases o with
  | lookup key => exact iff_of_true (balanced_lookup h) trivial
  | insert key wasm =>
      have hguess := guess_le_cachedBytes inner
      have hbytes := cachedBytes_insertCompiled now key wasm inner
      rw [Balanced] at h
      simp only [apply, Balanced, Settled, insertCompiled_totalWasmBytes, h]
      cases hp : inner.lru.peek key with
      | none =>
          simp only [hp] at hbytes
          exact iff_of_true (by omega) (by simp)
      | some old =>
          simp only [hp] at hbytes
          simp only [Option.mem_def, Option.some.injEq, forall_eq']
          omega
  | invalidate key =>
      rw [Balanced] at h
      simp only [apply, Balanced, Settled, invalidate, h]
      cases hp : inner.lru.peek key with
      | none =>
          refine iff_of_true ?_ (by simp)
          simp only [cachedBytes, Lru.pop, Lru.without_of_peek_none hp]
      | some old =>
          rw [cachedBytes_of_peek hp]
          simp only [Option.mem_def, Option.some.injEq, forall_eq', cachedBytes, Lru.pop]
          omega

end CacheInner

variable {X : Externals} {ttl maxSize : Nat} {s t : CacheSys} {e : CacheEvent}
  {ms : List (Move CacheSys CacheEvent)}

theorem CacheSys.Step.balanced_iff_settled (h : CacheSys.Step ttl s e t)
    (hs : s.inner.Balanced) : t.inner.Balanced ↔ SettledMove ⟨s, e, t⟩ := by
  cases h with
  | quiet hop hinner =>
      rw [hinner]
      exact iff_of_true hs (by simp [SettledMove, hop])
  | op hop hinner =>
      simp only [SettledMove, hop, Option.mem_def, Option.some.injEq, forall_eq']
      rw [← CacheInner.balanced_apply hs, hinner]
      rfl

/-- In every run the sum of the sizes is right in every state exactly if every operation was
settled. -/
theorem balanced_iff (h : Run (CacheSys.step X ttl) (.init maxSize) ms s) :
    (∀ m ∈ ms, m.post.inner.Balanced) ↔ ∀ m ∈ ms, SettledMove m := by
  refine h.invariant_iff (I := fun s => s.inner.Balanced) rfl fun s e t hs hstep => ?_
  exact (CacheSys.step_inv hstep).balanced_iff_settled hs

/-- The three steps of a call of `get_or_compile` that misses. -/
def compiling (i : Nat) : List CacheEvent := List.replicate 3 (.run i)

/-- Two modules are compiled in turn, the second into a full cache, and expire. -/
def inTurn : List CacheEvent :=
  .getOrCompile "a" [0, 0] :: compiling 0 ++ .getOrCompile "b" [0, 0, 0] :: compiling 1 ++
    [.tick 5, .getCached "b", .run 2]

theorem inTurn_balanced :
    ∃ s, Run (CacheSys.step .sample 5) (.init 1) (moves (CacheSys.step .sample 5) (.init 1) inTurn)
        s ∧
      ∀ m ∈ moves (CacheSys.step .sample 5) (.init 1) inTurn, m.post.inner.Balanced := by
  have htest : (exec (CacheSys.step .sample 5) (.init 1) inTurn).any (fun _ => true) = true := by
    decide
  obtain ⟨s, h, -⟩ := exec_any_run htest
  exact ⟨s, h, (balanced_iff h).mpr (by decide)⟩

/-- Two calls miss on one key together, and both insert it. -/
def together : List CacheEvent :=
  [.getOrCompile "a" [0, 0], .getOrCompile "a" [0, 0], .run 0, .run 1, .run 0, .run 1, .run 0,
    .run 1]

/-- With room in the cache, the replaced entry stays in the sum. -/
theorem together_not_balanced :
    ∃ s, Run (CacheSys.step .sample 5) (.init 2)
        (moves (CacheSys.step .sample 5) (.init 2) together) s ∧
      s.inner.totalWasmBytes = 4 ∧ s.inner.cachedBytes = 2 := by
  have htest : (exec (CacheSys.step .sample 5) (.init 2) together).any (fun s =>
      s.inner.totalWasmBytes == 4 && s.inner.cachedBytes == 2) = true := by decide
  obtain ⟨s, h, hs⟩ := exec_any_run htest
  exact ⟨s, h, by simpa using hs⟩

/-! ## Evictions -/

/-- An operation that removes this entry evicts it: the entry has expired and the operation is
a lookup, or the map is full and the operation is an insertion. -/
def CacheInner.evicts (ttl now : Nat) (inner : CacheInner) (entry : CachedModule) :
    CacheOp → Bool
  | .lookup _ => ttl ≤ now - entry.cachedAt
  | .insert _ _ => inner.lru.len = inner.lru.cap
  | .invalidate _ => false

/-- The number of entries that are in the map before a move, are gone after it, and have been
evicted. -/
def removals (ttl : Nat) (m : Move CacheSys CacheEvent) : Nat :=
  match m.pre.op m.ev with
  | none => 0
  | some o => m.pre.inner.lru.entries.countP fun entry =>
      (m.post.inner.lru.peek entry.1).isNone && m.pre.inner.evicts ttl m.pre.now entry.2 o

/-- The operation inserts a key that is present into a full map. -/
def CacheInner.replaces (inner : CacheInner) : CacheOp → Bool
  | .insert key _ => (inner.lru.peek key).isSome && decide (inner.lru.len = inner.lru.cap)
  | .lookup _ | .invalidate _ => false

def replacingMove (m : Move CacheSys CacheEvent) : Bool :=
  (m.pre.op m.ev).any m.pre.inner.replaces

section

variable {l : Lru String CachedModule} {entries rest : List (String × CachedModule)}
  {entry : String × CachedModule} {p : String × CachedModule → Bool}

/-- None of the entries is removed when their keys are still there. -/
theorem countP_kept (h : ∀ e ∈ entries, ∃ v, (e.1, v) ∈ l.entries) :
    entries.countP (fun e => (l.peek e.1).isNone && p e) = 0 := by
  refine List.countP_eq_zero.mpr fun e he => ?_
  have hsome := Lru.isSome_peek.mpr (h e he)
  rw [← Option.not_isNone, Bool.not_eq_true'] at hsome
  simp [hsome]

theorem countP_dropped (hperm : entries.Perm (entry :: rest)) (hgone : l.peek entry.1 = none)
    (hp : p entry = true) (hrest : ∀ e ∈ rest, ∃ v, (e.1, v) ∈ l.entries) :
    entries.countP (fun e => (l.peek e.1).isNone && p e) = 1 := by
  rw [hperm.countP_eq, List.countP_cons, countP_kept hrest, hgone, hp]
  rfl

end

namespace CacheInner

variable {ttl now : Nat} {inner : CacheInner} {o : CacheOp}

theorem evictions_lookup {key : String} :
    (inner.lookup ttl now key).2.stats.evictions = inner.stats.evictions +
      inner.lru.entries.countP fun entry =>
        ((inner.lookup ttl now key).2.lru.peek entry.1).isNone &&
          decide (ttl ≤ now - entry.2.cachedAt) := by
  obtain ⟨-, hinner⟩ | ⟨entry, hp, -, hinner⟩ | ⟨entry, hp, hexpired, hinner⟩ :=
    lookup_cases ttl now key inner <;> rw [hinner]
  · rw [countP_kept fun e he => ⟨e.2, he⟩, Nat.add_zero]
  · rw [countP_kept, Nat.add_zero]
    · rfl
    intro e he
    dsimp only
    rw [Lru.entries_getMut hp]
    exact Lru.exists_mem_cons_without he
  · have hperm := Lru.perm_cons_without inner.lru.nodupKeys (Lru.mem_of_peek hp)
    rw [countP_dropped hperm]
    · exact Lru.peek_eq_none.mpr fun v hv => (Lru.mem_without.mp hv).2 rfl
    · exact decide_eq_true hexpired
    · exact fun e he => ⟨e.2, he⟩

theorem evictions_insertCompiled {key : String} {wasm : Bytes} :
    (inner.insertCompiled now key wasm).stats.evictions = inner.stats.evictions +
      (inner.lru.entries.countP fun entry =>
        ((inner.insertCompiled now key wasm).lru.peek entry.1).isNone &&
          decide (inner.lru.len = inner.lru.cap)) +
      if inner.replaces (.insert key wasm) then 1 else 0 := by
  rw [insertCompiled_evictions, insertCompiled_lru, replaces]
  obtain ⟨old, hp, hput⟩ | ⟨hp, hroom, hput⟩ | ⟨hp, hfull, last, init, -, hsplit, hput⟩ :=
    Lru.put_cases key ⟨⟨wasm⟩, now, 0, wasm.length⟩ inner.lru
  · rw [countP_kept, hp]
    · simp
    intro e he
    rw [hput]
    exact Lru.exists_mem_cons_without he
  · rw [countP_kept fun e he => ⟨e.2, by rw [hput]; exact List.mem_cons_of_mem _ he⟩, hp]
    simp [hroom]
  · have hperm : inner.lru.entries.Perm (last :: init) := by
      rw [hsplit]
      exact List.perm_append_singleton last init
    rw [countP_dropped hperm, hp]
    · simp [hfull]
    · -- Its key is not the new one, and keys come once.
      have hnodup := hperm.map Prod.fst |>.nodup_iff.mp inner.lru.nodupKeys
      have hmem : last ∈ inner.lru.entries := hperm.mem_iff.mpr List.mem_cons_self
      refine Lru.peek_eq_none.mpr fun v hv => ?_
      rw [hput] at hv
      obtain heq | hv := List.mem_cons.mp hv
      · obtain ⟨rfl, -⟩ := Prod.mk.inj heq
        exact Lru.peek_eq_none.mp hp _ hmem
      · exact (List.nodup_cons.mp hnodup).1 (List.mem_map.mpr ⟨_, hv, rfl⟩)
    · exact decide_eq_true hfull
    · exact fun e he => ⟨e.2, by rw [hput]; exact List.mem_cons_of_mem _ he⟩

/-- An operation counts the evictions it makes, and one more if it replaces an entry of a full
map. -/
theorem evictions_apply :
    (inner.apply ttl now o).stats.evictions = inner.stats.evictions +
      (inner.lru.entries.countP fun entry =>
        ((inner.apply ttl now o).lru.peek entry.1).isNone && inner.evicts ttl now entry.2 o) +
      if inner.replaces o then 1 else 0 := by
  cases o with
  | lookup key => exact evictions_lookup
  | insert key wasm => exact evictions_insertCompiled
  | invalidate key => simp [apply, invalidate, evicts, replaces]

end CacheInner

theorem CacheSys.Step.evictions (h : CacheSys.Step ttl s e t) :
    t.inner.stats.evictions = s.inner.stats.evictions + removals ttl ⟨s, e, t⟩ +
      if replacingMove ⟨s, e, t⟩ then 1 else 0 := by
  cases h with
  | quiet hop hinner => simp [removals, replacingMove, hop, hinner]
  | @op o misses hop hinner =>
      simp only [removals, replacingMove, hop, hinner, Option.any_some]
      exact CacheInner.evictions_apply

/-- The counter of evictions is the number of evictions and of insertions that replaced an
entry of a full map. -/
theorem evictions_eq (h : Run (CacheSys.step X ttl) (.init maxSize) ms s) :
    s.inner.stats.evictions = (ms.map (removals ttl)).sum + ms.countP replacingMove := by
  induction h with
  | nil => rfl
  | snoc _ hs ih =>
      rw [(CacheSys.step_inv hs).evictions, ih, List.map_append, List.sum_append,
        List.countP_append, List.countP_singleton, List.map_singleton, List.sum_singleton]
      omega

/-- In every run the counter of evictions is right exactly if no key that was present was
inserted into a full map. -/
theorem evictions_iff (h : Run (CacheSys.step X ttl) (.init maxSize) ms s) :
    s.inner.stats.evictions = (ms.map (removals ttl)).sum ↔
      ∀ m ∈ ms, replacingMove m = false := by
  rw [evictions_eq h, Nat.add_eq_left, List.countP_eq_zero]
  simp

theorem inTurn_evictions :
    ∃ s, Run (CacheSys.step .sample 5) (.init 1) (moves (CacheSys.step .sample 5) (.init 1) inTurn)
        s ∧
      s.inner.stats.evictions = 2 ∧
      s.inner.stats.evictions =
        ((moves (CacheSys.step .sample 5) (.init 1) inTurn).map (removals 5)).sum := by
  have htest : (exec (CacheSys.step .sample 5) (.init 1) inTurn).any (fun s =>
      s.inner.stats.evictions == 2) = true := by decide
  obtain ⟨s, h, hs⟩ := exec_any_run htest
  exact ⟨s, h, by simpa using hs, (evictions_iff h).mpr (by decide)⟩

/-- In a cache of one, the second insertion of the key counts an eviction of nothing. -/
theorem together_evictions :
    ∃ s, Run (CacheSys.step .sample 5) (.init 1)
        (moves (CacheSys.step .sample 5) (.init 1) together) s ∧
      s.inner.stats.evictions = 1 ∧
      ((moves (CacheSys.step .sample 5) (.init 1) together).map (removals 5)).sum = 0 := by
  have htest : (exec (CacheSys.step .sample 5) (.init 1) together).any (fun s =>
      s.inner.stats.evictions == 1) = true := by decide
  obtain ⟨s, h, hs⟩ := exec_any_run htest
  exact ⟨s, h, by simpa using hs, by decide⟩

end FerroEdge.WasmRuntime
