import FerroEdge.Common.Types
import FerroEdge.Machine.Lru

/-!
# The cache of compiled modules

`crates/wasm-runtime/src/cache.rs`.  The cache maps a key to a compiled module with the time
it was inserted.  It is guarded by a mutex, so each operation on `CacheInner` below is one
step.  `get_or_compile` takes the mutex twice, with the compilation in between: `GetOrCompile`
is where a call of it is.

A compiled module is represented by the bytes it was compiled from.
-/

namespace FerroEdge.WasmRuntime

open Machine

/-- `wasmtime::Module`, by the bytes it was compiled from. -/
structure Module where
  source : Bytes
deriving DecidableEq, Repr

structure CachedModule where
  module : Module
  cachedAt : Nat
  hitCount : Nat
  wasmBytes : Nat

structure CacheStats where
  size : Nat := 0
  hits : Nat := 0
  misses : Nat := 0
  evictions : Nat := 0
  totalWasmBytes : Nat := 0

structure CacheInner where
  lru : Lru String CachedModule
  stats : CacheStats
  totalWasmBytes : Nat

inductive LookupResult where
  | hit (module : Module)
  | expired
  | miss

/-- The module of a hit. -/
def LookupResult.module? : LookupResult → Option Module
  | .hit module => some module
  | .expired | .miss => none

namespace CacheInner

/-- `new_with_ttl`. -/
def new (maxSize : Nat) : CacheInner := ⟨.new (max maxSize 1) (by omega), {}, 0⟩

/-- The part that `get_cached` and the fast path of `get_or_compile` share: an entry that has
not expired is a hit, one that has is removed. -/
def lookup (ttl now : Nat) (key : String) (inner : CacheInner) : LookupResult × CacheInner :=
  match inner.lru.peek key with
  | none => (.miss, inner)
  | some entry =>
      if now - entry.cachedAt < ttl then
        (.hit entry.module, { inner with
          lru := inner.lru.getMut key fun e => { e with hitCount := e.hitCount + 1 }
          stats.hits := inner.stats.hits + 1 })
      else
        (.expired, { inner with
          lru := inner.lru.pop key
          totalWasmBytes := inner.totalWasmBytes - entry.wasmBytes
          stats.evictions := inner.stats.evictions + 1 })

/-- `get_cached`.  A miss is not counted. -/
def getCached (ttl now : Nat) (key : String) (inner : CacheInner) : Option Module × CacheInner :=
  let (result, inner) := inner.lookup ttl now key
  (result.module?, inner)

/-- The fast path of `get_or_compile`. -/
def getOrMiss (ttl now : Nat) (key : String) (inner : CacheInner) : Option Module × CacheInner :=
  let (result, inner) := inner.lookup ttl now key
  match result.module? with
  | some module => (some module, inner)
  | none => (none, { inner with stats.misses := inner.stats.misses + 1 })

/-- The last part of `get_or_compile`.  The entry that is about to be evicted is guessed from
the size of the map before the insertion. -/
def insertCompiled (now : Nat) (key : String) (wasm : Bytes) (inner : CacheInner) : CacheInner :=
  let inner :=
    -- Also counted when `put` only replaces the entry of the key.
    if inner.lru.len = inner.lru.cap then
      { inner with
        totalWasmBytes :=
          match inner.lru.peekLru with
          | some (_, evicted) => inner.totalWasmBytes - evicted.wasmBytes
          | none => inner.totalWasmBytes
        stats.evictions := inner.stats.evictions + 1 }
    else inner
  { inner with
    lru := inner.lru.put key ⟨⟨wasm⟩, now, 0, wasm.length⟩
    totalWasmBytes := inner.totalWasmBytes + wasm.length }

def invalidate (key : String) (inner : CacheInner) : CacheInner :=
  { inner with lru := inner.lru.pop key }

/-- The snapshot that `stats` returns. -/
def statsSnapshot (inner : CacheInner) : CacheStats :=
  { inner.stats with size := inner.lru.len, totalWasmBytes := inner.totalWasmBytes }

/-- The entry that a lookup finds, if it has not expired. -/
def valid (ttl now : Nat) (key : String) (inner : CacheInner) : Option CachedModule :=
  (inner.lru.peek key).filter fun entry => now - entry.cachedAt < ttl

variable {ttl now : Nat} {key : String} {inner : CacheInner}

/-- A lookup finds no entry, finds one and uses it, or finds one that has expired and removes
it. -/
theorem lookup_cases (ttl now : Nat) (key : String) (inner : CacheInner) :
    (inner.lru.peek key = none ∧ inner.lookup ttl now key = (.miss, inner)) ∨
    (∃ entry, inner.lru.peek key = some entry ∧ now - entry.cachedAt < ttl ∧
      inner.lookup ttl now key = (.hit entry.module, { inner with
        lru := inner.lru.getMut key fun e => { e with hitCount := e.hitCount + 1 }
        stats.hits := inner.stats.hits + 1 })) ∨
    (∃ entry, inner.lru.peek key = some entry ∧ ttl ≤ now - entry.cachedAt ∧
      inner.lookup ttl now key = (.expired, { inner with
        lru := inner.lru.pop key
        totalWasmBytes := inner.totalWasmBytes - entry.wasmBytes
        stats.evictions := inner.stats.evictions + 1 })) := by
  unfold lookup
  cases inner.lru.peek key with
  | none => exact Or.inl ⟨rfl, rfl⟩
  | some entry =>
      dsimp only
      split
      case isTrue hvalid => exact Or.inr (Or.inl ⟨entry, rfl, hvalid, rfl⟩)
      case isFalse hexpired =>
        exact Or.inr (Or.inr ⟨entry, rfl, Nat.le_of_not_lt hexpired, rfl⟩)

theorem lookup_module? :
    (inner.lookup ttl now key).1.module? = (inner.valid ttl now key).map CachedModule.module := by
  unfold lookup valid
  cases inner.lru.peek key with
  | none => rfl
  | some entry =>
      by_cases h : now - entry.cachedAt < ttl
      · simp [h, Option.filter, LookupResult.module?]
      · simp [h, Option.filter, LookupResult.module?]

theorem getCached_fst :
    (inner.getCached ttl now key).1 = (inner.valid ttl now key).map CachedModule.module :=
  lookup_module?

theorem getOrMiss_fst :
    (inner.getOrMiss ttl now key).1 = (inner.valid ttl now key).map CachedModule.module := by
  rw [← lookup_module?]
  unfold getOrMiss
  dsimp only
  split <;> simp only [*]

theorem insertCompiled_lru {wasm : Bytes} :
    (inner.insertCompiled now key wasm).lru =
      inner.lru.put key ⟨⟨wasm⟩, now, 0, wasm.length⟩ := by
  unfold insertCompiled
  dsimp only
  split <;> rfl

/-! ## What the cache holds -/

/-- Every entry, expired or not, satisfies `P`. -/
def All (P : String → Module → Prop) (inner : CacheInner) : Prop :=
  ∀ key entry, (key, entry) ∈ inner.lru.entries → P key entry.module

variable {P : String → Module → Prop}

theorem All.valid {entry : CachedModule} (h : inner.All P)
    (hv : inner.valid ttl now key = some entry) : P key entry.module :=
  h key entry (Lru.mem_of_peek (Option.filter_eq_some_iff.mp hv).1)

theorem All.lookup (h : inner.All P) : (inner.lookup ttl now key).2.All P := by
  obtain ⟨-, hinner⟩ | ⟨entry, -, -, hinner⟩ | ⟨entry, -, -, hinner⟩ :=
    lookup_cases ttl now key inner <;> rw [hinner]
  · exact h
  · intro key' entry' hm
    obtain hold | ⟨old, hold, rfl⟩ := Lru.mem_getMut hm
    · exact h key' entry' hold
    · exact h key' old hold
  · exact fun key' entry' hm => h key' entry' (Lru.mem_pop hm)

theorem All.getOrMiss (h : inner.All P) : (inner.getOrMiss ttl now key).2.All P := by
  unfold CacheInner.getOrMiss
  dsimp only
  split <;> exact h.lookup

theorem All.insertCompiled {wasm : Bytes} (h : inner.All P) (hm : P key ⟨wasm⟩) :
    (inner.insertCompiled now key wasm).All P := by
  intro key' entry' hmem
  rw [insertCompiled_lru] at hmem
  obtain heq | hold := Lru.mem_put hmem
  · cases heq
    exact hm
  · exact h key' entry' hold

end CacheInner

/-! ## Calls of `get_or_compile` -/

/-- Where a call of `get_or_compile` is. -/
inductive GetOrCompile where
  | lookup
  | compile
  | insert
deriving DecidableEq, Repr

namespace GetOrCompile

/-- One step of `get_or_compile`: the cache after it, and where the call goes on or what it
returns. -/
def step (X : Externals) (ttl now : Nat) (key : String) (wasm : Bytes) (inner : CacheInner) :
    GetOrCompile → CacheInner × (GetOrCompile ⊕ Except WasmError Module)
  | .lookup =>
      let (found, inner) := inner.getOrMiss ttl now key
      (inner, match found with
        | some module => .inr (.ok module)
        | none => .inl .compile)
  | .compile =>
      (inner, match X.compile wasm with
        | .error e => .inr (.error (.compilationFailed e))
        | .ok () => .inl .insert)
  | .insert => (inner.insertCompiled now key wasm, .inr (.ok ⟨wasm⟩))

variable {X : Externals} {ttl now : Nat} {key : String} {wasm : Bytes} {inner : CacheInner}
  {g : GetOrCompile} {module : Module}

theorem step_all {P : String → Module → Prop} (h : inner.All P) (hw : P key ⟨wasm⟩) :
    (g.step X ttl now key wasm inner).1.All P := by
  cases g with
  | lookup => exact h.getOrMiss
  | compile => exact h
  | insert => exact h.insertCompiled hw

/-- A call returns the entry it found or the module it compiled. -/
theorem step_ok (h : (g.step X ttl now key wasm inner).2 = .inr (.ok module)) :
    (g = .lookup ∧ ∃ entry, inner.valid ttl now key = some entry ∧ entry.module = module) ∨
      (g = .insert ∧ module = ⟨wasm⟩) := by
  cases g with
  | lookup =>
      simp only [step, CacheInner.getOrMiss_fst] at h
      cases hv : inner.valid ttl now key with
      | none => rw [hv] at h; cases h
      | some entry =>
          rw [hv] at h
          cases h
          exact Or.inl ⟨rfl, entry, rfl, rfl⟩
  | compile =>
      simp only [step] at h
      cases hc : X.compile wasm with
      | error e => rw [hc] at h; cases h
      | ok => rw [hc] at h; cases h
  | insert =>
      cases h
      exact Or.inr ⟨rfl, rfl⟩

theorem step_lookup {entry : CachedModule} (h : inner.valid ttl now key = some entry) :
    (GetOrCompile.lookup.step X ttl now key wasm inner).2 = .inr (.ok entry.module) := by
  simp only [step, CacheInner.getOrMiss_fst, h]
  rfl

/-- A call fails only because its bytes do not compile. -/
theorem step_error {e : WasmError}
    (h : (g.step X ttl now key wasm inner).2 = .inr (.error e)) :
    g = .compile ∧ ∃ text, X.compile wasm = .error text := by
  cases g with
  | lookup =>
      simp only [step] at h
      split at h <;> cases h
  | compile =>
      simp only [step] at h
      cases hc : X.compile wasm with
      | error text => exact ⟨rfl, text, rfl⟩
      | ok => rw [hc] at h; cases h
  | insert => cases h

/-- The call goes on to the insertion only with bytes that compile. -/
theorem step_insert (h : (g.step X ttl now key wasm inner).2 = .inl .insert) :
    X.compile wasm = .ok () := by
  cases g with
  | lookup =>
      simp only [step] at h
      split at h <;> cases h
  | compile =>
      simp only [step] at h
      cases hc : X.compile wasm with
      | error text => rw [hc] at h; cases h
      | ok => rfl
  | insert => cases h

end GetOrCompile

end FerroEdge.WasmRuntime
