import FerroEdge.Machine.Run
import FerroEdge.WasmRuntime.Cache

/-!
# The cache as a machine

Any number of calls of `get_cached`, `get_or_compile`, `invalidate` and `stats` work on one
cache while time passes.  A step is what a call does while it holds the mutex, so
`get_or_compile` takes up to three: its lookup, its compilation without the mutex, and its
insertion.

For the map inside, a step is one of three operations or none.  `CacheSys.op` names it, and
`CacheSys.Step` says what it does.
-/

namespace FerroEdge.WasmRuntime

open Machine

/-- What a call has returned. -/
inductive Answer where
  | cached (found : Option Module)
  | compiled (result : Except WasmError Module)
  | invalidated
  | stats (snapshot : CacheStats)

/-- A call on the cache, and where it is. -/
inductive Call where
  | getCached (key : String)
  | getOrCompile (key : String) (wasm : Bytes) (pc : GetOrCompile)
  | invalidate (key : String)
  | stats
  | returned (answer : Answer)

def Call.step (X : Externals) (ttl now : Nat) (inner : CacheInner) :
    Call → Option (CacheInner × Call)
  | .getCached key =>
      let (found, inner) := inner.getCached ttl now key
      some (inner, .returned (.cached found))
  | .getOrCompile key wasm pc =>
      match pc.step X ttl now key wasm inner with
      | (inner, .inl pc) => some (inner, .getOrCompile key wasm pc)
      | (inner, .inr result) => some (inner, .returned (.compiled result))
  | .invalidate key => some (inner.invalidate key, .returned .invalidated)
  | .stats => some (inner, .returned (.stats inner.statsSnapshot))
  | .returned _ => none

structure CacheSys where
  inner : CacheInner
  now : Nat
  calls : List Call

inductive CacheEvent where
  | getCached (key : String)
  | getOrCompile (key : String) (wasm : Bytes)
  | invalidate (key : String)
  | stats
  | tick (d : Nat)
  | run (i : Nat)

namespace CacheSys

def init (maxSize : Nat) : CacheSys := ⟨.new maxSize, 0, []⟩

def start (s : CacheSys) (call : Call) : CacheSys := { s with calls := s.calls ++ [call] }

def step (X : Externals) (ttl : Nat) (s : CacheSys) : CacheEvent → Option CacheSys
  | .getCached key => some (s.start (.getCached key))
  | .getOrCompile key wasm => some (s.start (.getOrCompile key wasm .lookup))
  | .invalidate key => some (s.start (.invalidate key))
  | .stats => some (s.start .stats)
  | .tick d => some { s with now := s.now + d }
  | .run i =>
      match s.calls[i]? with
      | none => none
      | some call =>
          (call.step X ttl s.now s.inner).map fun (inner, call') =>
            { s with inner := inner, calls := s.calls.set i call' }

end CacheSys

/-! ## What a step can be -/

/-- An operation on the map. -/
inductive CacheOp where
  /-- `get_cached`, or the fast path of `get_or_compile`. -/
  | lookup (key : String)
  /-- The end of `get_or_compile`. -/
  | insert (key : String) (wasm : Bytes)
  | invalidate (key : String)
deriving DecidableEq

/-- The operation that a call does next. -/
def Call.op : Call → Option CacheOp
  | .getCached key => some (.lookup key)
  | .getOrCompile key _ .lookup => some (.lookup key)
  | .getOrCompile key wasm .insert => some (.insert key wasm)
  | .invalidate key => some (.invalidate key)
  | .getOrCompile _ _ .compile | .stats | .returned _ => none

/-- The operation of a step. -/
def CacheSys.op (s : CacheSys) : CacheEvent → Option CacheOp
  | .run i => s.calls[i]?.bind Call.op
  | _ => none

/-- The cache after an operation. -/
def CacheInner.apply (ttl now : Nat) (inner : CacheInner) : CacheOp → CacheInner
  | .lookup key => (inner.lookup ttl now key).2
  | .insert key wasm => inner.insertCompiled now key wasm
  | .invalidate key => inner.invalidate key

/-- The steps of the machine by their operation. -/
inductive CacheSys.Step (ttl : Nat) (s : CacheSys) (e : CacheEvent) (t : CacheSys) : Prop where
  | quiet : s.op e = none → t.inner = s.inner → s.now ≤ t.now → Step ttl s e t
  /-- A miss may have been counted besides. -/
  | op {o : CacheOp} {misses : Nat} :
      s.op e = some o →
      t.inner = { s.inner.apply ttl s.now o with stats.misses := misses } →
      t.now = s.now → Step ttl s e t

variable {X : Externals} {ttl now : Nat} {inner inner' : CacheInner} {s t : CacheSys}
  {e : CacheEvent}

theorem CacheInner.getOrMiss_snd (ttl now : Nat) (key : String) (inner : CacheInner) :
    ∃ misses, (inner.getOrMiss ttl now key).2 =
      { (inner.lookup ttl now key).2 with stats.misses := misses } := by
  unfold getOrMiss
  dsimp only
  split
  · exact ⟨(inner.lookup ttl now key).2.stats.misses, rfl⟩
  · exact ⟨_, rfl⟩

theorem Call.step_inv {call call' : Call} (h : call.step X ttl now inner = some (inner', call')) :
    (call.op = none ∧ inner' = inner) ∨
    ∃ o misses, call.op = some o ∧
      inner' = { inner.apply ttl now o with stats.misses := misses } := by
  cases call with
  | getCached key =>
      cases h
      exact Or.inr ⟨_, (inner.lookup ttl now key).2.stats.misses, rfl, rfl⟩
  | getOrCompile key wasm pc =>
      have hinner : inner' = (pc.step X ttl now key wasm inner).1 := by
        simp only [Call.step] at h
        split at h <;> cases h <;> simp only [*]
      cases pc with
      | lookup =>
          obtain ⟨misses, hm⟩ := CacheInner.getOrMiss_snd ttl now key inner
          exact Or.inr ⟨_, misses, rfl, hinner.trans hm⟩
      | compile => exact Or.inl ⟨rfl, hinner⟩
      | insert =>
          exact Or.inr ⟨_, (inner.insertCompiled now key wasm).stats.misses, rfl, hinner⟩
  | invalidate key =>
      cases h
      exact Or.inr ⟨_, inner.stats.misses, rfl, rfl⟩
  | stats =>
      cases h
      exact Or.inl ⟨rfl, rfl⟩
  | returned answer => cases h

theorem CacheSys.step_inv (h : s.step X ttl e = some t) : CacheSys.Step ttl s e t := by
  cases e with
  | run i =>
      simp only [CacheSys.step] at h
      cases hi : s.calls[i]? with
      | none => simp [hi] at h
      | some call =>
          simp only [hi, Option.map_eq_some_iff] at h
          obtain ⟨⟨inner, call'⟩, hcall, rfl⟩ := h
          obtain ⟨hop, rfl⟩ | ⟨o, misses, hop, rfl⟩ := Call.step_inv hcall
          · exact .quiet (by simp [CacheSys.op, hi, hop]) rfl (Nat.le_refl _)
          · exact .op (by simp [CacheSys.op, hi, hop]) rfl rfl
  | tick d =>
      cases h
      exact .quiet rfl rfl (Nat.le_add_right _ _)
  | _ =>
      cases h
      exact .quiet rfl rfl (Nat.le_refl _)

end FerroEdge.WasmRuntime
