import FerroEdge.WasmRuntime.CacheRefinement
import Mathlib.Algebra.GroupWithZero.Nat
import Mathlib.Algebra.Order.BigOperators.Group.List
import Mathlib.Algebra.Order.Group.Nat

/-!
# What the cache counts

`stats` reports hits and misses, and each entry counts its own hits.  The calls that change these
numbers interleave: two calls of `get_or_compile` may both miss one key and replace each other's
entry, which throws away a count, and an entry may expire under a call that has found it before.

`statistics_exact` says what the numbers mean in every interleaving.  An entry counts the lookups
of its key since the insertion that made it, and no lookup of the key since then has missed.
-/

namespace FerroEdge.WasmRuntime

open Machine

/-! ## The specification -/

/-- The key that a move looks up and finds. -/
def hitKey? (ttl : Nat) (m : CacheMove) : Option String :=
  match m.pre.op m.ev with
  | some (.lookup key) =>
      if (m.pre.inner.valid ttl m.pre.now key).isSome then some key else none
  | _ => none

/-- The call is about to compile its bytes. -/
def Call.compiles : Call → Bool
  | .getOrCompile _ _ .compile => true
  | _ => false

/-- A call of `get_or_compile` goes on to its compilation. -/
def goesCompiling (m : CacheMove) : Bool :=
  match m.ev with
  | .run i => m.post.calls[i]?.any Call.compiles
  | _ => false

/-- The move neither inserts nor invalidates the key, and finds it if it looks it up. -/
def Spares (ttl : Nat) (key : String) (m : CacheMove) : Prop :=
  ∀ o, m.pre.op m.ev = some o →
    (∀ wasm, o ≠ .insert key wasm) ∧ o ≠ .invalidate key ∧
    (o = .lookup key → hitKey? ttl m = some key)

/-- The entry of the key is that of an insertion in `ms`, and has been hit as often as it says
since. -/
def Entered (ttl : Nat) (ms : List CacheMove) (key : String) (entry : CachedModule) : Prop :=
  ∃ before m after, ms = before ++ m :: after ∧
    m.pre.op m.ev = some (.insert key entry.module.source) ∧ m.pre.now = entry.cachedAt ∧
    entry.wasmBytes = entry.module.source.length ∧ (∀ n ∈ after, Spares ttl key n) ∧
    entry.hitCount = after.countP fun n => hitKey? ttl n = some key

/-- The hits of the entries in the map. -/
def CacheInner.hitCounts (inner : CacheInner) : Nat :=
  (inner.lru.entries.map fun e => e.2.hitCount).sum

/-- The counters after the moves `ms`. -/
structure Statistics (ttl : Nat) (ms : List CacheMove) (s : CacheSys) : Prop where
  hits : s.inner.stats.hits = ms.countP fun m => (hitKey? ttl m).isSome
  misses : s.inner.stats.misses = ms.countP goesCompiling
  entered : ∀ key entry, (key, entry) ∈ s.inner.lru.entries → Entered ttl ms key entry
  /-- Entries that are gone take their hits with them. -/
  hitCounts_le : s.inner.hitCounts ≤ s.inner.stats.hits

variable {X : Externals} {ttl now maxSize : Nat} {s t : CacheSys} {e : CacheEvent} {m : CacheMove}
  {ms : List CacheMove} {key key' : String} {wasm : Bytes} {entry entry' : CachedModule}
  {inner : CacheInner}

/-! ## Hits -/

theorem hitKey?_lookup (hop : s.op e = some (.lookup key)) :
    hitKey? ttl ⟨s, e, t⟩ =
      if (s.inner.valid ttl s.now key).isSome then some key else none := by
  simp only [hitKey?, hop]

theorem hitKey?_eq_none (hop : ∀ key, s.op e ≠ some (.lookup key)) :
    hitKey? ttl ⟨s, e, t⟩ = none := by
  unfold hitKey?
  split
  case h_1 key h => exact absurd h (hop key)
  case h_2 => rfl

/-- A lookup either finds no entry that is valid, and removes at most the entry of its key, or it
finds one, counts the hit and moves the entry to the front. -/
theorem CacheInner.lookup_counts (ttl now : Nat) (key : String) (inner : CacheInner) :
    (inner.valid ttl now key = none ∧ (inner.lookup ttl now key).2.stats.hits = inner.stats.hits ∧
      (inner.lookup ttl now key).2.lru.entries = Lru.without key inner.lru.entries) ∨
    ∃ entry, inner.lru.peek key = some entry ∧ inner.valid ttl now key = some entry ∧
      (inner.lookup ttl now key).2.stats.hits = inner.stats.hits + 1 ∧
      (inner.lookup ttl now key).2.lru.entries =
        (key, { entry with hitCount := entry.hitCount + 1 }) ::
          Lru.without key inner.lru.entries := by
  obtain ⟨hp, hres⟩ | ⟨entry, hp, hvalid, hres⟩ | ⟨entry, hp, hexpired, hres⟩ :=
    lookup_cases ttl now key inner
  · refine Or.inl ⟨by simp [valid, hp], by rw [hres], ?_⟩
    rw [hres, Lru.without_of_peek_none hp]
  · refine Or.inr ⟨entry, hp, by simp [valid, hp, hvalid, Option.filter], by rw [hres], ?_⟩
    rw [hres]
    exact Lru.entries_getMut hp
  · refine Or.inl ⟨?_, by rw [hres], by rw [hres]; rfl⟩
    simp [valid, hp, Option.filter, Nat.not_lt.mpr hexpired]

theorem CacheInner.insertCompiled_hits :
    (inner.insertCompiled now key wasm).stats.hits = inner.stats.hits := by
  unfold insertCompiled
  dsimp only
  split <;> rfl

theorem CacheSys.Step.hits (h : CacheSys.Step ttl s e t) :
    t.inner.stats.hits =
      s.inner.stats.hits + if (hitKey? ttl ⟨s, e, t⟩).isSome then 1 else 0 := by
  cases h with
  | quiet hop hinner =>
      rw [hinner, hitKey?_eq_none (by simp [hop])]
      rfl
  | @op o misses hop hinner =>
      rw [hinner]
      cases o with
      | lookup key =>
          rw [hitKey?_lookup hop]
          obtain ⟨hvalid, hhits, -⟩ | ⟨entry, -, hvalid, hhits, -⟩ :=
            CacheInner.lookup_counts ttl s.now key s.inner
          · rw [hvalid]
            exact hhits
          · rw [hvalid]
            exact hhits
      | insert key wasm =>
          rw [hitKey?_eq_none (by simp [hop])]
          exact CacheInner.insertCompiled_hits
      | invalidate key =>
          rw [hitKey?_eq_none (by simp [hop])]
          rfl

theorem CacheInner.hitCounts_of_peek (h : inner.lru.peek key = some entry) :
    inner.hitCounts = entry.hitCount +
      ((Lru.without key inner.lru.entries).map fun e => e.2.hitCount).sum := by
  have hperm := Lru.perm_cons_without inner.lru.nodupKeys (Lru.mem_of_peek h)
  rw [hitCounts, (hperm.map _).sum_nat, List.map_cons, List.sum_cons]

theorem hitCounts_sublist {entries rest : List (String × CachedModule)}
    (h : rest.Sublist entries) :
    (rest.map fun e => e.2.hitCount).sum ≤ (entries.map fun e => e.2.hitCount).sum :=
  (h.map _).sum_le_sum (fun _ _ => Nat.zero_le _)

theorem CacheSys.Step.hitCounts (h : CacheSys.Step ttl s e t) :
    t.inner.hitCounts ≤
      s.inner.hitCounts + if (hitKey? ttl ⟨s, e, t⟩).isSome then 1 else 0 := by
  cases h with
  | quiet hop hinner =>
      rw [hinner]
      exact Nat.le_add_right _ _
  | @op o misses hop hinner =>
      rw [hinner]
      cases o with
      | lookup key =>
          rw [hitKey?_lookup hop]
          obtain ⟨-, -, hentries⟩ | ⟨entry, hp, hvalid, -, hentries⟩ :=
            CacheInner.lookup_counts ttl s.now key s.inner
          · refine Nat.le_trans ?_ (Nat.le_add_right _ _)
            rw [CacheInner.hitCounts, CacheInner.apply, hentries]
            exact hitCounts_sublist List.filter_sublist
          · rw [CacheInner.hitCounts_of_peek hp, hvalid, CacheInner.hitCounts, CacheInner.apply,
              hentries, List.map_cons, List.sum_cons]
            simp only [Option.isSome_some, if_true]
            omega
      | insert key wasm =>
          refine Nat.le_trans ?_ (Nat.le_add_right _ _)
          rw [CacheInner.hitCounts, CacheInner.apply, CacheInner.insertCompiled_lru,
            Lru.entries_put, List.map_cons, List.sum_cons, Nat.zero_add]
          exact hitCounts_sublist ((List.take_sublist _ _).trans List.filter_sublist)
      | invalidate key =>
          refine Nat.le_trans ?_ (Nat.le_add_right _ _)
          exact hitCounts_sublist List.filter_sublist

/-! ## Misses -/

theorem CacheInner.lookup_misses (ttl now : Nat) (key : String) (inner : CacheInner) :
    (inner.lookup ttl now key).2.stats.misses = inner.stats.misses := by
  obtain ⟨-, hres⟩ | ⟨_, -, -, hres⟩ | ⟨_, -, -, hres⟩ := lookup_cases ttl now key inner <;>
    rw [hres]

theorem CacheInner.insertCompiled_misses :
    (inner.insertCompiled now key wasm).stats.misses = inner.stats.misses := by
  unfold insertCompiled
  dsimp only
  split <;> rfl

theorem Call.step_misses {call call' : Call} {inner' : CacheInner}
    (h : call.step X ttl now inner = some (inner', call')) :
    inner'.stats.misses = inner.stats.misses + if call'.compiles then 1 else 0 := by
  cases call with
  | getCached key =>
      cases h
      exact CacheInner.lookup_misses ttl now key inner
  | getOrCompile key wasm pc =>
      cases pc with
      | lookup =>
          have hlookup := CacheInner.lookup_misses ttl now key inner
          simp only [Call.step, GetOrCompile.step, CacheInner.getOrMiss] at h
          cases hfound : (inner.lookup ttl now key).1.module? with
          | none =>
              simp only [hfound] at h
              cases h
              exact congrArg (· + 1) hlookup
          | some module =>
              simp only [hfound] at h
              cases h
              exact hlookup
      | compile =>
          simp only [Call.step, GetOrCompile.step] at h
          cases hcompile : X.compile wasm with
          | error text =>
              simp only [hcompile] at h
              cases h
              rfl
          | ok =>
              simp only [hcompile] at h
              cases h
              rfl
      | insert =>
          cases h
          exact CacheInner.insertCompiled_misses
  | invalidate key =>
      cases h
      rfl
  | stats =>
      cases h
      rfl
  | returned answer => cases h

theorem CacheSys.step_misses (h : s.step X ttl e = some t) :
    t.inner.stats.misses = s.inner.stats.misses + if goesCompiling ⟨s, e, t⟩ then 1 else 0 := by
  cases e with
  | run i =>
      simp only [CacheSys.step] at h
      cases hi : s.calls[i]? with
      | none => simp [hi] at h
      | some call =>
          simp only [hi, Option.map_eq_some_iff] at h
          obtain ⟨⟨inner, call'⟩, hcall, rfl⟩ := h
          have hset : (s.calls.set i call')[i]? = some call' :=
            List.getElem?_set_self (List.getElem?_eq_some_iff.mp hi).1
          rw [Call.step_misses hcall, goesCompiling]
          simp only [hset, Option.any_some]
  | _ =>
      cases h
      rfl

/-! ## Entries -/

/-- An entry after a step is that of the insertion that the step is, or it was there before and
the step spares it. -/
theorem CacheSys.Step.entry_inv (h : CacheSys.Step ttl s e t)
    (hmem : (key, entry') ∈ t.inner.lru.entries) :
    (∃ wasm, s.op e = some (.insert key wasm) ∧ entry' = ⟨⟨wasm⟩, s.now, 0, wasm.length⟩) ∨
    ∃ entry, (key, entry) ∈ s.inner.lru.entries ∧ Spares ttl key ⟨s, e, t⟩ ∧
      entry' = { entry with
        hitCount := entry.hitCount + if hitKey? ttl ⟨s, e, t⟩ = some key then 1 else 0 } := by
  -- The entry of a key that the operation is not about.
  have hother : ∀ o key₀, s.op e = some o →
      (o = .lookup key₀ ∨ (∃ wasm, o = .insert key₀ wasm) ∨ o = .invalidate key₀) →
      (key, entry') ∈ Lru.without key₀ s.inner.lru.entries →
      ∃ entry, (key, entry) ∈ s.inner.lru.entries ∧ Spares ttl key ⟨s, e, t⟩ ∧
        entry' = { entry with
          hitCount := entry.hitCount + if hitKey? ttl ⟨s, e, t⟩ = some key then 1 else 0 } := by
    intro o key₀ hop ho hwithout
    obtain ⟨hold, hne⟩ := Lru.mem_without.mp hwithout
    have hnot : hitKey? ttl ⟨s, e, t⟩ ≠ some key := by
      obtain rfl | ⟨wasm, rfl⟩ | rfl := ho
      · rw [hitKey?_lookup hop]
        split <;> simp [Ne.symm hne]
      · simp [hitKey?_eq_none, hop]
      · simp [hitKey?_eq_none, hop]
    refine ⟨entry', hold, ?_, by simp [hnot]⟩
    intro o' hop'
    rw [hop] at hop'
    cases hop'
    obtain rfl | ⟨wasm, rfl⟩ | rfl := ho <;> simp [Ne.symm hne]
  cases h with
  | quiet hop hinner =>
      rw [hinner] at hmem
      refine Or.inr ⟨entry', hmem, ?_, ?_⟩
      · intro o ho
        rw [hop] at ho
        cases ho
      · simp [hitKey?_eq_none, hop]
  | @op o misses hop hinner =>
      rw [hinner] at hmem
      cases o with
      | lookup key₀ =>
          right
          obtain ⟨-, -, hentries⟩ | ⟨entry, hp, hvalid, -, hentries⟩ :=
            CacheInner.lookup_counts ttl s.now key₀ s.inner
          · exact hother _ key₀ hop (Or.inl rfl) (hentries ▸ hmem)
          · rw [CacheInner.apply, hentries] at hmem
            cases hmem with
            | tail _ hrest => exact hother _ key₀ hop (Or.inl rfl) hrest
            | head =>
                have hhit : hitKey? ttl ⟨s, e, t⟩ = some key := by
                  rw [hitKey?_lookup hop, hvalid]
                  rfl
                refine ⟨entry, Lru.mem_of_peek hp, ?_, by simp [hhit]⟩
                intro o ho
                rw [hop] at ho
                cases ho
                simp [hhit]
      | insert key₀ wasm =>
          rw [CacheInner.apply, CacheInner.insertCompiled_lru, Lru.entries_put] at hmem
          cases hmem with
          | head => exact Or.inl ⟨wasm, hop, rfl⟩
          | tail _ hrest =>
              exact Or.inr
                (hother _ key₀ hop (Or.inr (Or.inl ⟨wasm, rfl⟩)) (List.mem_of_mem_take hrest))
      | invalidate key₀ => exact Or.inr (hother _ key₀ hop (Or.inr (Or.inr rfl)) hmem)

theorem Entered.snoc (h : Entered ttl ms key entry) (hspare : Spares ttl key m) :
    Entered ttl (ms ++ [m]) key
      { entry with hitCount := entry.hitCount + if hitKey? ttl m = some key then 1 else 0 } := by
  obtain ⟨before, m₀, after, rfl, hop, hnow, hbytes, hafter, hcount⟩ := h
  refine ⟨before, m₀, after ++ [m], by simp, hop, hnow, hbytes, ?_, ?_⟩
  · intro n hn
    obtain hn | hn := List.mem_append.mp hn
    · exact hafter n hn
    · exact List.mem_singleton.mp hn ▸ hspare
  · rw [List.countP_append, List.countP_singleton, ← hcount]
    simp

theorem Entered.of_insert (hop : s.op e = some (.insert key wasm)) :
    Entered ttl (ms ++ [⟨s, e, t⟩]) key ⟨⟨wasm⟩, s.now, 0, wasm.length⟩ :=
  ⟨ms, ⟨s, e, t⟩, [], rfl, hop, rfl, rfl, by simp, rfl⟩

/-! ## Runs -/

theorem Statistics.step (h : Statistics ttl ms s) (hs : s.step X ttl e = some t) :
    Statistics ttl (ms ++ [⟨s, e, t⟩]) t := by
  have hstep := CacheSys.step_inv hs
  refine ⟨?_, ?_, ?_, ?_⟩
  · rw [hstep.hits, h.hits, List.countP_append, List.countP_singleton]
  · rw [CacheSys.step_misses hs, h.misses, List.countP_append, List.countP_singleton]
  · intro key entry' hmem
    obtain ⟨wasm, hop, rfl⟩ | ⟨entry, hold, hspare, rfl⟩ := hstep.entry_inv hmem
    · exact .of_insert hop
    · exact (h.entered key entry hold).snoc hspare
  · rw [hstep.hits]
    exact Nat.le_trans hstep.hitCounts (Nat.add_le_add_right h.hitCounts_le _)

/-- In every run of calls on one cache, of any capacity and time to live: the hits and the misses
are those of the run, and each entry tells the lookups of its key since it was inserted. -/
theorem statistics_exact (h : Run (CacheSys.step X ttl) (.init maxSize) ms s) :
    Statistics ttl ms s := by
  induction h with
  | nil => exact ⟨rfl, rfl, fun _ _ hmem => (by cases hmem), Nat.zero_le _⟩
  | snoc _ hs ih => exact ih.step hs

/-- A module is compiled once, and found twice. -/
def compiledOnce : List CacheEvent :=
  [.getOrCompile "a" [0, 0], .run 0, .run 0, .run 0, .getCached "a", .run 1,
    .getOrCompile "a" [0, 0], .run 2]

theorem compiledOnce_statistics :
    ∃ s ms, Run (CacheSys.step .sample 5) (.init 1) ms s ∧ Statistics 5 ms s ∧
      s.inner.stats.hits = 2 ∧ s.inner.stats.misses = 1 ∧ s.inner.hitCounts = 2 := by
  have htest : (exec (CacheSys.step .sample 5) (.init 1) compiledOnce).any (fun s =>
      s.inner.stats.hits = 2 ∧ s.inner.stats.misses = 1 ∧ s.inner.hitCounts = 2) = true := by
    decide
  obtain ⟨s, h, hs⟩ := exec_any_run htest
  exact ⟨s, _, h, statistics_exact h, of_decide_eq_true hs⟩

end FerroEdge.WasmRuntime
