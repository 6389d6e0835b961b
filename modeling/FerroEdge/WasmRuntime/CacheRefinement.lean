import FerroEdge.WasmRuntime.CacheSystem

/-!
# What a lookup returns

The cache is meant as a bounded map with time stamps.  What it should return for a key is read
off the moves of a run, without looking at the order in which the map keeps its entries: the
module of the last insertion of the key, while that insertion is younger than the time to live
and the key has been neither invalidated nor evicted since.

A key is evicted when another key that is not in the map is inserted into the full map and it
is the least recently used one, that is, every other key in the map has been inserted or hit
after its own last insertion or hit.

`lookup_iff_lives` says that both kinds of lookup return just that.  Two facts carry the proof.
The entries of the map are in the order of their last use, so that the last one is the least
recently used one.  And an entry that a lookup removes because it has expired would not be
returned later either, since its time of insertion does not change and time does not go back.
-/

namespace FerroEdge.WasmRuntime

open Machine

/-- The moves of a cache. -/
abbrev CacheMove := Move CacheSys CacheEvent

/-! ## The specification -/

/-- The move inserts the key, or it looks the key up and finds it. -/
def Uses (ttl : Nat) (m : CacheMove) (key : String) : Prop :=
  (∃ wasm, m.pre.op m.ev = some (.insert key wasm)) ∨
  m.pre.op m.ev = some (.lookup key) ∧
    ((m.pre.inner.lookup ttl m.pre.now key).1.module?).isSome

/-- `key'` has been used after the last use of `key`. -/
def UsedBefore (ttl : Nat) (ms : List CacheMove) (key key' : String) : Prop :=
  ∃ before m after, ms = before ++ m :: after ∧ Uses ttl m key' ∧
    ∀ n ∈ m :: after, ¬ Uses ttl n key

/-- After the moves `ms` have led to `s`, the key is the least recently used one of the map. -/
def LeastRecent (ttl : Nat) (ms : List CacheMove) (s : CacheSys) (key : String) : Prop :=
  (s.inner.lru.peek key).isSome ∧
  ∀ key', key' ≠ key → (s.inner.lru.peek key').isSome → UsedBefore ttl ms key key'

/-- After the moves `ms`, the move `m` evicts the key: it inserts another key that is not in
the map, the map is full, and the key is the least recently used one. -/
def Evicts (ttl : Nat) (ms : List CacheMove) (m : CacheMove) (key : String) : Prop :=
  ∃ key' wasm, m.pre.op m.ev = some (.insert key' wasm) ∧ key' ≠ key ∧
    m.pre.inner.lru.peek key' = none ∧ m.pre.inner.lru.len = m.pre.inner.lru.cap ∧
    LeastRecent ttl ms m.pre key

/-- The move ends what an earlier insertion of the key has put in the map: it inserts the key
anew, invalidates it or evicts it. -/
def Displaces (ttl : Nat) (ms : List CacheMove) (m : CacheMove) (key : String) : Prop :=
  (∃ wasm, m.pre.op m.ev = some (.insert key wasm)) ∨
  m.pre.op m.ev = some (.invalidate key) ∨ Evicts ttl ms m key

/-- The last insertion of the key was at time `t₀` with the module compiled from `wasm`, and
the key has been neither invalidated nor evicted since. -/
def Lives (ttl : Nat) (ms : List CacheMove) (key : String) (wasm : Bytes) (t₀ : Nat) : Prop :=
  ∃ before m after, ms = before ++ m :: after ∧ m.pre.op m.ev = some (.insert key wasm) ∧
    m.pre.now = t₀ ∧
    ∀ as n bs, after = as ++ n :: bs → ¬ Displaces ttl (before ++ m :: as) n key

variable {X : Externals} {ttl maxSize : Nat} {s t : CacheSys} {e : CacheEvent}
  {m : CacheMove} {ms : List CacheMove} {key key' : String} {wasm : Bytes} {t₀ : Nat}

/-! ## One more move -/

theorem lives_snoc :
    Lives ttl (ms ++ [m]) key wasm t₀ ↔
      (m.pre.op m.ev = some (.insert key wasm) ∧ m.pre.now = t₀) ∨
      (Lives ttl ms key wasm t₀ ∧ ¬ Displaces ttl ms m key) := by
  constructor
  · rintro ⟨before, m₀, after, heq, hins, hnow, hafter⟩
    obtain rfl | ⟨after, m₁, rfl⟩ := List.eq_nil_or_concat after
    · obtain ⟨-, hm⟩ := List.append_inj' heq rfl
      cases hm
      exact Or.inl ⟨hins, hnow⟩
    · rw [List.concat_eq_append] at heq hafter
      rw [← List.cons_append, ← List.append_assoc] at heq
      obtain ⟨rfl, hm⟩ := List.append_inj' heq rfl
      cases hm
      refine Or.inr ⟨⟨before, m₀, after, rfl, hins, hnow, ?_⟩, hafter after m [] rfl⟩
      rintro as n bs rfl
      exact hafter as n (bs ++ [m]) (by simp)
  · rintro (⟨hins, hnow⟩ | ⟨⟨before, m₀, after, rfl, hins, hnow, hafter⟩, hm⟩)
    · refine ⟨ms, m, [], rfl, hins, hnow, fun as n bs h => ?_⟩
      simp at h
    · refine ⟨before, m₀, after ++ [m], by simp, hins, hnow, fun as n bs h => ?_⟩
      obtain rfl | ⟨bs, m₁, rfl⟩ := List.eq_nil_or_concat bs
      · obtain ⟨rfl, hn⟩ := List.append_inj' h rfl
        cases hn
        exact hm
      · rw [List.concat_eq_append, ← List.cons_append, ← List.append_assoc] at h
        obtain ⟨rfl, -⟩ := List.append_inj' h rfl
        exact hafter as n bs rfl

/-- A move that does not use the key leaves it behind what it was behind. -/
theorem UsedBefore.snoc (h : UsedBefore ttl ms key key') (hm : ¬ Uses ttl m key) :
    UsedBefore ttl (ms ++ [m]) key key' := by
  obtain ⟨before, n, after, rfl, hn, hafter⟩ := h
  refine ⟨before, n, after ++ [m], by simp, hn, fun n' hn' => ?_⟩
  rw [← List.cons_append, List.mem_append, List.mem_singleton] at hn'
  obtain hn' | rfl := hn'
  · exact hafter n' hn'
  · exact hm

theorem usedBefore_of_uses (h : Uses ttl m key') (hm : ¬ Uses ttl m key) :
    UsedBefore ttl (ms ++ [m]) key key' :=
  ⟨ms, m, [], rfl, h, by simpa using hm⟩

/-- Of two keys, only one can be behind the other. -/
theorem UsedBefore.asymm (h : UsedBefore ttl ms key key') : ¬ UsedBefore ttl ms key' key := by
  obtain ⟨before, m, after, rfl, hm, hafter⟩ := h
  rintro ⟨before', m', after', heq, hm', hafter'⟩
  -- The later of the two uses lies after the earlier one.
  obtain ⟨mid, -, hrest⟩ | ⟨mid, -, hrest⟩ := List.append_eq_append_iff.mp heq
  · exact hafter m' (by rw [hrest]; simp) hm'
  · exact hafter' m (by rw [hrest]; simp) hm

/-- A move uses at most one key. -/
theorem Uses.unique (h : Uses ttl m key) (h' : Uses ttl m key') : key = key' := by
  obtain ⟨wasm, hop⟩ | ⟨hop, -⟩ := h <;> obtain ⟨wasm', hop'⟩ | ⟨hop', -⟩ := h' <;>
    rw [hop] at hop' <;> cases hop' <;> rfl

/-! ## The order of the entries -/

/-- The entries of the map stand in the order of their last use, the latest first. -/
def Sorted (ttl : Nat) (ms : List CacheMove) (entries : List (String × CachedModule)) : Prop :=
  entries.Pairwise fun e e' => UsedBefore ttl ms e'.1 e.1

variable {entries rest : List (String × CachedModule)} {entry : CachedModule}

theorem Sorted.keep (h : Sorted ttl ms entries) (hsub : rest.Sublist entries)
    (hm : ∀ key, ¬ Uses ttl m key) : Sorted ttl (ms ++ [m]) rest :=
  (h.sublist hsub).imp fun hused => hused.snoc (hm _)

theorem Sorted.front (h : Sorted ttl ms entries)
    (hsub : rest.Sublist (Lru.without key entries)) (hm : Uses ttl m key) :
    Sorted ttl (ms ++ [m]) ((key, entry) :: rest) := by
  have hother : ∀ key', key' ≠ key → ¬ Uses ttl m key' :=
    fun key' hne hm' => hne (hm'.unique hm)
  refine Lru.pairwise_cons_without h hsub ?_ ?_
  · exact fun key' hne => usedBefore_of_uses hm (hother key' hne)
  · exact fun key' key'' hne hused => hused.snoc (hother key' hne)

/-- The least recently used key is that of the last entry. -/
theorem leastRecent_iff {last : String × CachedModule} (h : Sorted ttl ms s.inner.lru.entries)
    (hlast : s.inner.lru.entries = rest ++ [last]) : LeastRecent ttl ms s key ↔ key = last.1 := by
  have hbehind : ∀ e ∈ rest, UsedBefore ttl ms last.1 e.1 := by
    rw [Sorted, hlast, List.pairwise_append] at h
    exact fun e he => h.2.2 e he last (by simp)
  have hmem : ∀ key v, (key, v) ∈ s.inner.lru.entries → (key, v) ∈ rest ∨ key = last.1 := by
    intro key v hv
    rw [hlast, List.mem_append, List.mem_singleton] at hv
    exact hv.imp_right (congrArg Prod.fst)
  have hpresent : (s.inner.lru.peek last.1).isSome :=
    Lru.isSome_peek.mpr ⟨last.2, by rw [hlast]; simp⟩
  constructor
  · rintro ⟨hkey, hleast⟩
    by_contra hne
    obtain ⟨v, hv⟩ := Lru.isSome_peek.mp hkey
    have hrest := (hmem key v hv).resolve_right hne
    exact (hbehind _ hrest).asymm (hleast last.1 (Ne.symm hne) hpresent)
  · rintro rfl
    refine ⟨hpresent, fun key' hne hkey' => ?_⟩
    obtain ⟨v, hv⟩ := Lru.isSome_peek.mp hkey'
    exact hbehind _ ((hmem key' v hv).resolve_right hne)

/-! ## The map and the specification -/

/-- After the moves `ms`, the map holds what they say.  An insertion that is missing has
expired. -/
structure Tracks (ttl : Nat) (ms : List CacheMove) (s : CacheSys) : Prop where
  sorted : Sorted ttl ms s.inner.lru.entries
  sound : ∀ key entry, (key, entry) ∈ s.inner.lru.entries →
    Lives ttl ms key entry.module.source entry.cachedAt
  complete : ∀ key wasm t₀, Lives ttl ms key wasm t₀ → t₀ ≤ s.now ∧
    (ttl ≤ s.now - t₀ ∨ ∃ entry, (key, entry) ∈ s.inner.lru.entries ∧
      entry.module = ⟨wasm⟩ ∧ entry.cachedAt = t₀)

/-- The two entries stem from one insertion. -/
def CachedModule.Same (entry entry' : CachedModule) : Prop :=
  entry'.module = entry.module ∧ entry'.cachedAt = entry.cachedAt

/-- What a step has to do: an entry after it is new or was there, and an entry that was there
and is not displaced stays or has expired. -/
theorem Tracks.next (h : Tracks ttl ms s) (hnow : s.now ≤ t.now)
    (hsorted : Sorted ttl (ms ++ [⟨s, e, t⟩]) t.inner.lru.entries)
    (hnew : ∀ key wasm, s.op e = some (.insert key wasm) → ∃ entry,
      (key, entry) ∈ t.inner.lru.entries ∧ entry.module = ⟨wasm⟩ ∧ entry.cachedAt = s.now)
    (hold : ∀ key entry, (key, entry) ∈ s.inner.lru.entries →
      ¬ Displaces ttl ms ⟨s, e, t⟩ key → ttl ≤ s.now - entry.cachedAt ∨
        ∃ entry', (key, entry') ∈ t.inner.lru.entries ∧ entry.Same entry')
    (hsound : ∀ key entry', (key, entry') ∈ t.inner.lru.entries →
      (s.op e = some (.insert key entry'.module.source) ∧ s.now = entry'.cachedAt) ∨
      (¬ Displaces ttl ms ⟨s, e, t⟩ key ∧
        ∃ entry, (key, entry) ∈ s.inner.lru.entries ∧ entry.Same entry')) :
    Tracks ttl (ms ++ [⟨s, e, t⟩]) t := by
  refine ⟨hsorted, fun key entry' hmem => ?_, fun key wasm t₀ hlives => ?_⟩
  · rw [lives_snoc]
    obtain hins | ⟨hdisp, entry, hentry, hmod, hat⟩ := hsound key entry' hmem
    · exact Or.inl hins
    · rw [hmod, hat]
      exact Or.inr ⟨h.sound key entry hentry, hdisp⟩
  · obtain ⟨hop, rfl⟩ | ⟨hlives, hdisp⟩ := lives_snoc.mp hlives
    · exact ⟨hnow, Or.inr (hnew key wasm hop)⟩
    · obtain ⟨hle, hexpired | ⟨entry, hmem, hmod, hat⟩⟩ := h.complete key wasm t₀ hlives
      · exact ⟨by omega, Or.inl (by omega)⟩
      · refine ⟨by omega, ?_⟩
        obtain hexpired | ⟨entry', hmem', hsame⟩ := hold key entry hmem hdisp
        · exact Or.inl (by omega)
        · exact Or.inr ⟨entry', hmem', hsame.1.trans hmod, hsame.2.trans hat⟩

/-- A lookup displaces no key. -/
theorem not_displaces (h : ∀ o, m.pre.op m.ev = some o → ∃ key, o = .lookup key) :
    ¬ Displaces ttl ms m key := by
  rintro (⟨wasm, hop⟩ | hop | ⟨key', wasm, hop, -⟩)
  all_goals
    obtain ⟨_, heq⟩ := h _ hop
    cases heq

theorem CachedModule.Same.refl (entry : CachedModule) : entry.Same entry := ⟨rfl, rfl⟩

/-- Nothing happens to the map. -/
theorem Tracks.quiet (h : Tracks ttl ms s) (hnow : s.now ≤ t.now)
    (hlru : t.inner.lru = s.inner.lru)
    (hop : ∀ o, s.op e = some o → ∃ key, o = .lookup key)
    (huse : ∀ key, ¬ Uses ttl ⟨s, e, t⟩ key) : Tracks ttl (ms ++ [⟨s, e, t⟩]) t := by
  refine h.next hnow ?_ ?_ ?_ ?_
  · rw [hlru]
    exact h.sorted.keep (List.Sublist.refl _) huse
  · intro key wasm hins
    obtain ⟨_, heq⟩ := hop _ hins
    cases heq
  · intro key entry hmem _
    exact Or.inr ⟨entry, by rwa [hlru], .refl entry⟩
  · intro key entry hmem
    rw [hlru] at hmem
    exact Or.inr ⟨not_displaces hop, entry, hmem, .refl entry⟩

theorem lookup_only (hop : s.op e = some (.lookup key)) (o : CacheOp) (ho : s.op e = some o) :
    ∃ key, o = .lookup key := by
  rw [hop] at ho
  exact ⟨key, (Option.some.inj ho).symm⟩

/-- A lookup moves the entry it finds to the front. -/
theorem Tracks.hit {entry entry' : CachedModule} (h : Tracks ttl ms s)
    (hop : s.op e = some (.lookup key)) (huse : Uses ttl ⟨s, e, t⟩ key)
    (hp : s.inner.lru.peek key = some entry)
    (hentries : t.inner.lru.entries = (key, entry') :: Lru.without key s.inner.lru.entries)
    (hsame : entry.Same entry') (hnow : t.now = s.now) : Tracks ttl (ms ++ [⟨s, e, t⟩]) t := by
  refine h.next (Nat.le_of_eq hnow.symm) ?_ (by simp [hop]) ?_ ?_ <;> rw [hentries]
  · exact h.sorted.front (List.Sublist.refl _) huse
  · intro key' entry₁ hmem _
    obtain heq | hrest := (Lru.mem_entries_of_peek hp).mp hmem
    · cases heq
      exact Or.inr ⟨entry', List.mem_cons_self, hsame⟩
    · exact Or.inr ⟨entry₁, List.mem_cons_of_mem _ hrest, .refl entry₁⟩
  · intro key' entry₁ hmem
    refine Or.inr ⟨not_displaces (lookup_only hop), ?_⟩
    cases hmem with
    | head => exact ⟨entry, Lru.mem_of_peek hp, hsame⟩
    | tail _ hmem => exact ⟨entry₁, (Lru.mem_without.mp hmem).1, .refl entry₁⟩

/-- A lookup removes an entry that has expired. -/
theorem Tracks.expire {entry : CachedModule} (h : Tracks ttl ms s)
    (hop : s.op e = some (.lookup key)) (hunused : ∀ key', ¬ Uses ttl ⟨s, e, t⟩ key')
    (hp : s.inner.lru.peek key = some entry) (hexpired : ttl ≤ s.now - entry.cachedAt)
    (hentries : t.inner.lru.entries = Lru.without key s.inner.lru.entries)
    (hnow : t.now = s.now) : Tracks ttl (ms ++ [⟨s, e, t⟩]) t := by
  refine h.next (Nat.le_of_eq hnow.symm) ?_ (by simp [hop]) ?_ ?_ <;> rw [hentries]
  · exact h.sorted.keep List.filter_sublist hunused
  · intro key' entry₁ hmem _
    obtain heq | hrest := (Lru.mem_entries_of_peek hp).mp hmem
    · cases heq
      exact Or.inl hexpired
    · exact Or.inr ⟨entry₁, hrest, .refl entry₁⟩
  · intro key' entry₁ hmem
    exact Or.inr ⟨not_displaces (lookup_only hop), entry₁, (Lru.mem_without.mp hmem).1,
      .refl entry₁⟩

theorem Tracks.lookup {key : String} (h : Tracks ttl ms s) (hop : s.op e = some (.lookup key))
    (hlru : t.inner.lru = (s.inner.lookup ttl s.now key).2.lru) (hnow : t.now = s.now) :
    Tracks ttl (ms ++ [⟨s, e, t⟩]) t := by
  have hunused : (s.inner.lookup ttl s.now key).1.module? = none →
      ∀ key', ¬ Uses ttl ⟨s, e, t⟩ key' := by
    rintro hnone key' (⟨wasm, hins⟩ | ⟨hlook, hhit⟩)
    · rw [hop] at hins
      cases hins
    · rw [hop] at hlook
      cases hlook
      rw [hnone] at hhit
      cases hhit
  obtain ⟨-, hres⟩ | ⟨entry, hp, -, hres⟩ | ⟨entry, hp, hexpired, hres⟩ :=
    CacheInner.lookup_cases ttl s.now key s.inner
  · rw [hres] at hlru hunused
    exact h.quiet (Nat.le_of_eq hnow.symm) hlru (lookup_only hop) (hunused rfl)
  · rw [hres] at hlru
    have hentries := congrArg Lru.entries hlru
    rw [Lru.entries_getMut hp] at hentries
    exact h.hit hop (Or.inr ⟨hop, by rw [hres]; rfl⟩) hp hentries ⟨rfl, rfl⟩ hnow
  · rw [hres] at hlru hunused
    have hentries : t.inner.lru.entries = Lru.without key s.inner.lru.entries := by
      rw [hlru]
      rfl
    exact h.expire hop (hunused rfl) hp hexpired hentries hnow

theorem Tracks.invalidate {key : String} (h : Tracks ttl ms s)
    (hop : s.op e = some (.invalidate key)) (hlru : t.inner.lru = s.inner.lru.pop key)
    (hnow : t.now = s.now) : Tracks ttl (ms ++ [⟨s, e, t⟩]) t := by
  have hentries : t.inner.lru.entries = Lru.without key s.inner.lru.entries := by
    rw [hlru]
    rfl
  refine h.next (Nat.le_of_eq hnow.symm) ?_ (by simp [hop]) ?_ ?_ <;> rw [hentries]
  · refine h.sorted.keep List.filter_sublist fun key' hu => ?_
    obtain ⟨_, hins⟩ | ⟨hlook, -⟩ := hu <;> simp_all
  · intro key' entry hmem hdisp
    have hk : key' ≠ key := fun hk => hdisp (Or.inr (Or.inl (hk ▸ hop)))
    exact Or.inr ⟨entry, Lru.mem_without.mpr ⟨hmem, hk⟩, .refl entry⟩
  · intro key' entry hmem
    obtain ⟨hmem, hk⟩ := Lru.mem_without.mp hmem
    refine Or.inr ⟨?_, entry, hmem, .refl entry⟩
    rintro (⟨_, hins⟩ | hinv | ⟨_, _, hins, -⟩) <;> simp_all

/-- What an insertion displaces besides its own key. -/
theorem displaces_other (hop : s.op e = some (.insert key wasm)) (hk : key' ≠ key) :
    Displaces ttl ms ⟨s, e, t⟩ key' ↔
      s.inner.lru.peek key = none ∧ s.inner.lru.len = s.inner.lru.cap ∧
        LeastRecent ttl ms s key' := by
  constructor
  · rintro (⟨_, hins⟩ | hinv | ⟨key₁, _, hins, -, hevicts⟩)
    · rw [hop] at hins
      cases hins
      exact absurd rfl hk
    · rw [hop] at hinv
      cases hinv
    · rw [hop] at hins
      cases hins
      exact hevicts
  · exact fun hevicts => Or.inr (Or.inr ⟨key, wasm, hop, hk.symm, hevicts⟩)

/-- An insertion puts its entry before those of the other keys that it does not displace. -/
theorem Tracks.insert_of {key : String} {wasm : Bytes} (h : Tracks ttl ms s)
    (hop : s.op e = some (.insert key wasm)) (hnow : t.now = s.now)
    (hentries : t.inner.lru.entries = (key, ⟨⟨wasm⟩, s.now, 0, wasm.length⟩) :: rest)
    (hsub : rest.Sublist (Lru.without key s.inner.lru.entries))
    (hrest : ∀ key' entry, (key', entry) ∈ Lru.without key s.inner.lru.entries →
      ((key', entry) ∈ rest ↔ ¬ Displaces ttl ms ⟨s, e, t⟩ key')) :
    Tracks ttl (ms ++ [⟨s, e, t⟩]) t := by
  refine h.next (Nat.le_of_eq hnow.symm) ?_ ?_ ?_ ?_ <;> rw [hentries]
  · exact h.sorted.front hsub (Or.inl ⟨wasm, hop⟩)
  · intro key' wasm' hins
    rw [hop] at hins
    cases hins
    exact ⟨_, List.mem_cons_self, rfl, rfl⟩
  · intro key' entry hmem hdisp
    have hk : key' ≠ key := by
      rintro rfl
      exact hdisp (Or.inl ⟨wasm, hop⟩)
    have hmem' := (hrest key' entry (Lru.mem_without.mpr ⟨hmem, hk⟩)).mpr hdisp
    exact Or.inr ⟨entry, List.mem_cons_of_mem _ hmem', .refl entry⟩
  · intro key' entry hmem
    cases hmem with
    | head => exact Or.inl ⟨hop, rfl⟩
    | tail _ hmem =>
        have hmem' := hsub.subset hmem
        have hdisp := (hrest key' entry hmem').mp hmem
        exact Or.inr ⟨hdisp, entry, (Lru.mem_without.mp hmem').1, .refl entry⟩

theorem Tracks.insert {key : String} {wasm : Bytes} (h : Tracks ttl ms s)
    (hop : s.op e = some (.insert key wasm))
    (hlru : t.inner.lru = s.inner.lru.put key ⟨⟨wasm⟩, s.now, 0, wasm.length⟩)
    (hnow : t.now = s.now) : Tracks ttl (ms ++ [⟨s, e, t⟩]) t := by
  have hentries := congrArg Lru.entries hlru
  obtain ⟨old, hp, hput⟩ | ⟨hp, hroom, hput⟩ | ⟨hp, hfull, last, init, -, hsplit, hput⟩ :=
    Lru.put_cases key ⟨⟨wasm⟩, s.now, 0, wasm.length⟩ s.inner.lru <;> rw [hput] at hentries
  · refine h.insert_of hop hnow hentries (List.Sublist.refl _) fun key' entry hmem => ?_
    rw [displaces_other hop (Lru.mem_without.mp hmem).2, hp]
    simpa using hmem
  · have hall := Lru.without_of_peek_none hp
    refine h.insert_of hop hnow hentries (by rw [hall]) fun key' entry hmem => ?_
    rw [displaces_other hop (Lru.mem_without.mp hmem).2]
    rw [hall] at hmem
    simpa [hroom] using hmem
  · have hall := Lru.without_of_peek_none hp
    have hsub : init.Sublist (Lru.without key s.inner.lru.entries) := by
      rw [hall, hsplit]
      exact List.sublist_append_left _ _
    refine h.insert_of hop hnow hentries hsub fun key' entry hmem => ?_
    rw [displaces_other hop (Lru.mem_without.mp hmem).2, leastRecent_iff h.sorted hsplit]
    simp only [hp, hfull, true_and]
    -- The last entry goes, and its key is that of no other entry.
    have hnodup := s.inner.lru.nodupKeys
    rw [hsplit, List.map_append, List.nodup_append] at hnodup
    rw [hall, hsplit, List.mem_append, List.mem_singleton] at hmem
    constructor
    · intro hinit hlast
      exact hnodup.2.2 _ (List.mem_map.mpr ⟨_, hinit, rfl⟩) last.1 (by simp) hlast
    · intro hlast
      exact hmem.resolve_right fun heq => hlast (congrArg Prod.fst heq)

theorem Tracks.step (h : Tracks ttl ms s) (hs : CacheSys.Step ttl s e t) :
    Tracks ttl (ms ++ [⟨s, e, t⟩]) t := by
  cases hs with
  | quiet hop hinner hnow =>
      refine h.quiet hnow (by rw [hinner]) (by simp [hop]) ?_
      rintro key (⟨wasm, hins⟩ | ⟨hlook, -⟩)
      · rw [hop] at hins
        cases hins
      · rw [hop] at hlook
        cases hlook
  | @op o misses hop hinner hnow =>
      have hlru : t.inner.lru = (s.inner.apply ttl s.now o).lru := by rw [hinner]
      cases o with
      | lookup key => exact h.lookup hop hlru hnow
      | insert key wasm => exact h.insert hop (hlru.trans CacheInner.insertCompiled_lru) hnow
      | invalidate key => exact h.invalidate hop hlru hnow

theorem tracks (h : Run (CacheSys.step X ttl) (.init maxSize) ms s) : Tracks ttl ms s := by
  induction h with
  | nil =>
      refine ⟨List.Pairwise.nil, fun key entry hmem => (by cases hmem), ?_⟩
      rintro key wasm t₀ ⟨before, m, after, heq, -⟩
      simp at heq
  | snoc _ hs ih => exact ih.step (CacheSys.step_inv hs)

theorem CacheSys.Step.cap (h : CacheSys.Step ttl s e t) :
    t.inner.lru.cap = s.inner.lru.cap := by
  cases h with
  | quiet _ hinner => rw [hinner]
  | @op o misses _ hinner =>
      rw [hinner]
      cases o with
      | lookup key =>
          obtain ⟨-, hres⟩ | ⟨_, -, -, hres⟩ | ⟨_, -, -, hres⟩ :=
            CacheInner.lookup_cases ttl s.now key s.inner <;> simp only [CacheInner.apply, hres]
          · exact Lru.cap_getMut
          · rfl
      | insert key wasm =>
          simp only [CacheInner.apply, CacheInner.insertCompiled_lru]
          rfl
      | invalidate key => rfl

/-- The entry that a lookup would return is that of an insertion that lives. -/
theorem Tracks.valid_iff (h : Tracks ttl ms s) (key : String) (module : Module) :
    (s.inner.valid ttl s.now key).map CachedModule.module = some module ↔
      ∃ wasm t₀, Lives ttl ms key wasm t₀ ∧ module = ⟨wasm⟩ ∧ t₀ ≤ s.now ∧ s.now < t₀ + ttl := by
  rw [Option.map_eq_some_iff]
  simp only [CacheInner.valid, Option.filter_eq_some_iff, decide_eq_true_eq, Lru.peek_iff_mem]
  constructor
  · rintro ⟨entry, ⟨hmem, hvalid⟩, rfl⟩
    have hlives := h.sound key entry hmem
    have hle := (h.complete _ _ _ hlives).1
    exact ⟨_, _, hlives, rfl, hle, by omega⟩
  · rintro ⟨wasm, t₀, hlives, rfl, hle, hvalid⟩
    obtain ⟨-, hexpired | ⟨entry, hmem, hmod, rfl⟩⟩ := h.complete _ _ _ hlives
    · omega
    · exact ⟨entry, ⟨hmem, by omega⟩, hmod⟩

/-- In every run, a lookup of a key returns a module exactly if the module is that of the last
insertion of the key, that insertion is younger than the time to live, and the key has been
neither invalidated nor evicted since; and the map is never larger than its capacity. -/
theorem lookup_iff_lives (h : Run (CacheSys.step X ttl) (.init maxSize) ms s) :
    (∀ key module, (s.inner.getCached ttl s.now key).1 = some module ↔
      ∃ wasm t₀, Lives ttl ms key wasm t₀ ∧ module = ⟨wasm⟩ ∧ t₀ ≤ s.now ∧ s.now < t₀ + ttl) ∧
    (∀ key module, (s.inner.getOrMiss ttl s.now key).1 = some module ↔
      ∃ wasm t₀, Lives ttl ms key wasm t₀ ∧ module = ⟨wasm⟩ ∧ t₀ ≤ s.now ∧ s.now < t₀ + ttl) ∧
    s.inner.lru.len ≤ max maxSize 1 := by
  have htracks := tracks h
  have hcap : s.inner.lru.cap = max maxSize 1 :=
    h.always (I := fun s => s.inner.lru.cap = max maxSize 1) rfl fun _ _ _ hcap hs =>
      (CacheSys.step_inv hs).cap.trans hcap
  refine ⟨fun key module => ?_, fun key module => ?_, hcap ▸ s.inner.lru.bounded⟩
  · rw [CacheInner.getCached_fst]
    exact htracks.valid_iff key module
  · rw [CacheInner.getOrMiss_fst]
    exact htracks.valid_iff key module

/-- Of three modules in a cache of two, the one that was not used lately is gone. -/
def threeModules : List CacheEvent :=
  [.getOrCompile "a" [0, 0], .run 0, .run 0, .run 0, .getOrCompile "b" [], .run 1, .run 1, .run 1,
    .getCached "a", .run 2, .getOrCompile "c" [], .run 3, .run 3, .run 3, .tick 4]

theorem threeModules_lives :
    ∃ s, Run (CacheSys.step .sample 5) (.init 2)
        (moves (CacheSys.step .sample 5) (.init 2) threeModules) s ∧
      (∃ t₀, Lives 5 (moves (CacheSys.step .sample 5) (.init 2) threeModules) "a" [0, 0] t₀) ∧
      ¬ ∃ t₀, Lives 5 (moves (CacheSys.step .sample 5) (.init 2) threeModules) "b" [] t₀ ∧
        t₀ ≤ s.now ∧ s.now < t₀ + 5 := by
  have htest : (exec (CacheSys.step .sample 5) (.init 2) threeModules).any (fun s =>
      decide ((s.inner.getCached 5 s.now "a").1 = some ⟨[0, 0]⟩) &&
      decide ((s.inner.getCached 5 s.now "b").1 = none)) = true := by decide
  obtain ⟨s, h, hs⟩ := exec_any_run htest
  simp only [Bool.and_eq_true, decide_eq_true_eq] at hs
  obtain ⟨ha, hb⟩ := hs
  have hiff := (lookup_iff_lives h).1
  refine ⟨s, h, ?_, ?_⟩
  · obtain ⟨wasm, t₀, hlives, heq, -⟩ := (hiff "a" _).mp ha
    cases heq
    exact ⟨t₀, hlives⟩
  · rintro ⟨t₀, hlives, hle, hlt⟩
    have hfound := (hiff "b" ⟨[]⟩).mpr ⟨[], t₀, hlives, rfl, hle, hlt⟩
    rw [hb] at hfound
    cases hfound

end FerroEdge.WasmRuntime
