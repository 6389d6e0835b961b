import FerroEdge.EdgeNode.ActiveTasks
import FerroEdge.Machine.Mutex

/-!
# The locks of an edge node

`NodeState` is behind a readers-writer lock and the module cache behind a mutex.  `execute_task`
and `/cache/warm` give each guard back before they ask for the next.  The handler of
`/debug/memory` does not: it keeps its read guard of the state while it waits for the mutex.

`AdminSys` adds the requests that only read to those of the node, `health` and `/debug/memory`.
`stateLock` and `cacheMutex` say which step is taken under which guard.  `edgeStep` adds that any
request may be dropped at any of its `await`s, with its guards and its place in a queue.

* `edgeLocks_deadlockFree`: no request waits for itself and the two locks never block together,
  since nobody asks for the state with the mutex in hand.
* `memory_snapshot`: what `/debug/memory` answers was true at one moment, and its number of active
  stores counts the requests that have kept their count among those in flight.
-/

namespace FerroEdge.EdgeNode

open Machine WasmRuntime

/-! ## Requests that read -/

structure MemoryReport where
  heapAllocatedBytes : Nat
  wasmMemoryBytes : Nat
  cacheMemoryEstimateBytes : Nat
  activeStores : Nat
deriving DecidableEq

/-- The end of `memory_handler`.  `rss` is what `read_rss_bytes` has found. -/
def memoryReport (rss activeStores : Nat) (cacheStats : CacheStats) : MemoryReport where
  heapAllocatedBytes := rss
  wasmMemoryBytes := activeStores * 64 * 1024 * 1024 % 2 ^ 64
  cacheMemoryEstimateBytes := cacheStats.totalWasmBytes
  activeStores := activeStores

/-- A run of `health` or of `memory_handler`. -/
inductive Reader where
  | health
  | answered (resp : HealthResponse)
  | memory
  /-- With the read guard of the state, before the mutex of the cache. -/
  | memoryStats (activeStores : Nat)
  | reported (report : MemoryReport)
  /-- Its client has gone away. -/
  | gone
deriving DecidableEq

def Reader.step (rss : Nat) (node : Node) : Reader → Option Reader
  | .health => some (.answered node.health)
  | .memory => some (.memoryStats node.state.activeTasks)
  | .memoryStats activeStores =>
      some (.reported (memoryReport rss activeStores node.moduleCache.statsSnapshot))
  | .answered _ | .reported _ | .gone => none

/-- The request is over. -/
def Reader.ended : Reader → Bool
  | .answered _ | .reported _ | .gone => true
  | .health | .memory | .memoryStats _ => false

structure AdminSys where
  sys : Sys
  readers : List Reader

inductive AdminEvent where
  /-- A step of the node. -/
  | node (e : Event)
  | health
  | memory
  | read (i rss : Nat)

namespace AdminSys

def init (nodeId : String) (maxConcurrentTasks cacheMaxSize cacheTtl : Nat) : AdminSys :=
  ⟨.init nodeId maxConcurrentTasks cacheMaxSize cacheTtl, []⟩

def step (X : Externals) (a : AdminSys) : AdminEvent → Option AdminSys
  | .node e => (a.sys.step X e).map fun sys => { a with sys := sys }
  | .health => some { a with readers := a.readers ++ [.health] }
  | .memory => some { a with readers := a.readers ++ [.memory] }
  | .read i rss =>
      match a.readers[i]? with
      | none => none
      | some r => (r.step rss a.sys.node).map fun r' => { a with readers := a.readers.set i r' }

/-- A request by its name: the requests of the node have the even names and the readers the odd
ones. -/
def proc? (a : AdminSys) (n : Nat) : Option (Proc ⊕ Reader) :=
  if n % 2 = 0 then a.sys.procs[n / 2]?.map .inl else a.readers[n / 2]?.map .inr

/-- The future of a request is dropped. -/
def drop (a : AdminSys) (n : Nat) : Option AdminSys :=
  if n % 2 = 0 then (a.sys.cancel (n / 2)).map fun sys => { a with sys := sys }
  else if a.readers[n / 2]?.any fun r => !r.ended then
    some { a with readers := a.readers.set (n / 2) .gone }
  else none

end AdminSys

/-- The name of the request that takes a step. -/
def AdminEvent.actor : AdminEvent → Option Nat
  | .node e => e.actor.map (2 * ·)
  | .read i _ => some (2 * i + 1)
  | .health | .memory => none

/-- The requests that an event may start. -/
def AdminEvent.starts : AdminEvent → Option (Proc ⊕ Reader)
  | .node e => e.starts.map .inl
  | .health => some (.inr .health)
  | .memory => some (.inr .memory)
  | .read _ _ => none

/-! ## Who takes which guard -/

/-- The guard of the state that a request awaits. -/
def TaskPc.awaitsState : TaskPc → Option Mode
  | .increment | .fail _ | .finish _ => some .write
  | _ => none

def awaitsState : Proc ⊕ Reader → Option Mode
  | .inl (.task r) => r.pc.awaitsState
  | .inr .health | .inr .memory => some .read
  | _ => none

def keepsState : Proc ⊕ Reader → Option Mode
  | .inr (.memoryStats _) => some .read
  | _ => none

/-- A call of `get_or_compile` takes its next step under the mutex of the cache. -/
def locksCache : GetOrCompile → Bool
  | .lookup | .insert => true
  | .compile => false

def TaskPc.awaitsCache : TaskPc → Bool
  | .getCached _ | .stats _ _ => true
  | .getOrCompile _ _ g => locksCache g
  | _ => false

def WarmRun.awaitsCache : WarmRun → Bool
  | .stats _ => true
  | .getOrCompile _ _ g => locksCache g
  | _ => false

/-- The request awaits the mutex of the cache. -/
def awaitsCache : Proc ⊕ Reader → Bool
  | .inl (.task r) => r.pc.awaitsCache
  | .inl (.warm w) => w.awaitsCache
  | .inr (.memoryStats _) => true
  | .inr _ => false

variable {X : Externals} {now : Nat} {env : Env} {node node' : Node} {r r' : TaskRun}
  {a b : AdminSys} {e : AdminEvent} {n : Nat} {p : Proc ⊕ Reader}

/-! ## What a step does to the requests -/

/-- A request of the node by its even name. -/
theorem AdminSys.proc?_even (a : AdminSys) (i : Nat) :
    a.proc? (2 * i) = a.sys.procs[i]?.map .inl := by
  rw [proc?, if_pos (Nat.mul_mod_right 2 i), Nat.mul_div_cancel_left i (by decide)]

theorem AdminSys.proc?_odd (a : AdminSys) (i : Nat) :
    a.proc? (2 * i + 1) = a.readers[i]?.map .inr := by
  rw [proc?, if_neg (by omega), show (2 * i + 1) / 2 = i by omega]

theorem name_cases (n : Nat) : (∃ i, n = 2 * i) ∨ ∃ i, n = 2 * i + 1 := by
  obtain h | h := Nat.mod_two_eq_zero_or_one n
  · exact Or.inl ⟨n / 2, by omega⟩
  · exact Or.inr ⟨n / 2, by omega⟩

/-- The requests of the node in a step of the node: only the one that takes the step moves, and
a new one is what the event starts. -/
theorem Sys.Step.procs_frame {s t : Sys} {e : Event} {i : Nat} (h : Sys.Step X s e t)
    (hact : e.actor ≠ some i) :
    t.procs[i]? = s.procs[i]? ∨ s.procs[i]? = none ∧ t.procs[i]? = e.starts := by
  cases h with
  | @start e p he =>
      rw [he]
      exact getElem?_snoc_frame s.procs p i
  | tick => exact Or.inl rfl
  | @task j _ _ _ _ hj =>
      have hji : j ≠ i := fun hji => hact (congrArg some hji)
      exact Or.inl (List.getElem?_set_ne hji)
  | @warm j _ _ _ _ hj =>
      have hji : j ≠ i := fun hji => hact (congrArg some hji)
      exact Or.inl (List.getElem?_set_ne hji)

theorem AdminSys.readers_frame (a : AdminSys) (r : Reader) (n : Nat) :
    { a with readers := a.readers ++ [r] }.proc? n = a.proc? n ∨
    a.proc? n = none ∧ { a with readers := a.readers ++ [r] }.proc? n = some (.inr r) := by
  obtain ⟨i, rfl⟩ | ⟨i, rfl⟩ := name_cases n
  · rw [proc?_even, proc?_even]
    exact Or.inl rfl
  · rw [proc?_odd, proc?_odd]
    obtain hsame | ⟨hnone, hnew⟩ := getElem?_snoc_frame a.readers r i
    · exact Or.inl (by rw [hsame])
    · exact Or.inr ⟨by rw [hnone]; rfl, by rw [hnew]; rfl⟩

/-- A request that takes no step stays as it is, unless it is new. -/
theorem AdminSys.step_frame (h : a.step X e = some b) (hact : e.actor ≠ some n) :
    b.proc? n = a.proc? n ∨ a.proc? n = none ∧ b.proc? n = e.starts := by
  cases e with
  | node e =>
      obtain ⟨sys, hs, rfl⟩ := Option.map_eq_some_iff.mp h
      obtain ⟨i, rfl⟩ | ⟨i, rfl⟩ := name_cases n
      · have hact' : e.actor ≠ some i := by
          intro hi
          exact hact (by rw [AdminEvent.actor, hi]; rfl)
        rw [proc?_even, proc?_even]
        obtain hsame | ⟨hnone, hnew⟩ := (Sys.step_inv hs).procs_frame hact'
        · exact Or.inl (by rw [hsame])
        · exact Or.inr ⟨by rw [hnone]; rfl, by rw [hnew]; rfl⟩
      · rw [proc?_odd, proc?_odd]
        exact Or.inl rfl
  | health =>
      cases h
      exact a.readers_frame .health n
  | memory =>
      cases h
      exact a.readers_frame .memory n
  | read i rss =>
      simp only [step] at h
      split at h
      case h_1 => cases h
      case h_2 r hi =>
        obtain ⟨r', hr, rfl⟩ := Option.map_eq_some_iff.mp h
        obtain ⟨j, rfl⟩ | ⟨j, rfl⟩ := name_cases n
        · rw [proc?_even, proc?_even]
          exact Or.inl rfl
        · have hij : i ≠ j := by
            rintro rfl
            exact hact rfl
          rw [proc?_odd, proc?_odd]
          exact Or.inl (by rw [List.getElem?_set_ne hij])

/-- A request that is dropped keeps no guard, the others stay as they are, and so do the
counters. -/
theorem AdminSys.drop_frame (h : a.drop n = some b) :
    (∃ p, b.proc? n = some p ∧ keepsState p = none) ∧ (∀ j, j ≠ n → b.proc? j = a.proc? j) ∧
    b.sys.node.state = a.sys.node.state := by
  obtain ⟨i, rfl⟩ | ⟨i, rfl⟩ := name_cases n
  · rw [drop, if_pos (Nat.mul_mod_right 2 i), Nat.mul_div_cancel_left i (by decide)] at h
    obtain ⟨sys, hsys, rfl⟩ := Option.map_eq_some_iff.mp h
    obtain ⟨p, node, p', hi, hp, rfl⟩ := Sys.cancel_inv hsys
    refine ⟨⟨.inl p', ?_, rfl⟩, fun j hj => ?_, (Proc.cancel_state hp).1⟩
    · rw [proc?_even]
      exact congrArg (Option.map Sum.inl) (getElem?_set_self hi)
    · obtain ⟨k, rfl⟩ | ⟨k, rfl⟩ := name_cases j
      · rw [proc?_even, proc?_even, List.getElem?_set_ne (by omega)]
      · rw [proc?_odd, proc?_odd]
  · rw [drop, if_neg (by omega), show (2 * i + 1) / 2 = i by omega] at h
    split at h
    case isFalse => cases h
    case isTrue hany =>
      cases h
      obtain ⟨r, hr, -⟩ := (Option.any_eq_true _ _).mp hany
      refine ⟨⟨.inr .gone, ?_, rfl⟩, fun j hj => ?_, rfl⟩
      · rw [proc?_odd]
        exact congrArg (Option.map Sum.inr) (getElem?_set_self hr)
      · obtain ⟨k, rfl⟩ | ⟨k, rfl⟩ := name_cases j
        · rw [proc?_even, proc?_even]
        · rw [proc?_odd, proc?_odd, List.getElem?_set_ne (by omega)]

theorem starts_keeps (h : e.starts = some p) : keepsState p = none := by
  cases e with
  | node e => cases e <;> cases h <;> rfl
  | health => cases h; rfl
  | memory => cases h; rfl
  | read => cases h

/-! ## The two locks -/

/-- A request of the node that awaits a lock can take its step. -/
theorem Proc.step_isSome (X : Externals) (now : Nat) (node : Node) {q : Proc}
    (h : (awaitsState (.inl q)).isSome ∨ awaitsCache (.inl q)) :
    ∃ res, q.step X now {} node = some res := by
  apply Option.isSome_iff_exists.mp
  cases q with
  | task r =>
      obtain ⟨req, pc⟩ := r
      rw [Proc.step, Option.isSome_map]
      cases pc with
      | increment => rfl
      | fail => rfl
      | finish => rfl
      | getCached => rfl
      | stats => rfl
      | getOrCompile ref wasm g =>
          simp only [TaskRun.step]
          split <;> rfl
      | _ => simp [awaitsState, awaitsCache, TaskPc.awaitsState, TaskPc.awaitsCache] at h
  | warm w =>
      rw [Proc.step, Option.isSome_map]
      cases w with
      | stats => rfl
      | getOrCompile => rfl
      | _ => simp [awaitsState, awaitsCache, WarmRun.awaitsCache] at h

theorem Reader.step_isSome (node : Node) {q : Reader}
    (h : (awaitsState (.inr q)).isSome ∨ awaitsCache (.inr q)) :
    ∃ q', q.step 0 node = some q' := by
  cases q with
  | health => exact ⟨_, rfl⟩
  | memory => exact ⟨_, rfl⟩
  | memoryStats => exact ⟨_, rfl⟩
  | _ => simp [awaitsState, awaitsCache] at h

/-- A request that awaits a lock can take its step. -/
theorem AdminSys.step_ready (hn : a.proc? n = some p)
    (h : (awaitsState p).isSome ∨ awaitsCache p) :
    ∃ e b, e.actor = some n ∧ a.step X e = some b := by
  obtain ⟨i, rfl⟩ | ⟨i, rfl⟩ := name_cases n
  · rw [proc?_even] at hn
    obtain ⟨q, hq, rfl⟩ := Option.map_eq_some_iff.mp hn
    obtain ⟨res, hres⟩ := Proc.step_isSome X a.sys.now a.sys.node h
    obtain ⟨b, hb⟩ : ∃ b, a.step X (.node (.run i {})) = some b :=
      Option.isSome_iff_exists.mp (by simp [step, Sys.step, hq, hres])
    exact ⟨_, b, rfl, hb⟩
  · rw [proc?_odd] at hn
    obtain ⟨q, hq, rfl⟩ := Option.map_eq_some_iff.mp hn
    obtain ⟨q', hq'⟩ := Reader.step_isSome a.sys.node h
    obtain ⟨b, hb⟩ : ∃ b, a.step X (.read i 0) = some b :=
      Option.isSome_iff_exists.mp (by simp [step, hq, hq'])
    exact ⟨_, b, rfl, hb⟩

/-- The requests of a node under the lock of `NodeState`. -/
def stateLock (X : Externals) : Guarded AdminSys AdminEvent where
  step := AdminSys.step X
  actor := AdminEvent.actor
  awaits a n := (a.proc? n).bind awaitsState
  keeps a n := (a.proc? n).bind keepsState
  awaits_frame := by
    intro a b e n m hs hact ha
    obtain ⟨p, hp, hm⟩ := Option.bind_eq_some_iff.mp ha
    obtain hsame | ⟨hnone, -⟩ := AdminSys.step_frame hs hact
    · rw [hsame]
      exact ha
    · rw [hnone] at hp
      cases hp
  keeps_frame := by
    intro a b e n hs hact
    obtain hsame | ⟨hnone, hnew⟩ := AdminSys.step_frame hs hact
    · rw [hsame]
    · rw [hnone, hnew]
      cases he : e.starts with
      | none => rfl
      | some p => exact starts_keeps he
  ready := by
    intro a n m ha
    obtain ⟨p, hp, hm⟩ := Option.bind_eq_some_iff.mp ha
    exact AdminSys.step_ready hp (Or.inl (by rw [hm]; rfl))

theorem exists_of_any {q : Proc ⊕ Reader → Bool} (h : (a.proc? n).any q = true) :
    ∃ p, a.proc? n = some p ∧ q p = true := by
  cases hp : a.proc? n with
  | none =>
      rw [hp] at h
      cases h
  | some p =>
      rw [hp] at h
      exact ⟨p, rfl, h⟩

/-- No request awaits both locks. -/
theorem awaits_apart (h : awaitsCache p = true) : awaitsState p = none := by
  cases p with
  | inl q =>
      cases q with
      | task r =>
          obtain ⟨req, pc⟩ := r
          cases pc <;> first | rfl | cases h
      | warm w => rfl
  | inr q => cases q <;> first | rfl | cases h

/-- And the mutex of the module cache beside it. -/
def cacheMutex (X : Externals) : Mutexed (stateLock X) where
  awaits a n := (a.proc? n).any awaitsCache
  awaits_frame := by
    intro a b e n hs hact ha
    obtain ⟨p, hp, hm⟩ := exists_of_any ha
    obtain hsame | ⟨hnone, -⟩ := AdminSys.step_frame hs hact
    · rw [hsame]
      exact ha
    · rw [hnone] at hp
      cases hp
  apart := by
    intro a n ha
    obtain ⟨p, hp, hm⟩ := exists_of_any ha
    simp [stateLock, hp, awaits_apart hm]
  ready := by
    intro a n ha
    obtain ⟨p, hp, hm⟩ := exists_of_any ha
    exact AdminSys.step_ready hp (Or.inr hm)

/-- A request that keeps its guard of the state goes on under the mutex of the cache. -/
theorem awaitsCache_of_keeps {m : Mode} (h : keepsState p = some m) : awaitsCache p = true := by
  cases p with
  | inl q => cases h
  | inr q => cases q <;> first | rfl | cases h

/-! ## Requests that are dropped -/

inductive EdgeEvent where
  /-- A step of the node or of its locks. -/
  | server (e : LockEvent (LockEvent AdminEvent))
  /-- The client of a request goes away. -/
  | drop (n : Nat)

def edgeStep (X : Externals) (B : Locked (Locked AdminSys)) :
    EdgeEvent → Option (Locked (Locked AdminSys))
  | .server e => (cacheMutex X).step B e
  | .drop n => (B.state.state.drop n).map fun a => ⟨⟨a, B.state.lock.drop n⟩, B.lock.drop n⟩

/-- A node under both locks, before its first request. -/
def edgeInit (nodeId : String) (maxConcurrentTasks cacheMaxSize cacheTtl : Nat) :
    Locked (Locked AdminSys) :=
  ⟨⟨.init nodeId maxConcurrentTasks cacheMaxSize cacheTtl, .free⟩, .free⟩

variable {nodeId : String} {maxConcurrentTasks cacheMaxSize cacheTtl : Nat}
  {B B' : Locked (Locked AdminSys)} {ev : EdgeEvent}
  {ms : List (Move (Locked (Locked AdminSys)) EdgeEvent)}

theorem stateLock_init (n : Nat) :
    (stateLock X).keeps (.init nodeId maxConcurrentTasks cacheMaxSize cacheTtl) n = none := by
  obtain ⟨i, rfl⟩ | ⟨i, rfl⟩ := name_cases n
  · simp [stateLock, AdminSys.proc?_even, AdminSys.init, Sys.init]
  · simp [stateLock, AdminSys.proc?_odd, AdminSys.init]

theorem edgeLocks_step (hI : (cacheMutex X).Inv B) (h : edgeStep X B ev = some B') :
    (cacheMutex X).Inv B' := by
  cases ev with
  | server e => exact hI.step h
  | drop n =>
      obtain ⟨a, ha, rfl⟩ := Option.map_eq_some_iff.mp h
      obtain ⟨⟨p, hp, hkeeps⟩, hother, -⟩ := AdminSys.drop_frame ha
      refine hI.drop ?_ fun j hj => ?_
      · simp only [stateLock, hp, Option.bind_some, hkeeps]
      · simp only [stateLock, cacheMutex, hother j hj, and_self]

/-- In every run under both locks, with requests dropped at any of their `await`s, no request waits
for itself, and while some request waits, a guard can be granted or another request that has one
can go on. -/
theorem edgeLocks_deadlockFree
    (h : Run (edgeStep X) (edgeInit nodeId maxConcurrentTasks cacheMaxSize cacheTtl) ms B) :
    (cacheMutex X).DeadlockFree B := by
  have hI : (cacheMutex X).Inv B :=
    h.always (.init stateLock_init) fun _ _ _ hI hs => edgeLocks_step hI hs
  refine Mutexed.deadlockFree hI fun n m hk => ?_
  obtain ⟨p, hp, hm⟩ := Option.bind_eq_some_iff.mp hk
  simp [cacheMutex, hp, awaitsCache_of_keeps hm]

/-- The step of a request under a guard of the state. -/
def underState (n : Nat) (e : AdminEvent) : List EdgeEvent :=
  [.server (.move (.request n)), .server (.move .grant), .server (.move (.move e))]

/-- A task is started as the process `i` of the node and counted. -/
def counting (i : Nat) : List EdgeEvent :=
  .server (.move (.move (.node (.executeTask (.sample (.wasmBytes [])))))) ::
  .server (.move (.move (.node (.run i {})))) :: underState (2 * i) (.node (.run i {}))

/-- The client of a task goes away while it is counted.  Then a report keeps its read guard and
asks for the mutex, while another task wants to count its result. -/
def reportInBetween : List EdgeEvent :=
  counting 0 ++ .drop 0 :: counting 1 ++
  .server (.move (.move .memory)) :: underState 1 (.read 0 0) ++
  [.server (.move (.move (.node (.run 1 {})))), .server (.move (.request 2)),
   .server (.request 1)]

theorem reportInBetween_deadlockFree :
    ∃ ms B, Run (edgeStep .sample) (edgeInit "n" 2 1 60) ms B ∧
      B.state.lock.waiting 2 = true ∧ B.lock.waiting 1 = true ∧ B.state.lock.holding 1 = true ∧
      (cacheMutex .sample).DeadlockFree B := by
  have htest : (exec (edgeStep .sample) (edgeInit "n" 2 1 60) reportInBetween).any
      (fun B => B.state.lock.waiting 2 && B.lock.waiting 1 && B.state.lock.holding 1) = true := by
    decide
  obtain ⟨B, hrun, hB⟩ := exec_any_run htest
  simp only [Bool.and_eq_true] at hB
  exact ⟨_, B, hrun, hB.1.1, hB.1.2, hB.2, edgeLocks_deadlockFree hrun⟩

/-! ## The report of `/debug/memory` -/

/-- The counters are written under a write guard only. -/
theorem TaskRun.step_state (h : r.step X now env node = some (node', r'))
    (hpc : r.pc.awaitsState ≠ some .write) : node'.state = node.state := by
  cases TaskRun.step_inv h with
  | increment hpc' => exact absurd (by rw [hpc']; rfl) hpc
  | fail hpc' => exact absurd (by rw [hpc']; rfl) hpc
  | succeed hpc' => exact absurd (by rw [hpc']; rfl) hpc
  | failExecution hpc' => exact absurd (by rw [hpc']; rfl) hpc
  | _ => rfl

theorem Sys.Step.state_frame {s t : Sys} {e : Event} (h : Sys.Step X s e t)
    (hpc : ∀ i env r, e = .run i env → s.procs[i]? = some (.task r) →
      r.pc.awaitsState ≠ some .write) : t.node.state = s.node.state := by
  cases h with
  | start => rfl
  | tick => rfl
  | task hi hr => exact TaskRun.step_state hr (hpc _ _ _ rfl hi)
  | warm _ hw => exact (WarmRun.step_frame hw).1

/-- Only a step under the read guard keeps it. -/
theorem stateLock_keepsGranted : Guarded.KeepsGranted (stateLock X) := by
  intro a e b n hact hnone hs
  cases e with
  | node e =>
      obtain ⟨i, -, rfl⟩ := Option.map_eq_some_iff.mp hact
      rw [stateLock]
      dsimp only
      rw [AdminSys.proc?_even]
      cases b.sys.procs[i]? <;> rfl
  | health => cases hact
  | memory => cases hact
  | read i rss =>
      cases hact
      have hstep : a.step X (.read i rss) = some b := hs
      simp only [AdminSys.step] at hstep
      split at hstep
      case h_1 => cases hstep
      case h_2 q hi =>
        obtain ⟨q', hq', rfl⟩ := Option.map_eq_some_iff.mp hstep
        simp only [stateLock, AdminSys.proc?_odd, hi] at hnone
        simp only [stateLock, AdminSys.proc?_odd, getElem?_set_self hi]
        cases q with
        | memory => cases hnone
        | health => cases hnone
        | memoryStats =>
            cases hq'
            rfl
        | _ => cases hq'

/-- The count that a report has read is the count of the node, until the report is made. -/
structure SnapshotInv (X : Externals) (L : Locked AdminSys) : Prop where
  lock : (stateLock X).LockInv L
  exclusive : Guarded.Exclusive L
  current : ∀ (i k : Nat), L.state.readers[i]? = some (.memoryStats k) →
    k = L.state.sys.node.state.activeTasks

theorem SnapshotInv.init :
    SnapshotInv X ⟨.init nodeId maxConcurrentTasks cacheMaxSize cacheTtl, .free⟩ := by
  exact ⟨.init stateLock_init, .init _, fun i k hi => by cases hi⟩

variable {L L' : Locked AdminSys} {le : LockEvent AdminEvent}

/-- While a report is being made, no request is granted a write guard. -/
theorem SnapshotInv.not_entered {i k j : Nat} {r : TaskRun} (hI : SnapshotInv X L)
    (hi : L.state.readers[i]? = some (.memoryStats k))
    (hj : L.state.sys.procs[j]? = some (.task r)) (hpc : r.pc.awaitsState = some .write) :
    L.lock.entered (2 * j) = false := by
  rw [← Bool.not_eq_true, RwLock.entered_iff]
  rintro ⟨m, hm⟩
  have haw := hI.lock.granted _ _ hm
  simp only [stateLock, AdminSys.proc?_even, hj, Option.map_some, Option.bind_some, awaitsState,
    hpc, Option.some.injEq] at haw
  subst haw
  have hkept : (2 * i + 1, Mode.read) ∈ L.lock.kept := by
    rw [hI.lock.kept]
    simp [stateLock, AdminSys.proc?_odd, hi, keepsState]
  rw [(hI.exclusive _ hm).2] at hkept
  cases hkept

/-- What a step of the node and of a reader does to the reports under way. -/
theorem SnapshotInv.current_step {e : AdminEvent} (hI : SnapshotInv X L)
    (hs : L.state.step X e = some b)
    (hen : ∀ n, e.actor = some n → (stateLock X).awaits L.state n = none ∨
      L.lock.entered n = true) (i k : Nat) (hi : b.readers[i]? = some (.memoryStats k)) :
    k = b.sys.node.state.activeTasks := by
  cases e with
  | node e =>
      obtain ⟨sys, hsys, rfl⟩ := Option.map_eq_some_iff.mp hs
      have hsame := (Sys.step_inv hsys).state_frame fun j env r he hj hpc => by
        subst he
        have haw : (stateLock X).awaits L.state (2 * j) = some .write := by
          simp [stateLock, AdminSys.proc?_even, hj, awaitsState, hpc]
        obtain hnone | hent := hen (2 * j) rfl
        · rw [haw] at hnone
          cases hnone
        · rw [hI.not_entered hi hj hpc] at hent
          cases hent
      rw [hI.current i k hi]
      exact congrArg NodeState.activeTasks hsame.symm
  | health =>
      cases hs
      obtain ⟨-, hnew⟩ | ⟨-, hold⟩ := getElem?_snoc_inv hi
      · cases hnew
      · exact hI.current i k hold
  | memory =>
      cases hs
      obtain ⟨-, hnew⟩ | ⟨-, hold⟩ := getElem?_snoc_inv hi
      · cases hnew
      · exact hI.current i k hold
  | read j rss =>
      simp only [AdminSys.step] at hs
      split at hs
      case h_1 => cases hs
      case h_2 q hj =>
        obtain ⟨q', hq', rfl⟩ := Option.map_eq_some_iff.mp hs
        obtain ⟨-, rfl⟩ | ⟨-, hold⟩ := getElem?_set_inv hi
        · cases q with
          | memory =>
              cases hq'
              rfl
          | _ => cases hq'
        · exact hI.current i k hold

theorem SnapshotInv.step (hI : SnapshotInv X L) (hs : (stateLock X).lockedStep L le = some L') :
    SnapshotInv X L' := by
  refine ⟨hI.lock.step hs, hI.exclusive.step stateLock_keepsGranted hs, ?_⟩
  cases Guarded.lockedStep_inv hs with
  | request => exact hI.current
  | grant => exact hI.current
  | ambient hact ht =>
      refine hI.current_step ht fun n hn => ?_
      rw [show AdminEvent.actor _ = none from hact] at hn
      cases hn
  | move hact hen ht =>
      refine hI.current_step ht fun n hn => ?_
      cases hact.symm.trans hn
      exact hen

/-- A request that is dropped leaves the reports of the others as they are. -/
theorem SnapshotInv.drop (hI : SnapshotInv X L) (h : L.state.drop n = some b) :
    SnapshotInv X ⟨b, L.lock.drop n⟩ := by
  obtain ⟨⟨p, hp, hkeeps⟩, hother, hstate⟩ := AdminSys.drop_frame h
  refine ⟨hI.lock.drop ?_ fun j hj => ?_, hI.exclusive.drop b n, fun i k hi => ?_⟩
  · simp only [stateLock, hp, Option.bind_some, hkeeps]
  · simp only [stateLock, hother j hj, and_self]
  · dsimp only at hi ⊢
    rw [hstate]
    -- A report that is under way has not been dropped.
    have hne : 2 * i + 1 ≠ n := by
      rintro rfl
      rw [AdminSys.proc?_odd, hi] at hp
      cases hp
      cases hkeeps
    have hsame := hother (2 * i + 1) hne
    rw [AdminSys.proc?_odd, AdminSys.proc?_odd, hi] at hsame
    obtain ⟨r, hr, heq⟩ := Option.map_eq_some_iff.mp hsame.symm
    cases heq
    exact hI.current i k hr

theorem SnapshotInv.edgeStep (hI : SnapshotInv X B.state) (h : edgeStep X B ev = some B') :
    SnapshotInv X B'.state := by
  cases ev with
  | server e =>
      obtain ⟨e', -, hs⟩ | ⟨-, hsame⟩ := Mutexed.step_first h
      · exact hI.step hs
      · rw [hsame]
        exact hI
  | drop n =>
      obtain ⟨a, ha, rfl⟩ := Option.map_eq_some_iff.mp h
      exact hI.drop ha

/-! ## The number of active stores -/

/-- The step ends a request that keeps its count. -/
def AdminSys.keepsCount (X : Externals) (a : AdminSys) : EdgeEvent → Bool
  | .server (.move (.move (.node e))) => a.sys.leaks X e
  | .drop n => n % 2 = 0 && a.sys.procs[n / 2]?.any Proc.inFlight
  | _ => false

/-- The number of requests that have ended and kept their count. -/
def keptCounts (X : Externals) (ms : List (Move (Locked (Locked AdminSys)) EdgeEvent)) : Nat :=
  ms.countP fun m => m.pre.state.state.keepsCount X m.ev

/-- What a step under the locks does to the node. -/
theorem Drifted.adminStep {k : Nat} (hI : Drifted k a.sys) (h : a.step X e = some b) :
    Drifted (k + if a.keepsCount X (.server (.move (.move e))) then 1 else 0) b.sys := by
  cases e with
  | node e =>
      obtain ⟨sys, hsys, rfl⟩ := Option.map_eq_some_iff.mp h
      exact hI.step hsys
  | health =>
      cases h
      exact hI
  | memory =>
      cases h
      exact hI
  | read i rss =>
      simp only [AdminSys.step] at h
      split at h
      case h_1 => cases h
      case h_2 =>
        obtain ⟨q', -, rfl⟩ := Option.map_eq_some_iff.mp h
        exact hI

theorem Drifted.edgeStep {k : Nat} (hI : Drifted k B.state.state.sys)
    (h : edgeStep X B ev = some B') :
    Drifted (k + if B.state.state.keepsCount X ev then 1 else 0) B'.state.state.sys := by
  cases ev with
  | server e =>
      obtain ⟨e', rfl, hs⟩ | ⟨hnot, hsame⟩ := Mutexed.step_first h
      · generalize B'.state = L' at hs ⊢
        cases Guarded.lockedStep_inv hs with
        | request => exact hI
        | grant => exact hI
        | ambient _ ht => exact hI.adminStep ht
        | move _ _ ht => exact hI.adminStep ht
      · cases e with
        | move e => exact absurd rfl (hnot e)
        | request =>
            rw [hsame]
            exact hI
        | grant =>
            rw [hsame]
            exact hI
  | drop n =>
      obtain ⟨a, ha, rfl⟩ := Option.map_eq_some_iff.mp h
      unfold AdminSys.drop at ha
      split at ha
      case isTrue heven =>
        obtain ⟨sys, hsys, rfl⟩ := Option.map_eq_some_iff.mp ha
        simpa only [AdminSys.keepsCount, heven, decide_true, Bool.true_and] using hI.cancel hsys
      case isFalse hodd =>
        split at ha <;> cases ha
        simpa [AdminSys.keepsCount, hodd] using hI

theorem activeStores_eq
    (h : Run (edgeStep X) (edgeInit nodeId maxConcurrentTasks cacheMaxSize cacheTtl) ms B) :
    Drifted (keptCounts X ms) B.state.state.sys := by
  induction h with
  | nil => exact ⟨rfl, rfl⟩
  | snoc _ hs ih =>
      rw [keptCounts, List.countP_append, List.countP_singleton]
      exact ih.edgeStep hs

/-- In every run under both locks, with requests dropped at any of their `await`s: the report is
what `memory_handler` would have found if it had read everything at once, in its last step, and
its number of active stores is the number of tasks in flight at that moment and of those that have
kept their count, because they have returned through a `?` or their client went away. -/
theorem memory_snapshot {i k rss : Nat}
    (h : Run (edgeStep X) (edgeInit nodeId maxConcurrentTasks cacheMaxSize cacheTtl) ms B)
    (hi : B.state.state.readers[i]? = some (.memoryStats k))
    (hs : edgeStep X B (.server (.move (.move (.read i rss)))) = some B') :
    ∃ report, B'.state.state.readers[i]? = some (.reported report) ∧
      report = memoryReport rss B.state.state.sys.node.state.activeTasks
        B.state.state.sys.node.moduleCache.statsSnapshot ∧
      report.activeStores =
        B.state.state.sys.procs.countP Proc.inFlight + keptCounts X ms := by
  have hI : SnapshotInv X B.state :=
    h.always (I := fun B => SnapshotInv X B.state) .init fun _ _ _ hI hs => hI.edgeStep hs
  obtain rfl := hI.current i k hi
  refine ⟨_, ?_, rfl, (activeStores_eq h).active⟩
  -- The step is one of the reader under the mutex, and the lock of the state lets it pass.
  have hlocked : (stateLock X).lockedStep B.state (.move (.read i rss)) = some B'.state := by
    have hmutex : (cacheMutex X).step B (.move (.move (.read i rss))) = some B' := hs
    obtain ⟨e, he, hinner⟩ | ⟨hnot, -⟩ := Mutexed.step_first hmutex
    · cases he
      exact hinner
    · exact absurd rfl (hnot _)
  have hstep : B.state.state.step X (.read i rss) = some B'.state.state := by
    generalize B'.state = L' at hlocked
    cases Guarded.lockedStep_inv hlocked with
    | ambient hact => cases hact
    | move _ _ ht => exact ht
  rw [AdminSys.step, hi] at hstep
  rw [← Option.some.inj hstep]
  exact getElem?_set_self hi

/-- The report gets the mutex and is made, while the task still waits to count its result.  It
counts that task and the one whose client has gone. -/
theorem reportInBetween_snapshot :
    ∃ ms B B', Run (edgeStep .sample) (edgeInit "n" 2 1 60) ms B ∧
      B.state.lock.waiting 2 = true ∧ B.state.state.sys.procs.countP Proc.inFlight = 1 ∧
      edgeStep .sample B (.server (.move (.move (.read 0 4096)))) = some B' ∧
      ∃ report, B'.state.state.readers[0]? = some (.reported report) ∧ report.activeStores = 2 ∧
        report.activeStores =
          B.state.state.sys.procs.countP Proc.inFlight + keptCounts .sample ms := by
  have htest : (exec (edgeStep .sample) (edgeInit "n" 2 1 60)
      (reportInBetween ++ [.server .grant])).any (fun B => B.state.lock.waiting 2 &&
        decide (B.state.state.sys.procs.countP Proc.inFlight = 1) &&
        decide (B.state.state.sys.node.state.activeTasks = 2) &&
        decide (B.state.state.readers[0]? = some (.memoryStats 2)) &&
        (edgeStep .sample B (.server (.move (.move (.read 0 4096))))).isSome) = true := by decide
  obtain ⟨B, hrun, hB⟩ := exec_any_run htest
  simp only [Bool.and_eq_true, decide_eq_true_eq] at hB
  obtain ⟨⟨⟨⟨hwait, hflight⟩, htwo⟩, hi⟩, hsome⟩ := hB
  obtain ⟨B', hB'⟩ := Option.isSome_iff_exists.mp hsome
  obtain ⟨report, hreport, rfl, hactive⟩ := memory_snapshot hrun hi hB'
  exact ⟨_, B, B', hrun, hwait, hflight, hB', _, hreport, htwo, hactive⟩

end FerroEdge.EdgeNode
