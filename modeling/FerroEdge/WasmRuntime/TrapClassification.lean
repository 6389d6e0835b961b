import FerroEdge.WasmRuntime.Sandbox

/-!
# The cause of a failed execution

A guest call that ends with the epoch trap should be reported as a timeout, and nothing else
should.  Two things stand in the way.  The closure after a call looks at the flag of the limiter
first, which stays set for the rest of the execution, also when the guest has coped with the
denied request.  And an error that is no trap is searched for the word "interrupt", which a
module can put into a link error through the name of an import.

`classified_iff` says that an execution is reported as it should exactly when neither happens,
and `misclassified` gives an execution for each.
-/

namespace FerroEdge.WasmRuntime

open Machine

/-- A guest call ended with the epoch trap. -/
def Interrupted (calls : List GuestCall) : Prop :=
  ∃ c ∈ calls, c.failure = some (.trap .interrupt)

instance (calls : List GuestCall) : Decidable (Interrupted calls) :=
  inferInstanceAs (Decidable (∃ c ∈ calls, _))

/-- A guest call asked for more memory than the limit. -/
def OverLimit (config : ExecutionConfig) (calls : List GuestCall) : Prop :=
  ∃ c ∈ calls, ∃ d ∈ c.requests, config.memoryLimitBytes.toNat < d

/-- The text contains the word that `map_trap_error` looks for. -/
def MentionsInterrupt (text : String) : Prop :=
  "interrupt".toList <:+: text.toList ∨ "Interrupt".toList <:+: text.toList

/-- The execution is reported as a timeout exactly when a guest call ended with the epoch
trap. -/
structure Classified (config : ExecutionConfig)
    (execution : List GuestCall × Except WasmError ExecutionResult) : Prop where
  timeout : Interrupted execution.1 → execution.2 = .error (.timeout config.timeoutMs)
  only : ∀ ms, execution.2 = .error (.timeout ms) → Interrupted execution.1

variable {config : ExecutionConfig} {input : Bytes} {elapsedMs : UInt64}
  {calls : List GuestCall} {execution : List GuestCall × Except WasmError ExecutionResult}

/-! ## How an execution ends -/

/-- The requests of the calls so far decide the flag of the limiter. -/
def flag (config : ExecutionConfig) (calls : List GuestCall) : Bool :=
  calls.any fun c => c.requests.any fun d => config.memoryLimitBytes.toNat < d

theorem flag_iff : flag config calls = true ↔ OverLimit config calls := by
  simp [flag, OverLimit]

/-- The limiter after the calls so far. -/
def limitsAfter (config : ExecutionConfig) (calls : List GuestCall) : LimitState :=
  ⟨config.memoryLimitBytes.toNat, flag config calls⟩

/-- An execution ends with the guest call that fails, or by itself. -/
inductive Ended (config : ExecutionConfig) :
    List GuestCall × Except WasmError ExecutionResult → Prop where
  | failed {calls : List GuestCall} {c : GuestCall} {e : HostError} :
      (∀ c ∈ calls, c.failure = none) → c.failure = some e →
      Ended config (calls ++ [c],
        .error (callError (limitsAfter config (calls ++ [c])) config.timeoutMs e))
  | returned {calls : List GuestCall} {result : Except WasmError ExecutionResult} :
      (∀ c ∈ calls, c.failure = none) → (∀ ms, result ≠ .error (.timeout ms)) →
      Ended config (calls, result)

/-- The limiter after one more call. -/
theorem limits_of_run {α : Type} {guest : Guest α} {requests : List Nat} {limits : LimitState}
    {result : Except HostError α} (calls : List GuestCall)
    (h : guest.run (limitsAfter config calls) = (requests, limits, result)) (entry : GuestEntry)
    (failure : Option HostError) :
    limits = limitsAfter config (calls ++ [⟨entry, requests, failure⟩]) := by
  have hlimits := guest.run_limits (limitsAfter config calls)
  rw [h] at hlimits
  dsimp only at hlimits
  rw [hlimits]
  simp only [limitsAfter, flag, List.any_append, List.any_cons, List.any_nil, Bool.or_false]
  rfl

theorem readOutput_ne_timeout (memory : Memory) (ptr raw : Int32) (elapsedMs : UInt64)
    (ms : UInt64) : readOutput memory ptr raw elapsedMs ≠ .error (.timeout ms) := by
  unfold readOutput
  dsimp only
  split
  · nofun
  · split
    · split <;> nofun
    · nofun

/-- The first part ends as an execution does, or it leaves a store behind. -/
theorem prepare_cases (module : Guest GuestInstance) (config : ExecutionConfig) (input : Bytes) :
    (∃ calls e, prepare module config input = (calls, .error e) ∧
      Ended config (calls, .error e)) ∨
    ∃ calls p, prepare module config input = (calls, .ok p) ∧
      (∀ c ∈ calls, c.failure = none) ∧ p.limits = limitsAfter config calls := by
  have hnone : ∀ c ∈ ([] : List GuestCall), c.failure = none := by simp
  unfold prepare
  split
  case h_1 requests limits e hrun =>
    rw [limits_of_run [] hrun .instantiate (some e)]
    exact .inl ⟨_, _, rfl, .failed hnone rfl⟩
  case h_2 requests limits inst hrun =>
    rw [limits_of_run [] hrun .instantiate none]
    have hinst : ∀ c ∈ [(⟨.instantiate, requests, none⟩ : GuestCall)], c.failure = none := by simp
    dsimp only
    split
    · exact .inl ⟨_, _, rfl, .returned hinst nofun⟩
    split
    · exact .inl ⟨_, _, rfl, .returned hinst nofun⟩
    split
    · exact .inl ⟨_, _, rfl, .returned hinst nofun⟩
    split
    case h_1 requests limits e halloc =>
      rw [limits_of_run _ halloc _ (some e)]
      exact .inl ⟨_, _, rfl, .failed hinst rfl⟩
    case h_2 requests limits grown ptr halloc =>
      refine .inr ⟨_, _, rfl, ?_, limits_of_run _ halloc _ none⟩
      simp

theorem finish_cases {calls : List GuestCall} {p : Prepared}
    (hcalls : ∀ c ∈ calls, c.failure = none) (hlimits : p.limits = limitsAfter config calls)
    (input : Bytes) (elapsedMs : UInt64) :
    Ended config (calls ++ (finish config input elapsedMs p).1,
      (finish config input elapsedMs p).2) := by
  unfold finish
  split
  · rw [List.append_nil]
    exact .returned hcalls nofun
  · dsimp only
    rw [hlimits]
    split
    case h_1 requests limits e hrun =>
      rw [limits_of_run _ hrun _ (some e)]
      exact .failed hcalls rfl
    case h_2 requests limits grown raw hrun =>
      refine .returned ?_ (readOutput_ne_timeout _ _ _ _)
      intro c hc
      rcases List.mem_append.mp hc with hc | hc
      · exact hcalls c hc
      · rw [List.mem_singleton.mp hc]

theorem ended (module : Guest GuestInstance) (config : ExecutionConfig) (input : Bytes)
    (elapsedMs : UInt64) : Ended config (executeSyncCompiled module config input elapsedMs) := by
  unfold executeSyncCompiled
  rcases prepare_cases module config input with ⟨calls, e, h, hended⟩ | ⟨calls, p, h, hcalls, hp⟩
  · rw [h]
    exact hended
  · rw [h]
    exact finish_cases hcalls hp input elapsedMs

/-! ## The classification -/

/-- The condition on the failure of a guest call: it is no epoch trap after a denied request, and
no error that only mentions one. -/
def Unambiguous (config : ExecutionConfig) (calls : List GuestCall) (e : HostError) : Prop :=
  (e = .trap .interrupt → ¬ OverLimit config calls) ∧
  ∀ text, e = .message text → MentionsInterrupt text → OverLimit config calls

theorem mentions_iff {text : String} :
    (mentions "interrupt" text || mentions "Interrupt" text) = true ↔ MentionsInterrupt text := by
  simp only [mentions, MentionsInterrupt, Bool.or_eq_true, decide_eq_true_eq]

/-- What the closure makes of the error of a call. -/
theorem callError_eq_timeout {e : HostError} {ms : UInt64} :
    callError (limitsAfter config calls) config.timeoutMs e = .timeout ms ↔
      ¬ OverLimit config calls ∧ ms = config.timeoutMs ∧
      (e = .trap .interrupt ∨ ∃ text, e = .message text ∧ MentionsInterrupt text) := by
  rw [← flag_iff, callError, limitsAfter]
  by_cases hflag : flag config calls = true
  · rw [if_pos hflag]
    simp [hflag]
  · rw [if_neg hflag]
    cases e with
    | trap trap => cases trap <;> simp [mapTrapError, hflag, eq_comm]
    | message text =>
        rw [mapTrapError]
        by_cases hm : MentionsInterrupt text
        · rw [if_pos (mentions_iff.mpr hm)]
          simp [hflag, hm, eq_comm]
        · rw [if_neg (mt mentions_iff.mp hm)]
          simp [hm]

/-- The error of the last call says whether the execution was interrupted. -/
theorem interrupted_snoc {c : GuestCall} {e : HostError}
    (hcalls : ∀ c ∈ calls, c.failure = none) (hc : c.failure = some e) :
    Interrupted (calls ++ [c]) ↔ e = .trap .interrupt := by
  constructor
  · rintro ⟨c', hmem, hint⟩
    rcases List.mem_append.mp hmem with hmem | hmem
    · rw [hcalls c' hmem] at hint
      cases hint
    · rw [List.mem_singleton.mp hmem, hc] at hint
      exact Option.some.inj hint
  · rintro rfl
    exact ⟨c, by simp, hc⟩

/-- Only the last call can be ambiguous. -/
theorem forall_failure_snoc {c : GuestCall} {e : HostError} {P : HostError → Prop}
    (hcalls : ∀ c ∈ calls, c.failure = none) (hc : c.failure = some e) :
    (∀ c' ∈ calls ++ [c], ∀ e' ∈ c'.failure, P e') ↔ P e := by
  constructor
  · intro h
    exact h c (by simp) e hc
  · intro he c' hmem e' he'
    rcases List.mem_append.mp hmem with hmem | hmem
    · rw [hcalls c' hmem] at he'
      cases he'
    · rw [List.mem_singleton.mp hmem, hc] at he'
      cases he'
      exact he

theorem Ended.unambiguous_iff (h : Ended config execution) :
    Classified config execution ↔
      ∀ c ∈ execution.1, ∀ e ∈ c.failure, Unambiguous config execution.1 e := by
  cases h with
  | @failed calls c e hcalls hc =>
      rw [forall_failure_snoc hcalls hc]
      constructor
      · rintro ⟨htimeout, honly⟩
        refine ⟨fun he => ?_, fun text he hm => ?_⟩
        · have hreported := Except.error.inj (htimeout ((interrupted_snoc hcalls hc).mpr he))
          exact (callError_eq_timeout.mp hreported).1
        · by_contra hunder
          have hreported := honly config.timeoutMs
            (congrArg Except.error (callError_eq_timeout.mpr ⟨hunder, rfl, .inr ⟨text, he, hm⟩⟩))
          rw [(interrupted_snoc hcalls hc).mp hreported] at he
          cases he
      · rintro ⟨htrap, hmessage⟩
        refine ⟨fun hint => ?_, fun ms hms => ?_⟩
        · have he := (interrupted_snoc hcalls hc).mp hint
          exact congrArg Except.error (callError_eq_timeout.mpr ⟨htrap he, rfl, .inl he⟩)
        · obtain ⟨hunder, -, he | ⟨text, he, hm⟩⟩ :=
            callError_eq_timeout.mp (Except.error.inj hms)
          · exact (interrupted_snoc hcalls hc).mpr he
          · exact absurd (hmessage text he hm) hunder
  | returned hcalls hresult =>
      refine iff_of_true ⟨fun ⟨c, hmem, hint⟩ => ?_, fun ms hms => absurd hms (hresult ms)⟩ ?_
      · rw [hcalls c hmem] at hint
        cases hint
      · intro c hmem e he
        rw [hcalls c hmem] at he
        cases he

/-! ## The calls that are listed -/

/-- A call of the guest in a store, as it is listed: what it asks for, and how it fails. -/
def Guest.call {α : Type} (guest : Guest α) (entry : GuestEntry) (limits : LimitState) :
    GuestCall where
  entry
  requests := (guest.run limits).1
  failure :=
    match (guest.run limits).2.2 with
    | .error e => some e
    | .ok _ => none

/-- The calls of a guest: it is instantiated, its `alloc` is asked for a buffer, and its function
is called on the memory that the input was written to. -/
inductive Made (module : Guest GuestInstance) (config : ExecutionConfig) (input : Bytes) :
    GuestCall → Prop where
  | instantiate : Made module config input (module.call .instantiate config.limits)
  | alloc {requests : List Nat} {limits : LimitState} {inst : GuestInstance}
      {alloc : Int32 → (m : Memory) → Guest (m.Grown × Int32)} {memory : Memory} {len : Int32} :
      module.run config.limits = (requests, limits, .ok inst) → inst.alloc = some alloc →
      inst.memory = some memory → len = Int32.ofNat input.length →
      Made module config input ((alloc len memory).call (.alloc len memory) limits)
  | process {p : Prepared} {memory : Memory} {len : Int32} :
      Allocates module config input p → p.memory.write (asUsize p.ptr) input = some memory →
      len = Int32.ofNat input.length →
      Made module config input
        ((p.process p.ptr len memory).call (.process p.ptr len memory) p.limits)

section Made

variable {α : Type} {guest : Guest α} {requests : List Nat} {limits limits' : LimitState}
  {module : Guest GuestInstance} {p : Prepared}

theorem Guest.call_error {e : HostError} (entry : GuestEntry)
    (h : guest.run limits = (requests, limits', .error e)) :
    guest.call entry limits = ⟨entry, requests, some e⟩ := by
  simp only [Guest.call, h]

theorem Guest.call_ok {a : α} (entry : GuestEntry)
    (h : guest.run limits = (requests, limits', .ok a)) :
    guest.call entry limits = ⟨entry, requests, none⟩ := by
  simp only [Guest.call, h]

theorem prepare_made (module : Guest GuestInstance) (config : ExecutionConfig) (input : Bytes) :
    ∀ c ∈ (prepare module config input).1, Made module config input c := by
  unfold prepare
  split
  case h_1 requests limits e hrun =>
    rw [← Guest.call_error .instantiate hrun]
    exact List.forall_mem_singleton.mpr .instantiate
  case h_2 requests limits inst hrun =>
    rw [← Guest.call_ok .instantiate hrun]
    have hinst : ∀ c ∈ [module.call .instantiate config.limits], Made module config input c :=
      List.forall_mem_singleton.mpr .instantiate
    dsimp only
    split
    case h_1 => exact hinst
    case h_2 halloc =>
      split
      case h_1 => exact hinst
      case h_2 =>
        split
        case h_1 => exact hinst
        case h_2 hmemory =>
          split
          case h_1 hfail =>
            rw [← Guest.call_error _ hfail]
            refine List.forall_mem_append.mpr ⟨hinst, List.forall_mem_singleton.mpr ?_⟩
            exact .alloc hrun halloc hmemory rfl
          case h_2 hreturn =>
            rw [← Guest.call_ok _ hreturn]
            refine List.forall_mem_append.mpr ⟨hinst, List.forall_mem_singleton.mpr ?_⟩
            exact .alloc hrun halloc hmemory rfl

theorem finish_made (hp : Allocates module config input p) :
    ∀ c ∈ (finish config input elapsedMs p).1, Made module config input c := by
  unfold finish
  split
  case h_1 => exact fun c hc => by cases hc
  case h_2 hwrite =>
    dsimp only
    split
    case h_1 hfail =>
      rw [← Guest.call_error _ hfail]
      exact List.forall_mem_singleton.mpr (.process hp hwrite rfl)
    case h_2 hreturn =>
      rw [← Guest.call_ok _ hreturn]
      exact List.forall_mem_singleton.mpr (.process hp hwrite rfl)

theorem executeSyncCompiled_made (module : Guest GuestInstance) (config : ExecutionConfig)
    (input : Bytes) (elapsedMs : UInt64) :
    ∀ c ∈ (executeSyncCompiled module config input elapsedMs).1, Made module config input c := by
  have hmade := prepare_made module config input
  cases hprepare : prepare module config input with
  | mk calls result =>
      rw [hprepare] at hmade
      cases result with
      | error e => simpa only [executeSyncCompiled, hprepare] using hmade
      | ok p =>
          have hp := prepare_eq_ok.mp (congrArg Prod.snd hprepare)
          simp only [executeSyncCompiled, hprepare]
          exact List.forall_mem_append.mpr ⟨hmade, finish_made hp⟩

end Made

/-- An execution is reported as a timeout exactly when the epoch trap ended it, if and only if
the failing call is no epoch trap after a denied request and no error that mentions the word.  The
calls that are listed are those of the guest. -/
theorem classified_iff (module : Guest GuestInstance) (config : ExecutionConfig) (input : Bytes)
    (elapsedMs : UInt64) :
    (Classified config (executeSyncCompiled module config input elapsedMs) ↔
      ∀ c ∈ (executeSyncCompiled module config input elapsedMs).1, ∀ e ∈ c.failure,
        Unambiguous config (executeSyncCompiled module config input elapsedMs).1 e) ∧
    ∀ c ∈ (executeSyncCompiled module config input elapsedMs).1, Made module config input c :=
  ⟨(ended module config input elapsedMs).unambiguous_iff,
    executeSyncCompiled_made module config input elapsedMs⟩

/-- An instance whose memory has one page, and whose `process` is given. -/
def pageInstance (process : Int32 → Int32 → (m : Memory) → Guest (m.Grown × Int32)) :
    GuestInstance where
  alloc := some fun _ m => .done (.ok (.refl m, 0))
  function _ := some process
  memory := some ⟨2 ^ 16, fun _ => 0, by decide⟩

/-- A guest that asks for more memory, copes with the answer and runs until it is interrupted. -/
def stubborn : Guest GuestInstance :=
  .done (.ok (pageInstance fun _ _ _ => .grow (2 ^ 30) fun _ => .done (.error (.trap .interrupt))))

/-- A module that imports a function from a module called `interrupt`. -/
def linkError : Guest GuestInstance :=
  .done (.error (.message "unknown import: interrupt::f has not been defined"))

/-- The first is reported to have exceeded its memory, the second to have timed out. -/
theorem misclassified :
    (∃ config, ¬ Classified config (executeSyncCompiled stubborn config [] 0)) ∧
    ∃ config, ¬ Classified config (executeSyncCompiled linkError config [] 0) := by
  refine ⟨⟨⟨2 ^ 20, 100, "process"⟩, fun h => ?_⟩, ⟨⟨2 ^ 20, 100, "process"⟩, fun h => ?_⟩⟩
  · have hint : Interrupted (executeSyncCompiled stubborn ⟨2 ^ 20, 100, "process"⟩ [] 0).1 := by
      decide
    have hresult : (executeSyncCompiled stubborn ⟨2 ^ 20, 100, "process"⟩ [] 0).2 =
        .error .memoryLimitExceeded := rfl
    rw [h.timeout hint] at hresult
    cases hresult
  · have hcalls : (executeSyncCompiled linkError ⟨2 ^ 20, 100, "process"⟩ [] 0).1 =
        [⟨.instantiate, [], some (.message "unknown import: interrupt::f has not been defined")⟩] :=
      rfl
    have hmentions : MentionsInterrupt "unknown import: interrupt::f has not been defined" := by
      unfold MentionsInterrupt
      simp only [String.reduceToList]
      decide
    have hclear := (ended linkError ⟨2 ^ 20, 100, "process"⟩ [] 0).unambiguous_iff.mp h
    rw [hcalls] at hclear
    obtain ⟨c, hc, d, hd, -⟩ := (hclear _ List.mem_cons_self _ rfl).2 _ rfl hmentions
    rw [List.mem_singleton.mp hc] at hd
    cases hd

end FerroEdge.WasmRuntime
