import FerroEdge.ControlPlane.Handlers
import FerroEdge.EdgeNode.Server
import FerroEdge.WasmRuntime.Sandbox

/-!
# Memory limits from the client to the limiter

A client gives the memory limit of a task in MiB.  The control plane forwards it as it is, the
edge node multiplies it up to bytes, and the sandbox installs the product in the limiter of the
store.  Nothing bounds the number on its way, and the product is one of `u64`: a debug build
panics when it overflows, and a release build wraps.

`soundLimit_iff` says that the limiter gets a sound limit exactly for less than `2 ^ 44` MiB.
`wrappedLimit_denies` is a task with more, which gets less memory than one with 1 MiB.
-/

namespace FerroEdge.WasmRuntime

/-- What the limiter answers to a sequence of requests. -/
def LimitState.grants : List Nat → LimitState → List Bool
  | [], _ => []
  | desired :: rest, limits =>
      let answer := limits.memoryGrowing desired
      answer.1 :: grants rest answer.2

/-- A request is answered by its size alone, whatever was denied before. -/
theorem LimitState.grants_eq (requests : List Nat) (limits : LimitState) :
    limits.grants requests = requests.map fun desired => decide (desired ≤ limits.maxBytes) := by
  induction requests generalizing limits with
  | nil => rfl
  | cons desired rest ih =>
      have hmax : (limits.memoryGrowing desired).2.maxBytes = limits.maxBytes := by
        rw [LimitState.memoryGrowing_snd]
      have hfst : (limits.memoryGrowing desired).1 = decide (desired ≤ limits.maxBytes) := by
        unfold LimitState.memoryGrowing
        split
        case isTrue h => exact (decide_eq_false (Nat.not_le.mpr h)).symm
        case isFalse h => exact (decide_eq_true (Nat.not_lt.mp h)).symm
      rw [LimitState.grants, List.map_cons, ih, hmax, hfst]

/-- What is granted under a limit is granted under a larger one, request by request. -/
theorem LimitState.grants_mono {limits limits' : LimitState}
    (h : limits.maxBytes ≤ limits'.maxBytes) (requests : List Nat) {k : Nat}
    (hk : (limits.grants requests)[k]? = some true) :
    (limits'.grants requests)[k]? = some true := by
  rw [LimitState.grants_eq, List.getElem?_map, Option.map_eq_some_iff] at hk ⊢
  obtain ⟨desired, hdesired, hle⟩ := hk
  exact ⟨desired, hdesired, decide_eq_true (Nat.le_trans (of_decide_eq_true hle) h)⟩

end FerroEdge.WasmRuntime

namespace FerroEdge.Fleet

open ControlPlane EdgeNode WasmRuntime

/-- A product as a debug build computes it: an overflow panics. -/
def checkedMul (a b : UInt64) : Option UInt64 :=
  if a.toNat * b.toNat < 2 ^ 64 then some (a * b) else none

/-- The byte limit that `execute_task` computes in a debug build. -/
def checkedLimitBytes (memoryLimitMb : UInt64) : Option UInt64 := do
  let kib ← checkedMul (max memoryLimitMb 1) 1024
  checkedMul kib 1024

/-- The limiter of the store in which a task runs. -/
def installedLimits (spec : TaskSpec) : LimitState := (executionConfig spec.request).limits

/-- What the limit of a task should be. -/
structure SoundLimit (spec : TaskSpec) : Prop where
  /-- No build overflows, and both compute the same. -/
  noOverflow : checkedLimitBytes spec.memoryLimitMb =
    some (executionConfig spec.request).memoryLimitBytes
  atLeast : 2 ^ 20 ≤ (installedLimits spec).maxBytes
  monotone : ∀ smaller : TaskSpec, smaller.memoryLimitMb ≤ spec.memoryLimitMb →
    (installedLimits smaller).maxBytes ≤ (installedLimits spec).maxBytes
  granted : ∀ smaller : TaskSpec, smaller.memoryLimitMb ≤ spec.memoryLimitMb →
    ∀ (requests : List Nat) (k : Nat), ((installedLimits smaller).grants requests)[k]? = some true →
      ((installedLimits spec).grants requests)[k]? = some true

variable {spec : TaskSpec} {mb : UInt64}

/-! ## The product -/

theorem toNat_max_one (mb : UInt64) : (max mb 1).toNat = max mb.toNat 1 := by
  have hmax : max mb 1 = if mb ≤ 1 then 1 else mb := rfl
  have hone : (1 : UInt64).toNat = 1 := rfl
  rw [hmax]
  split
  case isTrue h =>
    have hle := UInt64.le_iff_toNat_le.mp h
    omega
  case isFalse h =>
    have hlt := mt UInt64.le_iff_toNat_le.mpr h
    omega

theorem checkedMul_eq_some {a b c : UInt64} :
    checkedMul a b = some c ↔ a.toNat * b.toNat < 2 ^ 64 ∧ a * b = c := by
  unfold checkedMul
  split
  case isTrue h => exact ⟨fun heq => ⟨h, Option.some.inj heq⟩, fun heq => congrArg some heq.2⟩
  case isFalse h =>
    constructor
    · intro heq
      cases heq
    · intro heq
      exact absurd heq.1 h

/-- The limit of a debug build is there only below `2 ^ 44` MiB, and then it is that of a release
build. -/
theorem checkedLimitBytes_eq_some {bytes : UInt64} :
    checkedLimitBytes mb = some bytes ↔
      mb.toNat < 2 ^ 44 ∧ max mb 1 * 1024 * 1024 = bytes := by
  have hkib : (1024 : UInt64).toNat = 1024 := rfl
  simp only [checkedLimitBytes, bind, Option.bind_eq_some_iff, checkedMul_eq_some, hkib]
  constructor
  · rintro ⟨kib, ⟨hlt, rfl⟩, hlt', rfl⟩
    rw [UInt64.toNat_mul, hkib, Nat.mod_eq_of_lt hlt, toNat_max_one] at hlt'
    exact ⟨by omega, rfl⟩
  · rintro ⟨hmb, rfl⟩
    have hbytes : max mb.toNat 1 * 1024 * 1024 < 2 ^ 64 := by omega
    have hlt : (max mb 1).toNat * 1024 < 2 ^ 64 := by
      rw [toNat_max_one]
      exact Nat.lt_of_le_of_lt (Nat.le_mul_of_pos_right _ (by decide)) hbytes
    refine ⟨max mb 1 * 1024, ⟨hlt, rfl⟩, ?_, rfl⟩
    rw [UInt64.toNat_mul, hkib, Nat.mod_eq_of_lt hlt, toNat_max_one]
    exact hbytes

/-- The limit that a release build installs. -/
theorem installedLimits_maxBytes (spec : TaskSpec) :
    (installedLimits spec).maxBytes = max spec.memoryLimitMb.toNat 1 * 2 ^ 20 % 2 ^ 64 := by
  have heq : (installedLimits spec).maxBytes = (max spec.memoryLimitMb 1 * 1024 * 1024).toNat := rfl
  have hkib : (1024 : UInt64).toNat = 1024 := rfl
  rw [heq, UInt64.toNat_mul, UInt64.toNat_mul, toNat_max_one, hkib]
  omega

theorem installedLimits_of_lt (h : spec.memoryLimitMb.toNat < 2 ^ 44) :
    (installedLimits spec).maxBytes = max spec.memoryLimitMb.toNat 1 * 2 ^ 20 := by
  rw [installedLimits_maxBytes]
  omega

/-! ## Sound limits -/

theorem SoundLimit.of_lt (h : spec.memoryLimitMb.toNat < 2 ^ 44) : SoundLimit spec := by
  have hmono : ∀ smaller : TaskSpec, smaller.memoryLimitMb ≤ spec.memoryLimitMb →
      (installedLimits smaller).maxBytes ≤ (installedLimits spec).maxBytes := by
    intro smaller hle
    have hle' := UInt64.le_iff_toNat_le.mp hle
    rw [installedLimits_of_lt h, installedLimits_of_lt (Nat.lt_of_le_of_lt hle' h)]
    omega
  refine ⟨checkedLimitBytes_eq_some.mpr ⟨h, rfl⟩, ?_, hmono, ?_⟩
  · rw [installedLimits_of_lt h]
    omega
  · intro smaller hle requests k hk
    exact LimitState.grants_mono (hmono smaller hle) requests hk

/-- A task of a client gets a sound limit exactly if it asks for less than `2 ^ 44` MiB. -/
theorem soundLimit_iff (body : SubmitTaskRequest) (taskId traceId : String) (input : Bytes)
    (wasmSource : WasmSource) :
    SoundLimit (body.spec taskId traceId input wasmSource) ↔
      (body.memoryLimitMb.getD 64).toNat < 2 ^ 44 := by
  constructor
  · intro h
    exact (checkedLimitBytes_eq_some.mp h.noOverflow).1
  · intro h
    exact .of_lt h

/-- A task with this memory limit. -/
def limited (mb : UInt64) : TaskSpec :=
  { SubmitTaskRequest.sample with memoryLimitMb := some mb }.spec "" "" [] (.wasmBytes [])

/-- A limit of `2 ^ 44` MiB overflows and denies a page that 1 MiB grants. -/
theorem wrappedLimit_denies :
    checkedLimitBytes (2 ^ 44) = none ∧ (installedLimits (limited (2 ^ 44))).maxBytes = 0 ∧
    (installedLimits (limited 1)).grants [2 ^ 16] = [true] ∧
    (installedLimits (limited (2 ^ 44))).grants [2 ^ 16] = [false] ∧
    ¬ SoundLimit (limited (2 ^ 44)) := by
  refine ⟨by decide, by decide, by decide, by decide, fun h => ?_⟩
  have hatLeast := h.atLeast
  revert hatLeast
  decide

end FerroEdge.Fleet
