import FerroEdge.WasmRuntime.Sandbox

/-!
# The guest ABI

The host asks the guest for a buffer with `alloc`, writes the input there, calls the function
with the address and the length, and reads as many bytes as it returns from the same address.  A
guest address is an unsigned number of 32 bits that WebAssembly hands over as an `i32`.

The host casts it to `usize`, which extends the sign.  So a buffer in the upper half of a memory
of more than 2 GiB is taken for a range far outside, and the execution fails.
`guestAbi_iff` says that the ABI is kept exactly for the other buffers, and `upperHalf_fails` is
a guest with a buffer there.
-/

namespace FerroEdge.WasmRuntime

open Machine

/-- A pointer of the guest as the address that it stands for. -/
def address (p : Int32) : Nat := p.toUInt32.toNat

/-- The guest call `process(ptr, len)` returns `r` and leaves `memory` behind. -/
def Prepared.Returns (p : Prepared) (len : Int32) (m : Memory) (r : Int32) (memory : Memory) :
    Prop :=
  ∃ requests limits grown,
    (p.process p.ptr len m).run p.limits = (requests, limits, .ok (grown, r)) ∧
    grown.memory = memory

/-- The `r` bytes at the buffer are inside the memory. -/
def Prepared.Announced (p : Prepared) (r : Int32) (memory : Memory) : Prop :=
  0 ≤ r.toInt ∧ address p.ptr + r.toInt.toNat ≤ memory.size

/-- What the ABI promises once `alloc` has returned. -/
structure Conforms (input : Bytes) (p : Prepared)
    (execution : List GuestCall × Except WasmError ExecutionResult) : Prop where
  /-- A buffer inside the memory is filled with the input and handed to the function, and what
  the function announces is the output. -/
  inside : address p.ptr + input.length ≤ p.memory.size →
    ∃ (len : Int32) (m : Memory), len.toInt = input.length ∧
      p.memory.Written (address p.ptr) input m ∧
      (∃ c ∈ execution.1, c.entry = .process p.ptr len m) ∧
      (∀ r memory, p.Returns len m r memory → p.Announced r memory →
        ∃ result, execution.2 = .ok result ∧
          result.output = memory.slice (address p.ptr) r.toInt.toNat) ∧
      ((∀ r memory, p.Returns len m r memory → ¬ p.Announced r memory) →
        ∃ e, execution.2 = .error e)
  outside : p.memory.size < address p.ptr + input.length → ∃ e, execution.2 = .error e

variable {config : ExecutionConfig} {input : Bytes} {elapsedMs : UInt64} {p : Prepared}
  {calls : List GuestCall} {memory : Memory} {ptr r : Int32}

/-! ## Casts -/

theorem toInt_eq (p : Int32) :
    p.toInt = if 2 * address p < 2 ^ 32 then (address p : Int) else address p - 2 ^ 32 :=
  BitVec.toInt_eq_toNat_cond p.toBitVec

theorem asUsize_of_nonneg (h : 0 ≤ ptr.toInt) : asUsize ptr = address ptr := by
  have hlt : address ptr < 2 ^ 32 := ptr.toUInt32.toNat_lt
  have heq := toInt_eq ptr
  unfold asUsize
  split at heq <;> omega

theorem asUsize_eq_toNat (h : 0 ≤ r.toInt) : asUsize r = r.toInt.toNat := by
  have hlt := r.toInt_lt
  unfold asUsize
  omega

/-- A negative pointer is cast to an offset beyond every memory. -/
theorem lt_asUsize_of_neg (m : Memory) (h : ptr.toInt < 0) : m.size < asUsize ptr := by
  have hge := ptr.le_toInt
  have hsize := m.size_le
  unfold asUsize
  omega

/-! ## The output -/

theorem readOutput_of_le (hptr : 0 ≤ ptr.toInt) (hr : 0 ≤ r.toInt)
    (hle : address ptr + r.toInt.toNat ≤ memory.size) :
    ∃ result, readOutput memory ptr r elapsedMs = .ok result ∧
      result.output = memory.slice (address ptr) r.toInt.toNat := by
  have hneg : ¬ r < 0 := by
    rw [Int32.lt_iff_toInt_lt]
    exact Int.not_lt.mpr hr
  rw [readOutput, if_neg hneg, asUsize_of_nonneg hptr, asUsize_eq_toNat hr]
  dsimp only
  split
  · rw [Memory.read_of_le hle]
    exact ⟨_, rfl, rfl⟩
  case isFalse hzero =>
    have hlen : r.toInt.toNat = 0 := by omega
    exact ⟨_, rfl, by rw [hlen]; rfl⟩

theorem readOutput_error (hptr : 0 ≤ ptr.toInt) (hbase : address ptr ≤ memory.size)
    (h : ¬ (0 ≤ r.toInt ∧ address ptr + r.toInt.toNat ≤ memory.size)) :
    ∃ e, readOutput memory ptr r elapsedMs = .error e := by
  rw [readOutput]
  split
  · exact ⟨_, rfl⟩
  case isFalse hneg =>
    have hr : 0 ≤ r.toInt := by
      rw [Int32.lt_iff_toInt_lt] at hneg
      exact Int.not_lt.mp hneg
    rw [asUsize_of_nonneg hptr, asUsize_eq_toNat hr]
    dsimp only
    rw [if_pos (by omega), Memory.read_of_lt (by omega)]
    exact ⟨_, rfl⟩

/-! ## The call -/

/-- The first part does not call the function. -/
theorem prepare_entry (module : Guest GuestInstance) (config : ExecutionConfig) (input : Bytes) :
    ∀ c ∈ (prepare module config input).1, ∀ ptr len m, c.entry ≠ .process ptr len m := by
  unfold prepare
  split
  · simp
  · dsimp only
    split
    · simp
    split
    · simp
    split
    · simp
    split <;> simp

/-- A write that fails ends the execution. -/
theorem finish_of_lt (h : p.memory.size < asUsize p.ptr + input.length) :
    finish config input elapsedMs p = ([], .error (.io memoryAccessError)) := by
  rw [finish, Memory.write_of_lt h]

/-- A buffer in the lower half is written to and read from where the guest has put it. -/
theorem conforms_of_nonneg (hlen : input.length < 2 ^ 31) (hptr : 0 ≤ p.ptr.toInt) :
    Conforms input p
      (calls ++ (finish config input elapsedMs p).1, (finish config input elapsedMs p).2) where
  inside hle := by
    have hoff := asUsize_of_nonneg hptr
    obtain ⟨m, hwrite, hwritten⟩ := Memory.write_of_le hle
    rw [← hoff] at hwrite
    rw [finish, hwrite]
    dsimp only
    refine ⟨Int32.ofNat input.length, m, Int32.toInt_ofNat_of_lt hlen, hwritten, ?_⟩
    cases hrun : (p.process p.ptr (Int32.ofNat input.length) m).run p.limits with
    | mk requests rest =>
    obtain ⟨limits, e | ⟨grown, r⟩⟩ := rest
    · -- the call has failed, so it returns nothing
      refine ⟨⟨_, List.mem_append_right _ List.mem_cons_self, rfl⟩, ?_, fun _ => ⟨_, rfl⟩⟩
      rintro r memory ⟨_, _, _, heq, -⟩
      rw [hrun] at heq
      cases heq
    · refine ⟨⟨_, List.mem_append_right _ List.mem_cons_self, rfl⟩, ?_, fun hnone => ?_⟩
      · rintro r' memory ⟨_, _, _, heq, rfl⟩ ⟨hr, hout⟩
        rw [hrun] at heq
        cases heq
        exact readOutput_of_le hptr hr hout
      · have hsize := grown.size_le
        rw [hwritten.size] at hsize
        exact readOutput_error hptr (by omega) (hnone r _ ⟨_, _, _, hrun, rfl⟩)
  outside hlt := by
    rw [finish_of_lt (by rw [asUsize_of_nonneg hptr]; exact hlt)]
    exact ⟨_, rfl⟩

/-- For a buffer in the upper half the function is never called, so that the ABI is kept only if
the buffer is not inside the memory. -/
theorem conforms_iff_of_neg (hptr : p.ptr.toInt < 0)
    (hcalls : ∀ c ∈ calls, ∀ ptr len m, c.entry ≠ .process ptr len m) :
    Conforms input p
      (calls ++ (finish config input elapsedMs p).1, (finish config input elapsedMs p).2) ↔
      p.memory.size < address p.ptr + input.length := by
  have hbase := lt_asUsize_of_neg p.memory hptr
  rw [finish_of_lt (by omega)]
  constructor
  · intro h
    by_contra hle
    obtain ⟨len, m, -, -, ⟨c, hc, hentry⟩, -⟩ := h.inside (by omega)
    rw [List.append_nil] at hc
    exact hcalls c hc _ _ _ hentry
  · exact fun hlt => ⟨fun hle => absurd hle (by omega), fun _ => ⟨_, rfl⟩⟩

/-- An execution keeps the guest ABI exactly if `alloc` has not returned a buffer that lies
inside the memory and begins in its upper half.  It fails if it does not come to a buffer. -/
theorem guestAbi_iff (module : Guest GuestInstance) (config : ExecutionConfig) (input : Bytes)
    (elapsedMs : UInt64) (hlen : input.length < 2 ^ 31) :
    (∀ p, Allocates module config input p →
      (Conforms input p (executeSyncCompiled module config input elapsedMs) ↔
        ¬ (p.ptr.toInt < 0 ∧ address p.ptr + input.length ≤ p.memory.size))) ∧
    ((∀ p, ¬ Allocates module config input p) →
      ∃ e, (executeSyncCompiled module config input elapsedMs).2 = .error e) := by
  have hentry := prepare_entry module config input
  simp only [← prepare_eq_ok]
  rw [executeSyncCompiled]
  generalize prepare module config input = prepared at hentry ⊢
  obtain ⟨calls, e | p⟩ := prepared
  · exact ⟨fun p hp => (by cases hp), fun _ => ⟨e, rfl⟩⟩
  · refine ⟨fun p' hp => ?_, fun hnone => absurd rfl (hnone p)⟩
    cases hp
    dsimp only
    by_cases hptr : 0 ≤ p.ptr.toInt
    · exact iff_of_true (conforms_of_nonneg hlen hptr) (by omega)
    · rw [conforms_iff_of_neg (by omega) hentry]
      omega

/-- A guest with `size` bytes of memory whose `alloc` returns `ptr`, and whose function announces
as many bytes as it got. -/
def echo (size : Nat) (h : size ≤ 2 ^ 32) (ptr : Int32) : Guest GuestInstance :=
  .grow size fun granted =>
    if granted then
      .done (.ok
        { alloc := some fun _ m => .done (.ok (.refl m, ptr))
          function := fun _ => some fun _ len m => .done (.ok (.refl m, len))
          memory := some ⟨size, fun _ => 0, h⟩ })
    else .done (.error (.message "memory minimum size exceeds memory limits"))

/-- With a buffer at the start of one page the ABI is kept. -/
theorem lowerHalf_conforms :
    ∃ p, Allocates (echo (2 ^ 16) (by decide) 0) ⟨2 ^ 20, 100, "process"⟩ [1, 2] p ∧
      Conforms [1, 2] p
        (executeSyncCompiled (echo (2 ^ 16) (by decide) 0) ⟨2 ^ 20, 100, "process"⟩ [1, 2] 0) := by
  have h := guestAbi_iff (echo (2 ^ 16) (by decide) 0) ⟨2 ^ 20, 100, "process"⟩ [1, 2] 0 (by decide)
  exact ⟨_, prepare_eq_ok.mp rfl, (h.1 _ (prepare_eq_ok.mp rfl)).mpr (by decide)⟩

/-- With a buffer at 2 GiB, in a memory of one page more, the function is not called. -/
theorem upperHalf_fails :
    ∃ p, Allocates (echo (2 ^ 31 + 2 ^ 16) (by decide) (-2 ^ 31)) ⟨2 ^ 32, 100, "process"⟩
        [1, 2] p ∧
      ¬ Conforms [1, 2] p
        (executeSyncCompiled (echo (2 ^ 31 + 2 ^ 16) (by decide) (-2 ^ 31))
          ⟨2 ^ 32, 100, "process"⟩ [1, 2] 0) := by
  refine ⟨_, prepare_eq_ok.mp rfl, fun h => ?_⟩
  have hentry := prepare_entry (echo (2 ^ 31 + 2 ^ 16) (by decide) (-2 ^ 31))
    ⟨2 ^ 32, 100, "process"⟩ [1, 2]
  exact absurd ((conforms_iff_of_neg (by decide) hentry).mp h) (by decide)

end FerroEdge.WasmRuntime
