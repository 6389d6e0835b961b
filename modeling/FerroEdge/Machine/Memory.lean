import Mathlib.Data.List.Basic
import Mathlib.Algebra.Group.Nat.Defs

/-!
# Linear memory

A memory is an array of bytes that never shrinks.  The host reads and writes ranges of it, which
fails when a range does not lie inside.  The bytes are a function, so that a memory of any size
is a small term.
-/

namespace Machine

/-- A memory of at most `2 ^ 32` bytes. -/
structure Memory where
  size : Nat
  byte : Nat → UInt8
  size_le : size ≤ 2 ^ 32

namespace Memory

variable {m m' : Memory} {offset len : Nat} {bytes : List UInt8}

/-- The `len` bytes at `offset`. -/
def slice (m : Memory) (offset len : Nat) : List UInt8 :=
  (List.range len).map fun k => m.byte (offset + k)

/-- Read a range. -/
def read (m : Memory) (offset len : Nat) : Option (List UInt8) :=
  if offset + len ≤ m.size then some (m.slice offset len) else none

/-- Overwrite a range. -/
def write (m : Memory) (offset : Nat) (bytes : List UInt8) : Option Memory :=
  if offset + bytes.length ≤ m.size then
    let byte := fun i => if offset ≤ i then bytes[i - offset]?.getD (m.byte i) else m.byte i
    some { m with byte := byte }
  else none

/-- A memory into which `m` may have grown. -/
structure Grown (m : Memory) where
  memory : Memory
  size_le : m.size ≤ memory.size

/-- A memory that has not grown. -/
def Grown.refl (m : Memory) : m.Grown := ⟨m, Nat.le_refl _⟩

/-- What a write has done: the range holds the bytes, and the rest is as it was. -/
structure Written (m : Memory) (offset : Nat) (bytes : List UInt8) (m' : Memory) : Prop where
  size : m'.size = m.size
  slice : m'.slice offset bytes.length = bytes
  frame : ∀ i, i < offset ∨ offset + bytes.length ≤ i → m'.byte i = m.byte i

theorem write_of_le (h : offset + bytes.length ≤ m.size) :
    ∃ m', m.write offset bytes = some m' ∧ Written m offset bytes m' := by
  refine ⟨_, if_pos h, rfl, ?_, fun i hi => ?_⟩
  · refine List.ext_getElem (by simp [slice]) fun k hk hk' => ?_
    simp [slice, List.getElem?_eq_getElem hk']
  · dsimp only
    split
    case isTrue hle => rw [List.getElem?_eq_none (by omega), Option.getD_none]
    case isFalse => rfl

theorem write_of_lt (h : m.size < offset + bytes.length) : m.write offset bytes = none :=
  if_neg (by omega)

theorem read_of_le (h : offset + len ≤ m.size) : m.read offset len = some (m.slice offset len) :=
  if_pos h

theorem read_of_lt (h : m.size < offset + len) : m.read offset len = none :=
  if_neg (by omega)

end Memory

end Machine
