import FerroEdge.Machine.Url

/-!
# Header values

A header of an HTTP message holds bytes, and not every byte.  A program reads it as a text, which
works if all of its bytes are visible ASCII, and makes one of a text, which works if the UTF-8
encoding has no control character in it.  So what was read can be written again, and it gives the
same header (`fromStr_of_toStr`).  The text of a UUID can be written too.
-/

namespace Machine.Http

/-- The bytes that a header value may have. -/
def headerByte (b : UInt8) : Bool := (32 ≤ b && b != 127) || b == 9

/-- The bytes that can be read as a text. -/
def visibleAscii (b : UInt8) : Bool := (32 ≤ b && b < 127) || b == 9

structure HeaderValue where
  bytes : List UInt8
  valid : bytes.all headerByte = true

/-- The text of a header value, if it has one. -/
def HeaderValue.toStr (v : HeaderValue) : Option String :=
  if v.bytes.all visibleAscii then
    some (String.ofList (v.bytes.map Char.ofUInt8))
  else none

/-- The header value of a text, if it has one. -/
def HeaderValue.fromStr (text : String) : Option HeaderValue :=
  if h : (Url.utf8 text.toList).all headerByte = true then some ⟨_, h⟩ else none

variable {v : HeaderValue} {s : String} {bytes : List UInt8}

theorem headerByte_of_visible {b : UInt8} (h : visibleAscii b = true) : headerByte b = true := by
  have hlt : b < 127 → b ≠ 127 := fun hb heq => by
    rw [heq] at hb
    exact absurd hb (by decide)
  simp only [visibleAscii, Bool.or_eq_true, Bool.and_eq_true, decide_eq_true_eq] at h
  simp only [headerByte, Bool.or_eq_true, Bool.and_eq_true, decide_eq_true_eq, bne_iff_ne]
  exact h.imp_left fun hb => ⟨hb.1, hlt hb.2⟩

/-- A visible byte is the encoding of its character. -/
theorem utf8EncodeChar_visible {b : UInt8} (h : visibleAscii b = true) :
    String.utf8EncodeChar (Char.ofUInt8 b) = [b] := by
  have hlt : b.toNat < 128 := by
    simp only [visibleAscii, Bool.or_eq_true, Bool.and_eq_true, decide_eq_true_eq, beq_iff_eq,
      UInt8.lt_iff_toNat_lt] at h
    obtain ⟨-, hb⟩ | rfl := h
    · exact Nat.lt_succ_of_lt hb
    · decide
  have hval : (Char.ofUInt8 b).val.toNat = b.toNat := UInt8.toNat_toUInt32 b
  have hsize : (Char.ofUInt8 b).utf8Size = 1 := by
    rw [Char.utf8Size_eq_one_iff, UInt32.le_iff_toNat_le, hval]
    exact Nat.le_of_lt_succ hlt
  rw [String.utf8EncodeChar_eq_singleton hsize]
  congr 1
  apply UInt8.toNat_inj.mp
  rw [UInt32.toNat_toUInt8, hval]
  exact Nat.mod_eq_of_lt (by omega)

theorem utf8_visible (h : bytes.all visibleAscii = true) :
    Url.utf8 (bytes.map Char.ofUInt8) = bytes := by
  induction bytes with
  | nil => rfl
  | cons b bytes ih =>
      obtain ⟨hb, hrest⟩ := Bool.and_eq_true_iff.mp h
      rw [List.map_cons, Url.utf8_cons, utf8EncodeChar_visible hb, ih hrest]
      rfl

/-- A text of visible bytes has a header value, and it reads as the text. -/
theorem fromStr_visible (h : bytes.all visibleAscii = true) :
    ∃ v, HeaderValue.fromStr (String.ofList (bytes.map Char.ofUInt8)) = some v ∧
      v.bytes = bytes ∧ v.toStr = some (String.ofList (bytes.map Char.ofUInt8)) := by
  have hutf8 := utf8_visible h
  have hvalid : bytes.all headerByte = true :=
    List.all_eq_true.mpr fun b hb => headerByte_of_visible (List.all_eq_true.mp h b hb)
  refine ⟨⟨bytes, hvalid⟩, ?_, rfl, ?_⟩
  · simp only [HeaderValue.fromStr, String.toList_ofList, hutf8, hvalid, dite_true]
  · rw [HeaderValue.toStr, if_pos h]

/-- A header value that has a text is the one of its text. -/
theorem fromStr_of_toStr (h : v.toStr = some s) : HeaderValue.fromStr s = some v := by
  rw [HeaderValue.toStr] at h
  split at h
  case isFalse => cases h
  case isTrue hvisible =>
    cases h
    obtain ⟨w, hw, hbytes, -⟩ := fromStr_visible hvisible
    rw [hw]
    obtain ⟨bytes, valid⟩ := v
    obtain ⟨bytes', valid'⟩ := w
    cases hbytes
    rfl

/-! ## UUIDs -/

/-- The 128 bits of a UUID. -/
structure Uuid where
  bits : BitVec 128

/-- The hexadecimal digit of four bits. -/
def hexByte (d : BitVec 4) : UInt8 :=
  if d.toNat < 10 then UInt8.ofNat (48 + d.toNat) else UInt8.ofNat (87 + d.toNat)

/-- The 32 digits of a UUID in five groups, with hyphens between them. -/
def Uuid.hyphenated (u : Uuid) : List UInt8 :=
  (List.range 32).flatMap fun i =>
    (if i = 8 ∨ i = 12 ∨ i = 16 ∨ i = 20 then [45] else []) ++
      [hexByte (u.bits.extractLsb' (4 * (31 - i)) 4)]

def Uuid.text (u : Uuid) : String := String.ofList (u.hyphenated.map Char.ofUInt8)

theorem visible_hexByte : ∀ d, visibleAscii (hexByte d) = true := by decide

theorem Uuid.visible_hyphenated (u : Uuid) : u.hyphenated.all visibleAscii = true := by
  rw [hyphenated, List.all_flatMap, List.all_eq_true]
  intro i _
  rw [List.all_append, List.all_cons, visible_hexByte]
  split <;> rfl

end Machine.Http
