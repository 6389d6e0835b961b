import Mathlib.Data.List.Basic

/-!
# Base64

The standard alphabet of RFC 4648, with padding.  A text is read in groups of four characters,
which stand for three bytes.  The last group may be padded with `=`, and then its unused bits are
zero.

`decode_encode` is the round trip.
-/

namespace Machine

namespace Base64

/-- The character of a number below 64. -/
def digit (n : Nat) : Char :=
  if n < 26 then Char.ofNat (65 + n)
  else if n < 52 then Char.ofNat (97 + (n - 26))
  else if n < 62 then Char.ofNat (48 + (n - 52))
  else if n = 62 then '+' else '/'

/-- The number that a character stands for. -/
def value (c : Char) : Option Nat :=
  if 65 ≤ c.toNat ∧ c.toNat ≤ 90 then some (c.toNat - 65)
  else if 97 ≤ c.toNat ∧ c.toNat ≤ 122 then some (c.toNat - 97 + 26)
  else if 48 ≤ c.toNat ∧ c.toNat ≤ 57 then some (c.toNat - 48 + 52)
  else if c = '+' then some 62
  else if c = '/' then some 63
  else none

def encodeBytes : List UInt8 → List Char
  | [] => []
  | [a] => [digit (a.toNat / 4), digit (a.toNat % 4 * 16), '=', '=']
  | [a, b] =>
      [digit (a.toNat / 4), digit (a.toNat % 4 * 16 + b.toNat / 16), digit (b.toNat % 16 * 4), '=']
  | a :: b :: c :: rest =>
      digit (a.toNat / 4) :: digit (a.toNat % 4 * 16 + b.toNat / 16) ::
      digit (b.toNat % 16 * 4 + c.toNat / 64) :: digit (c.toNat % 64) :: encodeBytes rest

/-- The bytes of a group with the numbers `x`, `y`, `z` and `w`. -/
def byte₁ (x y : Nat) : UInt8 := .ofNat (x * 4 + y / 16)

def byte₂ (y z : Nat) : UInt8 := .ofNat (y % 16 * 16 + z / 4)

def byte₃ (z w : Nat) : UInt8 := .ofNat (z % 4 * 64 + w)

def decodeChars : List Char → Option (List UInt8)
  | [] => some []
  | a :: b :: c :: d :: rest =>
      match value a, value b, value c, value d with
      | some x, some y, some z, some w =>
          (decodeChars rest).map fun bytes => byte₁ x y :: byte₂ y z :: byte₃ z w :: bytes
      -- a padded group is the last one
      | some x, some y, some z, none =>
          if d = '=' ∧ rest = [] ∧ z % 4 = 0 then some [byte₁ x y, byte₂ y z] else none
      | some x, some y, none, none =>
          if c = '=' ∧ d = '=' ∧ rest = [] ∧ y % 16 = 0 then some [byte₁ x y] else none
      | _, _, _, _ => none
  | _ => none

def encode (bytes : List UInt8) : String := .ofList (encodeBytes bytes)

def decode (text : String) : Option (List UInt8) := decodeChars text.toList

/-! ## The round trip -/

theorem value_digit : ∀ n < 64, value (digit n) = some n := by decide

theorem value_pad : value '=' = none := by decide

theorem byte₁_eq (a : UInt8) {y : Nat} (hy : y / 16 = a.toNat % 4) :
    byte₁ (a.toNat / 4) y = a := by
  have hsum : a.toNat / 4 * 4 + y / 16 = a.toNat := by omega
  rw [byte₁, hsum, UInt8.ofNat_toNat]

theorem byte₂_eq (b : UInt8) {y z : Nat} (hy : y % 16 = b.toNat / 16)
    (hz : z / 4 = b.toNat % 16) : byte₂ y z = b := by
  have hsum : y % 16 * 16 + z / 4 = b.toNat := by omega
  rw [byte₂, hsum, UInt8.ofNat_toNat]

theorem byte₃_eq (c : UInt8) {z : Nat} (hz : z % 4 = c.toNat / 64) :
    byte₃ z (c.toNat % 64) = c := by
  have hsum : z % 4 * 64 + c.toNat % 64 = c.toNat := by omega
  rw [byte₃, hsum, UInt8.ofNat_toNat]

theorem decodeChars_encodeBytes (bytes : List UInt8) :
    decodeChars (encodeBytes bytes) = some bytes := by
  induction bytes using encodeBytes.induct with
  | case1 => rfl
  | case2 a =>
      have ha := a.toNat_lt
      rw [encodeBytes, decodeChars, value_digit _ (by omega), value_digit _ (by omega), value_pad]
      simp only [true_and]
      rw [if_pos (by omega), byte₁_eq a (by omega)]
  | case3 a b =>
      have ha := a.toNat_lt
      have hb := b.toNat_lt
      rw [encodeBytes, decodeChars, value_digit _ (by omega), value_digit _ (by omega),
        value_digit _ (by omega), value_pad]
      simp only [true_and]
      rw [if_pos (by omega), byte₁_eq a (by omega), byte₂_eq b (by omega) (by omega)]
  | case4 a b c rest ih =>
      have ha := a.toNat_lt
      have hb := b.toNat_lt
      have hc := c.toNat_lt
      rw [encodeBytes, decodeChars, value_digit _ (by omega), value_digit _ (by omega),
        value_digit _ (by omega), value_digit _ (by omega), ih]
      simp only [Option.map_some]
      rw [byte₁_eq a (by omega), byte₂_eq b (by omega) (by omega), byte₃_eq c (by omega)]

theorem decode_encode (bytes : List UInt8) : decode (encode bytes) = some bytes := by
  rw [decode, encode, String.toList_ofList]
  exact decodeChars_encodeBytes bytes

end Base64

end Machine
