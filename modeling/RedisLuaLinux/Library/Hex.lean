import Mathlib.Data.Nat.Digits.Defs
import Mathlib.Tactic.IntervalCases
import RedisLuaLinux.Library.Text

/-!
# Hexadecimal texts

The digits of numbers and bytes in the base 16, with small or large letters.

* `readBytes_flatMap`: bytes are read back from their digits, whatever the letters.
-/

namespace RedisLuaLinux.Library

def hexChars (upper : Bool) : Text := if upper then "0123456789ABCDEF".toList else "0123456789abcdef".toList

def hexChar (upper : Bool) (digit : Nat) : Char := (hexChars upper).getD digit '0'

/-- The digit of a character. -/
def hexValue (c : Char) : Option Nat :=
  ((hexChars false).findIdx? (· = c)).or ((hexChars true).findIdx? (· = c))

theorem hexValue_hexChar (upper : Bool) {digit : Nat} (h : digit < 16) :
    hexValue (hexChar upper digit) = some digit := by
  cases upper <;> interval_cases digit <;> rfl

/-- Characters that are no digits. -/
theorem hexChar_ne {c : Char} (hc : hexValue c = none) (upper : Bool) {digit : Nat} (h : digit < 16) :
    hexChar upper digit ≠ c := by
  intro heq
  have hvalue := hexValue_hexChar upper h
  rw [heq, hc] at hvalue
  cases hvalue

/-! ## Bytes -/

def byteText (upper : Bool) (b : UInt8) : Text :=
  [hexChar upper ((b >>> 4) &&& 0x0f).toNat, hexChar upper (b &&& 0x0f).toNat]

theorem high_eq (b : UInt8) : ((b >>> 4) &&& 0x0f).toNat = b.toNat / 16 := by
  have hbyte := b.toNat_lt
  have hmask : (0x0f : UInt8).toNat = 2 ^ 4 - 1 := rfl
  have hshift : (b >>> 4).toNat = b.toNat / 16 := by
    rw [UInt8.toNat_shiftRight, Nat.shiftRight_eq_div_pow]
    rfl
  rw [UInt8.toNat_and, hmask, Nat.and_two_pow_sub_one_eq_mod, hshift]
  omega

theorem low_eq (b : UInt8) : (b &&& 0x0f).toNat = b.toNat % 16 := by
  have hmask : (0x0f : UInt8).toNat = 2 ^ 4 - 1 := rfl
  rw [UInt8.toNat_and, hmask, Nat.and_two_pow_sub_one_eq_mod]

theorem byteText_ne {c : Char} (hc : hexValue c = none) (upper : Bool) (b : UInt8) : c ∉ byteText upper b := by
  have hbyte := b.toNat_lt
  intro hmem
  rcases List.mem_cons.mp hmem with heq | hlow
  · exact hexChar_ne hc upper (by rw [high_eq]; omega) heq.symm
  · exact hexChar_ne hc upper (by rw [low_eq]; omega) (List.mem_singleton.mp hlow).symm

/-- Two digits for each byte. -/
def readBytes : Text → Option (List UInt8)
  | [] => some []
  | [_] => none
  | high :: low :: t => do
    let high ← hexValue high
    let low ← hexValue low
    let bytes ← readBytes t
    return UInt8.ofNat (high * 16 + low) :: bytes

theorem readBytes_flatMap (upper : Bool) (bytes : List UInt8) :
    readBytes (bytes.flatMap (byteText upper)) = some bytes := by
  induction bytes with
  | nil => rfl
  | cons b bytes ih =>
    have hbyte := b.toNat_lt
    have hhigh : hexValue (hexChar upper ((b >>> 4) &&& 0x0f).toNat) = some _ :=
      hexValue_hexChar upper (by rw [high_eq]; omega)
    have hlow : hexValue (hexChar upper (b &&& 0x0f).toNat) = some _ :=
      hexValue_hexChar upper (by rw [low_eq]; omega)
    have hwhole : UInt8.ofNat (((b >>> 4) &&& 0x0f).toNat * 16 + (b &&& 0x0f).toNat) = b := by
      rw [high_eq, low_eq, Nat.mul_comm, Nat.div_add_mod, UInt8.ofNat_toNat]
    rw [List.flatMap_cons]
    show readBytes (_ :: _ :: bytes.flatMap (byteText upper)) = _
    rw [readBytes, hhigh, hlow, ih]
    simp only [Option.bind_eq_bind, Option.bind_some, hwhole]
    rfl

/-! ## Numbers -/

/-- The numeral of a number, of a width at least. -/
def hexNumeral (upper : Bool) (width n : Nat) : Text :=
  let digits := if n = 0 then [0] else (Nat.digits 16 n).reverse
  (digits.map (hexChar upper)).leftpad width '0'

theorem hexNumeral_ne {c : Char} (hc : hexValue c = none) (upper : Bool) (width n : Nat) :
    c ∉ hexNumeral upper width n := by
  have hzero : hexChar upper 0 = '0' := by cases upper <;> rfl
  intro hmem
  rcases List.mem_append.mp hmem with hpad | hdigit
  · apply hexChar_ne hc upper (by omega : 0 < 16)
    rw [hzero]
    exact (List.eq_of_mem_replicate hpad).symm
  · obtain ⟨digit, hdigits, heq⟩ := List.mem_map.mp hdigit
    refine hexChar_ne hc upper ?_ heq
    split at hdigits
    · rw [List.mem_singleton.mp hdigits]
      omega
    · exact Nat.digits_lt_base (by omega) (List.mem_reverse.mp hdigits)

end RedisLuaLinux.Library
