import Mathlib

/-!
# Rounding to significant binary digits

`roundBits bits n` is the number nearest to `n` with at most `bits` significant binary digits; of
two nearest ones it is the one whose last digit is even.

* `roundBits_eq_iff`: exactly the numbers with at most that many digits are kept.
-/

namespace RedisLuaLinux.Library

/-- The weight of the last of the leading `bits` binary digits of `n`. -/
def lastUnit (bits n : Nat) : Nat := 2 ^ (n.log2 + 1 - bits)

def roundBits (bits n : Nat) : Nat :=
  let unit := lastUnit bits n
  let leading := n / unit
  let rest := n % unit
  if 2 * rest < unit ∨ 2 * rest = unit ∧ leading % 2 = 0 then leading * unit else (leading + 1) * unit

/-- At most `bits` significant binary digits. -/
def Significant (bits n : Nat) : Prop := ∃ m e, m < 2 ^ bits ∧ n = m * 2 ^ e

theorem roundBits_eq_dvd (bits n : Nat) : roundBits bits n = n ↔ lastUnit bits n ∣ n := by
  have hpos : 0 < lastUnit bits n := Nat.two_pow_pos _
  have hlt := Nat.mod_lt n hpos
  have hsplit := Nat.div_add_mod' n (lastUnit bits n)
  rw [Nat.dvd_iff_mod_eq_zero, roundBits]
  split
  · omega
  · rw [Nat.add_one_mul]
    omega

theorem lastUnit_dvd_iff (bits n : Nat) : lastUnit bits n ∣ n ↔ Significant bits n := by
  constructor
  · rintro ⟨m, hm⟩
    refine ⟨m, n.log2 + 1 - bits, ?_, by rw [Nat.mul_comm]; exact hm⟩
    by_contra hlarge
    have hlog : n < 2 ^ (n.log2 + 1) := Nat.lt_log2_self
    have hdigits : n.log2 + 1 ≤ n.log2 + 1 - bits + bits := by omega
    have hprod : 2 ^ (n.log2 + 1 - bits) * 2 ^ bits ≤ n := by
      calc 2 ^ (n.log2 + 1 - bits) * 2 ^ bits ≤ lastUnit bits n * m := Nat.mul_le_mul_left _ (by omega)
        _ = n := hm.symm
    rw [← Nat.pow_add] at hprod
    have hpow : 2 ^ (n.log2 + 1) ≤ 2 ^ (n.log2 + 1 - bits + bits) := Nat.pow_le_pow_right (by omega) hdigits
    omega
  · rintro ⟨m, e, hm, rfl⟩
    rcases Nat.eq_zero_or_pos m with rfl | hpos
    · rw [Nat.zero_mul]
      exact Nat.dvd_zero _
    · -- the number is below `2 ^ (bits + e)`
      have hlt : (m * 2 ^ e).log2 < bits + e := by
        rw [Nat.log2_lt (Nat.mul_ne_zero (by omega) (Nat.two_pow_pos e).ne'), Nat.pow_add]
        exact Nat.mul_lt_mul_of_pos_right hm (Nat.two_pow_pos e)
      exact Dvd.dvd.mul_left (Nat.pow_dvd_pow 2 (by omega)) m

theorem roundBits_eq_iff (bits n : Nat) : roundBits bits n = n ↔ Significant bits n :=
  (roundBits_eq_dvd bits n).trans (lastUnit_dvd_iff bits n)

end RedisLuaLinux.Library
