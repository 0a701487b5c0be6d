import Mathlib.Data.Nat.Log
import Mathlib.Tactic.Linarith

/-! # Natural numbers as single-precision floats

A natural number is rounded to 24 significant bits, ties to even. Exponents are
not bounded, which is exact for every number below the largest finite float. -/

namespace Cecs.Foundation

/-- `number` to the nearest multiple of `2 ^ shift`, ties to the even multiple. -/
def roundTiesToEven (shift number : Nat) : Nat :=
  let quotient := number / 2 ^ shift
  let remainder := number % 2 ^ shift
  if 2 * remainder < 2 ^ shift ∨ (2 * remainder = 2 ^ shift ∧ quotient % 2 = 0) then
    quotient * 2 ^ shift
  else
    (quotient + 1) * 2 ^ shift

/-- The cast `number as f32`. -/
def asFloat32 (number : Nat) : Nat :=
  roundTiesToEven (Nat.log2 number - 23) number

/-- Rounding is off by at most half a step. -/
theorem le_roundTiesToEven (shift number : Nat) :
    2 * number ≤ 2 * roundTiesToEven shift number + 2 ^ shift := by
  have split := Nat.div_add_mod' number (2 ^ shift)
  have bound := Nat.mod_lt number (Nat.two_pow_pos shift)
  simp only [roundTiesToEven]
  split
  · omega
  · rw [Nat.add_mul, Nat.one_mul]
    omega

theorem roundTiesToEven_le (shift number : Nat) :
    2 * roundTiesToEven shift number ≤ 2 * number + 2 ^ shift := by
  have split := Nat.div_add_mod' number (2 ^ shift)
  simp only [roundTiesToEven]
  split
  · omega
  · rename_i upwards
    rw [Nat.add_mul, Nat.one_mul]
    omega

@[simp] theorem roundTiesToEven_zero (number : Nat) :
    roundTiesToEven 0 number = number := by
  simp [roundTiesToEven, Nat.mod_one]

theorem asFloat32_of_lt {number : Nat} (small : number < 2 ^ 24) :
    asFloat32 number = number := by
  have shift : Nat.log2 number - 23 = 0 := by
    by_cases zero : number = 0
    · simp [zero]
    · have := (Nat.log2_lt zero).mpr small
      omega
  rw [asFloat32, shift, roundTiesToEven_zero]

/-- A number of `24 + extra` bits is rounded to a multiple of `2 ^ extra` at most. -/
theorem asFloat32_close {number extra : Nat} (small : number < 2 ^ (24 + extra)) :
    2 * number ≤ 2 * asFloat32 number + 2 ^ extra ∧
      2 * asFloat32 number ≤ 2 * number + 2 ^ extra := by
  have shift : Nat.log2 number - 23 ≤ extra := by
    by_cases zero : number = 0
    · simp [zero]
    · have := (Nat.log2_lt zero).mpr small
      omega
  have step : 2 ^ (Nat.log2 number - 23) ≤ 2 ^ extra := Nat.pow_le_pow_right (by omega) shift
  have below := le_roundTiesToEven (Nat.log2 number - 23) number
  have above := roundTiesToEven_le (Nat.log2 number - 23) number
  unfold asFloat32
  omega

theorem le_asFloat32 {number : Nat} (small : number < 2 ^ 26) :
    number ≤ asFloat32 number + 2 := by
  have close : 2 * number ≤ 2 * asFloat32 number + 2 ^ 2 := (asFloat32_close small).1
  omega

end Cecs.Foundation
