import Mathlib.Data.Nat.Bitwise
import Mathlib.Tactic.Ring

/-!
# MonkeyOS — rounding up

Rust's `div_ceil` and the power-of-two mask `(x + a - 1) & !(a - 1)`, on natural numbers.
-/

namespace MonkeyOS.Lib

/-! ## `div_ceil` -/

/-- `usize::div_ceil`: the quotient, plus one when there is a remainder. -/
def divCeil (a b : Nat) : Nat :=
  if a % b = 0 then a / b else a / b + 1

theorem le_mul_divCeil (a : Nat) {b : Nat} (hb : 0 < b) : a ≤ b * divCeil a b := by
  have hdiv := Nat.div_add_mod a b
  have hmod := Nat.mod_lt a hb
  unfold divCeil
  split
  · omega
  · rw [Nat.mul_add]
    omega

theorem divCeil_le_of_le_mul {a b n : Nat} (hb : 0 < b) (h : a ≤ n * b) : divCeil a b ≤ n := by
  unfold divCeil
  split
  · exact Nat.div_le_of_le_mul (by rwa [Nat.mul_comm])
  -- a remainder keeps the quotient strictly below `n`
  rename_i hmod
  apply Nat.succ_le_of_lt
  rw [Nat.div_lt_iff_lt_mul hb]
  apply Nat.lt_of_le_of_ne h
  rintro rfl
  exact hmod (Nat.mul_mod_left n b)

theorem divCeil_mul_cancel {a b : Nat} (h : a % b = 0) : divCeil a b * b = a := by
  unfold divCeil
  rw [if_pos h]
  exact Nat.div_mul_cancel (Nat.dvd_of_mod_eq_zero h)

/-! ## The power-of-two mask -/

/-- `(x + a - 1) & !(a - 1)` on 64-bit words; `!(a - 1)` is `2^64 - a`. -/
def alignMask (x a : Nat) : Nat := (x + a - 1) &&& (2 ^ 64 - a)

section Mask

variable {x a k : Nat} (ha : a = 2 ^ k) (hlt : x + a - 1 < 2 ^ 64) (hhalf : a ≤ 2 ^ 63)

include ha hlt hhalf

/-- For a power of two the mask rounds up, as long as the sum does not wrap. -/
theorem alignMask_eq : alignMask x a = (x + a - 1) / a * a := by
  unfold alignMask
  generalize x + a - 1 = y at hlt
  subst ha
  have hpos : 0 < 2 ^ k := Nat.two_pow_pos k
  have hsub : 2 ^ 64 - 2 ^ k = 2 ^ 64 - (2 ^ k - 1 + 1) := by omega
  apply Nat.eq_of_testBit_eq
  intro i
  rw [Nat.testBit_and, hsub, Nat.testBit_two_pow_sub_succ (by omega), Nat.testBit_two_pow_sub_one,
    Nat.testBit_mul_two_pow, Nat.testBit_div_two_pow]
  rcases Nat.lt_or_ge i k with hik | hik
  · simp [hik]
  · rw [show i - k + k = i from by omega]
    rcases Nat.lt_or_ge i 64 with hi | hi
    · simp [hi, hik]
    · -- the mask has no bit here, and neither has the sum
      have hbit : y.testBit i = false :=
        Nat.testBit_lt_two_pow (Nat.lt_of_lt_of_le hlt (Nat.pow_le_pow_right (by decide) hi))
      simp [hbit]

theorem dvd_alignMask : a ∣ alignMask x a := by
  rw [alignMask_eq ha hlt hhalf]
  exact Nat.dvd_mul_left a _

theorem le_alignMask : x ≤ alignMask x a := by
  have hpos : 0 < a := ha ▸ Nat.two_pow_pos k
  have hdiv := Nat.div_add_mod (x + a - 1) a
  have hmod := Nat.mod_lt (x + a - 1) hpos
  rw [alignMask_eq ha hlt hhalf, Nat.mul_comm]
  omega

/-- No multiple in between: the mask rounds up to the next one. -/
theorem alignMask_le {n : Nat} (hdvd : a ∣ n) (hle : x ≤ n) : alignMask x a ≤ n := by
  obtain ⟨m, rfl⟩ := hdvd
  have hpos : 0 < a := ha ▸ Nat.two_pow_pos k
  have hquot : (x + a - 1) / a ≤ m := by
    apply Nat.lt_succ_iff.mp
    rw [Nat.div_lt_iff_lt_mul hpos, Nat.succ_mul, Nat.mul_comm m a]
    omega
  rw [alignMask_eq ha hlt hhalf, Nat.mul_comm]
  exact Nat.mul_le_mul_left a hquot

end Mask

end MonkeyOS.Lib
