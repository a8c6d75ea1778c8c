import Mathlib

/-! Sums of numbers with a binary significand of 53 digits: rounded to the nearest such number,
the even one of two, and infinite from `2 ^ 1024` on. -/
namespace Komenci.Doubles

/-- The integer next to `q`. -/
def nearest (q : ℚ) : ℤ :=
  if q - ⌊q⌋ < 1 / 2 then ⌊q⌋
  else if 1 / 2 < q - ⌊q⌋ then ⌊q⌋ + 1
  else if ⌊q⌋ % 2 = 0 then ⌊q⌋ else ⌊q⌋ + 1

/-- Where the last of the digits stands. -/
def exponent (q : ℚ) : ℤ := max (Int.log 2 |q| - 52) (-1074)

def rounded (q : ℚ) : ℚ := nearest (q / 2 ^ exponent q) * 2 ^ exponent q

/-- The sum, unless it is infinite. -/
def add (a b : ℚ) : Option ℚ :=
  if |rounded (a + b)| < 2 ^ 1024 then some (rounded (a + b)) else none

def sub (a b : ℚ) : ℚ := rounded (a - b)

/-- The number is there without rounding. -/
def Exact (q : ℚ) : Prop := rounded q = q ∧ |q| < 2 ^ 1024

instance (q : ℚ) : Decidable (Exact q) := inferInstanceAs (Decidable (_ ∧ _))

@[simp] lemma nearest_intCast (n : ℤ) : nearest n = n := by simp [nearest]

lemma nearest_nonneg {q : ℚ} (h : 0 ≤ q) : 0 ≤ nearest q := by
  have hfloor : 0 ≤ ⌊q⌋ := Int.floor_nonneg.mpr h
  unfold nearest
  split_ifs <;> omega

lemma rounded_nonneg {q : ℚ} (h : 0 ≤ q) : 0 ≤ rounded q := by
  have hnearest : 0 ≤ nearest (q / 2 ^ exponent q) := nearest_nonneg (by positivity)
  have hcast : (0 : ℚ) ≤ nearest (q / 2 ^ exponent q) := by exact_mod_cast hnearest
  unfold rounded
  positivity

lemma add_of_exact {a b : ℚ} (h : Exact (a + b)) : add a b = some (a + b) := by
  rw [add, h.1, if_pos h.2]

/-- A multiple of the last digit is not rounded. -/
lemma rounded_of_multiple {q : ℚ} {n : ℤ} (h : q = n * 2 ^ exponent q) : rounded q = q := by
  have hdiv : q / 2 ^ exponent q = n := by
    rw [div_eq_iff (by positivity)]
    exact h
  rw [rounded, hdiv, nearest_intCast]
  exact h.symm

lemma exponent_natCast_nonpos {n : ℕ} (h : n < 2 ^ 53) : exponent n ≤ 0 := by
  have hlog : Nat.log 2 n < 53 := by
    rcases Nat.eq_zero_or_pos n with rfl | hpos
    · simp
    · exact Nat.log_lt_of_lt_pow hpos.ne' h
  rw [exponent, Nat.abs_cast, Int.log_natCast]
  omega

/-- The natural numbers up to `2 ^ 53` are there. -/
lemma exact_natCast {n : ℕ} (h : n ≤ 2 ^ 53) : Exact n := by
  constructor
  · rcases h.eq_or_lt with rfl | hlt
    · have hexp : exponent ((2 ^ 53 : ℕ) : ℚ) = 1 := by
        rw [exponent, Nat.abs_cast, Int.log_natCast, Nat.log_pow Nat.one_lt_two]
        norm_num
      apply rounded_of_multiple (n := 2 ^ 52)
      rw [hexp]
      norm_num
    · have hexp := exponent_natCast_nonpos hlt
      apply rounded_of_multiple (n := n * 2 ^ (-exponent n).toNat)
      have hpow : (2 : ℚ) ^ (-exponent n).toNat * 2 ^ exponent n = 1 := by
        rw [← zpow_natCast, ← zpow_add₀ two_ne_zero]
        simp [Int.toNat_of_nonneg (neg_nonneg.mpr hexp)]
      push_cast
      rw [mul_assoc, hpow, mul_one]
  · have hcast : (n : ℚ) ≤ 2 ^ 53 := by exact_mod_cast h
    rw [Nat.abs_cast]
    exact hcast.trans_lt (pow_lt_pow_right₀ one_lt_two (by omega))

/-- Above `2 ^ 53` the odd numbers are missing. -/
example : add (2 ^ 53) 1 = some (2 ^ 53) := by decide +kernel

end Komenci.Doubles
