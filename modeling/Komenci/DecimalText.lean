import Komenci.HexText

/-! Decimal texts of natural numbers, and the number formed by writing several of
them one after the other. -/
namespace Komenci.DecimalText
open HexText

def decimal (n : ℕ) : Text := Nat.toDigits 10 n

/-- The number a text of digits stands for. -/
def value (t : Text) : ℕ := Nat.ofDigitChars 10 t 0

@[simp] lemma value_nil : value [] = 0 := rfl

@[simp] lemma value_decimal (n : ℕ) : value (decimal n) = n := Nat.ofDigitChars_ten_toDigits

lemma value_append_decimal (t : Text) (n : ℕ) :
    value (t ++ decimal n) = 10 ^ (decimal n).length * value t + n := by
  have hn : Nat.ofDigitChars 10 (decimal n) 0 = n := value_decimal n
  simp only [value, Nat.ofDigitChars_append]
  rw [Nat.ofDigitChars_eq_ofDigitChars_zero, hn]

lemma decimal_length_pos (n : ℕ) : 0 < (decimal n).length := Nat.length_toDigits_pos

/-- The number whose digits are those of the entries, in order. -/
def concat (l : List ℕ) : ℕ := value (l.flatMap decimal)

@[simp] lemma concat_nil : concat [] = 0 := rfl

lemma concat_snoc (l : List ℕ) (n : ℕ) :
    concat (l ++ [n]) = 10 ^ (decimal n).length * concat l + n := by
  simp [concat, List.flatMap_append, value_append_decimal]

@[simp] lemma concat_singleton (n : ℕ) : concat [n] = n := by
  simpa using concat_snoc [] n

/-- Appending an entry shifts the number by at least one digit. -/
lemma ten_mul_concat_le (l : List ℕ) (n : ℕ) : 10 * concat l + n ≤ concat (l ++ [n]) := by
  rw [concat_snoc]
  have h := Nat.pow_le_pow_right (show 0 < 10 by omega) (decimal_length_pos n)
  have := Nat.mul_le_mul_right (concat l) h
  omega

lemma concat_le_append (l m : List ℕ) : concat l ≤ concat (l ++ m) := by
  induction m using List.reverseRecOn with
  | nil => simp
  | append_singleton m n ih =>
    have := ten_mul_concat_le (l ++ m) n
    rw [← List.append_assoc]
    omega

/-- Past two entries, the first of which is not zero, the number exceeds their sum
by nine times the first. -/
lemma concat_two_cons (a b : ℕ) (l : List ℕ) : 10 * a + b ≤ concat (a :: b :: l) := by
  have h := ten_mul_concat_le [a] b
  have hl := concat_le_append [a, b] l
  simp only [concat_singleton, List.cons_append, List.nil_append] at h hl
  omega

lemma concat_eq_zero {l : List ℕ} (h : ∀ n ∈ l, n = 0) : concat l = 0 := by
  induction l using List.reverseRecOn with
  | nil => rfl
  | append_singleton l n ih =>
    have hn := h n (by simp)
    simp [concat_snoc, ih fun m hm => h m (by simp [hm]), hn]

/-- Leading zeros do not count. -/
lemma concat_zeros_append {l : List ℕ} (h : ∀ n ∈ l, n = 0) (m : List ℕ) :
    concat (l ++ m) = concat m := by
  induction m using List.reverseRecOn with
  | nil => simpa using concat_eq_zero h
  | append_singleton m n ih =>
    rw [← List.append_assoc, concat_snoc, concat_snoc, ih]

/-- The number `toFixed(0)` writes, which rounds half away from zero. -/
def toFixed (q : ℚ) : ℤ := if 0 ≤ q then ⌊q + 1 / 2⌋ else -⌊-q + 1 / 2⌋

end Komenci.DecimalText
