import Mathlib.Data.List.Basic
import Mathlib.Data.List.Range
import Mathlib.Order.Interval.Finset.Nat

/-! Closed ranges of numbers that follow each other without a gap. They are disjoint, they
cover the interval from the first number to the end, and what is read range by range is what
the interval holds. -/
namespace Komenci.IntervalCover

/-- The ranges lead from `a` up to `b`, which is not in them. -/
inductive Consecutive : ℕ → List (ℕ × ℕ) → ℕ → Prop
  | nil (a) : Consecutive a [] a
  | cons {a r b rs} : a ≤ r → Consecutive (r + 1) rs b → Consecutive a ((a, r) :: rs) b

/-- The number is in one of the ranges. -/
def InRanges (rs : List (ℕ × ℕ)) (n : ℕ) : Prop := ∃ r ∈ rs, r.1 ≤ n ∧ n ≤ r.2

variable {a b n : ℕ} {rs : List (ℕ × ℕ)}

lemma Consecutive.le (h : Consecutive a rs b) : a ≤ b := by
  induction h with
  | nil => rfl
  | cons _ _ ih => omega

theorem Consecutive.inRanges_iff (h : Consecutive a rs b) : InRanges rs n ↔ a ≤ n ∧ n < b := by
  induction h with
  | nil => simp [InRanges]
  | @cons a r b rs har h ih =>
    have hle := h.le
    have hcons : InRanges ((a, r) :: rs) n ↔ (a ≤ n ∧ n ≤ r) ∨ InRanges rs n := by simp [InRanges]
    rw [hcons, ih]
    omega

theorem Consecutive.pairwise_disjoint (h : Consecutive a rs b) :
    rs.Pairwise fun r s => Disjoint (Finset.Icc r.1 r.2) (Finset.Icc s.1 s.2) := by
  induction h with
  | nil => exact .nil
  | @cons a r b rs har h ih =>
    refine .cons (fun s hs => Finset.disjoint_left.mpr fun n hn hns => ?_) ih
    rw [Finset.mem_Icc] at hn hns
    have hn' := h.inRanges_iff.mp ⟨s, hs, hns⟩
    omega

/-- Reading range by range yields what the interval holds, in its order. -/
theorem Consecutive.flatMap {α : Type*} (f : ℕ → List α) (h : Consecutive a rs b) :
    (rs.flatMap fun r => (List.range' r.1 (r.2 + 1 - r.1)).flatMap f) =
      (List.range' a (b - a)).flatMap f := by
  induction h with
  | nil => simp
  | @cons a r b rs har h ih =>
    have hle := h.le
    have hsplit : List.range' a (r + 1 - a) ++ List.range' (r + 1) (b - (r + 1)) =
        List.range' a (b - a) := by
      have happ := @List.range'_append_1 a (r + 1 - a) (b - (r + 1))
      rwa [show a + (r + 1 - a) = r + 1 by omega,
        show r + 1 - a + (b - (r + 1)) = b - a by omega] at happ
    rw [List.flatMap_cons, ih, ← hsplit, List.flatMap_append]

end Komenci.IntervalCover
