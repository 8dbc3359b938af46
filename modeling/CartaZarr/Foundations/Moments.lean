import Mathlib.Algebra.BigOperators.Group.Multiset.Basic
import Mathlib.Algebra.BigOperators.Ring.Multiset
import Mathlib.Algebra.Order.BigOperators.Group.Multiset
import Mathlib.Algebra.Order.Field.Basic
import Mathlib.Tactic.FieldSimp
import Mathlib.Tactic.LinearCombination
import Mathlib.Tactic.Ring

/-!
# The mean and the squared deviations of a collection

For a collection of numbers of a field, its mean and the sum of the squared deviations from it. The
sum of the squares of the distances from any number exceeds that sum by what the number is away from
the mean (`sum_sq_sub`), which says how the sum is had from distances to a shift
(`sumSqDev_eq_shifted`) and how those of two collections are put together (`mean_add`,
`sumSqDev_add`).
-/

namespace CartaZarr.Moments

variable {K : Type*} [Field K]

/-- The mean of a collection, zero for an empty one. -/
def mean (s : Multiset K) : K := s.sum / s.card

/-- The sum of the squared deviations of a collection from its mean. -/
def sumSqDev (s : Multiset K) : K := (s.map fun v => (v - mean s) ^ 2).sum

@[simp] theorem mean_zero : mean (0 : Multiset K) = 0 := by simp [mean]

@[simp] theorem sumSqDev_zero : sumSqDev (0 : Multiset K) = 0 := rfl

theorem sumSqDev_nonneg [LinearOrder K] [IsStrictOrderedRing K] (s : Multiset K) : 0 ≤ sumSqDev s :=
  Multiset.sum_nonneg fun x hx => by
    obtain ⟨v, -, rfl⟩ := Multiset.mem_map.1 hx
    exact sq_nonneg _

/-- The distances from a number add up to the sum less as many times the number. -/
theorem sum_sub (s : Multiset K) (c : K) : (s.map fun v => v - c).sum = s.sum - s.card * c := by
  induction s using Multiset.induction with
  | empty => simp
  | cons v s ih =>
    simp only [Multiset.map_cons, Multiset.sum_cons, Multiset.card_cons, ih]
    push_cast
    ring

theorem sum_sub_sq (s : Multiset K) (c : K) : (s.map fun v => (v - c) ^ 2).sum =
    (s.map fun v => v ^ 2).sum - 2 * c * s.sum + s.card * c ^ 2 := by
  induction s using Multiset.induction with
  | empty => simp
  | cons v s ih =>
    simp only [Multiset.map_cons, Multiset.sum_cons, Multiset.card_cons, ih]
    push_cast
    ring

variable [CharZero K]

theorem card_ne_zero {s : Multiset K} (h : s ≠ 0) : (s.card : K) ≠ 0 := by
  simpa using h

theorem card_mul_mean (s : Multiset K) : s.card * mean s = s.sum := by
  rcases eq_or_ne s 0 with rfl | h
  · simp
  · rw [mean, mul_div_cancel₀ _ (card_ne_zero h)]

/-- **The squares of the distances from a number**, by how far it is from the mean. -/
theorem sum_sq_sub (s : Multiset K) (c : K) :
    (s.map fun v => (v - c) ^ 2).sum = sumSqDev s + s.card * (mean s - c) ^ 2 := by
  rw [sumSqDev, sum_sub_sq, sum_sub_sq, ← card_mul_mean s]
  ring

/-- The squared deviations, from the distances to a shift. -/
theorem sumSqDev_eq_shifted {s : Multiset K} (h : s ≠ 0) (c : K) : sumSqDev s =
    (s.map fun v => (v - c) ^ 2).sum - (s.map fun v => v - c).sum ^ 2 / s.card := by
  have hcard := card_ne_zero h
  rw [sum_sq_sub, sum_sub, ← card_mul_mean]
  field_simp
  ring

/-- The mean, from the distances to a shift. -/
theorem mean_eq_shifted {s : Multiset K} (h : s ≠ 0) (c : K) :
    mean s = c + (s.map fun v => v - c).sum / s.card := by
  have hcard := card_ne_zero h
  rw [sum_sub, mean]
  field_simp
  ring

section Add

variable {s : Multiset K} (hs : s ≠ 0)
include hs

theorem total_ne_zero (t : Multiset K) : (s.card : K) + t.card ≠ 0 := by
  have hpos := Multiset.card_pos.2 hs
  exact_mod_cast (by omega : s.card + t.card ≠ 0)

/-- The mean of two collections. -/
theorem mean_add (t : Multiset K) :
    mean (s + t) = mean s + (mean t - mean s) * (t.card / (s.card + t.card)) := by
  have htotal := total_ne_zero hs t
  have hsum : mean (s + t) = (s.card * mean s + t.card * mean t) / (s.card + t.card) := by
    rw [mean, Multiset.sum_add, Multiset.card_add, card_mul_mean, card_mul_mean, Nat.cast_add]
  rw [hsum]
  field_simp
  ring

/-- **The squared deviations of two collections**, from those of each and how far their means are
from each other. -/
theorem sumSqDev_add (t : Multiset K) : sumSqDev (s + t) = sumSqDev s + (sumSqDev t +
    (mean t - mean s) * (mean t - mean s) * (s.card * t.card / (s.card + t.card))) := by
  have htotal := total_ne_zero hs t
  have hparts : sumSqDev (s + t) = (s.map fun v => (v - mean (s + t)) ^ 2).sum +
      (t.map fun v => (v - mean (s + t)) ^ 2).sum := by
    rw [sumSqDev, Multiset.map_add, Multiset.sum_add]
  rw [hparts, sum_sq_sub, sum_sq_sub, mean_add hs]
  field_simp
  ring

end Add

end CartaZarr.Moments
