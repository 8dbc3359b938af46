import Mathlib.Algebra.BigOperators.Intervals
import Mathlib.Algebra.Order.BigOperators.Group.Finset
import Mathlib.Data.List.GetD
import Mathlib.Tactic.Ring

/-!
# Positions in C order

The elements of a box of given extents one after another, the last axis fastest. A step along an
axis is as many elements as there are of the axes after it (`step`), and the position of an element
adds up the steps to it (`position_eq_sum`).
-/

namespace CartaZarr.COrder

/-- How many elements apart two neighbours along an axis are. -/
def step (extents : List ℕ) (axis : ℕ) : ℕ := (extents.drop (axis + 1)).prod

/-- The position of the element with given coordinates. -/
def position : List ℕ → (ℕ → ℕ) → ℕ
  | [], _ => 0
  | _ :: extents, coord => coord 0 * extents.prod + position extents fun axis => coord (axis + 1)

theorem position_eq_sum (extents : List ℕ) (coord : ℕ → ℕ) :
    position extents coord = ∑ axis ∈ Finset.range extents.length,
      coord axis * step extents axis := by
  induction extents generalizing coord with
  | nil => rfl
  | cons e extents ih =>
    rw [position, ih, List.length_cons, Finset.sum_range_succ', Nat.add_comm]
    rfl

/-- An element of the box is one of as many as there are. -/
theorem position_lt {extents : List ℕ} {coord : ℕ → ℕ}
    (h : ∀ axis < extents.length, coord axis < extents.getD axis 0) :
    position extents coord < extents.prod := by
  induction extents generalizing coord with
  | nil => simp [position]
  | cons e extents ih =>
    have hfirst : coord 0 < e := by simpa using h 0 (by simp)
    have hrest : position extents (fun axis => coord (axis + 1)) < extents.prod :=
      ih fun axis haxis => by simpa using h (axis + 1) (by simpa using haxis)
    calc position (e :: extents) coord
        < coord 0 * extents.prod + extents.prod := Nat.add_lt_add_left hrest _
      _ = (coord 0 + 1) * extents.prod := by ring
      _ ≤ e * extents.prod := Nat.mul_le_mul_right _ hfirst
      _ = (e :: extents).prod := (List.prod_cons).symm

theorem position_congr {extents : List ℕ} {coord coord' : ℕ → ℕ}
    (h : ∀ axis < extents.length, coord axis = coord' axis) :
    position extents coord = position extents coord' := by
  rw [position_eq_sum, position_eq_sum]
  exact Finset.sum_congr rfl fun axis haxis => by rw [h axis (Finset.mem_range.1 haxis)]

end CartaZarr.COrder
