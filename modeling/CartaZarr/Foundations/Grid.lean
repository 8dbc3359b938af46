import Mathlib.Algebra.Order.Floor.Ring
import Mathlib.Data.List.Count
import Mathlib.Algebra.BigOperators.Intervals
import Mathlib.Tactic.FieldSimp
import Mathlib.Tactic.Linarith
import Mathlib.Tactic.Ring

/-!
# Grids of cells of one width

A grid begins at `lower` and goes on in cells of `width` both ways; `cell lower width v` is the
number of the cell `v` is in. Twice as wide, a cell is two of before (`cell_double`), and a grid
that begins `n` cells earlier numbers each cell `n` higher (`cell_shift`).
-/

namespace CartaZarr.Grid

variable {K : Type*} [Field K] [LinearOrder K] [IsStrictOrderedRing K] [FloorRing K]

/-- The cell a value is in. -/
def cell (lower width v : K) : ℤ := ⌊(v - lower) / width⌋

variable {lower width v : K} {k : ℤ}

theorem le_cell_iff (hw : 0 < width) : k ≤ cell lower width v ↔ lower + width * k ≤ v := by
  rw [cell, Int.le_floor, le_div_iff₀ hw, le_sub_iff_add_le']
  rw [mul_comm]

theorem cell_lt_iff (hw : 0 < width) : cell lower width v < k ↔ v < lower + width * k := by
  rw [← not_le, le_cell_iff hw, not_le]

theorem cell_eq_iff (hw : 0 < width) :
    cell lower width v = k ↔ lower + width * k ≤ v ∧ v < lower + width * (k + 1) := by
  rw [← le_cell_iff hw, show ((k : K) + 1) = ((k + 1 : ℤ) : K) by push_cast; rfl, ← cell_lt_iff hw]
  omega

/-- Cells twice as wide are two of before each. -/
theorem cell_double (lower width v : K) : cell lower (width * 2) v = cell lower width v / 2 := by
  have h := Int.floor_div_natCast ((v - lower) / width) 2
  rw [cell, cell, ← div_div]
  exact_mod_cast h

/-- A grid that begins `n` cells earlier. -/
theorem cell_shift (hw : 0 < width) (n : ℕ) :
    cell (lower - width * n) width v = cell lower width v + n := by
  have h : (v - (lower - width * n)) / width = (v - lower) / width + n := by
    field_simp
    ring
  rw [cell, cell, h, Int.floor_add_natCast]

/-- What is counted in a cell twice as wide is in one of two. -/
theorem countP_cell_pair {α : Type*} (key : α → ℤ) (k : ℤ) (values : List α) :
    values.countP (fun v => decide (key v = 2 * k)) +
      values.countP (fun v => decide (key v = 2 * k + 1)) =
    values.countP fun v => decide (key v / 2 = k) := by
  induction values with
  | nil => rfl
  | cons v values ih =>
    simp only [List.countP_cons, decide_eq_true_eq]
    rcases Int.emod_two_eq_zero_or_one (key v) with hv | hv
    · rw [if_neg (by omega : ¬ key v = 2 * k + 1),
        if_congr (by omega : key v / 2 = k ↔ key v = 2 * k) rfl rfl]
      omega
    · rw [if_neg (by omega : ¬ key v = 2 * k),
        if_congr (by omega : key v / 2 = k ↔ key v = 2 * k + 1) rfl rfl]
      omega

/-- What is counted cell by cell is all there is in the cells. -/
theorem sum_countP_cell {α : Type*} (key : α → ℤ) (p : α → Bool) {n : ℕ} {values : List α}
    (h : ∀ v ∈ values, 0 ≤ key v ∧ key v < n) :
    ∑ i ∈ Finset.range n, values.countP (fun v => decide (key v = i) && p v) = values.countP p := by
  induction values with
  | nil => simp
  | cons v values ih =>
    obtain ⟨h0, hn⟩ := h v (by simp)
    have hone : ∑ i ∈ Finset.range n, (if (decide (key v = (i : ℤ)) && p v) = true then 1 else 0) =
        if p v = true then 1 else 0 := by
      rw [Finset.sum_eq_single (key v).toNat]
      · simp [Int.toNat_of_nonneg h0]
      · intro i _ hi
        rw [if_neg]
        simp only [Bool.and_eq_true, decide_eq_true_eq, not_and]
        intro e
        omega
      · intro hi
        simp only [Finset.mem_range] at hi
        omega
    simp only [List.countP_cons, Finset.sum_add_distrib, hone,
      ih fun w hw => h w (by simp [hw])]

end CartaZarr.Grid
