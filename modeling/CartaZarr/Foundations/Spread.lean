import Mathlib.Algebra.BigOperators.Ring.Finset
import Mathlib.Algebra.Order.BigOperators.Group.Finset
import Mathlib.Algebra.Order.Field.Rat
import Mathlib.Tactic.Linarith
import Mathlib.Tactic.Ring

/-!
# Terms that differ little

A sum over a part of some terms, against the share of the whole that falls to as many terms. What
the two differ by is bounded together with the whole (`two_mul_abs_le`), since a part that misses
its share by much takes terms away from the whole: of `n` terms that differ by `ρ` at most, the
worst are those of which half are by `ρ` less than the others.
-/

namespace CartaZarr

section Spread

variable {ι : Type} [DecidableEq ι] {s t : Finset ι} {f : ι → ℚ} {ρ : ℚ}

/-- A part against its share of the whole is what its terms differ from the others, in pairs. -/
theorem card_mul_sum_sub (hs : s ⊆ t) :
    (t.card : ℚ) * ∑ j ∈ s, f j - s.card * ∑ k ∈ t, f k = ∑ j ∈ s, ∑ k ∈ t \ s, (f j - f k) := by
  have hcard : (t.card : ℚ) = (t \ s).card + s.card := by
    rw [Finset.card_sdiff_of_subset hs, Nat.cast_sub (Finset.card_le_card hs)]
    ring
  have hpairs : ∀ j ∈ s, ∑ k ∈ t \ s, (f j - f k) = (t \ s).card * f j - ∑ k ∈ t \ s,
      f k := fun j _ => by
    rw [Finset.sum_sub_distrib, Finset.sum_const, nsmul_eq_mul]
  rw [Finset.sum_congr rfl hpairs, Finset.sum_sub_distrib, ← Finset.mul_sum, Finset.sum_const,
    nsmul_eq_mul, hcard, ← Finset.sum_sdiff hs]
  ring

/-- The terms from one of them, all together, miss no more than two terms differ, for each other
term. -/
theorem abs_sum_sub_card_mul_le {j : ι} (hj : j ∈ t) (h : ∀ j ∈ t, ∀ k ∈ t, |f j - f k| ≤ ρ) :
    |∑ k ∈ t, f k - t.card * f j| ≤ (t.card - 1) * ρ := by
  have hcard : ((t.erase j).card : ℚ) = t.card - 1 := by
    rw [Finset.card_erase_of_mem hj, Nat.cast_sub (Finset.card_pos.2 ⟨j, hj⟩), Nat.cast_one]
  calc |∑ k ∈ t, f k - t.card * f j| = |∑ k ∈ t.erase j, (f k - f j)| := by
        rw [Finset.sum_sub_distrib, Finset.sum_const, nsmul_eq_mul, hcard,
          ← Finset.add_sum_erase t f hj]
        ring_nf
    _ ≤ ∑ k ∈ t.erase j, |f k - f j| := Finset.abs_sum_le_sum_abs _ _
    _ ≤ ∑ _k ∈ t.erase j, ρ := Finset.sum_le_sum fun k hk => h k (Finset.mem_of_mem_erase hk) j hj
    _ = (t.card - 1) * ρ := by rw [Finset.sum_const, nsmul_eq_mul, hcard]

/-- The terms from one of them, and twice a part of them from its share. A term outside the part is
taken together with one of its pairs, so that neither is counted against the part for itself. -/
theorem neg_le_sum_add_two_mul {j a : ι} (hs : s ⊆ t) (hj : j ∈ t) (ha : a ∈ s)
    (h : ∀ j ∈ t, ∀ k ∈ t, |f j - f k| ≤ ρ) :
    -(s.card * (1 + 2 * (t.card - s.card)) * ρ) ≤
      ∑ k ∈ t, f k - t.card * f j +
        2 * ((t.card : ℚ) * ∑ k ∈ s, f k - s.card * ∑ k ∈ t, f k) := by
  have hle : ∀ b ∈ t, ∀ k ∈ t, -ρ ≤ f b - f k := fun b hb k hk => (abs_le.1 (h b hb k hk)).1
  have hcard : (t.card : ℚ) - s.card = (t \ s).card := by
    rw [Finset.card_sdiff_of_subset hs, Nat.cast_sub (Finset.card_le_card hs)]
  -- the part from the one term, and each term outside with the pairs it is in
  have hparts : ∑ k ∈ t, f k - t.card * f j + 2 * ∑ b ∈ s, ∑ k ∈ t \ s, (f b - f k) =
      ∑ b ∈ s, (f b - f j) + ∑ k ∈ t \ s, ((f k - f j) + (f a - f k) + (f a - f k) +
        2 * ∑ b ∈ s.erase a, (f b - f k)) := by
    have hswap : ∑ b ∈ s, ∑ k ∈ t \ s, (f b - f k) =
        ∑ k ∈ t \ s, ((f a - f k) + ∑ b ∈ s.erase a, (f b - f k)) := by
      rw [Finset.sum_comm]
      exact Finset.sum_congr rfl fun k _ => (Finset.add_sum_erase s (fun b => f b - f k) ha).symm
    have hsum : ∑ k ∈ t, f k - t.card * f j = ∑ k ∈ s, (f k - f j) + ∑ k ∈ t \ s, (f k - f j) := by
      rw [add_comm, Finset.sum_sdiff hs, Finset.sum_sub_distrib, Finset.sum_const, nsmul_eq_mul]
    rw [hswap, hsum, Finset.mul_sum, add_assoc, ← Finset.sum_add_distrib]
    refine congrArg _ (Finset.sum_congr rfl fun k _ => ?_)
    ring
  have hpart : -(s.card * ρ) ≤ ∑ b ∈ s, (f b - f j) := by
    refine le_of_eq_of_le ?_ (Finset.sum_le_sum fun b hb => hle b (hs hb) j hj)
    rw [Finset.sum_const, nsmul_eq_mul]
    ring
  have hterm : ∀ k ∈ t \ s, -(2 * s.card * ρ) ≤ (f k - f j) + (f a - f k) + (f a - f k) +
      2 * ∑ b ∈ s.erase a, (f b - f k) := by
    intro k hk
    have hkt := Finset.sdiff_subset hk
    have hpairs : -((s.card - 1) * ρ) ≤ ∑ b ∈ s.erase a, (f b - f k) := by
      refine le_of_eq_of_le ?_ (Finset.sum_le_sum fun b hb =>
        hle b (hs (Finset.mem_of_mem_erase hb)) k hkt)
      rw [Finset.sum_const, nsmul_eq_mul, Finset.card_erase_of_mem ha,
        Nat.cast_sub (Finset.card_pos.2 ⟨a, ha⟩), Nat.cast_one]
      ring
    have hfirst := hle a (hs ha) j hj
    have hsecond := hle a (hs ha) k hkt
    linarith
  have hothers : -((t \ s).card * (2 * s.card * ρ)) ≤ ∑ k ∈ t \ s, ((f k - f j) + (f a - f k) +
      (f a - f k) + 2 * ∑ b ∈ s.erase a, (f b - f k)) := by
    refine le_of_eq_of_le ?_ (Finset.sum_le_sum hterm)
    rw [Finset.sum_const, nsmul_eq_mul]
    ring
  rw [card_mul_sum_sub hs, hparts, hcard]
  linarith

/-- The number of terms of a part, and twice that of its pairs with terms outside, is at most that
of all pairs and all terms: a part of half the terms is the worst. -/
theorem mul_one_add_le {c n : ℕ} : c * (1 + 2 * ((n : ℚ) - c)) ≤ n * (n + 1) / 2 := by
  have hnonneg : 0 ≤ ((n : ℤ) - 2 * c) * ((n : ℤ) - 2 * c + 1) := by
    rcases le_or_gt 0 ((n : ℤ) - 2 * c) with h | h
    · exact mul_nonneg h (by omega)
    · exact mul_nonneg_of_nonpos_of_nonpos (by omega) (by omega)
  have hcast : (0 : ℚ) ≤ ((n : ℚ) - 2 * c) * ((n : ℚ) - 2 * c + 1) := by exact_mod_cast hnonneg
  linarith [show (n : ℚ) * (n + 1) / 2 - c * (1 + 2 * ((n : ℚ) - c)) =
    ((n : ℚ) - 2 * c) * ((n : ℚ) - 2 * c + 1) / 2 by ring]

/-- The same for a part of any number of terms. -/
theorem neg_card_mul_le_sum_add {j : ι} (hs : s ⊆ t) (hj : j ∈ t)
    (h : ∀ j ∈ t, ∀ k ∈ t, |f j - f k| ≤ ρ) :
    -(t.card * (t.card + 1) / 2 * ρ) ≤ ∑ k ∈ t, f k - t.card * f j +
      2 * ((t.card : ℚ) * ∑ k ∈ s, f k - s.card * ∑ k ∈ t, f k) := by
  have hρ : 0 ≤ ρ := (abs_nonneg _).trans (h j hj j hj)
  rcases s.eq_empty_or_nonempty with rfl | ⟨a, ha⟩
  · have hone := (abs_le.1 (abs_sum_sub_card_mul_le hj h)).1
    have hcard : (1 : ℚ) ≤ t.card := by exact_mod_cast Finset.card_pos.2 ⟨j, hj⟩
    have hmul : ((t.card : ℚ) - 1) * ρ ≤ t.card * (t.card + 1) / 2 * ρ :=
      mul_le_mul_of_nonneg_right (by nlinarith [hcard]) hρ
    rw [Finset.sum_empty, Finset.card_empty]
    push_cast
    linarith
  · have hpart := neg_le_sum_add_two_mul hs hj ha h
    have hmul := mul_le_mul_of_nonneg_right (mul_one_add_le (c := s.card) (n := t.card)) hρ
    linarith

/-- A part misses its share by what the rest misses it, the other way. -/
theorem card_mul_sum_sdiff_sub (hs : s ⊆ t) :
    (t.card : ℚ) * ∑ k ∈ t \ s, f k - (t \ s).card * ∑ k ∈ t, f k =
      -((t.card : ℚ) * ∑ k ∈ s, f k - s.card * ∑ k ∈ t, f k) := by
  rw [Finset.card_sdiff_of_subset hs, Nat.cast_sub (Finset.card_le_card hs), ← Finset.sum_sdiff hs]
  ring

/-- Twice what a part misses its share by, where one of the terms is not negative. -/
theorem two_mul_abs_le_of_nonneg {j : ι} (hs : s ⊆ t) (hj : j ∈ t)
    (h : ∀ j ∈ t, ∀ k ∈ t, |f j - f k| ≤ ρ) (hf : 0 ≤ f j) :
    2 * |(t.card : ℚ) * ∑ k ∈ s, f k - s.card * ∑ k ∈ t, f k| + t.card * |f j| ≤
      |∑ k ∈ t, f k| + t.card * (t.card + 1) / 2 * ρ := by
  have hup := neg_card_mul_le_sum_add hs hj h
  have hdown := neg_card_mul_le_sum_add (Finset.sdiff_subset (s := t) (t := s)) hj h
  rw [card_mul_sum_sdiff_sub hs] at hdown
  have habs := le_abs_self (∑ k ∈ t, f k)
  rw [abs_of_nonneg hf]
  rcases abs_cases ((t.card : ℚ) * ∑ k ∈ s, f k - s.card * ∑ k ∈ t, f k) with ⟨he, _⟩ | ⟨he, _⟩
  · rw [he]
    linarith
  · rw [he]
    linarith

/-- **A part against its share of the whole**, where no two terms differ by more than `ρ`: what it
misses it by, twice, and any one of the terms for each of them, is made up for by the whole and half
of `ρ` for each term and one more. -/
theorem two_mul_abs_le {j : ι} (hs : s ⊆ t) (hj : j ∈ t) (h : ∀ j ∈ t, ∀ k ∈ t, |f j - f k| ≤ ρ) :
    2 * |(t.card : ℚ) * ∑ k ∈ s, f k - s.card * ∑ k ∈ t, f k| + t.card * |f j| ≤
      |∑ k ∈ t, f k| + t.card * (t.card + 1) / 2 * ρ := by
  rcases le_total 0 (f j) with hf | hf
  · exact two_mul_abs_le_of_nonneg hs hj h hf
  · have hneg := two_mul_abs_le_of_nonneg (f := fun k => -f k) hs hj (fun a ha b hb => by
      rw [← neg_sub', abs_neg]
      exact h a ha b hb) (by linarith)
    rwa [Finset.sum_neg_distrib, Finset.sum_neg_distrib, mul_neg, mul_neg,
      ← neg_sub', abs_neg, abs_neg,
      abs_neg] at hneg

end Spread

end CartaZarr
