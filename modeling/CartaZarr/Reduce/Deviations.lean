import CartaZarr.Foundations.Extended
import CartaZarr.Foundations.Moments

/-!
# The sum of squared deviations

How one set of pixels makes its sum of squared deviations from the mean, and how two sets' are put
together, as a `Spread`: a count, a mean kept as a base and an offset from it, and the sum. In exact
arithmetic a `Spread` describes a collection of numbers (`Spread.Describes`); that of a span
describes its numbers whatever the shift (`Spread.ofSpan_describes`), and merging two describes both
collections (`Spread.Describes.merge`), so spans put together in any order and bracketing describe
them all (`Spreads.describes`).
-/

namespace CartaZarr

/-- How many pixels, their mean, as a base and an offset, and the sum of their squared
deviations. -/
structure Spread (K : Type) where
  count : K
  base : K
  offset : K
  sumSqDev : K
  deriving DecidableEq

namespace Spread

section Operations

variable {K : Type} [Zero K] [Add K] [Sub K] [Mul K] [Div K] [LT K] [LE K] [DecidableLT K]
  [DecidableLE K]

/-- The spread of nothing. -/
def none : Spread K := ⟨0, 0, 0, 0⟩

/-- A span's, from its pixels' distances to `shift`: `count` of them, summing to `distanceSum`,
their squares to `distanceSumSq`. -/
def ofSpan (count shift distanceSum distanceSumSq : K) : Spread K :=
  if count ≤ 0 then none
  else
    let squares := distanceSumSq - distanceSum * distanceSum / count
    ⟨count, shift, distanceSum / count, if squares < 0 then 0 else squares⟩

/-- Take in another set of pixels. The base stays where the first set put it. -/
def merge (spread other : Spread K) : Spread K :=
  if other.count ≤ 0 then spread
  else if spread.count ≤ 0 then other
  else
    let total := spread.count + other.count
    let between := (other.base - spread.base) + (other.offset - spread.offset)
    { count := total
      base := spread.base
      offset := spread.offset + between * (other.count / total)
      sumSqDev := spread.sumSqDev +
        (other.sumSqDev + between * between * (spread.count * other.count / total)) }

end Operations

/-! ## What a spread describes -/

/-- A spread is that of a collection of numbers. -/
structure Describes (spread : Spread ℚ) (values : Multiset ℚ) : Prop where
  count_eq : spread.count = values.card
  mean_eq : values ≠ 0 → spread.base + spread.offset = Moments.mean values
  sumSqDev_eq : spread.sumSqDev = Moments.sumSqDev values

theorem none_describes : Describes none 0 := ⟨by simp [none], fun h => absurd rfl h, rfl⟩

variable {values others : Multiset ℚ} {spread other : Spread ℚ}

theorem Describes.count_le_zero (h : spread.Describes values) : spread.count ≤ 0 ↔ values = 0 := by
  rw [h.count_eq]
  simp

/-- **A span's spread describes its numbers**, whatever they are taken their distances from. -/
theorem ofSpan_describes (values : Multiset ℚ) (shift : ℚ) :
    Describes (ofSpan values.card shift (values.map fun v => v - shift).sum
      (values.map fun v => (v - shift) * (v - shift)).sum) values := by
  unfold ofSpan
  rcases eq_or_ne values 0 with rfl | h
  · rw [if_pos (by simp)]
    exact none_describes
  · have hcard : ¬ (values.card : ℚ) ≤ 0 := by simpa using h
    have hsquares : (values.map fun v => (v - shift) * (v - shift)).sum -
        (values.map fun v => v - shift).sum * (values.map fun v => v - shift).sum / values.card =
          Moments.sumSqDev values := by
      rw [Moments.sumSqDev_eq_shifted h shift]
      simp only [sq]
    rw [if_neg hcard]
    dsimp only
    rw [hsquares, if_neg (not_lt.2 (Moments.sumSqDev_nonneg values))]
    exact ⟨rfl, fun _ => (Moments.mean_eq_shifted h shift).symm, rfl⟩

/-- **Merging two spreads describes both collections.** -/
theorem Describes.merge (h : spread.Describes values) (h' : other.Describes others) :
    (spread.merge other).Describes (values + others) := by
  unfold Spread.merge
  rcases eq_or_ne others 0 with rfl | hother
  · rw [if_pos (h'.count_le_zero.2 rfl), add_zero]
    exact h
  rw [if_neg (mt h'.count_le_zero.1 hother)]
  rcases eq_or_ne values 0 with rfl | hvalues
  · rw [if_pos (h.count_le_zero.2 rfl), zero_add]
    exact h'
  rw [if_neg (mt h.count_le_zero.1 hvalues)]
  have hbetween : (other.base - spread.base) + (other.offset - spread.offset) =
      Moments.mean others - Moments.mean values := by
    rw [← h.mean_eq hvalues, ← h'.mean_eq hother]
    ring
  dsimp only
  rw [hbetween, h.count_eq, h'.count_eq, h.sumSqDev_eq, h'.sumSqDev_eq]
  refine ⟨by simp, fun _ => ?_, (Moments.sumSqDev_add hvalues others).symm⟩
  rw [Moments.mean_add hvalues, ← h.mean_eq hvalues, add_assoc]

end Spread

/-- Spans put together, in an order and a bracketing: each is some numbers and the shift their
distances were taken from. -/
inductive Spreads
  | span (values : Multiset ℚ) (shift : ℚ)
  | merged (first second : Spreads)

namespace Spreads

/-- The numbers of the spans. -/
def values : Spreads → Multiset ℚ
  | span values _ => values
  | merged first second => first.values + second.values

/-- The spread the spans come to. -/
def spread : Spreads → Spread ℚ
  | span values shift => .ofSpan values.card shift (values.map fun v => v - shift).sum
      (values.map fun v => (v - shift) * (v - shift)).sum
  | merged first second => first.spread.merge second.spread

/-- **Spans describe all their numbers**, in whatever order and bracketing they are put together. -/
theorem describes : ∀ spans : Spreads, spans.spread.Describes spans.values
  | span values shift => Spread.ofSpan_describes values shift
  | merged first second => first.describes.merge second.describes

end Spreads

/-! ## Spreads of floating-point values -/

namespace Spread

/-- A spread of numbers, as its fields are kept. -/
def finite (spread : Spread ℚ) : Spread Extended :=
  ⟨.finite spread.count, .finite spread.base, .finite spread.offset, .finite spread.sumSqDev⟩

theorem finite_count_le_zero (spread : Spread ℚ) : spread.finite.count ≤ 0 ↔ spread.count ≤ 0 :=
  Extended.finite_le

/-- Merging does not leave the numbers. -/
theorem merge_finite (spread other : Spread ℚ) :
    spread.finite.merge other.finite = (spread.merge other).finite := by
  unfold merge
  simp only [finite_count_le_zero]
  by_cases hother : other.count ≤ 0
  · rw [if_pos hother, if_pos hother]
  by_cases hspread : spread.count ≤ 0
  · rw [if_neg hother, if_neg hother, if_pos hspread, if_pos hspread]
  rw [if_neg hother, if_neg hother, if_neg hspread, if_neg hspread]
  have htotal : spread.count + other.count ≠ 0 := by linarith
  simp only [finite, Extended.finite_add, Extended.finite_sub, Extended.finite_mul,
    Extended.finite_div htotal]

/-- **Merging is associative**, in exact arithmetic. -/
theorem merge_assoc (a b c : Spread ℚ) : (a.merge b).merge c = a.merge (b.merge c) := by
  by_cases hc : c.count ≤ 0
  · simp only [merge, hc, if_true]
  by_cases hb : b.count ≤ 0
  · simp only [merge, hc, hb, if_true, if_false]
  by_cases ha : a.count ≤ 0
  · have hbc : ¬ b.count + c.count ≤ 0 := by linarith
    simp only [merge, hc, hb, ha, hbc, if_true, if_false]
  have hab : ¬ a.count + b.count ≤ 0 := by linarith
  have hbc : ¬ b.count + c.count ≤ 0 := by linarith
  have h₁ : a.count + b.count ≠ 0 := by linarith
  have h₂ : b.count + c.count ≠ 0 := by linarith
  have h₃ : a.count + b.count + c.count ≠ 0 := by linarith
  have h₄ : a.count + (b.count + c.count) ≠ 0 := by linarith
  simp only [merge, hc, hb, ha, hab, hbc, if_false, Spread.mk.injEq]
  refine ⟨by ring, trivial, ?_, ?_⟩
  · field_simp
    ring
  · field_simp
    ring

/-- The counts add up. -/
theorem count_merge {a b : Spread ℚ} (ha : 0 ≤ a.count) (hb : 0 ≤ b.count) :
    (a.merge b).count = a.count + b.count := by
  unfold merge
  split_ifs
  · linarith
  · linarith
  · rfl

end Spread

end CartaZarr
