import Mathlib.Algebra.BigOperators.Intervals
import Mathlib.Algebra.Order.Field.Basic
import Mathlib.Algebra.Order.Field.Rat
import Mathlib.Data.Rat.Defs
import Mathlib.Tactic.FieldSimp
import Mathlib.Tactic.Linarith
import Mathlib.Tactic.NormNum
import Mathlib.Tactic.Ring
import CartaZarr.Foundations.Quotient
import CartaZarr.Foundations.Spread
import CartaZarr.Image.Descriptor

/-!
# The linear description of a spectral axis

Evenly spaced channels are described by a reference pixel, a reference value and an increment.
Whether they are evenly spaced is judged pair by pair, each spacing against the first; the increment
is the mean of the spacings, and the reference pixel is a channel that the reference value lies
close to, where there is one. The samples are rational numbers here, so that nothing is rounded.

A pair may differ from the first by a tolerance that does not shrink with the unit. What a
description gives for a channel is off by the differences added up between that channel and the
reference pixel, and the description serves when they stay within half an increment
(`fitSpectralAxis_sound_iff`). They do when the first spacing outweighs half of what two spacings
differ, for each channel (`fitSpectralAxis_sound`), and some channels do not wherever it does not
(`exists_not_sound`).
-/

namespace CartaZarr

/-- The sample at an index. -/
abbrev sample (values : List ℚ) (index : ℕ) : ℚ := values.getD index 0

/-- How close a sample must sit to the reference world value to be treated as landing on it. -/
def exactnessTolerance (values : List ℚ) : ℚ :=
  1 / 10 ^ 12 * values.foldl (fun maximum value => max maximum |value|) 1

/-- The first of the samples that are closest to the reference. -/
def closestIndex (values : List ℚ) (reference : ℚ) : ℕ :=
  (List.range values.length).foldl (fun best index =>
    if |sample values index - reference| < |sample values best - reference| then index else best) 0

/-- Every later spacing agrees with the increment. -/
def isEvenlySpaced (values : List ℚ) (increment : ℚ) : Bool :=
  (List.range' 2 (values.length - 2)).all fun index =>
    let spacing := sample values index - sample values (index - 1)
    let tolerance := 1 / 10 ^ 9 * max (max 1 |increment|) |spacing|
    |spacing - increment| ≤ tolerance

def nonuniformAxis (axisName : String) : Diagnostic :=
  ⟨.nonuniformAxis, "The " ++ axisName ++
    " coordinate is not evenly spaced; any linear description of it is an approximation", axisName⟩

def inexactReferencePixel (axisName : String) : Diagnostic :=
  ⟨.inexactReferencePixel, "The " ++ axisName ++
    " coordinate has no sample at its reference world value; CRPIX was linearly extrapolated",
      axisName⟩

structure LinearAxisFit where
  referencePixel : Option ℚ := none
  referenceValue : Option ℚ := none
  increment : Option ℚ := none
  uniform : Bool := false
  diagnostics : List Diagnostic := []

/-- The increment of evenly spaced samples is the whole span spread over them, which one pair gives
less precisely. -/
def spreadIncrement (values : List ℚ) (increment : ℚ) (uniform : Bool) : Option ℚ :=
  if uniform ∧ values.length > 2 then
    divide (sample values (values.length - 1) - sample values 0) (values.length - 1 : ℕ)
  else some increment

/-- The fit of a linear axis to samples; none where it divides by zero. -/
def fitLinearAxis (values : List ℚ) (reference : Option ℚ)
    (axisName : String) : Option LinearAxisFit :=
  if values.length < 2 then some {}
  else
    let increment := sample values 1 - sample values 0
    if increment = 0 then some { increment := some increment }
    else do
      let uniform := isEvenlySpaced values increment
      let increment ← spreadIncrement values increment uniform
      let uneven := if uniform then [] else [nonuniformAxis axisName]
      let referenceValue := reference.getD 0
      let closest := closestIndex values referenceValue
      if |sample values closest - referenceValue| ≤ exactnessTolerance values then
        some ⟨some (closest + 1 : ℕ), some referenceValue, some increment, uniform, uneven⟩
      else
        let pixels ← divide (referenceValue - sample values 0) increment
        some ⟨some (pixels + 1), some referenceValue, some increment, uniform,
          uneven ++ [inexactReferencePixel axisName]⟩

structure SpectralAxisFit where
  referencePixel : Option ℚ := none
  referenceValue : Option ℚ := none
  increment : Option ℚ := none
  diagnostics : List Diagnostic := []
  deriving DecidableEq

/-- The fit of a spectral axis: a linear description of evenly spaced channels, and of no others. -/
def fitSpectralAxis (channels : List ℚ) (reference : ℚ)
    (axisName : String) : Option SpectralAxisFit := do
  let fit ← fitLinearAxis channels (some reference) axisName
  if fit.uniform then
    some ⟨fit.referencePixel, fit.referenceValue, fit.increment, fit.diagnostics⟩
  else
    some { diagnostics := fit.diagnostics.filter fun diagnostic =>
      diagnostic.code = .nonuniformAxis }

/-! ## What a description is to be -/

/-- A linear description that gives every channel to within half an increment. -/
structure Describes (channels : List ℚ) (pixel value increment : ℚ) : Prop where
  increment_ne : increment ≠ 0
  near : ∀ i < channels.length,
    |value + (i + 1 - pixel) * increment - sample channels i| ≤ |increment| / 2

/-- A fit that divided by no zero, and describes the channels where it has a description. -/
def Sound (channels : List ℚ) (fit : Option SpectralAxisFit) : Prop :=
  ∃ f, fit = some f ∧ ∀ increment, f.increment = some increment →
    ∃ pixel value, f.referencePixel = some pixel ∧ f.referenceValue = some value ∧
      Describes channels pixel value increment

/-- A channel is taken back to its own index, up to half a pixel. -/
theorem Describes.maps_back {channels : List ℚ} {pixel value increment : ℚ}
    (h : Describes channels pixel value increment) {i : ℕ} (hi : i < channels.length) :
    |(sample channels i - value) / increment + pixel - (i + 1)| ≤ 1 / 2 := by
  have hpos : 0 < |increment| := abs_pos.2 h.increment_ne
  have he : (sample channels i - value) / increment + pixel - (i + 1) =
      -(value + (i + 1 - pixel) * increment - sample channels i) / increment := by
    field_simp [h.increment_ne]
    ring
  rw [he, abs_div, abs_neg, div_le_iff₀ hpos]
  linarith [h.near i hi]

/-! ## When a fit is sound -/

variable (channels : List ℚ) (reference : ℚ)

/-- The channels that are described: two at least, the first two distinct, and every later spacing
close to the first. -/
def IsDescribed : Prop :=
  2 ≤ channels.length ∧ sample channels 1 ≠ sample channels 0 ∧
    isEvenlySpaced channels (sample channels 1 - sample channels 0)

instance : Decidable (IsDescribed channels) := inferInstanceAs (Decidable (_ ∧ _ ∧ _))

/-- The mean of the spacings: the span spread over the channels. -/
def meanSpacing : ℚ :=
  (sample channels (channels.length - 1) - sample channels 0) / (channels.length - 1 : ℕ)

/-- What the spacings before a channel differ from their mean, added up. -/
def drift (i : ℕ) : ℚ :=
  ∑ k ∈ Finset.range i, (sample channels (k + 1) - sample channels k - meanSpacing channels)

/-- Where the reference value lies close to a channel, the channel it is closest to. -/
def LandsOnChannel : Prop :=
  |sample channels (closestIndex channels reference) - reference| ≤ exactnessTolerance channels

instance : Decidable (LandsOnChannel channels reference) := inferInstanceAs (Decidable (_ ≤ _))

/-- What a channel has drifted from the one the reference pixel stands on, which itself is off the
reference value; or from the first, where the reference pixel was extrapolated from it. -/
def driftFromReference (i : ℕ) : ℚ :=
  if LandsOnChannel channels reference then
    drift channels i - drift channels (closestIndex channels reference) +
      (sample channels (closestIndex channels reference) - reference)
  else drift channels i

/-- The drift of a channel is what the mean spacing misses it by. -/
theorem drift_eq (i : ℕ) :
    drift channels i = sample channels i - sample channels 0 - i * meanSpacing channels := by
  rw [drift, Finset.sum_sub_distrib, Finset.sum_range_sub (sample channels), Finset.sum_const,
    Finset.card_range, nsmul_eq_mul]

/-- The pixel of the channel the reference value lands on, or the one extrapolated from the
first. -/
def pixelOfReference : ℚ :=
  if LandsOnChannel channels reference then (closestIndex channels reference + 1 : ℕ)
  else (reference - sample channels 0) / meanSpacing channels + 1

/-- What the mean spacing gives for a channel differs from it by its drift from the reference. -/
theorem described_sub_sample (i : ℕ) (hm : meanSpacing channels ≠ 0) :
    reference + (i + 1 - pixelOfReference channels reference) *
      meanSpacing channels - sample channels i =
      -driftFromReference channels reference i := by
  rw [driftFromReference, pixelOfReference]
  split
  · rw [drift_eq, drift_eq]
    push_cast
    ring
  · rw [drift_eq]
    field_simp
    ring

/-- The mean spacing describes the channels exactly when none has drifted by more than half of
it. -/
theorem describes_meanSpacing_iff :
    Describes channels (pixelOfReference channels reference) reference (meanSpacing channels) ↔
      meanSpacing channels ≠ 0 ∧
        ∀ i < channels.length, |driftFromReference channels reference i| ≤
          |meanSpacing channels| / 2 := by
  constructor
  · rintro ⟨hm, hnear⟩
    refine ⟨hm, fun i hi => ?_⟩
    rw [← abs_neg, ← described_sub_sample channels reference i hm]
    exact hnear i hi
  · rintro ⟨hm, hdrift⟩
    refine ⟨hm, fun i hi => ?_⟩
    rw [described_sub_sample channels reference i hm, abs_neg]
    exact hdrift i hi

/-- Two channels are as far apart as their mean spacing. -/
theorem meanSpacing_of_length_eq_two (h : channels.length = 2) :
    meanSpacing channels = sample channels 1 - sample channels 0 := by
  rw [meanSpacing, h]
  norm_num

theorem spreadIncrement_of_uniform (h : 2 ≤ channels.length) :
    spreadIncrement channels (sample channels 1 - sample channels 0) true =
      some (meanSpacing channels) := by
  rw [spreadIncrement]
  split
  · rw [divide, if_neg (by norm_cast; omega), meanSpacing]
  · rw [meanSpacing_of_length_eq_two channels (by grind)]

/-- Channels that are not described get no description, and the fit divides by no zero. -/
theorem fitSpectralAxis_of_not_isDescribed (axisName : String) (h : ¬ IsDescribed channels) :
    ∃ f, fitSpectralAxis channels reference axisName = some f ∧ f.increment = none := by
  rw [fitSpectralAxis, fitLinearAxis]
  by_cases hlen : channels.length < 2
  · exact ⟨_, by rw [if_pos hlen]; rfl, rfl⟩
  by_cases hne : sample channels 1 - sample channels 0 = 0
  · exact ⟨_, by rw [if_neg hlen, if_pos hne]; rfl, rfl⟩
  have heven : isEvenlySpaced channels (sample channels 1 - sample channels 0) = false :=
    Bool.eq_false_iff.2 fun he => h ⟨not_lt.1 hlen, sub_ne_zero.1 hne, he⟩
  simp only [if_neg hlen, if_neg hne, heven, spreadIncrement, Bool.false_eq_true, false_and,
    if_false, Option.bind_eq_bind, Option.bind_some, divide]
  split <;> exact ⟨_, rfl, rfl⟩

/-- The fit of channels that are described: their mean spacing, on the channel the reference value
lands on or extrapolated from the first by a division. -/
theorem fitSpectralAxis_of_isDescribed (axisName : String) (h : IsDescribed channels) :
    fitSpectralAxis channels reference axisName =
      if LandsOnChannel channels reference then
        some ⟨some (closestIndex channels reference + 1 : ℕ), some reference,
          some (meanSpacing channels), []⟩
      else (divide (reference - sample channels 0) (meanSpacing channels)).map fun pixels =>
        ⟨some (pixels + 1), some reference, some (meanSpacing channels),
          [inexactReferencePixel axisName]⟩ := by
  obtain ⟨hlen, hne, heven⟩ := h
  simp only [fitSpectralAxis, fitLinearAxis, if_neg (not_lt.2 hlen),
    if_neg (sub_ne_zero.2 hne), heven,
    if_true, spreadIncrement_of_uniform channels hlen, Option.bind_eq_bind, Option.bind_some,
    Option.getD_some]
  by_cases hland : LandsOnChannel channels reference
  · rw [if_pos hland, if_pos (show |_| ≤ _ from hland)]
    rfl
  · rw [if_neg hland, if_neg (show ¬ |_| ≤ _ from hland), divide]
    split <;> rfl

/-- Channels with a mean spacing other than zero are described by it. -/
theorem fitSpectralAxis_of_meanSpacing_ne (axisName : String) (h : IsDescribed channels)
    (hm : meanSpacing channels ≠ 0) :
    ∃ diagnostics, fitSpectralAxis channels reference axisName =
      some ⟨some (pixelOfReference channels reference), some reference, some (meanSpacing channels),
        diagnostics⟩ := by
  rw [fitSpectralAxis_of_isDescribed channels reference axisName h, pixelOfReference]
  split
  · exact ⟨_, rfl⟩
  · rw [divide, if_neg hm]
    exact ⟨_, rfl⟩

/-- Channels whose first and last are equal are divided by, or described by, an increment of
zero. -/
theorem not_sound_of_meanSpacing_eq (axisName : String) (h : IsDescribed channels)
    (hm : meanSpacing channels = 0) :
    ¬ Sound channels (fitSpectralAxis channels reference axisName) := by
  rw [fitSpectralAxis_of_isDescribed channels reference axisName h, hm]
  rintro ⟨f, hf, hdescribes⟩
  split at hf
  · obtain rfl := Option.some.inj hf
    obtain ⟨_, _, _, _, hne, _⟩ := hdescribes 0 rfl
    exact hne rfl
  · cases hf

/-- **A fit is sound exactly when** the channels are not described, or their mean spacing is not
zero and no channel drifts from the reference by more than half of it. -/
theorem fitSpectralAxis_sound_iff (axisName : String) :
    Sound channels (fitSpectralAxis channels reference axisName) ↔
      (IsDescribed channels → meanSpacing channels ≠ 0 ∧
        ∀ i < channels.length, |driftFromReference channels reference i| ≤
          |meanSpacing channels| / 2) := by
  by_cases h : IsDescribed channels
  · rw [imp_iff_right h]
    by_cases hm : meanSpacing channels = 0
    · exact iff_of_false (not_sound_of_meanSpacing_eq channels reference axisName h hm) fun h' =>
        h'.1 hm
    obtain ⟨diagnostics, hfit⟩ := fitSpectralAxis_of_meanSpacing_ne channels reference axisName h hm
    rw [← describes_meanSpacing_iff, hfit]
    constructor
    · rintro ⟨f, hf, hdescribes⟩
      obtain rfl := Option.some.inj hf
      obtain ⟨pixel, value, hpixel, hvalue, hd⟩ := hdescribes _ rfl
      rw [Option.some.inj hpixel, Option.some.inj hvalue]
      exact hd
    · intro hd
      refine ⟨_, rfl, fun increment hincrement => ⟨_, _, rfl, rfl, ?_⟩⟩
      rw [← Option.some.inj hincrement]
      exact hd
  · obtain ⟨f, hf, hnone⟩ := fitSpectralAxis_of_not_isDescribed channels reference axisName h
    exact ⟨fun _ h' => absurd h' h, fun _ => ⟨f, hf, fun increment hi => by simp [hnone] at hi⟩⟩

/-! ## Channels that are spaced alike -/

/-- From a channel to the next. -/
def spacing (k : ℕ) : ℚ := sample channels (k + 1) - sample channels k

section Closest

/-- The channels seen so far, and the closest of them. -/
theorem closestIndex_spec (h : 0 < channels.length) :
    closestIndex channels reference < channels.length ∧ ∀ i < channels.length,
      |sample channels (closestIndex channels reference) - reference| ≤
        |sample channels i - reference| := by
  have hfold : ∀ (indices : List ℕ) (best : ℕ), best < channels.length →
      (∀ index ∈ indices, index < channels.length) →
      indices.foldl (fun best index => if |sample channels index - reference| <
        |sample channels best - reference| then index else best) best < channels.length ∧
      ∀ i, i = best ∨ i ∈ indices → |sample channels (indices.foldl (fun best index =>
        if |sample channels index - reference| < |sample channels best - reference|
          then index else best)
          best) - reference| ≤ |sample channels i - reference| := by
    intro indices
    induction indices with
    | nil => exact fun best hbest _ => ⟨hbest, by simp⟩
    | cons index indices ih =>
      intro best hbest hall
      have htail : ∀ i ∈ indices, i < channels.length :=
        fun i hi => hall i (List.mem_cons_of_mem _ hi)
      rw [List.foldl_cons]
      by_cases hlt : |sample channels index - reference| < |sample channels best - reference|
      · simp only [if_pos hlt]
        obtain ⟨hin, hle⟩ := ih index (hall index List.mem_cons_self) htail
        refine ⟨hin, fun i hi => ?_⟩
        rcases hi with rfl | hi
        · exact (hle index (.inl rfl)).trans hlt.le
        · exact hle i (List.mem_cons.1 hi)
      · simp only [if_neg hlt]
        obtain ⟨hin, hle⟩ := ih best hbest htail
        refine ⟨hin, fun i hi => ?_⟩
        rcases hi with rfl | hi
        · exact hle i (.inl rfl)
        rcases List.mem_cons.1 hi with rfl | hi
        · exact (hle best (.inl rfl)).trans (not_lt.1 hlt)
        · exact hle i (.inr hi)
  obtain ⟨hin, hle⟩ := hfold (List.range channels.length) 0 h fun index hi => List.mem_range.1 hi
  exact ⟨hin, fun i hi => hle i (.inr (List.mem_range.2 hi))⟩

/-- The first channel is the closest where it is the reference value. -/
theorem closestIndex_of_first (h : sample channels 0 = reference) :
    closestIndex channels reference = 0 := by
  refine List.foldlRecOn (motive := fun best => best = 0) _ _ rfl fun best hbest index _ => ?_
  subst hbest
  rw [if_neg]
  rw [h, sub_self, abs_zero]
  exact not_lt.2 (abs_nonneg _)

end Closest

section Spacings

variable {channels reference} {ρ δ : ℚ}
  (hρ : ∀ j k, j + 1 < channels.length → k + 1 < channels.length →
    |spacing channels j - spacing channels k| ≤ ρ)
  (hlen : 2 ≤ channels.length)
include hρ hlen

theorem spacings_alike : ∀ j ∈ Finset.range (channels.length - 1),
    ∀ k ∈ Finset.range (channels.length - 1), |spacing channels j - spacing channels k| ≤ ρ := by
  intro j hj k hk
  rw [Finset.mem_range] at hj hk
  exact hρ j k (by omega) (by omega)

omit hρ in
theorem sum_spacing : ∑ k ∈ Finset.range (channels.length - 1), spacing channels k =
    (channels.length - 1 : ℕ) * meanSpacing channels := by
  have hne : ((channels.length - 1 : ℕ) : ℚ) ≠ 0 := by
    norm_cast
    omega
  rw [meanSpacing, mul_div_cancel₀ _ hne]
  exact Finset.sum_range_sub (sample channels) _

/-- The mean spacing is closer to the first than two spacings are, unless they are equal. -/
theorem meanSpacing_ne_zero (hfirst : spacing channels 0 ≠ 0) (h : ρ ≤ |spacing channels 0|) :
    meanSpacing channels ≠ 0 := by
  intro hzero
  have hmean := abs_sum_sub_card_mul_le (j := 0) (Finset.mem_range.2 (by omega))
    (spacings_alike hρ hlen)
  have hone : (1 : ℚ) ≤ (channels.length - 1 : ℕ) := by
    norm_cast
    omega
  have hpos : 0 < |spacing channels 0| := abs_pos.2 hfirst
  rw [sum_spacing hlen, hzero, mul_zero, zero_sub, abs_neg, Finset.card_range, abs_mul,
    abs_of_pos (lt_of_lt_of_le one_pos hone)] at hmean
  nlinarith [mul_le_mul_of_nonneg_left h (sub_nonneg.2 hone)]

/-- What two channels have drifted apart, twice, and the first spacing are made up for by the mean
spacing and half of what two spacings differ, for each channel. -/
theorem two_mul_abs_drift_sub_le {c i : ℕ} (hci : c ≤ i) (hi : i < channels.length) :
    2 * |drift channels i - drift channels c| + |spacing channels 0| ≤
      |meanSpacing channels| + channels.length * ρ / 2 := by
  obtain ⟨n, hn⟩ : ∃ n : ℕ, channels.length = n + 1 := ⟨_, (Nat.sub_add_cancel (by omega)).symm⟩
  have hpos : (0 : ℚ) < n := by
    norm_cast
    omega
  have hsub : Finset.Ico c i ⊆ Finset.range (channels.length - 1) := fun k hk => by
    rw [Finset.mem_Ico] at hk
    rw [Finset.mem_range]
    omega
  have hpart := two_mul_abs_le hsub (Finset.mem_range.2 (show 0 < channels.length - 1 by omega))
    (spacings_alike hρ hlen)
  have hdrift : ((Finset.range (channels.length - 1)).card : ℚ) * ∑ k ∈ Finset.Ico c i,
    spacing channels k -
      (Finset.Ico c i).card * ∑ k ∈ Finset.range (channels.length - 1), spacing channels k =
        n * (drift channels i - drift channels c) := by
    rw [sum_spacing hlen, drift_eq, drift_eq, Nat.card_Ico, Nat.cast_sub hci, Finset.card_range, hn,
      Nat.add_sub_cancel]
    simp only [spacing, Finset.sum_Ico_sub (sample channels) hci]
    ring
  rw [hdrift, sum_spacing hlen, Finset.card_range, hn, Nat.add_sub_cancel, abs_mul, abs_mul,
    abs_of_pos hpos] at hpart
  rw [hn]
  push_cast
  refine le_of_mul_le_mul_left (le_trans (le_of_eq ?_) (hpart.trans (le_of_eq ?_))) hpos <;> ring

theorem two_mul_abs_drift_sub_le' {c i : ℕ} (hc : c < channels.length) (hi : i < channels.length) :
    2 * |drift channels i - drift channels c| + |spacing channels 0| ≤
      |meanSpacing channels| + channels.length * ρ / 2 := by
  rcases le_total c i with h | h
  · exact two_mul_abs_drift_sub_le hρ hlen h hi
  · rw [abs_sub_comm]
    exact two_mul_abs_drift_sub_le hρ hlen h hc

/-- The same of what a channel has drifted from the reference, with what the reference value is off
the channel it lands on. -/
theorem two_mul_abs_driftFromReference_le (hδ : 0 ≤ δ)
    (hnear : (∃ i < channels.length, |sample channels i - reference| ≤ δ) ∨
      ∀ i < channels.length, exactnessTolerance channels < |sample channels i - reference|)
    {i : ℕ} (hi : i < channels.length) :
    2 * |driftFromReference channels reference i| + |spacing channels 0| ≤
      |meanSpacing channels| + channels.length * ρ / 2 + 2 * δ := by
  obtain ⟨hclosest, hle⟩ := closestIndex_spec channels reference (by omega)
  rw [driftFromReference]
  split
  · rename_i hland
    have hoff : |sample channels (closestIndex channels reference) - reference| ≤ δ := by
      rcases hnear with ⟨j, hj, hjδ⟩ | hfar
      · exact (hle j hj).trans hjδ
      · exact absurd hland (not_le.2 (hfar _ hclosest))
    have hdrift := two_mul_abs_drift_sub_le' hρ hlen hclosest hi
    have habs := abs_add_le (drift channels i - drift channels (closestIndex channels reference))
      (sample channels (closestIndex channels reference) - reference)
    linarith
  · have hdrift := two_mul_abs_drift_sub_le' hρ hlen (show 0 < channels.length by omega) hi
    rw [show drift channels 0 = 0 by simp [drift], sub_zero] at hdrift
    linarith

end Spacings

/-- **A fit of channels that are spaced alike is sound**: no two spacings differ by more than `ρ`,
the reference value is within `δ` of a channel unless it lands on none, and the first spacing
outweighs half of `ρ` for each channel, and twice `δ`. -/
theorem fitSpectralAxis_sound (axisName : String) {ρ δ : ℚ}
    (hρ : ∀ j k, j + 1 < channels.length → k + 1 < channels.length →
      |spacing channels j - spacing channels k| ≤ ρ)
    (hδ : 0 ≤ δ)
    (hnear : (∃ i < channels.length, |sample channels i - reference| ≤ δ) ∨
      ∀ i < channels.length, exactnessTolerance channels < |sample channels i - reference|)
    (h : IsDescribed channels → channels.length * ρ / 2 + 2 * δ ≤ |spacing channels 0|) :
    Sound channels (fitSpectralAxis channels reference axisName) := by
  rw [fitSpectralAxis_sound_iff]
  intro hdescribed
  have hlen := hdescribed.1
  have hspread := h hdescribed
  have hρ0 : 0 ≤ ρ := (abs_nonneg _).trans (hρ 0 0 (by omega) (by omega))
  have htwo : (2 : ℚ) ≤ channels.length := by exact_mod_cast hlen
  refine ⟨meanSpacing_ne_zero hρ hlen (sub_ne_zero.2 hdescribed.2.1) ?_, fun i hi => ?_⟩
  · have := mul_le_mul_of_nonneg_right htwo hρ0
    linarith
  · have hdrift := two_mul_abs_driftFromReference_le hρ hlen hδ hnear hi
    linarith

/-- Three channels a unit apart, and the reference value on the second. -/
theorem fitSpectralAxis_sound_threeChannels :
    Sound [1, 2, 3] (fitSpectralAxis [1, 2, 3] 2 "frequency") :=
  fitSpectralAxis_sound [1, 2, 3] 2 "frequency" (ρ := 0) (δ := 0)
    (fun j k hj hk => (show ∀ j < 2, ∀ k < 2, |spacing [1, 2, 3] j - spacing [1, 2, 3] k| ≤ 0 by
      decide +kernel) j (Nat.lt_of_add_lt_add_right hj) k (Nat.lt_of_add_lt_add_right hk))
    le_rfl (.inl ⟨1, by decide, by decide +kernel⟩) fun _ => by decide +kernel

section Sharp

variable (p : ℕ) (h ρ : ℚ)

/-- An odd number of channels, of which the second half are by a little closer than the first. -/
def closingChannels : List ℚ := (List.range (2 * p + 1)).map fun i => i * h - (i - p : ℕ) * ρ

variable {p h ρ}

theorem sample_closingChannels {i : ℕ} (hi : i < 2 * p + 1) :
    sample (closingChannels p h ρ) i = i * h - (i - p : ℕ) * ρ := by
  simp [sample, closingChannels, List.getD, hi]

theorem spacing_closingChannels {k : ℕ} (hk : k < 2 * p) :
    spacing (closingChannels p h ρ) k = if k < p then h else h - ρ := by
  rw [spacing, sample_closingChannels (by omega), sample_closingChannels (by omega)]
  split_ifs with hkp
  · rw [show k + 1 - p = 0 by omega, show k - p = 0 by omega]
    push_cast
    ring
  · rw [show k + 1 - p = k - p + 1 by omega]
    push_cast
    ring

theorem meanSpacing_closingChannels (hp : 0 < p) :
    meanSpacing (closingChannels p h ρ) = h - ρ / 2 := by
  have hne : (p : ℚ) ≠ 0 := by
    norm_cast
    omega
  rw [meanSpacing, show (closingChannels p h ρ).length = 2 * p + 1 by simp [closingChannels],
    Nat.add_sub_cancel, sample_closingChannels (by omega), sample_closingChannels (by omega),
    show 2 * p - p = p by omega, Nat.zero_sub]
  push_cast
  field_simp
  ring

/-- **The bound on spacings is exact**: where the first spacing does not outweigh half of `ρ` for
each of an odd number of channels, some channels that are spaced so are described, and not
soundly. -/
theorem exists_not_sound (axisName : String) (hp : 0 < p) (hh : 0 < h) (hρ0 : 0 ≤ ρ)
    (hρ : ρ ≤ 1 / 10 ^ 9 * max 1 h) (hlt : h < (2 * p + 1 : ℕ) * ρ / 2) :
    ∃ channels reference, channels.length = 2 * p + 1 ∧ spacing channels 0 = h ∧
      (∀ j k, j + 1 < channels.length → k + 1 < channels.length →
        |spacing channels j - spacing channels k| ≤ ρ) ∧
      (∃ i < channels.length, sample channels i = reference) ∧
      ¬ Sound channels (fitSpectralAxis channels reference axisName) := by
  have hlen : (closingChannels p h ρ).length = 2 * p + 1 := by simp [closingChannels]
  have hspacing := @spacing_closingChannels p h ρ
  have hfirst : spacing (closingChannels p h ρ) 0 = h := by rw [hspacing (by omega), if_pos hp]
  have hzero : sample (closingChannels p h ρ) 0 = 0 := by
    rw [sample_closingChannels (by omega), Nat.zero_sub]
    push_cast
    ring
  refine ⟨closingChannels p h ρ, 0, hlen, hfirst, fun j k hj hk => ?_, ⟨0, by omega, hzero⟩, ?_⟩
  · rw [hspacing (by omega), hspacing (by omega)]
    split_ifs
    · rwa [sub_self, abs_zero]
    · rw [show h - (h - ρ) = ρ by ring, abs_of_nonneg hρ0]
    · rw [show h - ρ - h = -ρ by ring, abs_neg, abs_of_nonneg hρ0]
    · rwa [sub_self, abs_zero]
  have hdescribed : IsDescribed (closingChannels p h ρ) := by
    refine ⟨by omega, sub_ne_zero.1 (by rw [← spacing, hfirst]; exact hh.ne'), ?_⟩
    rw [isEvenlySpaced, List.all_eq_true]
    intro index hindex
    rw [List.mem_range'_1, hlen] at hindex
    have hone := hspacing (k := index - 1) (by omega)
    rw [spacing, Nat.sub_add_cancel (by omega)] at hone
    rw [← spacing, hfirst, hone]
    have hmax : 1 / 10 ^ 9 * max 1 h ≤ 1 / 10 ^ 9 * max (max 1 |h|) |if index - 1 < p
        then h else h - ρ| := by
      rw [abs_of_pos hh]
      exact mul_le_mul_of_nonneg_left (le_max_left _ _) (by norm_num)
    have hdiff : |(if index - 1 < p then h else h - ρ) - h| ≤ ρ := by
      split_ifs
      · rwa [sub_self, abs_zero]
      · rw [show h - ρ - h = -ρ by ring, abs_neg, abs_of_nonneg hρ0]
    exact decide_eq_true (hdiff.trans (hρ.trans hmax))
  rw [fitSpectralAxis_sound_iff]
  intro hsound
  have hdrift := (hsound hdescribed).2 p (by omega)
  -- the reference is the first channel, and the middle one has drifted from it the most
  have hmiddle : driftFromReference (closingChannels p h ρ) 0 p = p * ρ / 2 := by
    have hclosest := closestIndex_of_first (closingChannels p h ρ) 0 hzero
    rw [driftFromReference, hclosest, hzero, drift_eq, drift_eq, hzero,
      meanSpacing_closingChannels hp,
      sample_closingChannels (by omega), Nat.sub_self]
    push_cast
    split <;> ring
  have hpq : (1 : ℚ) ≤ p := by exact_mod_cast hp
  have hpρ : 0 ≤ (p : ℚ) * ρ := mul_nonneg (by linarith) hρ0
  have hρpos : 0 < ρ := by
    rcases hρ0.eq_or_lt with rfl | hpos
    · linarith
    · exact hpos
  have hle : ρ ≤ p * ρ := le_mul_of_one_le_left hρ0 hpq
  rw [hmiddle, meanSpacing_closingChannels hp, abs_of_nonneg (by linarith)] at hdrift
  push_cast at hlt
  rcases abs_cases (h - ρ / 2) with ⟨he, _⟩ | ⟨he, _⟩ <;> rw [he] at hdrift <;> linarith

end Sharp

/-- Channels that go up by a tenth of a billionth and down again are as evenly spaced as the
tolerance asks, and have no spacing to divide by; of those that go up by one, eight and one of it,
the second is further than half of the mean of them from where it is described. -/
theorem fitSpectralAxis_unsound :
    fitSpectralAxis [0, 1 / 10 ^ 10, 0] 1 "frequency" = none ∧
      ¬ Sound [0, 1 / 10 ^ 10, 9 / 10 ^ 10, 10 / 10 ^ 10]
        (fitSpectralAxis [0, 1 / 10 ^ 10, 9 / 10 ^ 10, 10 / 10 ^ 10] 0 "frequency") := by
  refine ⟨by decide +kernel, ?_⟩
  have hfit : fitSpectralAxis [0, 1 / 10 ^ 10, 9 / 10 ^ 10, 10 / 10 ^ 10] 0 "frequency" =
      some ⟨some 1, some 0, some (10 / 3 / 10 ^ 10), []⟩ := by decide +kernel
  rw [hfit]
  rintro ⟨f, hf, hdescribes⟩
  obtain rfl := Option.some.inj hf
  obtain ⟨pixel, value, hpixel, hvalue, hd⟩ := hdescribes _ rfl
  obtain rfl := Option.some.inj hpixel
  obtain rfl := Option.some.inj hvalue
  have hnear := hd.near 1 (by decide)
  revert hnear
  decide +kernel

end CartaZarr
