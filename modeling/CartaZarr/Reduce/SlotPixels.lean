import CartaZarr.Foundations.Tally
import CartaZarr.Reduce.HandOver
import CartaZarr.Reduce.PixelTotals
import Mathlib.Algebra.Group.Pi.Basic
import Mathlib.Data.Multiset.Filter

/-!
# The pixels that slots are of

An accumulator carries a collection of pixels at each region and channel (`StatisticSlots.Carries`):
none when it is reset, those of a row more when the row is folded in, and those of its partials when
they are merged. So what a loop over rows, regions or tasks carries is the sum of what its passes
bring, and the block an accumulator is handed over as describes what it carries
(`Carries.block_describes`).
-/

namespace CartaZarr

/-! ## Rows -/

/-- The totals of a row are those of some pixels, and so is its spread when deviations are taken. -/
structure RowTotals.Reports (deviations : Bool) (totals : RowTotals)
    (pixels : Multiset (Option ℚ)) : Prop where
  totalsOf : totals.TotalsOf pixels
  bounded : totals.Bounded
  describes : deviations = true → totals.spread.Describes (finitePixels pixels)

namespace RowTotals

variable {deviations : Bool}

theorem reports_default : Reports deviations {} 0 :=
  ⟨totalsOf_default, bounded_default, fun _ => Spread.none_describes⟩

theorem Reports.combine {totals other : RowTotals} {pixels others : Multiset (Option ℚ)}
    (h : totals.Reports deviations pixels) (h' : other.Reports deviations others) :
    (totals.combine other).Reports deviations (pixels + others) where
  totalsOf := h.totalsOf.combine h'.totalsOf
  bounded := h.bounded.combine h'.bounded
  describes hdev := by
    rw [spread_combine, finitePixels_add]
    exact (h.describes hdev).merge (h'.describes hdev)

/-- The good pixels of a span are the finite ones of those it selects. -/
theorem finitePixels_spanSelected (pixels : ℕ → Option ℚ) (stride count : ℕ)
    (selected : Option (ℕ → UInt8))
    (maskStep : ℕ) : finitePixels (spanSelected pixels stride count selected maskStep) =
      spanPixels pixels stride count selected maskStep := by
  have hgood : ∀ (masked : Bool) (selected : ℕ → UInt8) (maskStep : ℕ),
      finitePixels (selectedPixels masked pixels stride count selected maskStep) =
        goodPixels masked pixels stride count selected maskStep := by
    intro masked selected maskStep
    rw [finitePixels, Multiset.filterMap_coe, selectedPixels, goodPixels, List.filterMap_filterMap]
    congr 1
    refine List.filterMap_congr fun i _ => ?_
    split_ifs <;> rfl
  cases selected with
  | none => exact hgood false (fun _ => 0) 1
  | some selected => exact hgood true selected maskStep

/-- **A span's pixels join those its row reports.** -/
theorem Reports.accumulateSpan {totals : RowTotals} {before : Multiset (Option ℚ)}
    (h : totals.Reports deviations before) (pixels : ℕ → Option ℚ) (stride count : ℕ)
    (selected : Option (ℕ → UInt8)) (maskStep : ℕ) :
    (accumulateSpan deviations pixels stride count selected maskStep totals).Reports deviations
      (before + spanSelected pixels stride count selected maskStep) where
  totalsOf := accumulateSpan_totalsOf deviations pixels stride count selected maskStep h.totalsOf
  bounded := accumulateSpan_bounded stride count deviations pixels selected maskStep h.bounded
  describes hdev := by
    rw [hdev, finitePixels_add, finitePixels_spanSelected]
    exact accumulateSpan_describes stride count pixels selected maskStep (h.describes hdev)

end RowTotals

/-! ## What is reported -/

/-- The value of a statistic. -/
def SpectralTotals.value (totals : SpectralTotals) : Statistic → Extended
  | .numPixels => totals.numPixels
  | .nanCount => totals.nanCount
  | .sum => totals.sum
  | .sumSq => totals.sumSq
  | .min => totals.min
  | .max => totals.max
  | .sumSqDev => totals.sumSqDev

/-- What is reported of some pixels, of the statistics that are kept. -/
def SpectralTotals.Reports (layout : StatisticLayout) (totals : SpectralTotals)
    (pixels : Multiset (Option ℚ)) :
    Prop :=
  ∃ described : SpectralTotals, described.Describes pixels ∧ ∀ statistic, totals.value statistic =
    if statistic ∈ layout.statistics then described.value statistic
      else ({} : SpectralTotals).value statistic

open Extended in
/-- What is reported of some rows is of their pixels, of the statistics that are kept. -/
theorem RowTotals.Reports.reported {layout : StatisticLayout} {totals : RowTotals}
    {pixels : Multiset (Option ℚ)}
    (h : totals.Reports layout.deviations pixels) :
    ∃ described : SpectralTotals, described.Describes pixels ∧
      ∀ statistic ∈ layout.statistics, StatisticSlots.reported totals statistic =
        described.value statistic := by
  have hmin : ∀ m, IsLeast {v | v ∈ finitePixels pixels} m →
      totals.smallest = .finite m := fun m hm =>
    h.totalsOf.smallest_eq.trans (least_of_isLeast hm)
  have hmax : ∀ m, IsGreatest {v | v ∈ finitePixels pixels} m →
      totals.largest = .finite m := fun m hm =>
    h.totalsOf.largest_eq.trans (greatest_of_isGreatest hm)
  refine ⟨{ numPixels := .finite totals.good, nanCount := .finite totals.bad,
            sum := .finite totals.sum,
            sumSq := .finite totals.sumSq, min := StatisticSlots.reported totals .min,
            max := StatisticSlots.reported totals .max,
            sumSqDev := .finite (Moments.sumSqDev (finitePixels pixels)) },
    ⟨?_, ?_, ?_, ?_, fun hnone => ?_, fun m hm => ?_, fun hnone => ?_, fun m hm => ?_, rfl⟩,
    fun statistic hstatistic => ?_⟩
  · rw [h.totalsOf.good_eq]
  · rw [h.totalsOf.bad_eq]
  · rw [h.totalsOf.sum_eq]
  · rw [h.totalsOf.sumSq_eq]
  · refine if_pos ?_
    rw [h.totalsOf.smallest_eq, hnone, least_zero]
  · dsimp only
    rw [StatisticSlots.reported, hmin m hm, if_neg (by simp)]
  · refine if_pos ?_
    rw [h.totalsOf.largest_eq, hnone, greatest_zero]
  · dsimp only
    rw [StatisticSlots.reported, hmax m hm, if_neg (by simp)]
  · cases statistic with
    | sumSqDev =>
      have hdev : layout.deviations = true := StatisticLayout.slotOf_isSome.2 hstatistic
      exact congrArg Extended.finite (h.describes hdev).sumSqDev_eq
    | _ => rfl

namespace StatisticSlots

variable {layout : StatisticLayout} {regions channels : ℕ}

/-- An accumulator carries some pixels at each of its regions and channels. -/
def Carries (pixels : ℕ → ℕ → Multiset (Option ℚ))
    (s : StatisticSlots layout regions channels) : Prop :=
  ∃ rows, s.Holds rows ∧ ∀ region < regions, ∀ channel < channels,
    (RowTotals.foldRows (rows region channel)).Reports layout.deviations (pixels region channel)

/-- Some pixels at one region and channel. -/
def pixelsAt (region channel : ℕ) (pixels : Multiset (Option ℚ)) : ℕ → ℕ → Multiset (Option ℚ) :=
  fun region' channel' => if region' = region ∧ channel' = channel then pixels else 0

/-- Some pixels at the channels from `offset` on, where those of `extent` channels are merged. -/
def shiftPixels (offset extent : ℕ) (pixels : ℕ → ℕ → Multiset (Option ℚ)) : ℕ → ℕ →
    Multiset (Option ℚ) :=
  fun region channel => if offset ≤ channel ∧ channel < offset + extent
    then pixels region (channel - offset) else 0

/-- Collections shifted one after another are shifted together. -/
theorem sum_shiftPixels (offset extent : ℕ) (l : List (ℕ → ℕ → Multiset (Option ℚ))) :
    (l.map (shiftPixels offset extent)).sum = shiftPixels offset extent l.sum := by
  induction l with
  | nil =>
    funext region channel
    exact (ite_self 0).symm
  | cons pixels l ih =>
    rw [List.map_cons, List.sum_cons, ih, List.sum_cons]
    funext region channel
    simp only [Pi.add_apply, shiftPixels]
    split_ifs <;> rfl

theorem carries_reset (layout : StatisticLayout) (regions channels : ℕ) :
    Carries 0 (reset layout regions channels) :=
  ⟨_, Holds.reset layout regions channels, fun _ _ _ _ => RowTotals.reports_default⟩

namespace Carries

variable {s : StatisticSlots layout regions channels} {pixels : ℕ → ℕ → Multiset (Option ℚ)}

/-- What is carried elsewhere does not matter. -/
theorem congr {pixels' : ℕ → ℕ → Multiset (Option ℚ)} (h : Carries pixels s)
    (heq : ∀ region < regions, ∀ channel < channels,
      pixels region channel = pixels' region channel) :
    Carries pixels' s := by
  obtain ⟨rows, hholds, hreports⟩ := h
  exact ⟨rows, hholds, fun region hregion channel hchannel =>
    heq region hregion channel hchannel ▸ hreports region hregion channel hchannel⟩

/-- **A row that is folded in** brings its pixels. -/
theorem fold (h : Carries pixels s) {region channel : ℕ} (hregion : region < regions)
    (hchannel : channel < channels) {row : RowTotals} {more : Multiset (Option ℚ)}
    (hrow : row.Reports layout.deviations more) :
    Carries (pixels + pixelsAt region channel more) (s.fold region channel row) := by
  obtain ⟨rows, hholds, hreports⟩ := h
  refine ⟨_, hholds.fold hregion hchannel hrow.bounded,
    fun region' hregion' channel' hchannel' => ?_⟩
  have hbefore := hreports region' hregion' channel' hchannel'
  rw [Pi.add_apply, Pi.add_apply, pixelsAt]
  split_ifs
  · rw [RowTotals.foldRows_append_singleton]
    exact hbefore.combine hrow
  · rwa [List.append_nil, add_zero]

/-- **Partials that are merged** bring theirs. -/
theorem mergeInOrder (h : Carries pixels s) {offset extent : ℕ} (hfits : offset + extent ≤ channels)
    {parts : List (StatisticSlots layout regions extent)}
    {partPixels : List (ℕ → ℕ → Multiset (Option ℚ))}
    (hparts : List.Forall₂ Carries partPixels parts) :
    Carries (pixels + (partPixels.map (shiftPixels offset extent)).sum)
      (s.mergeInOrder (parts.map (Sigma.mk extent)) offset) := by
  induction hparts generalizing s pixels with
  | nil => simpa [StatisticSlots.mergeInOrder] using h
  | @cons more part partPixels parts hpart hrest ih =>
    obtain ⟨rows, hholds, hreports⟩ := h
    obtain ⟨partRows, hpartHolds, hpartReports⟩ := hpart
    have hmerged : Carries (pixels + shiftPixels offset extent more)
        (forRange regions (mergeRegion part offset) s) := by
      refine ⟨_, @Holds.mergePart _ _ _ _ _ hholds (⟨extent, part⟩,
        partRows) offset hpartHolds hfits,
        fun region hregion channel hchannel => ?_⟩
      have hbefore := hreports region hregion channel hchannel
      have hrows : mergedRows rows [((⟨extent, part⟩, partRows) : Part layout regions)]
        offset region channel =
          rows region channel ++
            if offset ≤ channel ∧ channel < offset + extent
                then partRows region (channel - offset) else [] := by
        simp [mergedRows]
      rw [hrows, Pi.add_apply, Pi.add_apply, shiftPixels]
      split_ifs with hat
      · rw [RowTotals.foldRows_append (hholds.bounded _ _) (hpartHolds.bounded _ _)]
        exact hbefore.combine (hpartReports region hregion (channel - offset) (by omega))
      · rwa [List.append_nil, add_zero]
    have hall := ih hmerged
    rwa [List.map_cons, List.sum_cons, ← add_assoc]

/-- A hand-over leaves what is carried. -/
theorem settle (h : Carries pixels s) : (s.settle true).settle false = s := by
  obtain ⟨rows, hholds, -⟩ := h
  exact hholds.handOver_eq 0 true 1 fun _ => true

/-- **The block that is handed over** describes what is carried, of the statistics it carries. -/
theorem block_describes (h : Carries pixels s) (firstChannel : ℕ)
    (complete : Bool) (completeness : ℚ)
    {region channel : ℕ} (hregion : region < regions) (hchannel : channel < channels) :
    (((s.settle true).block firstChannel complete completeness).totals region
      channel).Reports layout
      (pixels region channel) := by
  obtain ⟨rows, hholds, hreports⟩ := h
  obtain ⟨described, hdescribes, hreported⟩ := (hreports region hregion channel hchannel).reported
  refine ⟨described, hdescribes, fun statistic => ?_⟩
  have htotals := (hholds.shows firstChannel complete completeness).totals region
    hregion channel hchannel
  dsimp only at htotals
  rw [htotals]
  have hshown : ∀ statistic initial,
    shown layout (RowTotals.foldRows (rows region channel)) statistic initial =
      if statistic ∈ layout.statistics then described.value statistic else initial := by
    intro statistic initial
    unfold shown
    split_ifs with hmem
    · exact hreported statistic hmem
    · rfl
  cases statistic <;> exact hshown _ _

end Carries

end StatisticSlots

end CartaZarr
