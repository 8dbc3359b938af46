import CartaZarr.Foundations.Extrema
import CartaZarr.Reduce.StatisticSlots

/-!
# What totals say of a collection of pixels

The totals of a row are those of the pixels its spans selected (`accumulateSpan_totalsOf`), whatever
the order the spans come in and however the totals of several are put together
(`RowTotals.TotalsOf.combine`). What is reported of a collection of pixels is
`SpectralTotals.Describes`: how many of them are finite and how many are not, and the sums, the
extrema and the squared deviations of the finite ones. Two reports of one collection are the same.
-/

namespace CartaZarr

open Extended

/-- The numbers among some pixels. -/
def finitePixels (pixels : Multiset (Option ℚ)) : Multiset ℚ := pixels.filterMap id

@[simp] theorem finitePixels_zero : finitePixels 0 = 0 := rfl

theorem finitePixels_add (pixels others : Multiset (Option ℚ)) :
    finitePixels (pixels + others) = finitePixels pixels + finitePixels others :=
  Multiset.filterMap_add _ _ _

@[simp] theorem finitePixels_none : finitePixels {none} = 0 := rfl

@[simp] theorem finitePixels_some (v : ℚ) : finitePixels {some v} = {v} := rfl

/-- A pixel is finite or it is not. -/
theorem card_finitePixels (pixels : Multiset (Option ℚ)) :
    (finitePixels pixels).card + pixels.count none = pixels.card := by
  induction pixels using Multiset.induction with
  | empty => rfl
  | cons pixel pixels ih =>
    rw [← Multiset.singleton_add, finitePixels_add, Multiset.card_add,
      Multiset.card_add, Multiset.count_add,
      Multiset.card_singleton]
    cases pixel with
    | none =>
      rw [finitePixels_none, Multiset.card_zero, Multiset.count_singleton_self]
      omega
    | some v =>
      rw [finitePixels_some, Multiset.card_singleton, Multiset.count_singleton, if_neg (by simp)]
      omega

/-! ## Rows -/

/-- The totals of a row are those of some pixels. -/
structure RowTotals.TotalsOf (totals : RowTotals) (pixels : Multiset (Option ℚ)) : Prop where
  good_eq : totals.good = (finitePixels pixels).card
  bad_eq : totals.bad = pixels.count none
  sum_eq : totals.sum = (finitePixels pixels).sum
  sumSq_eq : totals.sumSq = ((finitePixels pixels).map fun v => v * v).sum
  smallest_eq : totals.smallest = least (finitePixels pixels)
  largest_eq : totals.largest = greatest (finitePixels pixels)

namespace RowTotals

theorem totalsOf_default : TotalsOf {} 0 := ⟨rfl, rfl, rfl, rfl, rfl, rfl⟩

/-- **Totals put together are those of both collections.** -/
theorem TotalsOf.combine {totals other : RowTotals} {pixels others : Multiset (Option ℚ)}
    (h : totals.TotalsOf pixels) (h' : other.TotalsOf others) :
    (totals.combine other).TotalsOf (pixels + others) where
  good_eq := by
    rw [finitePixels_add, Multiset.card_add, ← h.good_eq, ← h'.good_eq]
    rfl
  bad_eq := by
    rw [Multiset.count_add, ← h.bad_eq, ← h'.bad_eq]
    rfl
  sum_eq := by
    rw [finitePixels_add, Multiset.sum_add, ← h.sum_eq, ← h'.sum_eq]
    rfl
  sumSq_eq := by
    rw [finitePixels_add, Multiset.map_add, Multiset.sum_add, ← h.sumSq_eq, ← h'.sumSq_eq]
    rfl
  smallest_eq := by
    rw [finitePixels_add, least_add, ← h.smallest_eq, ← h'.smallest_eq]
    rfl
  largest_eq := by
    rw [finitePixels_add, greatest_add, ← h.largest_eq, ← h'.largest_eq]
    rfl

/-- A pixel that is not finite joins. -/
theorem TotalsOf.concat_none {totals : RowTotals} {pixels : Multiset (Option ℚ)}
    (h : totals.TotalsOf pixels) :
    { totals with bad := totals.bad + 1 }.TotalsOf (pixels + {none}) := by
  have hfinite : finitePixels (pixels + {none}) = finitePixels pixels := by
    rw [finitePixels_add, finitePixels_none, add_zero]
  refine ⟨?_, ?_, ?_, ?_, ?_, ?_⟩ <;> try rw [hfinite]
  · exact h.good_eq
  · rw [Multiset.count_add, ← h.bad_eq, Multiset.count_singleton_self]
  · exact h.sum_eq
  · exact h.sumSq_eq
  · exact h.smallest_eq
  · exact h.largest_eq

/-- A finite pixel joins. -/
theorem TotalsOf.concat_some {totals : RowTotals} {pixels : Multiset (Option ℚ)}
    (h : totals.TotalsOf pixels)
    (v : ℚ) :
    { totals with
      good := totals.good + 1
      sum := totals.sum + v
      sumSq := totals.sumSq + v * v
      smallest := Extended.min totals.smallest (.finite v)
      largest := Extended.max totals.largest (.finite v) }.TotalsOf (pixels + {some v}) := by
  have hfinite : finitePixels (pixels + {some v}) = finitePixels pixels + {v} := by
    rw [finitePixels_add, finitePixels_some]
  refine ⟨?_, ?_, ?_, ?_, ?_, ?_⟩ <;> try rw [hfinite]
  · rw [Multiset.card_add, ← h.good_eq, Multiset.card_singleton]
  · rw [Multiset.count_add, ← h.bad_eq, Multiset.count_singleton, if_neg (by simp), add_zero]
  · rw [Multiset.sum_add, ← h.sum_eq, Multiset.sum_singleton]
  · rw [Multiset.map_add, Multiset.sum_add, ← h.sumSq_eq, Multiset.map_singleton,
      Multiset.sum_singleton]
  · rw [least_add, ← h.smallest_eq, least_singleton]
  · rw [greatest_add, ← h.largest_eq, greatest_singleton]

end RowTotals

/-! ## Spans -/

section Span

variable (masked : Bool) (row : ℕ → Option ℚ) (stride count : ℕ) (selected : ℕ →
  UInt8) (maskStride : ℕ)

/-- The pixels of a span that the loop does not pass over. -/
def selectedPixels : List (Option ℚ) :=
  (List.range count).filterMap fun i =>
    if skipped masked selected maskStride i then none else some (row (i * stride))

/-- What the loop has counted is of the pixels it has come past. -/
structure SpanTotals.TotalsOf (totals : SpanTotals) (pixels : Multiset (Option ℚ)) : Prop where
  good_eq : totals.good = (finitePixels pixels).card
  selectedCount_eq : totals.selectedCount = pixels.card
  sum_eq : totals.sum = (finitePixels pixels).sum
  sumSq_eq : totals.sumSq = ((finitePixels pixels).map fun v => v * v).sum
  smallest_eq : totals.smallest = least (finitePixels pixels)
  largest_eq : totals.largest = greatest (finitePixels pixels)

theorem SpanTotals.TotalsOf.take {shift : ℚ} {totals : SpanTotals} {pixels : Multiset (Option ℚ)}
    (h : totals.TotalsOf pixels) (value : Option ℚ) :
    (totals.take shift value).TotalsOf (pixels + {value}) := by
  have hfinite := finitePixels_add pixels {value}
  refine ⟨?_, ?_, ?_, ?_, ?_, ?_⟩
  · rw [hfinite, Multiset.card_add, ← h.good_eq]
    cases value <;> rfl
  · rw [Multiset.card_add, ← h.selectedCount_eq]
    rfl
  · rw [hfinite, Multiset.sum_add, ← h.sum_eq]
    cases value <;> simp [SpanTotals.take]
  · rw [hfinite, Multiset.map_add, Multiset.sum_add, ← h.sumSq_eq]
    cases value <;> simp [SpanTotals.take]
  · rw [hfinite, least_add, ← h.smallest_eq]
    cases value <;> simp [SpanTotals.take]
  · rw [hfinite, greatest_add, ← h.largest_eq]
    cases value <;> simp [SpanTotals.take]

/-- The loop counts the pixels of its span. -/
theorem spanTotals_totalsOf (shift : ℚ) :
    (spanTotals masked row stride count selected maskStride shift).TotalsOf
      (selectedPixels masked row stride count selected maskStride) := by
  unfold spanTotals selectedPixels
  induction count with
  | zero => exact ⟨rfl, rfl, rfl, rfl, rfl, rfl⟩
  | succ count ih =>
    rw [List.range_succ, List.foldl_concat, List.filterMap_append]
    by_cases hskip : skipped masked selected maskStride count
    · simpa [hskip] using ih
    · rw [if_neg hskip]
      simpa [hskip, ← Multiset.coe_add] using ih.take (row (count * stride))

theorem accumulateRow_totalsOf (deviations : Bool) {totals : RowTotals}
    {pixels : Multiset (Option ℚ)}
    (h : totals.TotalsOf pixels) :
    (accumulateRow masked deviations row stride count selected maskStride totals).TotalsOf
      (pixels + selectedPixels masked row stride count selected maskStride) := by
  set shift := if deviations then deviationShift masked row stride count selected maskStride
    else 0 with hshift
  have hspan := spanTotals_totalsOf masked row stride count selected maskStride shift
  set span := spanTotals masked row stride count selected maskStride shift with hdef
  set more := Multiset.ofList (selectedPixels masked row stride count selected maskStride)
  have hbad : span.selectedCount - span.good = more.count none := by
    have hcard := card_finitePixels more
    rw [hspan.selectedCount_eq, hspan.good_eq]
    omega
  refine ⟨?_, ?_, ?_, ?_, ?_, ?_⟩
  · rw [finitePixels_add, Multiset.card_add, ← h.good_eq, ← hspan.good_eq]
    rfl
  · rw [Multiset.count_add, ← h.bad_eq, ← hbad]
    rfl
  · rw [finitePixels_add, Multiset.sum_add, ← h.sum_eq, ← hspan.sum_eq]
    rfl
  · rw [finitePixels_add, Multiset.map_add, Multiset.sum_add, ← h.sumSq_eq, ← hspan.sumSq_eq]
    rfl
  · rw [finitePixels_add, least_add, ← h.smallest_eq, ← hspan.smallest_eq]
    rfl
  · rw [finitePixels_add, greatest_add, ← h.largest_eq, ← hspan.largest_eq]
    rfl

end Span

/-- The pixels of a span, by the mask it has. -/
def spanSelected (pixels : ℕ → Option ℚ) (stride count : ℕ) (selected : Option (ℕ → UInt8))
    (maskStep : ℕ) : List (Option ℚ) :=
  match selected with
  | none => selectedPixels false pixels stride count (fun _ => 0) 1
  | some selected => selectedPixels true pixels stride count selected maskStep

/-- **A span's pixels join those its row's totals are of.** -/
theorem accumulateSpan_totalsOf (deviations : Bool) (pixels : ℕ → Option ℚ) (stride count : ℕ)
    (selected : Option (ℕ → UInt8)) (maskStep : ℕ) {totals : RowTotals}
    {before : Multiset (Option ℚ)}
    (h : totals.TotalsOf before) :
    (accumulateSpan deviations pixels stride count selected maskStep totals).TotalsOf
      (before + spanSelected pixels stride count selected maskStep) := by
  cases selected with
  | none => exact accumulateRow_totalsOf false pixels stride count (fun _ => 0) 1 deviations h
  | some selected =>
    exact accumulateRow_totalsOf true pixels stride count selected maskStep deviations h

/-! ## Reports -/

/-- What is reported of a collection of pixels. -/
structure SpectralTotals.Describes (totals : SpectralTotals)
    (pixels : Multiset (Option ℚ)) : Prop where
  numPixels_eq : totals.numPixels = .finite (finitePixels pixels).card
  nanCount_eq : totals.nanCount = .finite (pixels.count none)
  sum_eq : totals.sum = .finite (finitePixels pixels).sum
  sumSq_eq : totals.sumSq = .finite ((finitePixels pixels).map fun v => v * v).sum
  min_of_none : finitePixels pixels = 0 → totals.min = .nan
  min_eq : ∀ m, IsLeast {v | v ∈ finitePixels pixels} m → totals.min = .finite m
  max_of_none : finitePixels pixels = 0 → totals.max = .nan
  max_eq : ∀ m, IsGreatest {v | v ∈ finitePixels pixels} m → totals.max = .finite m
  sumSqDev_eq : totals.sumSqDev = .finite (Moments.sumSqDev (finitePixels pixels))

/-- **Two reports of one collection are the same.** -/
theorem SpectralTotals.Describes.unique {totals totals' : SpectralTotals}
    {pixels : Multiset (Option ℚ)}
    (h : totals.Describes pixels) (h' : totals'.Describes pixels) : totals = totals' := by
  have hextrema : totals.min = totals'.min ∧ totals.max = totals'.max := by
    rcases eq_or_ne (finitePixels pixels) 0 with hnone | hsome
    · rw [h.min_of_none hnone, h'.min_of_none hnone, h.max_of_none hnone, h'.max_of_none hnone]
      exact ⟨rfl, rfl⟩
    · obtain ⟨⟨m, hm⟩, ⟨M, hM⟩⟩ := exists_extrema hsome
      rw [h.min_eq m hm, h'.min_eq m hm, h.max_eq M hM, h'.max_eq M hM]
      exact ⟨rfl, rfl⟩
  have hfields : ∀ t : SpectralTotals,
      t = ⟨t.numPixels, t.nanCount, t.sum, t.sumSq, t.min, t.max, t.sumSqDev⟩ := fun _ => rfl
  rw [hfields totals, hfields totals', hextrema.1, hextrema.2, h.numPixels_eq,
    h'.numPixels_eq, h.nanCount_eq,
    h'.nanCount_eq, h.sum_eq, h'.sum_eq, h.sumSq_eq, h'.sumSq_eq, h.sumSqDev_eq, h'.sumSqDev_eq]

end CartaZarr
