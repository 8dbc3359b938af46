import CartaZarr.Reduce.HandOver

/-!
# The deviations of everything that was put together

Spans of a collection, put together in any order and bracketing, come to its count, its mean and the
sum of its squared deviations: as spreads, as the spans of a row, and as the rows and partials of an
accumulator, which keeps the four numbers of a spread in slots of their own (`spreads_describe`).
-/

namespace CartaZarr

open StatisticSlots

section Slots

variable {layout : StatisticLayout} {regions channels : ℕ}
  {s : StatisticSlots layout regions channels}

/-- What the slots of an accumulator keep of a spread describes the numbers of all its rows. -/
theorem StatisticSlots.Built.readSpread_describes (hdev : layout.deviations = true)
    {parts : ℕ → ℕ → List (RowTotals × Multiset ℚ)}
    (h : Built s fun region channel => (parts region channel).map Prod.fst) {region channel : ℕ}
    (hregion : region < regions) (hchannel : channel < channels)
    (hparts : ∀ part ∈ parts region channel, part.1.spread.Describes part.2) :
    ∃ spread : Spread ℚ, s.readSpread region channel = spread.finite ∧
      spread.Describes ((parts region channel).map Prod.snd).sum :=
  ⟨_, (h.holds.keeps region hregion channel hchannel).readSpread hdev,
    RowTotals.foldRows_describes hparts⟩

end Slots

/-- **Spans come to the deviations of all their numbers**, in whatever order and bracketing they are
put together: as spreads, in the totals of a row, and in the slots of an accumulator. -/
theorem spreads_describe :
    (∀ spans : Spreads, spans.spread.Describes spans.values ∧ 0 ≤ spans.spread.sumSqDev) ∧
    (∀ (pixels : ℕ → Option ℚ) (stride count : ℕ) (selected : Option (ℕ → UInt8)) (maskStep : ℕ)
      (totals : RowTotals) (values : Multiset ℚ), totals.spread.Describes values →
      (accumulateSpan true pixels stride count selected maskStep totals).spread.Describes
        (values + spanPixels pixels stride count selected maskStep)) ∧
    ∀ (layout : StatisticLayout) (regions channels : ℕ) (s : StatisticSlots layout regions channels)
      (parts : ℕ → ℕ → List (RowTotals × Multiset ℚ)), layout.deviations = true →
      Built s (fun region channel => (parts region channel).map Prod.fst) →
      (∀ region channel, ∀ part ∈ parts region channel, part.1.spread.Describes part.2) →
      ∀ region < regions, ∀ channel < channels, ∃ spread : Spread ℚ,
        s.readSpread region channel = spread.finite ∧
          spread.Describes ((parts region channel).map Prod.snd).sum := by
  refine ⟨fun spans => ⟨spans.describes, ?_⟩, fun pixels stride count selected maskStep _ _ h =>
    accumulateSpan_describes stride count pixels selected maskStep h,
    fun _ _ _ _ _ hdev h hparts region hregion channel hchannel =>
      h.readSpread_describes hdev hregion hchannel (hparts region channel)⟩
  rw [spans.describes.sumSqDev_eq]
  exact Moments.sumSqDev_nonneg _

/-- A span beside a row, and the last rows of two regions, of which one was folded and two were
merged. -/
theorem spreads_describe_twoRegions :
    (accumulateSpan true (fun i => [some 4, none, some 8].getD i none) 1 3 none 1
        (.pixelRow [some 1, none, some 2, some 6])).spread.Describes {1, 2, 6, 4, 8} ∧
      ∃ spread : Spread ℚ, twoRegions.readSpread 1 1 = spread.finite ∧
        spread.Describes {1, 2, 6, 3, 7} := by
  refine ⟨spreads_describe.2.1 _ 1 3 none 1 _ _ (RowTotals.pixelRow_describes _), ?_⟩
  let rows : List (ℕ × ℕ × List (Option ℚ)) := [(0, 0, [some 5]),
    (1, 1, [some 1, none, some 2, some 6]), (1, 1, [some 3, some 7]), (1, 1, [none])]
  let parts : ℕ → ℕ → List (RowTotals × Multiset ℚ) :=
      fun region channel => rows.filterMap fun row =>
    if region = row.1 ∧ channel = row.2.1 then
      some (.pixelRow row.2.2, (row.2.2.filterMap id : List ℚ))
    else none
  have hrows : (fun region channel => (parts region channel).map Prod.fst) =
      rowsAt twoRegionEntries := by
    have hentries : twoRegionEntries = rows.map fun row =>
      (row.1, row.2.1, .pixelRow row.2.2) := rfl
    funext region channel
    rw [hentries, rowsAt, List.filterMap_map, List.map_filterMap]
    refine List.filterMap_congr fun row _ => ?_
    simp only [Function.comp_apply]
    split_ifs <;> rfl
  have hparts : ∀ region channel, ∀ part ∈ parts region channel,
      part.1.spread.Describes part.2 := by
    intro region channel part hpart
    obtain ⟨row, -, hrow⟩ := List.mem_filterMap.1 hpart
    split_ifs at hrow
    rw [← Option.some.inj hrow]
    exact RowTotals.pixelRow_describes _
  exact spreads_describe.2.2 _ 2 2 _ parts (by decide)
    (hrows ▸ twoRegions_built) hparts 1 (by decide) 1
    (by decide)

end CartaZarr
