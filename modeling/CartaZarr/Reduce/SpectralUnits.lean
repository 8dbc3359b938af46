import CartaZarr.Reduce.FootprintPass
import CartaZarr.Reduce.ReadPixels
import CartaZarr.Reduce.SlotPixels
import Mathlib.Data.Finset.Prod

/-!
# The units of a spectral reduction

A slab is accumulated a unit at a time, one chunk cell of it at one channel: the rows of each region
that touches the cell, a span at a time. A unit brings what each region selects in the cell
(`accumulateUnit_carries`), whatever a region's rows are described by.
-/

namespace CartaZarr

open Word StatisticSlots

/-! ## The model -/

/-- The pixels of one row of a region inside a cell, a span at a time. -/
def rowTotals (deviations : Bool) (row : ℕ → Option ℚ) (strideU uBegin : ℕ)
    (spans : List PlacedRegion.Span) :
    RowTotals :=
  spans.foldl (fun totals span =>
    accumulateSpan deviations (fun offset => row (sub span.first uBegin * strideU + offset)) strideU
      (sub span.last span.first) (span.selected.map fun bytes i =>
        bytes.getD i 0) span.step totals) {}

section Unit

variable {layout : StatisticLayout} {regions channels : ℕ}
  (slab : Slab (Option ℚ)) (uBegin vBegin : ℕ)

/-- The rows of a region inside a cell, each folded once. -/
def accumulateRegion (channel u0 u1 v0 v1 r : ℕ) (region : PlacedRegion)
    (s : StatisticSlots layout regions channels) : StatisticSlots layout regions channels :=
  let rows := region.rowsWithin u0 u1 v0 v1
  (List.range' rows.1 (rows.2 - rows.1)).foldl (fun s y =>
    let row offset := slab.pixel (channel * slab.strideZ + sub y vBegin * slab.strideV + offset)
    s.fold r channel (rowTotals layout.deviations row slab.strideU uBegin
      (region.forEachSpan y u0 u1))) s

variable (occupancy : Occupancy) (plan : PassPlan) (footprint : OccupiedFootprint)

/-- One channel of one chunk cell: the regions that touch the cell. -/
def accumulateUnit (channel cellCv cellCu : ℕ) (s : StatisticSlots layout regions channels) :
    StatisticSlots layout regions channels :=
  let uBegin := footprint.slab.uStart
  let uEnd := add footprint.slab.uStart footprint.slab.uCount
  let vBegin := footprint.slab.vStart
  let vEnd := add footprint.slab.vStart footprint.slab.vCount
  let v0 := max vBegin (mul cellCv plan.chunkV)
  let v1 := min vEnd (mul (add cellCv 1) plan.chunkV)
  let u0 := max uBegin (mul cellCu plan.chunkU)
  let u1 := min uEnd (mul (add cellCu 1) plan.chunkU)
  if v0 ≥ v1 ∨ u0 ≥ u1 then s
  else
    (occupancy.regionsTouching cellCu cellCv).foldl (fun s r =>
      match occupancy.regions[r]? with
      | some region => accumulateRegion slab uBegin vBegin channel u0 u1 v0 v1 r region s
      | none => s) s

end Unit

/-! ## Rows -/

namespace PlacedRegion

/-- The bytes of a span's mask can be numbered. -/
theorem span_step {region : RegionMask} {plane : PlaneExtent} (hfits : region.Fits plane)
    (hplane : plane.Counted) {swapSpatial : Bool} {v u0 u1 : ℕ} {span : Span}
    (hspan : span ∈ (region.place swapSpatial).forEachSpan v u0 u1) {bytes : List UInt8}
    (hselected : span.selected = some bytes) : (span.last - span.first) * span.step < 2 ^ 64 := by
  obtain ⟨-, hfirst, hlast⟩ := forEachSpan_bounds hspan
  rw [hfits.uEnd_eq hplane] at hlast
  have hstep : span.step = (region.place swapSpatial).maskUStride := by
    rw [forEachSpan] at hspan
    split at hspan
    · cases hspan
    split at hspan
    · obtain ⟨run, -, hrun⟩ := List.mem_filterMap.1 hspan
      dsimp only at hrun
      split at hrun
      · obtain rfl := Option.some.inj hrun
        cases hselected
      · cases hrun
    · split at hspan
      · obtain rfl := List.mem_singleton.1 hspan
        cases hselected
      · obtain rfl := List.mem_singleton.1 hspan
        rfl
  have hcount : span.last - span.first ≤ (region.place swapSpatial).uSize := by omega
  have hwidth := hfits.width_le
  have hheight := hfits.height_le
  have hbox : region.width * region.height < 2 ^ 64 :=
    lt_of_le_of_lt (Nat.mul_le_mul (by omega) (by omega)) hplane.pixels_lt
  have hlt := hplane.width_lt
  rw [hstep]
  refine lt_of_le_of_lt (Nat.mul_le_mul_right _ hcount) ?_
  cases swapSpatial
  · simp only [RegionMask.place, Bool.false_eq_true, if_false, mul_one]
    omega
  · simp only [RegionMask.place, if_true]
    rwa [Nat.mul_comm]

end PlacedRegion

/-- What a row has at the pixels of a span. -/
theorem spanSelected_eq {span : PlacedRegion.Span} (hlt : span.first < span.last)
    (hlast : span.last < 2 ^ 64)
    (hstep : ∀ bytes, span.selected = some bytes → (span.last - span.first) * span.step < 2 ^ 64)
    {row f : ℕ → Option ℚ} {strideU uBegin : ℕ} (hbegin : uBegin ≤ span.first)
    (hrow : ∀ u, span.first ≤ u → u < span.last → row ((u - uBegin) * strideU) = f u) :
    spanSelected (fun offset => row (sub span.first uBegin * strideU + offset)) strideU
      (sub span.last span.first)
        (span.selected.map fun bytes i => bytes.getD i 0) span.step = span.pixels.map f := by
  have hfirst : sub span.first uBegin = span.first - uBegin := sub_eq hbegin (by omega)
  have hcount : sub span.last span.first = span.last - span.first := sub_eq hlt.le hlast
  have hpixel : ∀ i < span.last - span.first,
      row (sub span.first uBegin * strideU + i * strideU) = f (span.first + i) := by
    intro i hi
    rw [hfirst, ← Nat.add_mul, ← hrow (span.first + i) (by omega) (by omega)]
    congr 2
    omega
  have hrange : List.range' span.first (span.last - span.first) =
      (List.range (span.last - span.first)).map (span.first + ·) := by
    rw [List.range_eq_range', List.map_add_range', Nat.add_zero]
  rw [hcount, PlacedRegion.Span.pixels, hrange, List.filter_map, List.map_map]
  cases hselected : span.selected with
  | none =>
    have hhas : ∀ k, span.has k = true := fun k => by rw [PlacedRegion.Span.has, hselected]
    have hall : ∀ i ∈ List.range (span.last - span.first),
        (span.has ∘ fun i => span.first + i) i = true :=
      fun i _ => hhas _
    rw [List.filter_eq_self.2 hall, ← List.filterMap_eq_map]
    refine List.filterMap_congr fun i hi => ?_
    rw [if_neg (by simp [skipped])]
    exact congrArg some (hpixel i (List.mem_range.1 hi))
  | some bytes =>
    rw [← List.filterMap_eq_map, List.filterMap_filter]
    refine List.filterMap_congr fun i hi => ?_
    have hi := List.mem_range.1 hi
    have hmul : i * span.step < 2 ^ 64 :=
      lt_of_le_of_lt (Nat.mul_le_mul_right _ hi.le) (hstep bytes hselected)
    have hsub : sub (span.first + i) span.first = i := by
      rw [sub_eq (by omega) (by omega)]
      omega
    have hhas : span.has (span.first + i) = true ↔
        ¬ skipped true (fun i => bytes.getD i 0) span.step i := by
      rw [PlacedRegion.Span.has, hselected]
      dsimp only
      rw [hsub, mul_eq hmul, selects, decide_eq_true_iff]
      simp [skipped]
    simp only [Function.comp_apply]
    by_cases hskip : skipped true (fun i => bytes.getD i 0) span.step i
    · rw [if_pos hskip, if_neg fun h => hhas.1 h hskip]
    · rw [if_neg hskip, if_pos (hhas.2 hskip), hpixel i hi]

/-- **A row of a region** reports the pixels it selects in the window. -/
theorem rowTotals_reports {region : RegionMask} {plane : PlaneExtent} (hfits : region.Fits plane)
    (hplane : plane.Counted) {swapSpatial : Bool} {v : ℕ}
    (hv : (region.place swapSpatial).vStart ≤ v)
    (hv' : v < (region.place swapSpatial).vStart + (region.place swapSpatial).vSize)
    {u0 u1 uBegin strideU : ℕ}
    (hbegin : uBegin ≤ u0) {row f : ℕ → Option ℚ}
    (hrow : ∀ u, u0 ≤ u → u < u1 → row ((u - uBegin) * strideU) = f u) (deviations : Bool) :
    (rowTotals deviations row strideU uBegin
    ((region.place swapSpatial).forEachSpan v u0 u1)).Reports deviations
      (((List.range' u0 (u1 - u0)).filter (region.selectsAt swapSpatial · v)).map f) := by
  have huEnd : (region.place swapSpatial).uEnd = _ := hfits.uEnd_eq hplane
  obtain ⟨hlt, -⟩ : _ ∧ (region.place swapSpatial).vStart + _ < _ := hfits.end_lt hplane
  have hspan : ∀ span ∈ (region.place swapSpatial).forEachSpan v u0 u1, ∀ before totals,
      RowTotals.Reports deviations totals before →
        (accumulateSpan deviations (fun offset =>
          row (sub span.first uBegin * strideU + offset)) strideU
          (sub span.last span.first) (span.selected.map fun bytes i =>
            bytes.getD i 0) span.step totals).Reports
            deviations (before + (span.pixels.map f : List (Option ℚ))) := by
    intro span hmem before totals htotals
    obtain ⟨hne, hfirst, hlast⟩ := PlacedRegion.forEachSpan_bounds hmem
    have hselected := spanSelected_eq hne (by omega) (fun bytes h =>
      PlacedRegion.span_step hfits hplane hmem h)
      (show uBegin ≤ span.first by omega) (fun u hu hu' => hrow u (by omega) (by omega))
    rw [← hselected]
    exact htotals.accumulateSpan _ _ _ _ _
  have hall := @foldl_holds _ _ _ _ (fun before totals =>
    RowTotals.Reports deviations totals before) _ _ _ hspan
    0 {} RowTotals.reports_default
  rw [zero_add, sum_map_coe] at hall
  rwa [← hfits.forEachSpan_pixels hplane hv hv', List.map_flatMap]

/-! ## Cells -/

/-- The pixels of a footprint that leaves none out. -/
theorem SlabFootprint.has_iff_of_whole {footprint : SlabFootprint}
    (h : footprint.uStride = 1 ∧ footprint.vStride = 1) {u v : ℕ} : footprint.Has u v ↔
      footprint.uStart ≤ u ∧ u < footprint.uStart + footprint.uCount ∧
        footprint.vStart ≤ v ∧ v < footprint.vStart + footprint.vCount := by
  unfold SlabFootprint.Has Strided.coord
  rw [h.1, h.2]
  simp only [mul_one]
  constructor
  · rintro ⟨⟨i, hi, rfl⟩, j, hj, rfl⟩
    omega
  · rintro ⟨hu, hu', hv, hv'⟩
    exact ⟨⟨u - footprint.uStart, by omega, by omega⟩, v - footprint.vStart, by omega, by omega⟩

/-- What is selected in a window. -/
def windowPixels (sel : ℕ → ℕ → Bool) (f : ℕ → ℕ → Option ℚ)
    (u0 u1 v0 v1 : ℕ) : Multiset (Option ℚ) :=
  ((Finset.Ico u0 u1 ×ˢ Finset.Ico v0 v1).filter fun p => sel p.1 p.2).val.map fun p => f p.1 p.2

theorem mem_window {sel : ℕ → ℕ → Bool} {u0 u1 v0 v1 : ℕ} {p : ℕ × ℕ} :
    p ∈ (Finset.Ico u0 u1 ×ˢ Finset.Ico v0 v1).filter (fun p => sel p.1 p.2) ↔
      (u0 ≤ p.1 ∧ p.1 < u1 ∧ v0 ≤ p.2 ∧ p.2 < v1) ∧ sel p.1 p.2 = true := by
  simp only [Finset.mem_filter, Finset.mem_product, Finset.mem_Ico, and_assoc]

/-- What is selected in a window is what is selected in its rows, of those where something may
be. -/
theorem sum_rows {sel : ℕ → ℕ → Bool} (f : ℕ → ℕ → Option ℚ) {u0 u1 v0 v1 first last : ℕ}
    (hrows : ∀ u v, sel u v = true → u0 ≤ u → u < u1 → (first ≤ v ∧ v < last ↔ v0 ≤ v ∧ v < v1)) :
    ((List.range' first (last - first)).map fun v =>
      (((List.range' u0 (u1 - u0)).filter (sel · v)).map (f · v) : Multiset (Option ℚ))).sum =
      windowPixels sel f u0 u1 v0 v1 := by
  have hinj : ∀ v : ℕ, Function.Injective fun u : ℕ => (u, v) :=
    fun v a b hab => (Prod.mk.inj hab).1
  have hrow : ∀ v, (((List.range' u0 (u1 - u0)).filter (sel · v)).map (f · v) :
    Multiset (Option ℚ)) =
      (((Finset.Ico u0 u1).filter (sel · v)).map ⟨fun u => (u, v), hinj v⟩).val.map fun p =>
          f p.1 p.2 := by
    intro v
    have hIco : (Finset.Ico u0 u1).val = (List.range' u0 (u1 - u0) : Multiset ℕ) := rfl
    rw [Finset.map_val, Multiset.map_map, Finset.filter_val, hIco,
      Multiset.filter_coe, Multiset.map_coe]
    simp only [Bool.decide_eq_true]
    rfl
  have hmem : ∀ v p, p ∈ ((Finset.Ico u0 u1).filter (sel · v)).map ⟨fun u => (u, v), hinj v⟩ ↔
      (u0 ≤ p.1 ∧ p.1 < u1) ∧ sel p.1 v = true ∧ p.2 = v := by
    intro v p
    simp only [Finset.mem_map, Finset.mem_filter, Finset.mem_Ico, Function.Embedding.coeFn_mk]
    constructor
    · rintro ⟨u, ⟨hu, hsel⟩, rfl⟩
      exact ⟨hu, hsel, rfl⟩
    · rintro ⟨hu, hsel, rfl⟩
      exact ⟨p.1, ⟨hu, hsel⟩, rfl⟩
  simp only [hrow]
  refine sum_val_map ?_ (fun p => ?_) _
  · have hnodup : (List.range' first (last - first)).Nodup := List.nodup_range'
    refine hnodup.imp fun {v v'} hne => Finset.disjoint_left.2 fun p hp hp' => ?_
    exact hne (((hmem v p).1 hp).2.2.symm.trans ((hmem v' p).1 hp').2.2)
  · rw [mem_window]
    simp only [hmem, List.mem_range'_1]
    constructor
    · rintro ⟨⟨hu, hu', hv⟩, hsel⟩
      have := (hrows _ _ hsel hu hu').2 hv
      exact ⟨p.2, by omega, ⟨hu, hu'⟩, hsel, rfl⟩
    · rintro ⟨v, hv, ⟨hu, hu'⟩, hsel, rfl⟩
      exact ⟨⟨hu, hu', (hrows _ _ hsel hu hu').1 (by omega)⟩, hsel⟩

section Unit

variable {layout : StatisticLayout} {regions channels : ℕ} {slab : Slab (Option ℚ)}
  {plane : PlaneExtent}
  (hplane : plane.Counted) {swapSpatial : Bool}

/-- Some pixels at a region and channel, one collection after another. -/
theorem sum_pixelsAt {ι : Type} (region channel : ℕ) (l : List ι)
    (pixels : ι → Multiset (Option ℚ)) :
    (l.map fun i => pixelsAt region channel (pixels i)).sum =
      pixelsAt region channel (l.map pixels).sum := by
  induction l with
  | nil =>
    funext region' channel'
    exact (ite_self 0).symm
  | cons i l ih =>
    rw [List.map_cons, List.sum_cons, ih, List.map_cons, List.sum_cons]
    funext region' channel'
    simp only [Pi.add_apply, pixelsAt]
    split_ifs <;> rfl

include hplane

/-- **The rows of a region in a window** bring what it selects there. -/
theorem accumulateRegion_carries {region : RegionMask} (hfits : region.Fits plane) {r channel : ℕ}
    (hr : r < regions) (hchannel : channel < channels)
    {uBegin vBegin u0 u1 v0 v1 : ℕ} (hu : uBegin ≤ u0)
    (hv : vBegin ≤ v0) {f : ℕ → ℕ → Option ℚ}
    (hpixel : ∀ u, u0 ≤ u → u < u1 → ∀ v, v0 ≤ v → v < v1 → slab.pixel (channel * slab.strideZ +
      (v - vBegin) * slab.strideV + (u - uBegin) * slab.strideU) = f u v)
    {pixels : ℕ → ℕ → Multiset (Option ℚ)} {s : StatisticSlots layout regions channels}
    (h : Carries pixels s) :
    Carries (pixels + pixelsAt r channel
      (windowPixels (region.selectsAt swapSpatial) f u0 u1 v0 v1))
      (accumulateRegion slab uBegin vBegin channel u0 u1 v0 v1 r (region.place swapSpatial) s) := by
  have hshows : (region.place swapSpatial).Shows (region.selectsAt swapSpatial) :=
    hfits.shows hplane
  have hrows := (region.place swapSpatial).rowsWithin_iff u0 u1 v0 v1
  rw [hfits.uEnd_eq hplane, hfits.vEnd_eq hplane] at hrows
  have hvEnd := hshows.vEnd_lt
  unfold accumulateRegion
  dsimp only
  set rows := (region.place swapSpatial).rowsWithin u0 u1 v0 v1
  have hrow : ∀ y ∈ List.range' rows.1 (rows.2 - rows.1), ∀ (pixels : ℕ → ℕ → Multiset (Option ℚ))
      (s : StatisticSlots layout regions channels), Carries pixels s →
      Carries (pixels + pixelsAt r channel
          (((List.range' u0 (u1 - u0)).filter (region.selectsAt swapSpatial · y)).map (f · y)))
        (s.fold r channel (rowTotals layout.deviations
          (fun offset => slab.pixel (channel * slab.strideZ + sub y vBegin * slab.strideV + offset))
            slab.strideU
          uBegin ((region.place swapSpatial).forEachSpan y u0 u1))) := by
    intro y hy pixels s h
    have hy' := List.mem_range'_1.1 hy
    obtain ⟨-, hv₀, hv₁, hstart, hend⟩ := (hrows y).1 ⟨hy'.1, by omega⟩
    refine h.fold hr hchannel (rowTotals_reports hfits hplane hstart hend hu
      (fun u hu₀ hu₁ => ?_) _)
    rw [sub_eq (by omega) (by omega)]
    exact hpixel u hu₀ hu₁ y hv₀ hv₁
  have hall := foldl_holds hrow h
  rw [sum_pixelsAt, @sum_rows (region.selectsAt swapSpatial) f u0 u1 v0
    v1 _ _ fun u v hsel hu₀ hu₁ => ?_] at hall
  · exact hall
  · obtain ⟨hins₁, hins₂, hins₃, hins₄⟩ := hshows.inside u v hsel
    rw [hrows v]
    omega

end Unit

/-! ## Units -/

/-- Which pixels a region selects, by its number among those given. -/
def regionSelects (given : List RegionMask) (swapSpatial : Bool) (r u v : ℕ) : Bool :=
  given[r]?.any fun region => region.selectsAt swapSpatial u v

theorem regionSelects_eq {given : List RegionMask} {r : ℕ} {region : RegionMask}
    (h : given[r]? = some region)
    (swapSpatial : Bool) : regionSelects given swapSpatial r = region.selectsAt swapSpatial := by
  funext u v
  rw [regionSelects, h, Option.any_some]

/-- What is selected of a footprint in a chunk cell. -/
def OccupiedFootprint.cellPixels (footprint : OccupiedFootprint) (chunkU chunkV : ℕ)
    (sel : ℕ → ℕ → Bool)
    (f : ℕ → ℕ → Option ℚ) (cu cv : ℕ) : Multiset (Option ℚ) :=
  windowPixels sel f (max footprint.slab.uStart (cu * chunkU))
    (min (footprint.slab.uStart + footprint.slab.uCount) ((cu + 1) * chunkU))
    (max footprint.slab.vStart (cv * chunkV))
    (min (footprint.slab.vStart + footprint.slab.vCount) ((cv + 1) * chunkV))

/-- What an occupancy says of the chunks of a footprint, when the regions are on a plane. -/
structure Occupancy.Serves (occupancy : Occupancy) (given : List RegionMask) (swapSpatial : Bool)
    (plane : PlaneExtent) (chunkU chunkV : ℕ) (footprint : OccupiedFootprint) : Prop where
  chunkU_pos : 0 < chunkU
  chunkV_pos : 0 < chunkV
  fits : ∀ region ∈ given, region.Fits plane
  regions_eq : occupancy.regions = given.map (RegionMask.place swapSpatial)
  cu_lt : footprint.chunkCuBegin < footprint.chunkCuEnd
  cv_lt : footprint.chunkCvBegin < footprint.chunkCvEnd
  cells_lt : footprint.chunkCells.card < 2 ^ 64
  uEnd_lt : footprint.slab.uStart + footprint.slab.uCount < 2 ^ 64
  vEnd_lt : footprint.slab.vStart + footprint.slab.vCount < 2 ^ 64
  ends : ∀ cu cv, (cu, cv) ∈ footprint.chunkCells → (cu + 1) * chunkU < 2 ^ 64 ∧
    (cv + 1) * chunkV < 2 ^ 64
  ascending : ∀ cu cv, (cu, cv) ∈ footprint.chunkCells →
    (occupancy.regionsTouching cu cv).Pairwise (· < ·)
  touching_iff : ∀ cu cv, (cu, cv) ∈ footprint.chunkCells →
    ∀ r, r ∈ occupancy.regionsTouching cu cv ↔
    ∃ region, given[r]? = some region ∧ Occupies (region.selectsAt swapSpatial) chunkU chunkV cu cv

/-- The chunks that regions reach end below `2 ^ 64` on a plane of up to `2 ^ 63` pixels along each
axis. -/
theorem endBelow_of_le {given : List RegionMask} {plane : PlaneExtent} (hw : plane.width ≤ 2 ^ 63)
    (hh : plane.height ≤ 2 ^ 63) {chunkU chunkV : ℕ} (hu : 0 < chunkU ∧ chunkU < 2 ^ 64)
    (hv : 0 < chunkV ∧ chunkV < 2 ^ 64) (hfits : ∀ region ∈ given, region.Fits plane)
    (swapSpatial : Bool) :
    EndBelow given swapSpatial chunkU chunkV := by
  intro region hregion
  have hfit := hfits region hregion
  have hwidth := hfit.width_le
  have hheight := hfit.height_le
  have hwpos := hfit.width_pos
  have hhpos := hfit.height_pos
  refine ⟨hu.1, hv.1, succ_mul_chunk_lt ?_ hu.2, succ_mul_chunk_lt ?_ hv.2⟩ <;>
    cases swapSpatial <;>
      simp only [RegionMask.place, Bool.false_eq_true, if_false, if_true] <;> omega

/-- **What `Occupancy.of` says** of the chunks of the footprints that `footprints` makes. -/
theorem occupancy_serves {regions : BufferView RegionMask} {plane : PlaneExtent}
    (hplane : plane.Counted)
    (hw : plane.width ≤ 2 ^ 63) (hh : plane.height ≤ 2 ^ 63) {plan : PassPlan}
    (hplan : plan.InRange)
    (hu : plan.chunkU < 2 ^ 64) (hv : plan.chunkV < 2 ^ 64) {axis : AxisRole} {node : String}
    {occupancy : Occupancy}
    (hof : Occupancy.of regions plane plan.chunkU plan.chunkV axis node = some (.ok occupancy))
    (hread : plan.chunksPerRead < 2 ^ 64) {footprints : List OccupiedFootprint}
    (hfootprints : occupancy.footprints plan.chunksPerRead = some footprints) :
    ∃ given, regions.data = some given ∧ (∀ region ∈ given, region.Fits plane) ∧
      occupancy.Partitioned given (axis =
        .spatialY) plan.chunkU plan.chunkV plan.chunksPerRead footprints ∧
      ∀ footprint ∈ footprints, occupancy.Serves given
        (axis = .spatialY) plane plan.chunkU plan.chunkV footprint ∧
        footprint.chunkCells.card ≤ footprint.slab.uCount * footprint.slab.vCount := by
  obtain ⟨given, hgiven, hfits⟩ := Occupancy.fits_of_ok hplane hof
  have hends := endBelow_of_le hw hh ⟨hplan.chunkU_pos, hu⟩ ⟨hplan.chunkV_pos,
    hv⟩ hfits (axis = .spatialY)
  have hmade := Occupancy.of_made hgiven hplane hends.scansEndBelow hof
  have hindex := hmade.isIndex hplane hends.scansEndBelow
  obtain ⟨footprints', hfootprints', hpart⟩ := hmade.partitioned hplane hends hread
  obtain rfl : footprints' = footprints := Option.some.inj (hfootprints'.symm.trans hfootprints)
  refine ⟨given, hgiven, hfits, hpart, fun footprint hf => ?_⟩
  obtain ⟨hu₀, hu₁, hv₀, hv₁⟩ := hpart.in_chunks footprint hf
  obtain ⟨hpos, hpos'⟩ := hpart.nonempty footprint hf
  have hcells : footprint.slab.cells plan = footprint.chunkCells :=
    hpart.slab_cells hf rfl rfl ⟨hplan.chunkU_pos, hplan.chunkV_pos⟩
  have hcard : footprint.chunkCells.card ≤ footprint.slab.uCount * footprint.slab.vCount := by
    rw [← hcells, SlabFootprint.cells, Finset.card_product]
    exact Nat.mul_le_mul (Finset.card_image_le.trans (Nat.card_Ico _ _).le)
      (Finset.card_image_le.trans (Nat.card_Ico _ _).le)
  have hhas : ∀ cu cv, (cu, cv) ∈ footprint.chunkCells → occupancy.grid.Has cu cv := by
    intro cu cv hcell
    obtain ⟨region, hregion, hocc⟩ := (hpart.occupied_iff cu cv).1 ⟨footprint, hf, hcell⟩
    exact hmade.has_of_occupies hplane hends.scansEndBelow hregion hocc
  obtain ⟨hchunks, hone, hle⟩ := hpart.chunks footprint hf
  obtain ⟨⟨cu, cv⟩, hcell⟩ := Finset.card_pos.1 (show 0 < footprint.chunkCells.card by omega)
  obtain ⟨hcu, hcu', hcv, hcv'⟩ := OccupiedFootprint.mem_chunkCells.1 hcell
  obtain ⟨haround, hbox⟩ := hpart.in_box
  obtain ⟨-, huBox, -, hvBox⟩ := hbox footprint hf
  have hplaced : ∀ placed ∈ given.map (RegionMask.place (axis = .spatialY)),
      placed.uStart + placed.uSize < 2 ^ 64 ∧ placed.vStart + placed.vSize < 2 ^ 64 := by
    intro placed hmem
    obtain ⟨region, hregion, rfl⟩ := List.mem_map.1 hmem
    exact (hfits region hregion).end_lt hplane
  refine ⟨⟨hplan.chunkU_pos, hplan.chunkV_pos, hfits,
    hmade.regions_eq, by omega, by omega, by omega, ?_, ?_,
    fun cu cv hcell => ?_, fun cu cv hcell => hindex.ascending cu cv (hhas cu cv hcell),
    fun cu cv hcell => hindex.touching_iff cu cv (hhas cu cv hcell)⟩, hcard⟩
  · obtain ⟨placed, hmem, heq⟩ := haround.u1_mem
    have := (hplaced placed hmem).1
    omega
  · obtain ⟨placed, hmem, heq⟩ := haround.v1_mem
    have := (hplaced placed hmem).2
    omega
  · -- a region selects a pixel of the chunk, and its last chunks end below `2 ^ 64`
    obtain ⟨region, hregion, u, v, hsel, rfl, rfl⟩ :=
      (hpart.occupied_iff cu cv).1 ⟨footprint, hf, hcell⟩
    have hshows : (region.place (axis = .spatialY)).Shows _ := (hfits region hregion).shows hplane
    obtain ⟨-, hin, -, hin'⟩ := hshows.inside u v hsel
    have hend := hends region hregion
    exact ⟨lt_of_le_of_lt (Nat.mul_le_mul_right _
      (Nat.succ_le_succ (Nat.div_le_div_right (by omega)))) hend.u_lt,
      lt_of_le_of_lt (Nat.mul_le_mul_right _
        (Nat.succ_le_succ (Nat.div_le_div_right (by omega)))) hend.v_lt⟩

section Unit

variable {layout : StatisticLayout} {channels : ℕ} {given : List RegionMask}

/-- Pixels at several regions, each once. -/
theorem sum_regions {l : List ℕ} (hnodup : l.Nodup) (channel : ℕ) (pixels : ℕ → Multiset (Option ℚ))
    (hnone : ∀ r ∉ l, pixels r = 0) : (l.map fun r => pixelsAt r channel (pixels r)).sum =
      fun region channel' => if channel' = channel then pixels region else 0 := by
  have hsum : ∀ l : List ℕ, l.Nodup → ∀ region channel',
      (l.map fun r => pixelsAt r channel (pixels r)).sum region channel' =
        if region ∈ l ∧ channel' = channel then pixels region else 0 := by
    intro l hl region channel'
    induction l with
    | nil => simp
    | cons r l ih =>
      obtain ⟨hr, hl⟩ := List.nodup_cons.1 hl
      rw [List.map_cons, List.sum_cons, Pi.add_apply, Pi.add_apply, ih hl, pixelsAt]
      by_cases hregion : region = r
      · subst hregion
        simp [hr]
      · simp [hregion]
  funext region channel'
  rw [hsum l hnodup]
  by_cases hregion : region ∈ l
  · simp [hregion]
  · simp [hregion, hnone region hregion]

/-- **A unit brings what each region selects in its cell.** -/
theorem accumulateUnit_carries {slab : Slab (Option ℚ)} {plane : PlaneExtent}
    (hplane : plane.Counted)
    {swapSpatial : Bool} {occupancy : Occupancy} {plan : PassPlan} {footprint : OccupiedFootprint}
    (hserves : occupancy.Serves given swapSpatial plane plan.chunkU plan.chunkV footprint)
    {channel cu cv : ℕ}
    (hchannel : channel < channels) (hcell : (cu, cv) ∈ footprint.chunkCells) {f : ℕ → ℕ → Option ℚ}
    (hpixel : ∀ i < footprint.slab.uCount, ∀ j < footprint.slab.vCount,
      slab.pixel (channel * slab.strideZ +
      j * slab.strideV + i * slab.strideU) =
        f (footprint.slab.uStart + i) (footprint.slab.vStart + j))
    {pixels : ℕ → ℕ → Multiset (Option ℚ)} {s : StatisticSlots layout given.length channels}
    (h : Carries pixels s) :
    Carries (pixels + fun r channel' => if channel' = channel then
        footprint.cellPixels plan.chunkU plan.chunkV
          (regionSelects given swapSpatial r) f cu cv else 0)
      (accumulateUnit slab occupancy plan footprint channel cv cu s) := by
  obtain ⟨hcu, hcv⟩ := hserves.ends cu cv hcell
  have hends : ∀ {c chunk : ℕ}, 0 < chunk → (c + 1) * chunk < 2 ^ 64 →
      mul c chunk = c * chunk ∧ mul (add c 1) chunk = (c + 1) * chunk := by
    intro c chunk hpos hlt
    have hc : c + 1 < 2 ^ 64 := lt_of_le_of_lt (Nat.le_mul_of_pos_right _ hpos) hlt
    refine ⟨mul_eq (lt_of_le_of_lt (Nat.mul_le_mul_right _ (Nat.le_succ c)) hlt), ?_⟩
    rw [add_eq hc, mul_eq hlt]
  obtain ⟨hcuBegin, hcuEnd⟩ := hends hserves.chunkU_pos hcu
  obtain ⟨hcvBegin, hcvEnd⟩ := hends hserves.chunkV_pos hcv
  unfold accumulateUnit OccupiedFootprint.cellPixels
  dsimp only
  rw [hcuBegin, hcuEnd, hcvBegin, hcvEnd, add_eq hserves.uEnd_lt, add_eq hserves.vEnd_lt]
  set u0 := max footprint.slab.uStart (cu * plan.chunkU)
  set u1 := min (footprint.slab.uStart + footprint.slab.uCount) ((cu + 1) * plan.chunkU)
  set v0 := max footprint.slab.vStart (cv * plan.chunkV)
  set v1 := min (footprint.slab.vStart + footprint.slab.vCount) ((cv + 1) * plan.chunkV)
  by_cases hempty : v0 ≥ v1 ∨ u0 ≥ u1
  · rw [if_pos hempty]
    have hnone : (fun r channel' => if channel' = channel then
        windowPixels (regionSelects given swapSpatial r) f u0 u1 v0 v1 else 0) = 0 := by
      have hwindow : ∀ sel : ℕ → ℕ → Bool, windowPixels sel f u0 u1 v0 v1 = 0 := by
        intro sel
        rcases hempty with hempty | hempty
        · rw [windowPixels, Finset.Ico_eq_empty_of_le hempty, Finset.product_empty]
          rfl
        · rw [windowPixels, Finset.Ico_eq_empty_of_le hempty, Finset.empty_product]
          rfl
      funext r channel'
      rw [hwindow]
      exact ite_self 0
    rwa [hnone, add_zero]
  · rw [if_neg hempty]
    have hregion : ∀ r ∈ occupancy.regionsTouching cu cv, ∀ (pixels : ℕ → ℕ → Multiset (Option ℚ))
        (s : StatisticSlots layout given.length channels), Carries pixels s →
        Carries (pixels + pixelsAt r channel
          (windowPixels (regionSelects given swapSpatial r) f u0 u1 v0 v1))
          (match occupancy.regions[r]? with
            | some region =>
              accumulateRegion slab footprint.slab.uStart footprint.slab.vStart channel u0 u1 v0 v1
                r region s
            | none => s) := by
      intro r hr pixels s h
      obtain ⟨region, hget, -⟩ := (hserves.touching_iff cu cv hcell r).1 hr
      have hplaced : occupancy.regions[r]? = some (region.place swapSpatial) := by
        rw [hserves.regions_eq, List.getElem?_map, hget]
        rfl
      rw [hplaced, regionSelects_eq hget]
      refine accumulateRegion_carries hplane (hserves.fits region (List.mem_of_getElem? hget))
        (List.getElem?_eq_some_iff.1 hget).1 hchannel (le_max_left _ _) (le_max_left _ _)
        (fun u hu hu' v hv hv' => ?_) h
      have hat := hpixel (u - footprint.slab.uStart) (by omega)
        (v - footprint.slab.vStart) (by omega)
      rw [hat]
      congr 1 <;> omega
    have hall := foldl_holds hregion h
    rwa [sum_regions (List.Pairwise.imp (fun h => ne_of_lt h)
      (hserves.ascending cu cv hcell)) channel _
      fun r hr => ?_] at hall
    -- a region that does not touch the cell selects nothing in it
    refine (congrArg _ (congrArg Finset.val
      (Finset.filter_eq_empty_iff.2 fun p hp hsel => hr ?_))).trans rfl
    obtain ⟨region, hget, hsel⟩ := (Option.any_eq_true _ _).1 hsel
    rw [Finset.mem_product, Finset.mem_Ico, Finset.mem_Ico] at hp
    refine (hserves.touching_iff cu cv hcell r).2 ⟨region, hget, p.1, p.2, hsel, ?_, ?_⟩
    · exact Nat.div_eq_of_lt_le (by omega) (by omega)
    · exact Nat.div_eq_of_lt_le (by omega) (by omega)

end Unit

end CartaZarr
