import CartaZarr.Reduce.Footprints
import CartaZarr.Reduce.PassProgress

/-!
# A pass over the footprints of a region set

The footprints that `Occupancy.footprints` makes are rectangles of chunks that the regions occupy,
and what a pass reads of one is a rectangle of pixels that touches those chunks and no others
(`slab_cells`). So a pass over them reads each occupied chunk once, and no other
(`footprintPass_apart`, `footprintPass_cells_iff`).
-/

namespace CartaZarr

open Word

instance : HasSlab OccupiedFootprint := ⟨OccupiedFootprint.slab⟩

/-- Regions on a plane with axes below `2 ^ 31`, in chunks below `2 ^ 31`, end below `2 ^ 64`. -/
theorem endBelow_of_small {given : List RegionMask} {plane : PlaneExtent}
    (hw : plane.width < 2 ^ 31)
    (hh : plane.height < 2 ^ 31) {chunkU chunkV : ℕ} (hu : 0 < chunkU ∧ chunkU < 2 ^ 31)
    (hv : 0 < chunkV ∧ chunkV < 2 ^ 31) (hfits : ∀ region ∈ given, region.Fits plane)
    (swapSpatial : Bool) :
    EndBelow given swapSpatial chunkU chunkV := by
  -- a chunk ends no more than its own extent after a pixel of it
  have hend : ∀ {x chunk : ℕ}, x < 2 ^ 31 → chunk < 2 ^ 31 → (x / chunk + 1) * chunk < 2 ^ 64 := by
    intro x chunk hx hchunk
    have := Nat.div_mul_le_self x chunk
    rw [Nat.add_mul, one_mul]
    omega
  intro region hregion
  have hfit := hfits region hregion
  have hwidth := hfit.width_le
  have hheight := hfit.height_le
  refine ⟨hu.1, hv.1, hend ?_ hu.2, hend ?_ hv.2⟩ <;>
    cases swapSpatial <;>
      simp only [RegionMask.place, Bool.false_eq_true, if_false, if_true] <;> omega

/-- Regions that an occupancy was made of are on the plane. -/
theorem Occupancy.fits_of_ok {regions : BufferView RegionMask} {plane : PlaneExtent}
    (hplane : plane.Counted)
    {chunkU chunkV : ℕ} {axis : AxisRole} {node : String} {occupancy : Occupancy}
    (h : Occupancy.of regions plane chunkU chunkV axis node = some (.ok occupancy)) :
    ∃ given, regions.data = some given ∧ ∀ region ∈ given, region.Fits plane := by
  rw [Occupancy.of] at h
  cases hgiven : regions.data with
  | none =>
    rw [hgiven] at h
    cases h
  | some given =>
    rw [hgiven] at h
    simp only at h
    split at h
    · cases h
    split at h
    · cases h
    split at h
    · cases h
    · rename_i hplaceable
      exact ⟨given, rfl, placeableAll_fits hplane hplaceable⟩

/-- The footprints of regions on a plane with axes below `2 ^ 31`, in chunks below `2 ^ 31`. -/
theorem partitioned_of_small {regions : BufferView RegionMask} {plane : PlaneExtent}
    (hw : plane.width < 2 ^ 31)
    (hh : plane.height < 2 ^ 31) {chunkU chunkV : ℕ} (hu : 0 < chunkU ∧ chunkU < 2 ^ 31)
    (hv : 0 < chunkV ∧ chunkV < 2 ^ 31) {axis : AxisRole} {node : String} {occupancy : Occupancy}
    (hof : Occupancy.of regions plane chunkU chunkV axis node = some (.ok occupancy))
    {chunksPerRead : ℕ}
    (hread : chunksPerRead < 2 ^ 64) {footprints : List OccupiedFootprint}
    (hfootprints : occupancy.footprints chunksPerRead = some footprints) :
    ∃ given, regions.data = some given ∧
      occupancy.Partitioned given (axis = .spatialY) chunkU chunkV chunksPerRead footprints := by
  have hplane : plane.Counted :=
    ⟨by omega, by omega, lt_of_lt_of_le (Nat.mul_lt_mul'' hw hh) (by norm_num)⟩
  obtain ⟨given, hgiven, hfits⟩ := Occupancy.fits_of_ok hplane hof
  have hends := endBelow_of_small hw hh hu hv hfits (decide (axis = .spatialY))
  obtain ⟨footprints', hfootprints', hpart⟩ :=
    (Occupancy.of_made hgiven hplane hends.scansEndBelow hof).partitioned hplane hends hread
  obtain rfl : footprints' = footprints := Option.some.inj (hfootprints'.symm.trans hfootprints)
  exact ⟨given, hgiven, hpart⟩

namespace Occupancy.Partitioned

variable {occupancy : Occupancy} {given : List RegionMask} {swapSpatial : Bool}
  {chunkU chunkV chunksPerRead : ℕ} {footprints : List OccupiedFootprint}
  (h : occupancy.Partitioned given swapSpatial chunkU chunkV chunksPerRead footprints)
include h

/-- A chunk of a footprint holds a pixel of it that a region selects. -/
theorem exists_selected {footprint : OccupiedFootprint} (hf : footprint ∈ footprints) {cu cv : ℕ}
    (hcell : (cu, cv) ∈ footprint.chunkCells) :
    ∃ u v, u / chunkU = cu ∧ v / chunkV = cv ∧ footprint.slab.Has u v ∧
      ∃ region ∈ given, region.selectsAt swapSpatial u v = true := by
  obtain ⟨region, hregion, u, v, hsel, hu, hv⟩ := (h.occupied_iff cu cv).1 ⟨footprint, hf, hcell⟩
  rw [← hu, ← hv] at hcell
  obtain ⟨h₁, h₂, h₃, h₄⟩ := h.reads footprint hf region hregion u v hsel hcell
  obtain ⟨hus, hvs⟩ := h.strides footprint hf
  refine ⟨u, v, hu, hv, ⟨⟨u - footprint.slab.uStart, by omega, ?_⟩,
    v - footprint.slab.vStart, by omega, ?_⟩,
    region, hregion, hsel⟩
  · rw [hus, Strided.coord]
    omega
  · rw [hvs, Strided.coord]
    omega

/-- **A footprint's slab touches the chunks of the footprint**, and no others. -/
theorem slab_cells {footprint : OccupiedFootprint} (hf : footprint ∈ footprints) {plan : PassPlan}
    (hu : plan.chunkU = chunkU) (hv : plan.chunkV = chunkV) (hpos : 0 < chunkU ∧ 0 < chunkV) :
    footprint.slab.cells plan = footprint.chunkCells := by
  obtain ⟨hus, hvs⟩ := h.strides footprint hf
  obtain ⟨h₁, h₂, h₃, h₄⟩ := h.in_chunks footprint hf
  ext ⟨cu, cv⟩
  rw [SlabFootprint.mem_cells, hu, hv]
  constructor
  · rintro ⟨u, v, ⟨⟨i, hi, rfl⟩, j, hj, rfl⟩, rfl, rfl⟩
    rw [hus, hvs]
    simp only [Strided.coord, mul_one]
    rw [OccupiedFootprint.mem_chunkCells, Nat.le_div_iff_mul_le hpos.1,
      Nat.div_lt_iff_lt_mul hpos.1,
      Nat.le_div_iff_mul_le hpos.2, Nat.div_lt_iff_lt_mul hpos.2]
    omega
  · intro hcell
    obtain ⟨u, v, hu, hv, hhas, -⟩ := h.exists_selected hf hcell
    exact ⟨u, v, hhas, hu, hv⟩

end Occupancy.Partitioned

section Pass

variable {ω α : Type} {walk : SlabWalk ω α} {occupancy : Occupancy} {given : List RegionMask}
  {swapSpatial : Bool} {chunksPerRead : ℕ} {footprints : List OccupiedFootprint}
  (h : occupancy.Partitioned given swapSpatial walk.plan.chunkU
    walk.plan.chunkV chunksPerRead footprints)
  (hplan : walk.plan.InRange) (cancelled : String)
include h hplan

/-- A footprint of the pass is one of the occupancy's. -/
theorem mem_footprintPass {f : Option OccupiedFootprint × SlabFootprint}
    (hf : f ∈ (passOverFootprints walk footprints cancelled).footprints) :
    ∃ footprint ∈ footprints, f = (some footprint, footprint.slab) ∧
      f.2.cells walk.plan = footprint.chunkCells := by
  obtain ⟨footprint, hfootprint, rfl⟩ := List.mem_map.1 hf
  exact ⟨footprint, hfootprint, rfl,
    h.slab_cells hfootprint rfl rfl ⟨hplan.chunkU_pos, hplan.chunkV_pos⟩⟩

/-- **The footprints of the pass have no chunk in common.** -/
theorem footprintPass_apart : (passOverFootprints walk footprints cancelled).Apart := by
  refine List.pairwise_map.2 (h.disjoint.imp_of_mem fun {a b} ha hb hdisjoint => ?_)
  have hcells : ∀ footprint ∈ footprints, footprint.slab.cells walk.plan = footprint.chunkCells :=
    fun footprint hf => h.slab_cells hf rfl rfl ⟨hplan.chunkU_pos, hplan.chunkV_pos⟩
  change Disjoint (a.slab.cells walk.plan) (b.slab.cells walk.plan)
  rwa [hcells a ha, hcells b hb]

/-- The chunks of the pass are those that a region occupies. -/
theorem footprintPass_cells_iff {cu cv : ℕ} :
    (∃ f ∈ (passOverFootprints walk footprints cancelled).footprints,
    (cu, cv) ∈ f.2.cells walk.plan) ↔
      ∃ region ∈ given, Occupies (region.selectsAt swapSpatial) walk.plan.chunkU
        walk.plan.chunkV cu cv := by
  rw [← h.occupied_iff]
  constructor
  · rintro ⟨f, hf, hcell⟩
    obtain ⟨footprint, hfootprint, -, hcells⟩ := mem_footprintPass h hplan cancelled hf
    exact ⟨footprint, hfootprint, hcells ▸ hcell⟩
  · rintro ⟨footprint, hfootprint, hcell⟩
    refine ⟨(some footprint, footprint.slab), List.mem_map_of_mem hfootprint, ?_⟩
    rwa [h.slab_cells hfootprint rfl rfl ⟨hplan.chunkU_pos, hplan.chunkV_pos⟩]

end Pass

end CartaZarr
