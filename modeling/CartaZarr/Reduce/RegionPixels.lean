import CartaZarr.Reduce.SpectralUnits

/-!
# The pixels of regions

A pass over the footprints of some regions reads inside the plane (`footprintReads_occupied`), and
what a region selects of the reads of a block, at a channel of it, is what the region selects of the
plane (`pixelsOf_region`): each pixel once, whichever of the plane's axes is walked first.
-/

namespace CartaZarr

open Word

/-- The pixels that a region selects of a plane of the image, at a channel of the selection. -/
def PixelSource.regionPixels {ω α : Type} [Pixel α] (source : PixelSource ω α) (applyMask : Bool)
    (d : ImageDescriptor) (map : AxisMap) (planes : PlaneSelection)
    (region : RegionMask) (channel : ℕ) :
    Multiset α :=
  source.pixelsAt applyMask d map planes (fun p => region.selects p.1 p.2 = true) channel

/-- The plane of a plan. -/
def PassPlan.plane (plan : PassPlan) : PlaneExtent :=
  ⟨plan.descriptor.length plan.map.x, plan.descriptor.length plan.map.y⟩

/-- The plane on the axes of the walk. -/
theorem PassPlan.Placed.lengths {plan : PassPlan} (hp : plan.Placed) :
    plan.uLength = (if plan.swapsSpatial then plan.plane.height else plan.plane.width) ∧
      plan.vLength = if plan.swapsSpatial then plan.plane.width else plan.plane.height := by
  obtain ⟨hu, hv⟩ := hp.lengths_eq
  rw [hu, hv, plane]
  split_ifs <;> exact ⟨rfl, rfl⟩

namespace RegionMask

variable {region : RegionMask} {plan : PassPlan}

/-- The box of a region of the plane ends on the plane. -/
theorem Fits.box_le (hfits : region.Fits plan.plane) (hp : plan.Placed) :
    (region.place plan.swapsSpatial).uStart +
      (region.place plan.swapsSpatial).uSize ≤ plan.uLength ∧
      (region.place plan.swapsSpatial).vStart +
        (region.place plan.swapsSpatial).vSize ≤ plan.vLength := by
  have hw := hfits.width_le
  have hh := hfits.height_le
  obtain ⟨hu, hv⟩ := hp.lengths
  rw [hu, hv]
  cases plan.swapsSpatial <;> simp only [place, Bool.false_eq_true, if_false, if_true]
    <;> exact ⟨by omega, by omega⟩

/-- A pixel that a region selects is on the plane. -/
theorem Fits.selectsAt_lt (hfits : region.Fits plan.plane) (hp : plan.Placed)
    (hplane : plan.plane.Counted)
    {u v : ℕ} (hsel : region.selectsAt plan.swapsSpatial u v = true) : u < plan.uLength ∧
    v < plan.vLength := by
  have hshows : (region.place plan.swapsSpatial).Shows _ := hfits.shows hplane
  obtain ⟨-, hu, -, hv⟩ := hshows.inside u v hsel
  obtain ⟨hu', hv'⟩ := hfits.box_le hp
  exact ⟨by omega, by omega⟩

end RegionMask

/-- A read of a block, of one of some footprints. -/
structure SlabRead.Occupied (plan : PassPlan)
    (footprints : List OccupiedFootprint) (first length : ℕ)
    (read : SlabRead OccupiedFootprint) : Prop where
  fits : read.Fits plan first length
  footprint : ∃ footprint ∈ footprints, read.footprint = some footprint ∧ read.slab = footprint.slab

section Pass

variable {ω α : Type} [Pixel α] {walk : SlabWalk ω α} {occupancy : Occupancy}
  {given : List RegionMask}
  {footprints : List OccupiedFootprint}
  (hpart : occupancy.Partitioned given walk.plan.swapsSpatial walk.plan.chunkU walk.plan.chunkV
    walk.plan.chunksPerRead footprints)
  (hfits : ∀ region ∈ given, region.Fits walk.plan.plane) (hp : walk.plan.Placed)
    (h : walk.plan.InRange)
include hpart hfits hp h

omit [Pixel α] h in
/-- A footprint ends on the plane: the box around the regions ends where a region does. -/
theorem footprint_le {footprint : OccupiedFootprint} (hfootprint : footprint ∈ footprints) :
    footprint.slab.uStart + footprint.slab.uCount ≤ walk.plan.uLength ∧
      footprint.slab.vStart + footprint.slab.vCount ≤ walk.plan.vLength := by
  obtain ⟨haround, hbox⟩ := hpart.in_box
  obtain ⟨-, huBox, -, hvBox⟩ := hbox footprint hfootprint
  obtain ⟨_, hplaced, huEnd⟩ := haround.u1_mem
  obtain ⟨region, hregion, rfl⟩ := List.mem_map.1 hplaced
  obtain ⟨_, hplaced', hvEnd⟩ := haround.v1_mem
  obtain ⟨region', hregion', rfl⟩ := List.mem_map.1 hplaced'
  have huLength := ((hfits region hregion).box_le hp).1
  have hvLength := ((hfits region' hregion').box_le hp).2
  omega

omit [Pixel α] in
/-- A read of a footprint is inside the plane. -/
theorem request_within_of_occupied {footprint : OccupiedFootprint}
    (hfootprint : footprint ∈ footprints)
    {read : SlabRead OccupiedFootprint} (hslab : read.slab = footprint.slab)
    (hlt : read.slabBegin < read.slabEnd)
    (hle : read.slabEnd ≤ walk.plan.planes.spectral.count) : read.request.Within walk.plan := by
  obtain ⟨hus, hvs⟩ := hpart.strides footprint hfootprint
  obtain ⟨hu, hv⟩ := hpart.nonempty footprint hfootprint
  obtain ⟨huEnd, hvEnd⟩ := footprint_le hpart hfits hp hfootprint
  have hcount := h.count_le
  have hlen : sub read.slabEnd read.slabBegin = read.slabEnd - read.slabBegin :=
    sub_eq hlt.le (by omega)
  unfold SlabRead.request SlabFootprint.request
  rw [hslab, hlen]
  refine ⟨hu, hus ▸ Nat.one_pos, ?_, hv, hvs ▸ Nat.one_pos, ?_, ?_, ?_⟩
  · dsimp only
    rw [Strided.coord, hus]
    omega
  · dsimp only
    rw [Strided.coord, hvs]
    omega
  · dsimp only
    omega
  · dsimp only
    omega

omit [Pixel α] in
/-- **The reads of a pass over footprints** fit their block. -/
theorem footprintReads_occupied (cancelled : String) {b e : ℕ} (hbe : b ≤ e)
    (he : e ≤ walk.plan.planes.spectral.count) {read : SlabRead OccupiedFootprint}
    (hread : read ∈ (passOverFootprints walk footprints cancelled).reads b e) :
    read.Occupied walk.plan footprints b (sub e b) := by
  set pass := passOverFootprints walk footprints cancelled with hpass
  have hof : ∀ read ∈ pass.reads b e, ∃ footprint ∈ footprints,
      read.footprint = some footprint ∧ read.slab = footprint.slab := by
    intro read hread
    obtain ⟨hmem, -⟩ := @Pass.mem_reads _ _ _ _ pass h _ _ hbe he read hread
    obtain ⟨footprint, hfootprint, heq, -⟩ := mem_footprintPass hpart h cancelled hmem
    exact ⟨footprint, hfootprint, (Prod.mk.inj heq).1, (Prod.mk.inj heq).2⟩
  have hwithin : ∀ read ∈ pass.reads b e, read.request.Within walk.plan := by
    intro read hread
    obtain ⟨footprint, hfootprint, -, hslab⟩ := hof read hread
    obtain ⟨-, -, -, -, hlt, hle, -⟩ := @Pass.mem_reads _ _ _ _ pass h _ _ hbe he read hread
    exact request_within_of_occupied hpart hfits hp h hfootprint hslab hlt (hle.trans he)
  exact ⟨@Pass.reads_fit _ _ _ _ pass h _ _ hbe he hwithin _ hread, hof read hread⟩

/-- **What a region selects of the reads of a block** is what it selects of the plane. -/
theorem pixelsOf_region (hplane : walk.plan.plane.Counted) (cancelled : String)
    {b e : ℕ} (hbe : b ≤ e)
    (he : e ≤ walk.plan.planes.spectral.count) {channel : ℕ} (hb : b ≤ channel)
    (hlt : channel < e) {r : ℕ}
    {region : RegionMask} (hregion : given[r]? = some region) :
    walk.pixelsOf (regionSelects given walk.plan.swapsSpatial r)
        ((passOverFootprints walk footprints cancelled).reads b e) channel =
      walk.source.regionPixels walk.plan.applyMask walk.plan.descriptor walk.plan.map
        walk.plan.planes region
        channel := by
  have hmem := List.mem_of_getElem? hregion
  rw [regionSelects_eq hregion]
  refine @Pass.pixelsOf_places _ _ _ _ _ (passOverFootprints walk footprints cancelled) h hp
    (footprintPass_apart hpart h cancelled) _ _ hbe he _ hb hlt _ _ _ fun u v => ?_
  have hselects : region.selects (if walk.plan.swapsSpatial then (v, u) else (u, v)).1
      (if walk.plan.swapsSpatial then (v, u) else (u, v)).2 =
          region.selectsAt walk.plan.swapsSpatial u v := by
    rw [RegionMask.selectsAt]
    split_ifs <;> rfl
  change _ ↔ _ ∧ region.selects (if walk.plan.swapsSpatial then (v, u) else (u, v)).1
    (if walk.plan.swapsSpatial then (v, u) else (u, v)).2 = true
  rw [hselects]
  constructor
  · rintro ⟨-, hsel⟩
    exact ⟨(hfits region hmem).selectsAt_lt hp hplane hsel, hsel⟩
  · rintro ⟨-, hsel⟩
    obtain ⟨footprint, hfootprint, hcell⟩ :=
      (hpart.occupied_iff _ _).2 ⟨region, hmem, u, v, hsel, rfl, rfl⟩
    obtain ⟨hu, hu', hv, hv'⟩ := hpart.reads footprint hfootprint region hmem u v hsel hcell
    exact ⟨⟨_, List.mem_map_of_mem hfootprint,
      (SlabFootprint.has_iff_of_whole (hpart.strides footprint hfootprint)).2
        ⟨hu, hu', hv, hv'⟩⟩, hsel⟩

end Pass

end CartaZarr
