import CartaZarr.Reduce.FootprintPass

/-!
# No chunk is decoded twice in a pass

Neither two slabs of a block nor two of different blocks touch a chunk in common, in a pass over the
plane and in one over the footprints of a region set. Together they touch the chunks that hold a
sample of the plane, or that a region occupies, at the selected channels (`pass_decodesOnce`). The
numbers of chunks and of cells are words: a region whose cell has a number past `2 ^ 64` is not read
(`pass_decodesOnce_wraps`).
-/

namespace CartaZarr

open Word

/-- Reads that decode once each chunk where `held` at a selected channel, and no other, and that are
counted as the chunks they touch, in a word. -/
structure DecodesOnce {φ : Type} (plan : PassPlan) (reads : List (SlabRead φ))
    (held : ℕ → ℕ → Prop) : Prop where
  disjoint : reads.Pairwise fun r r' => Disjoint (r.chunks plan) (r'.chunks plan)
  touched_iff : ∀ cu cv cz, (∃ read ∈ reads, ((cu, cv), cz) ∈ read.chunks plan) ↔
    held cu cv ∧ ∃ channel < plan.planes.spectral.count, Strided.chunkAt plan.planes.spectral.start
      plan.planes.spectral.stride plan.chunkDepth channel = cz
  counted : ∀ read ∈ reads, read.counted plan = (read.chunks plan).card % 2 ^ 64

/-- The chunks of the plane that the sample has a pixel in. -/
def PassPlan.Samples (plan : PassPlan) (cu cv : ℕ) : Prop :=
  ∃ u v, ((plan.sample ∣ u ∧ u < plan.uLength) ∧ plan.sample ∣ v ∧ v < plan.vLength) ∧
    u / plan.chunkU = cu ∧ v / plan.chunkV = cv

/-- The chunks that some region has a pixel in. -/
def RegionsOccupy (given : List RegionMask) (swapSpatial : Bool) (chunkU chunkV cu cv : ℕ) : Prop :=
  ∃ region ∈ given, Occupies (region.selectsAt swapSpatial) chunkU chunkV cu cv

namespace Pass

section Generic

variable {φ ω α : Type} [HasSlab φ] {pass : Pass φ ω α} {held : ℕ → ℕ → Prop}

/-- The chunks of reads that have the pixels of the pass's footprints at the selected channels. -/
theorem touched_iff_of_has (hcells : ∀ cu cv,
    (∃ f ∈ pass.footprints, (cu, cv) ∈ f.2.cells pass.plan) ↔ held cu cv)
    {reads : List (SlabRead φ)}
    (hhas : ∀ u v channel, (∃ read ∈ reads, read.Has u v channel) ↔
      (∃ f ∈ pass.footprints, f.2.Has u v) ∧
      channel < pass.plan.planes.spectral.count) (cu cv cz : ℕ) :
    (∃ read ∈ reads, ((cu, cv), cz) ∈ read.chunks pass.plan) ↔
      held cu cv ∧ ∃ channel < pass.plan.planes.spectral.count,
        Strided.chunkAt pass.plan.planes.spectral.start
        pass.plan.planes.spectral.stride pass.plan.chunkDepth channel = cz := by
  rw [← hcells]
  constructor
  · rintro ⟨read, hread, hmem⟩
    obtain ⟨u, v, channel, hpixel, hu, hv, hz⟩ := SlabRead.mem_chunks.1 hmem
    obtain ⟨⟨f, hf, hfuv⟩, hchannel⟩ := (hhas u v channel).1 ⟨read, hread, hpixel⟩
    exact ⟨⟨f, hf, SlabFootprint.mem_cells.2 ⟨u, v, hfuv, hu, hv⟩⟩, channel, hchannel, hz⟩
  · rintro ⟨⟨f, hf, hmem⟩, channel, hchannel, hz⟩
    obtain ⟨u, v, hfuv, hu, hv⟩ := SlabFootprint.mem_cells.1 hmem
    obtain ⟨read, hread, hpixel⟩ := (hhas u v channel).2 ⟨⟨f, hf, hfuv⟩, hchannel⟩
    exact ⟨read, hread, SlabRead.mem_chunks.2 ⟨u, v, channel, hpixel, hu, hv, hz⟩⟩

variable (h : pass.plan.InRange) (hap : pass.Apart)
  (hcells : ∀ cu cv, (∃ f ∈ pass.footprints, (cu, cv) ∈ f.2.cells pass.plan) ↔ held cu cv)
  (hchunks : ∀ f ∈ pass.footprints, f.2.chunks = (f.2.cells pass.plan).card % 2 ^ 64)
include h hap hcells hchunks

/-- A pass as one run decodes the chunks of its footprints once. -/
theorem reads_decodesOnce :
    DecodesOnce pass.plan (pass.reads 0 pass.plan.planes.spectral.count) held where
  disjoint := reads_disjoint h hap (Nat.zero_le _) le_rfl
  touched_iff := touched_iff_of_has hcells fun u v channel => by
    rw [reads_has_iff h (Nat.zero_le _) le_rfl]
    simp
  counted read hr := counted_eq h (Nat.zero_le _) le_rfl hr
    (hchunks _ (mem_reads h (Nat.zero_le _) le_rfl hr).1)

/-- A pass in blocks does too. -/
theorem blockReads_decodesOnce (bytesPerChannel hint : ℕ) :
    DecodesOnce pass.plan (pass.blockReads bytesPerChannel hint) held where
  disjoint := blockReads_disjoint h hap bytesPerChannel hint
  touched_iff := touched_iff_of_has hcells fun u v channel =>
    blockReads_has_iff h bytesPerChannel hint
  counted read hr := by
    obtain ⟨block, hblock, hread⟩ := List.mem_flatMap.1 hr
    obtain ⟨-, hlt, hle⟩ :=
      (h.blocks_spec pass.layerChunks bytesPerChannel hint).1.bounds block hblock
    exact counted_eq h hlt.le hle hread (hchunks _ (mem_reads h hlt.le hle hread).1)

end Generic

section Shapes

variable {ω α : Type} {walk : SlabWalk ω α} (h : walk.plan.InRange) (cancelled : String)
include h

/-- The chunks of the bands are those of the sample. -/
theorem planePass_cells_iff (φ : Type) [HasSlab φ] (cu cv : ℕ) :
    (∃ f ∈ (passOverPlane φ walk cancelled).footprints, (cu, cv) ∈ f.2.cells walk.plan) ↔
      walk.plan.Samples cu cv := by
  have hpixel : ∀ u v, (∃ slab ∈ walk.plan.bands, slab.Has u v) ↔ _ := fun u v => h.bands_has_iff
  constructor
  · rintro ⟨f, hf, hmem⟩
    obtain ⟨slab, hslab, rfl⟩ := List.mem_map.1 hf
    obtain ⟨u, v, hhas, hu, hv⟩ := SlabFootprint.mem_cells.1 hmem
    exact ⟨u, v, (hpixel u v).1 ⟨slab, hslab, hhas⟩, hu, hv⟩
  · rintro ⟨u, v, hin, hu, hv⟩
    obtain ⟨slab, hslab, hhas⟩ := (hpixel u v).2 hin
    exact ⟨(none, slab), List.mem_map_of_mem hslab, SlabFootprint.mem_cells.2 ⟨u, v, hhas, hu, hv⟩⟩

/-- The bands count their chunks in a word. -/
theorem planePass_chunks (φ : Type) [HasSlab φ] : ∀ f ∈ (passOverPlane φ walk cancelled).footprints,
    f.2.chunks = (f.2.cells walk.plan).card % 2 ^ 64 := by
  intro f hf
  obtain ⟨slab, hslab, rfl⟩ := List.mem_map.1 hf
  exact h.bands_chunks hslab

/-- The footprints of a region set count theirs exactly. -/
theorem footprintPass_chunks {occupancy : Occupancy} {given : List RegionMask} {swapSpatial : Bool}
    {chunksPerRead : ℕ} (hread : chunksPerRead < 2 ^ 64) {footprints : List OccupiedFootprint}
    (hpart : occupancy.Partitioned given swapSpatial walk.plan.chunkU
      walk.plan.chunkV chunksPerRead footprints) :
    ∀ f ∈ (passOverFootprints walk footprints cancelled).footprints,
      f.2.chunks = (f.2.cells walk.plan).card % 2 ^ 64 := by
  intro f hf
  obtain ⟨footprint, hfootprint, rfl, hcells⟩ := mem_footprintPass hpart h cancelled hf
  obtain ⟨hchunks, -, hle⟩ := hpart.chunks footprint hfootprint
  rw [hcells, ← hchunks, Nat.mod_eq_of_lt (by omega)]

end Shapes

end Pass

/-- **No chunk is decoded twice in a pass**, over the plane or over the footprints of a region set,
as one run and in blocks: the slabs it reads, in order, touch each chunk that holds a sample or that
a region occupies once, and no other. -/
theorem pass_decodesOnce {ω α : Type} [Pixel α] {d : ImageDescriptor}
    (hlen : ∀ i < d.rank, d.length i ≤ 2 ^ 63)
    (map : AxisMap) (g f : ChunkGeometry) (p : CheckedPlanes d map) (sample : ℕ) {o : ReadOptions}
    (ho : o.readBudgetBytes < 2 ^ 64) {walk : SlabWalk ω α}
    (hplan : walk.plan = planPass d g f map p sample o)
    (cancelled : String) {pass : Pass OccupiedFootprint ω α} {held : ℕ → ℕ → Prop}
    (hpass : (pass = passOverPlane OccupiedFootprint walk cancelled ∧ held = walk.plan.Samples) ∨
      ∃ regions given occupancy footprints, regions.data = some given ∧
        (⟨d.length map.x, d.length map.y⟩ : PlaneExtent).Counted ∧
        EndBelow given (g.fastestSpatialAxis = .spatialY) walk.plan.chunkU walk.plan.chunkV ∧
        Occupancy.of regions ⟨d.length map.x, d.length map.y⟩ walk.plan.chunkU walk.plan.chunkV
          g.fastestSpatialAxis d.id = some (.ok occupancy) ∧
        occupancy.footprints walk.plan.chunksPerRead = some footprints ∧
        pass = passOverFootprints walk footprints cancelled ∧
        held = RegionsOccupy given (g.fastestSpatialAxis =
          .spatialY) walk.plan.chunkU walk.plan.chunkV)
    (callbacks : Callbacks OccupiedFootprint ω α) {fuel : ℕ}
    (hfuel : p.selection.spectral.count ≤ fuel) :
    (pass.whole fuel callbacks = .forEach (pass.perform callbacks) pass.wholeSteps ∧
      DecodesOnce pass.plan (pass.wholeSteps.filterMap PassStep.read?) held) ∧
    ∀ bytesPerChannel hint,
      pass.inBlocks fuel callbacks bytesPerChannel hint =
        .forEach (pass.perform callbacks) (pass.blockSteps bytesPerChannel hint) ∧
      DecodesOnce pass.plan ((pass.blockSteps bytesPerChannel hint).filterMap
        PassStep.read?) held := by
  have hwalk : walk.plan.InRange := hplan ▸ planPass_inRange g f p sample o (d.length_le_of_lt hlen)
  have hcount : p.selection.spectral.count = walk.plan.planes.spectral.count := by rw [hplan]; rfl
  have hread : walk.plan.chunksPerRead < 2 ^ 64 := by
    rw [hplan]
    exact (Nat.div_le_self _ _).trans_lt (ReadCost.budgetBytes_lt d g f ho)
  obtain ⟨hto, hap, hcells, hchunks⟩ : pass.toSlabWalk = walk ∧ pass.Apart ∧
      (∀ cu cv, (∃ f ∈ pass.footprints, (cu, cv) ∈ f.2.cells pass.plan) ↔ held cu cv) ∧
      ∀ f ∈ pass.footprints, f.2.chunks = (f.2.cells pass.plan).card % 2 ^ 64 := by
    rcases hpass with ⟨rfl, rfl⟩ |
      ⟨regions, given, occupancy, footprints, hgiven, hplane, hends, hof, hfootprints, rfl, rfl⟩
    · exact ⟨rfl, planePass_apart rfl hwalk, Pass.planePass_cells_iff hwalk cancelled _,
        Pass.planePass_chunks hwalk cancelled _⟩
    · obtain ⟨footprints', hfootprints', hpart⟩ :=
        (Occupancy.of_made hgiven hplane hends.scansEndBelow hof).partitioned hplane hends hread
      obtain rfl : footprints' = footprints := Option.some.inj (hfootprints'.symm.trans hfootprints)
      exact ⟨rfl, footprintPass_apart hpart hwalk cancelled,
        fun cu cv => footprintPass_cells_iff hpart hwalk cancelled,
        Pass.footprintPass_chunks hwalk cancelled hread hpart⟩
  have h : pass.plan.InRange := by rw [hto]; exact hwalk
  rw [hcount, ← hto] at hfuel
  refine ⟨⟨Pass.whole_eq h callbacks hfuel, ?_⟩, fun bytesPerChannel hint =>
    ⟨Pass.inBlocks_eq h callbacks bytesPerChannel hint hfuel, ?_⟩⟩
  · rw [pass.reads_wholeSteps]
    exact Pass.reads_decodesOnce h hap hcells hchunks
  · rw [pass.reads_blockSteps]
    exact Pass.blockReads_decodesOnce h hap hcells hchunks bytesPerChannel hint

/-- Every other channel of the small cube, in reads of two chunks. -/
def smallRegionsWalk : SlabWalk (List (Seen (Option ℚ))) (Option ℚ) :=
  ⟨steadySource, planPass smallCube ⟨.spatialX, [1, 2, 4]⟩
    ⟨.spatialX, []⟩ smallCubeMap evenChannels 1
    ⟨false, 64⟩, freeControl⟩

/-- A pass over a box and a diagonal on it. -/
def smallRegionsPass : Pass OccupiedFootprint (List (Seen (Option ℚ))) (Option ℚ) :=
  passOverFootprints smallRegionsWalk
    [⟨⟨0, 2, 1, 0, 2, 1, 2⟩, 0, 2, 0, 1⟩, ⟨⟨2, 1, 1, 0, 2, 1, 1⟩, 2, 3, 0, 1⟩,
      ⟨⟨2, 1, 1, 2, 1, 1, 1⟩, 2, 3, 1, 2⟩] "stopped"

theorem pass_decodesOnce_smallRegions : DecodesOnce smallRegionsPass.plan
    ((smallRegionsPass.blockSteps 0 1).filterMap PassStep.read?)
    (RegionsOccupy [boxRegion 0 0 3 2, diagonalRegion] false 1 2) :=
  ((pass_decodesOnce (by decide) smallCubeMap ⟨.spatialX, [1, 2, 4]⟩ ⟨.spatialX, []⟩ evenChannels 1
    (o := ⟨false, 64⟩) (by decide) (show smallRegionsWalk.plan = _ from rfl) "stopped"
    (Or.inr ⟨BufferView.of [boxRegion 0 0 3 2, diagonalRegion], [boxRegion 0 0 3 2, diagonalRegion],
      smallOccupancy, _, rfl, ⟨by decide, by decide, by decide⟩, endBelow_smallRegions,
      by decide +kernel, by decide +kernel, show smallRegionsPass = _ from rfl, rfl⟩)
    recorder (show 4 ≤ 4 from le_rfl)).2 0 1).2

/-- A plane of `2 ^ 33` by `2 ^ 32` pixels, each a chunk of its own. -/
def farPlane : ImageDescriptor where
  id := "sky"
  storedType := .float32
  axes := [⟨"l", .spatialX, 2 ^ 33, 2⟩, ⟨"m", .spatialY, 2 ^ 32, 1⟩, ⟨"frequency", .spectral, 1, 0⟩]
  hasPixelMask := false

/-- A pass over the footprints of three boxes on it, in reads of one chunk. -/
def farRowPass : Pass OccupiedFootprint (List (Seen (Option ℚ))) (Option ℚ) :=
  passOverFootprints
    ⟨steadySource, planPass farPlane ⟨.spatialX, [1, 1, 1]⟩ ⟨.spatialX, []⟩ smallCubeMap
      ⟨⟨⟨0, 1, 1⟩, 0, 0⟩, rfl⟩ 1 ⟨false, 4⟩, freeControl⟩
    [⟨⟨0, 1, 1, 0, 1, 1, 1⟩, 0, 1, 0, 1⟩,
      ⟨⟨2 ^ 33 - 1, 1, 1, 0, 1, 1, 1⟩, 2 ^ 33 - 1, 2 ^ 33, 0, 1⟩] "stopped"

/-- A plane of `2 ^ 63` by `2 ^ 63` pixels, in chunks of `2 ^ 64` elements that count as none. -/
def vastPlane : ImageDescriptor where
  id := "sky"
  storedType := .float32
  axes := [⟨"l", .spatialX, 2 ^ 63, 2⟩, ⟨"m", .spatialY, 2 ^ 63, 1⟩, ⟨"frequency", .spectral, 4, 0⟩]
  hasPixelMask := false

/-- A pass over two channels of it, in different chunks, and in one read. -/
def vastPass : Pass OccupiedFootprint (List (Seen (Option ℚ))) (Option ℚ) :=
  passOverPlane OccupiedFootprint
    ⟨steadySource, planPass vastPlane ⟨.spatialX, [2 ^ 32, 2 ^ 31, 2]⟩ ⟨.spatialX, []⟩ smallCubeMap
      ⟨⟨⟨1, 2, 1⟩, 0, 0⟩, rfl⟩ 1 ⟨false, 2 ^ 64 - 1⟩, freeControl⟩ "stopped"

/-- Four channels of a spectral axis that is longer than `2 ^ 63`, in its last chunk. -/
def topPlan : PassPlan :=
  planPass
    { smallCube with axes := [⟨"l", .spatialX, 4, 2⟩, ⟨"m", .spatialY, 4, 1⟩,
        ⟨"frequency", .spectral, 2 ^ 64 - 1, 0⟩] }
    ⟨.spatialX, [4, 4, 2 ^ 63]⟩ ⟨.spatialX, []⟩ smallCubeMap
      ⟨⟨⟨2 ^ 63, 4, 1⟩, 0, 0⟩, by decide +kernel⟩ 1 ⟨false, 64⟩

/-- **Where words wrap**: an occupied chunk that no slab touches, for the number of its cell is
`2 ^ 64`; a read of `2 ^ 64` chunks that is counted as none; and a block that ends where it begins,
in a chunk that ends at `2 ^ 64`. -/
theorem pass_decodesOnce_wraps :
    (Occupancy.of (BufferView.of [boxRegion 0 0 1 1, boxRegion (2 ^ 33 - 1) 0 1 1,
      boxRegion 0 (2 ^ 31) 1 1])
        ⟨2 ^ 33, 2 ^ 32⟩ farRowPass.plan.chunkU farRowPass.plan.chunkV .spatialX "sky" =
      some (.ok farRowOccupancy) ∧
    farRowOccupancy.footprints farRowPass.plan.chunksPerRead =
      some [⟨⟨0, 1, 1, 0, 1, 1, 1⟩, 0, 1, 0, 1⟩,
        ⟨⟨2 ^ 33 - 1, 1, 1, 0, 1, 1, 1⟩, 2 ^ 33 - 1, 2 ^ 33, 0, 1⟩] ∧
    RegionsOccupy [boxRegion 0 0 1 1, boxRegion (2 ^ 33 - 1) 0 1 1,
      boxRegion 0 (2 ^ 31) 1 1] false 1 1 0
      (2 ^ 31) ∧
    ∀ read ∈ farRowPass.reads 0 1, ∀ cz, ((0, 2 ^ 31), cz) ∉ read.chunks farRowPass.plan) ∧
    (∃ read ∈ vastPass.reads 0 2, read.counted vastPass.plan = 0 ∧
      0 < (read.chunks vastPass.plan).card) ∧
    topPlan.alignedSlabEnd 0 (topPlan.emitChannels topPlan.layerChunks 0 2) 4 = 0 := by
  refine ⟨⟨by decide +kernel, by decide +kernel,
    ⟨boxRegion 0 (2 ^ 31) 1 1, by simp, 0,
      2 ^ 31, by decide +kernel, by decide +kernel, by decide +kernel⟩,
    fun read hread cz hmem => ?_⟩, ?_, by decide +kernel⟩
  · have hrow : ∀ read ∈ farRowPass.reads 0 1,
      (0, 2 ^ 31) ∉ read.slab.cells farRowPass.plan := by decide +kernel
    exact hrow read hread (Finset.mem_product.1 hmem).1
  · have hreads : (vastPass.reads 0 2).map (fun read =>
        ((read.slab, read.slabBegin, read.slabEnd), read.counted vastPass.plan)) =
        [((⟨0, 2 ^ 63, 1, 0, 2 ^ 63, 1, 2 ^ 63⟩, 0, 2), 0)] := by decide +kernel
    obtain ⟨read, hread, heq⟩ : ∃ read ∈ vastPass.reads 0 2,
        ((read.slab, read.slabBegin, read.slabEnd), read.counted vastPass.plan) =
          ((⟨0, 2 ^ 63, 1, 0, 2 ^ 63, 1, 2 ^ 63⟩, 0, 2), 0) :=
      List.mem_map.1 (hreads ▸ List.mem_singleton_self _)
    simp only [Prod.mk.injEq] at heq
    obtain ⟨⟨hslab, hbegin, hend⟩, hcounted⟩ := heq
    refine ⟨read, hread, hcounted, Finset.card_pos.2 ⟨((0, 0), 0), SlabRead.mem_chunks.2
      ⟨0, 0, 0, ⟨⟨⟨0, ?_, ?_⟩, 0, ?_, ?_⟩, ?_,
        ?_⟩, by decide +kernel, by decide +kernel, by decide +kernel⟩⟩⟩ <;>
      simp [hslab, hbegin, hend, Strided.coord]

end CartaZarr
