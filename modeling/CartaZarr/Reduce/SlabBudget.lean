import CartaZarr.Reduce.FootprintPass

/-!
# What one read of a pass decodes

A pass divides what a read may decode among the chunks of a footprint first, and what is left along
the spectrum, in channels: a chunk's worth of them, rounded up, for each chunk that is left. So a
slab that begins inside a chunk, or whose channels do not fill chunks, can reach into a chunk more
than the read affords. `slabBudget_iff` says which slabs do.
-/

namespace CartaZarr

open Word

namespace PassPlan

/-- A slab over a footprint of `chunks` chunks that begins at channel `s`, of channels up to `e`,
has room in what a read affords along the spectrum. It has where every channel is in a chunk of its
own. Otherwise it is asked for in channels: one that reaches the end is read to it, and has to end
in the last chunk that is affordable; one that does not is cut where a chunk begins, and may be
asked for past that chunk's beginning, but not past its end. -/
def SlabFits (plan : PassPlan) (chunks s e : ℕ) : Prop :=
  let spectral := plan.planes.spectral
  let affordable := plan.unitsAffordable chunks * plan.chunkDepth
  let offset := Strided.coord spectral.start spectral.stride s % plan.chunkDepth
  plan.chunkDepth ≤ spectral.stride ∨
    if e ≤ s + plan.slabChannels chunks then offset + (e - 1 - s) * spectral.stride < affordable
    else offset + plan.slabChannels chunks * spectral.stride < affordable + plan.chunkDepth

instance (plan : PassPlan) (chunks s e : ℕ) : Decidable (plan.SlabFits chunks s e) :=
  inferInstanceAs (Decidable (_ ∨ ite _ _ _))

/-- What a pass affords along the spectrum. -/
structure Budgeted (plan : PassPlan) : Prop where
  perRead_lt : plan.chunksPerRead < 2 ^ 64
  leastChannels_eq : plan.leastChannels = ceilQuot plan.chunkDepth plan.planes.spectral.stride

variable {plan : PassPlan} (h : plan.InRange) (hb : plan.Budgeted)

omit h in
include hb in
theorem Budgeted.unitsAffordable_lt (chunks : ℕ) : plan.unitsAffordable chunks < 2 ^ 64 :=
  max_lt (by norm_num) ((Nat.div_le_self _ _).trans_lt hb.perRead_lt)

include h hb

/-- **The chunks of a slab along the spectrum are affordable exactly when it fits.** -/
theorem InRange.card_slab_le_iff (chunks : ℕ) {b e : ℕ} (hbe : b ≤ e)
    (he : e ≤ plan.planes.spectral.count)
    {x : ℕ × ℕ} (hx : x ∈ plan.slabs chunks b e) :
    (plan.spectralChunks x.1 x.2).card ≤ plan.unitsAffordable chunks ↔
    plan.SlabFits chunks x.1 e := by
  have hcount := h.count_le
  obtain ⟨htile, hspec⟩ := h.slabs_spec chunks hbe he
  obtain ⟨-, hlt, hle⟩ := htile.bounds x hx
  have hsub : sub e x.1 = e - x.1 := sub_eq (by omega) (by omega)
  have hchannels : 0 < plan.slabChannels chunks := lt_of_lt_of_le Nat.one_pos (le_max_left _ _)
  have hend := (hspec x hx).2
  rw [hsub, max_eq_right (show 1 ≤ min (plan.slabChannels chunks) (e - x.1) by omega)] at hend
  have hdesired : 0 < min (plan.slabChannels chunks) (e - x.1) := by omega
  rw [SlabFits, spectralChunks, hend]
  rcases le_or_gt plan.chunkDepth plan.planes.spectral.stride with hstride | hstride
  · -- every channel is in a chunk of its own, so no more are asked for than are affordable
    simp only [hstride, true_or, iff_true]
    rw [Strided.card_chunksOf h.depth_pos, if_pos hstride]
    split_ifs
    · exact Nat.zero_le _
    have hone : plan.slabChannels chunks = plan.unitsAffordable chunks := by
      have hleast : plan.leastChannels = 1 := by
        have hdepth := h.depth_pos
        rw [hb.leastChannels_eq, ceilQuot_eq h.depth_lt h.stride_pos]
        apply le_antisymm
        · rw [ceilDiv_le_iff_le_mul h.stride_pos]
          omega
        · by_contra hlt
          have := (ceilDiv_le_iff_le_mul h.stride_pos).1 (show plan.chunkDepth ⌈/⌉ _ ≤ 0 by omega)
          omega
      rw [slabChannels, hleast, mul_one_right (hb.unitsAffordable_lt chunks),
        max_eq_right (show 1 ≤ plan.unitsAffordable chunks from unitsAffordable_pos _ _)]
    have hpos : 0 < plan.unitsAffordable chunks := unitsAffordable_pos _ _
    have hsingle := @Strided.blockEnd_le_or_single plan.planes.spectral.start _ _
      h.stride_pos h.depth_pos _ _ _
      hdesired (show x.1 < e by omega)
    rcases hsingle with hend | hend
    · omega
    · have := (Strided.chunkAt_strictMono h.depth_pos hstride).injective hend
      omega
  · simp only [not_le.2 hstride, false_or]
    rw [Strided.card_chunksOf_blockEnd hstride h.stride_pos hdesired (by omega)]
    have hpos : 0 < plan.unitsAffordable chunks := unitsAffordable_pos _ _
    by_cases hreach : e ≤ x.1 + plan.slabChannels chunks
    · rw [if_pos (by omega), if_pos hreach, Nat.succ_le_iff, Nat.div_lt_iff_lt_mul h.depth_pos]
    · rw [if_neg (by omega), if_neg hreach, min_eq_left (by omega), max_le_iff, ← Nat.lt_succ_iff,
        ← Nat.lt_succ_iff, Nat.div_lt_iff_lt_mul h.depth_pos, Nat.succ_mul]
      omega

omit h hb in
/-- What is affordable of a footprint, along the spectrum. -/
theorem mul_le_perRead_iff {chunks n : ℕ} (hpos : 0 < chunks)
    (hle : chunks ≤ max 1 plan.chunksPerRead) :
    chunks * n ≤ max 1 plan.chunksPerRead ↔ n ≤ plan.unitsAffordable chunks := by
  rw [unitsAffordable, CartaZarr.unitsAffordable, max_eq_right (show 1 ≤ chunks from hpos)]
  rcases Nat.eq_zero_or_pos plan.chunksPerRead with h0 | h0
  · obtain rfl : chunks = 1 := by omega
    simp [h0]
  · rw [max_eq_right (show 1 ≤ plan.chunksPerRead from h0)] at hle ⊢
    rw [max_eq_right (Nat.div_pos hle hpos), Nat.le_div_iff_mul_le hpos, Nat.mul_comm]

omit hb in
/-- A band holds no more chunks than a read affords. -/
theorem InRange.bands_chunks_le {rowChunks : ℕ}
    (hrows : plan.bandRows = plan.unitsAffordable rowChunks) {footprint : SlabFootprint}
    (hf : footprint ∈ plan.bands) : footprint.chunks ≤ max 1 plan.chunksPerRead := by
  obtain ⟨row, hrow, column, hcolumn, rfl, -⟩ := h.mem_bands hf
  have hband := (cuts_tiling h.bandRows_pos plan.rows.size).2.2 row hrow
  have hwidth := (cuts_tiling (unitsAffordable_pos plan.chunksPerRead (row.2 - row.1))
    plan.columns.size).2.2
    column hcolumn
  have hperRead : plan.bandRows ≤ max 1 plan.chunksPerRead := by
    rw [hrows]
    exact max_le_max_left _ (Nat.div_le_self _ _)
  calc (plan.bandSegment row column).chunks
      ≤ (column.2 - column.1) * (row.2 - row.1) := Nat.mod_le _ _
    _ ≤ CartaZarr.unitsAffordable plan.chunksPerRead (row.2 - row.1) * (row.2 - row.1) :=
        Nat.mul_le_mul_right _ (by omega)
    _ ≤ max (row.2 - row.1) plan.chunksPerRead := unitsAffordable_mul_le _ _
    _ ≤ max 1 plan.chunksPerRead := by omega

end PassPlan

theorem planPass_budgeted {d : ImageDescriptor} (g f : ChunkGeometry) {map : AxisMap}
    (p : CheckedPlanes d map) (sample : ℕ) {o : ReadOptions} (ho : o.readBudgetBytes < 2 ^ 64) :
    (planPass d g f map p sample o).Budgeted where
  perRead_lt := (Nat.div_le_self _ _).trans_lt (ReadCost.budgetBytes_lt d g f ho)
  leastChannels_eq := rfl

/-! ## The reads of a pass -/

namespace Pass

variable {φ ω α : Type} [HasSlab φ]

/-- The footprints of a pass say what they occupy, and none more than a read affords. -/
def Affordable (pass : Pass φ ω α) : Prop :=
  ∀ f ∈ pass.footprints, f.2.chunks = (f.2.cells pass.plan).card ∧ 0 < f.2.chunks ∧
    f.2.chunks ≤ max 1 pass.plan.chunksPerRead

/-- **A read touches no more chunks than the budget affords exactly when its slab fits.** -/
theorem Affordable.read_iff {pass : Pass φ ω α} (hf : pass.Affordable) (h : pass.plan.InRange)
    (hb : pass.plan.Budgeted) {b e : ℕ} (hbe : b ≤ e) (he : e ≤ pass.plan.planes.spectral.count)
    {read : SlabRead φ} (hr : read ∈ pass.reads b e) :
    (read.chunks pass.plan).card ≤ max 1 pass.plan.chunksPerRead ↔
      pass.plan.SlabFits read.slab.chunks read.slabBegin e := by
  obtain ⟨hfootprint, -, hslab, -⟩ := mem_reads h hbe he hr
  obtain ⟨hcard, hpos, hle⟩ := hf _ hfootprint
  rw [SlabRead.chunks, Finset.card_product, ← hcard, PassPlan.mul_le_perRead_iff hpos hle]
  exact h.card_slab_le_iff hb read.slab.chunks hbe he hslab

variable {walk : SlabWalk ω α}

/-- The bands of a plane whose chunks can be counted. -/
theorem affordable_plane (h : walk.plan.InRange) {rowChunks : ℕ}
    (hrows : walk.plan.bandRows = walk.plan.unitsAffordable rowChunks)
    (hfit : walk.plan.rows.size * walk.plan.columns.size < 2 ^ 64) (cancelled : String) :
    (passOverPlane φ walk cancelled).Affordable := by
  intro f hf
  obtain ⟨slab, hslab, rfl⟩ := List.mem_map.1 hf
  refine ⟨?_, (h.sum_bands hfit).2 slab hslab, h.bands_chunks_le hrows hslab⟩
  have hchunks := h.bands_chunks hslab
  obtain ⟨row, -, column, -, hseg, hr, hr', hc, hc'⟩ := h.mem_bands hslab
  have hcard : (slab.cells walk.plan).card ≤ walk.plan.columns.size * walk.plan.rows.size := by
    rw [hseg, h.bandSegment_cells hr hr' hc hc', Finset.card_product]
    exact Nat.mul_le_mul (Finset.card_image_le.trans (by rw [Nat.card_Ico]; omega))
      (Finset.card_image_le.trans (by rw [Nat.card_Ico]; omega))
  rw [Nat.mod_eq_of_lt (hcard.trans_lt (by rwa [Nat.mul_comm]))] at hchunks
  exact hchunks

/-- The footprints of a region set. -/
theorem affordable_footprints (h : walk.plan.InRange) {occupancy : Occupancy}
    {given : List RegionMask}
    {swapSpatial : Bool} {footprints : List OccupiedFootprint}
    (hpart : occupancy.Partitioned given swapSpatial walk.plan.chunkU walk.plan.chunkV
      walk.plan.chunksPerRead
      footprints) (cancelled : String) :
    (passOverFootprints walk footprints cancelled).Affordable := by
  intro f hf
  obtain ⟨footprint, hfootprint, rfl, hcells⟩ := mem_footprintPass hpart h cancelled hf
  obtain ⟨hchunks, hpos, hle⟩ := hpart.chunks footprint hfootprint
  exact ⟨hchunks.trans (congrArg Finset.card hcells.symm), hpos, hle⟩

end Pass

/-- **A read of a pass touches no more chunks than its budget affords exactly when its slab fits**,
for every slab of a pass over the plane, or over the footprints of a region set, as one run and in
blocks. -/
theorem slabBudget_iff {ω α : Type} [Pixel α] {d : ImageDescriptor}
    (hlen : ∀ i < d.rank, d.length i < 2 ^ 31)
    (map : AxisMap) {g : ChunkGeometry} (hchunk : ∀ i, g.chunk i < 2 ^ 31) (f : ChunkGeometry)
    (p : CheckedPlanes d map) (sample : ℕ) {o : ReadOptions} (ho : o.readBudgetBytes < 2 ^ 64)
    {walk : SlabWalk ω α} (hplan : walk.plan = planPass d g f map p sample o) (cancelled : String)
    {pass : Pass OccupiedFootprint ω α}
    (hpass : pass = passOverPlane OccupiedFootprint walk cancelled ∨
      ∃ regions occupancy footprints,
        Occupancy.of regions ⟨d.length map.x, d.length map.y⟩ walk.plan.chunkU
          walk.plan.chunkV g.fastestSpatialAxis d.id = some (.ok occupancy) ∧
        occupancy.footprints walk.plan.chunksPerRead = some footprints ∧
        pass = passOverFootprints walk footprints cancelled)
    (callbacks : Callbacks OccupiedFootprint ω α) {fuel : ℕ}
    (hfuel : p.selection.spectral.count ≤ fuel) :
    (pass.whole fuel callbacks = .forEach (pass.perform callbacks) pass.wholeSteps ∧
      ∀ read, .read read ∈ pass.wholeSteps →
        ((read.chunks pass.plan).card ≤ max 1 pass.plan.chunksPerRead ↔
          pass.plan.SlabFits read.slab.chunks read.slabBegin p.selection.spectral.count)) ∧
    ∀ bytesPerChannel hint,
      pass.inBlocks fuel callbacks bytesPerChannel hint =
        .forEach (pass.perform callbacks)
          ((pass.blocks bytesPerChannel hint).flatMap fun block =>
            pass.stepsOfBlock block.1 block.2) ∧
      ∀ block ∈ pass.blocks bytesPerChannel hint, ∀ read,
        .read read ∈ pass.stepsOfBlock block.1 block.2 →
        ((read.chunks pass.plan).card ≤ max 1 pass.plan.chunksPerRead ↔
          pass.plan.SlabFits read.slab.chunks read.slabBegin block.2) := by
  have hlen' : ∀ i, d.length i ≤ 2 ^ 31 - 1 := d.length_le_of_lt fun i hi => by
    have := hlen i hi
    omega
  have hlt : ∀ i, d.length i < 2 ^ 31 := fun i => lt_of_le_of_lt (hlen' i) (by norm_num)
  have hwalk : walk.plan.InRange :=
    hplan ▸ planPass_inRange g f p sample o fun i => (hlen' i).trans (by norm_num)
  have hbudget : walk.plan.Budgeted := hplan ▸ planPass_budgeted g f p sample ho
  have hcount : p.selection.spectral.count = walk.plan.planes.spectral.count := by rw [hplan]; rfl
  have hsmall : walk.plan.chunkU < 2 ^ 31 ∧ walk.plan.chunkV < 2 ^ 31 ∧
      walk.plan.uLength < 2 ^ 31 ∧ walk.plan.vLength < 2 ^ 31 := by
    rw [hplan]
    exact ⟨max_lt (by norm_num) (hchunk _), max_lt (by norm_num) (hchunk _), hlt _, hlt _⟩
  obtain ⟨hto, hfit⟩ : pass.toSlabWalk = walk ∧ pass.Affordable := by
    rcases hpass with rfl | ⟨regions, occupancy, footprints, hof, hfootprints, rfl⟩
    · have hrows : walk.plan.bandRows = walk.plan.unitsAffordable
          (max 1 (chunksUnderSample walk.plan.uLength walk.plan.chunkU walk.plan.sample)) := by
        rw [hplan]
        rfl
      have hsize : walk.plan.rows.size * walk.plan.columns.size <
        2 ^ 31 * 2 ^ 31 := Nat.mul_lt_mul''
        ((chunksSampled_size_le hwalk.chunkV_pos hwalk.sample_pos).trans_lt hsmall.2.2.2)
        ((chunksSampled_size_le hwalk.chunkU_pos hwalk.sample_pos).trans_lt hsmall.2.2.1)
      exact ⟨rfl, Pass.affordable_plane hwalk hrows (hsize.trans (by norm_num)) cancelled⟩
    · obtain ⟨given, -, hpart⟩ := partitioned_of_small (hlt _) (hlt _) ⟨hwalk.chunkU_pos, hsmall.1⟩
        ⟨hwalk.chunkV_pos, hsmall.2.1⟩ hof hbudget.perRead_lt hfootprints
      exact ⟨rfl, Pass.affordable_footprints hwalk hpart cancelled⟩
  have h : pass.plan.InRange := by rw [hto]; exact hwalk
  have hb : pass.plan.Budgeted := by rw [hto]; exact hbudget
  rw [hcount, ← hto] at hfuel ⊢
  refine ⟨⟨Pass.whole_eq h callbacks hfuel, fun read hr => ?_⟩, fun bytesPerChannel hint =>
    ⟨Pass.inBlocks_eq h callbacks bytesPerChannel hint hfuel, fun block hblock read hr => ?_⟩⟩
  · exact hfit.read_iff h hb (Nat.zero_le _) le_rfl (Pass.read_mem_wholeSteps hr)
  · obtain ⟨-, hlt, hle⟩ :=
      (h.blocks_spec pass.layerChunks bytesPerChannel hint).1.bounds block hblock
    exact hfit.read_iff h hb hlt.le hle (Pass.read_mem_stepsOfBlock hr)

/-- Channels 2 to 5 of the small cube, whose chunks have four. -/
def midChannels : CheckedPlanes smallCube smallCubeMap := ⟨⟨⟨2, 4, 1⟩, 0, 0⟩, rfl⟩

/-- A pass over them in reads of one chunk. -/
def midPass : Pass OccupiedFootprint (List (Seen (Option ℚ))) (Option ℚ) :=
  passOverPlane OccupiedFootprint
    ⟨steadySource, planPass smallCube smallCubeChunks smallCubeChunks smallCubeMap midChannels 1
      ⟨false, 256⟩,
      freeControl⟩ "stopped"

theorem smallCubeChunks_lt (i : ℕ) : smallCubeChunks.chunk i < 2 ^ 31 := by
  rcases i with _ | _ | _ | i
  · decide
  · decide
  · decide
  · exact show 0 < 2 ^ 31 by norm_num

theorem slabBudget_iff_midPass :
    midPass.whole 4 recorder = .forEach (midPass.perform recorder) midPass.wholeSteps ∧
      ∀ read, .read read ∈ midPass.wholeSteps →
        ((read.chunks midPass.plan).card ≤ max 1 midPass.plan.chunksPerRead ↔
          midPass.plan.SlabFits read.slab.chunks read.slabBegin 4) :=
  (slabBudget_iff (by decide) smallCubeMap smallCubeChunks_lt smallCubeChunks midChannels 1
    (o := ⟨false, 256⟩) (by decide) rfl "stopped" (Or.inl (show midPass = _ from rfl)) recorder
    (show 4 ≤ 4 from le_rfl)).1

/-- **A read of a chunk's worth of channels touches two chunks** where it begins inside one. -/
theorem slabBudget_overrun :
    max 1 midPass.plan.chunksPerRead = 1 ∧
      (midPass.reads 0 4).map (fun read =>
        (read.slabBegin, read.slabEnd, (read.chunks midPass.plan).card)) =
        [(0, 4, 2)] := by
  decide +kernel

end CartaZarr
