import CartaZarr.Read.Pieces
import CartaZarr.Reduce.PassPlan

/-!
# Blocks that end where chunks do

Blocks aligned by `alignedBlockEnd` make progress, are never cut inside the chunk they began in, and
are longer than asked for in one chunk only (`AlignedEnd`). One after another they tile what they
walk and no two meet a chunk between them, whatever length each would like (`alignedBlocks_tile`).
The lengths that the pieces of a read and the slabs and blocks of a pass would like fit in 64 bits
where they are asked for.
-/

namespace CartaZarr

open Word

/-- Where a block that begins at `b` and would be `desired` long ends. -/
structure AlignedEnd (start stride chunk total b desired e : ℕ) : Prop where
  lt : b < e
  le : e ≤ total
  leaves : e < total → Strided.chunkAt start stride chunk e ≠ Strided.chunkAt start stride chunk b
  bounded : e ≤ b + desired ∨
    ∀ i, b ≤ i → i < e → Strided.chunkAt start stride chunk i = Strided.chunkAt start stride chunk b

/-- No block of a walk would like a length that wraps. -/
def LengthsFit (desired : ℕ → ℕ) (blocks : List (ℕ × ℕ)) : Prop :=
  ∀ x ∈ blocks, x.1 + desired x.1 < 2 ^ 64

theorem alignedEnd {start stride chunk total b desired : ℕ} (hs : 0 < stride) (hc : 0 < chunk)
    (hc' : chunk < 2 ^ 64) (hlast : Strided.coord start stride (total - 1) < 2 ^ 63)
    (hb : b < total)
    (hd : b + desired < 2 ^ 64) :
    AlignedEnd start stride chunk total b desired
      (alignedBlockEnd b desired total start stride chunk) := by
  have hd1 : 0 < max 1 desired := lt_of_lt_of_le Nat.one_pos (le_max_left _ _)
  rw [alignedBlockEnd_eq hs hc hc' hb hlast hd]
  have hlt : b < Strided.blockEnd start stride chunk b (max 1 desired) total :=
    Strided.lt_blockEnd hs hc hd1 hb
  have hend : Strided.blockEnd start stride chunk b (max 1 desired) total = total ∨
      Strided.Boundary start stride chunk
        (Strided.blockEnd start stride chunk b (max 1 desired) total) :=
    Strided.blockEnd_boundary hs hc hd1 hb
  have hlong : Strided.blockEnd start stride chunk b (max 1 desired) total ≤ b + max 1 desired ∨
      Strided.chunkAt start stride chunk
        (Strided.blockEnd start stride chunk b (max 1 desired) total - 1) =
        Strided.chunkAt start stride chunk b :=
    Strided.blockEnd_le_or_single hs hc hd1 hb
  refine ⟨hlt, Strided.blockEnd_le hs hc hd1 hb, fun h => ?_, ?_⟩
  · exact ((hend.resolve_left h.ne).lt hlt le_rfl).ne'
  · rcases hlong with h | h
    · by_cases h0 : desired = 0
      · refine Or.inr fun i hi hie => ?_
        rw [show i = b by omega]
      · exact Or.inl (by omega)
    · refine Or.inr fun i hi hie => le_antisymm ?_ (Strided.chunkAt_mono hi)
      rw [← h]
      exact Strided.chunkAt_mono (by omega)

/-- **Aligned blocks tile what they walk**, and no two of them meet a chunk between them. -/
theorem alignedBlocks_tile {start stride chunk total : ℕ} (hs : 0 < stride) (hc : 0 < chunk)
    (hc' : chunk < 2 ^ 64) (hlast : Strided.coord start stride (total - 1) < 2 ^ 63)
    {desired : ℕ → ℕ}
    (hd : ∀ b < total, b + desired b < 2 ^ 64) :
    ∃ blocks, walk (fun b => alignedBlockEnd b (desired b) total start stride chunk) total total 0 =
        some blocks ∧ Tiling 0 blocks total ∧
      blocks.Pairwise fun x y => Disjoint (Strided.chunksOf start stride chunk x.1 x.2)
        (Strided.chunksOf start stride chunk y.1 y.2) := by
  obtain ⟨blocks, hwalk, htile, hblocks⟩ :=
    alignedWalk_tiling_of_fit hs hc hc' (Nat.zero_le _) hlast hd (Nat.sub_le total 0)
  refine ⟨blocks, hwalk, htile, htile.pairwise.imp_of_mem fun {x y} hx hy hxy => ?_⟩
  have hboundary : Strided.Boundary start stride chunk y.1 := (hblocks y hy).1.elim Or.inl id
  have hdisjoint := Strided.disjoint_chunksOf hboundary le_rfl (b := x.1) (e := y.2)
  exact hdisjoint.mono_left (Finset.image_subset_image (Finset.Ico_subset_Ico le_rfl hxy))

/-! ## The lengths asked for -/

/-- A walk that asks for one length throughout does not wrap it: it asks a second time only when the
first block did not reach the end. -/
theorem lengthsFit_of_walk {desired total start stride chunk fuel : ℕ} {blocks : List (ℕ × ℕ)}
    (hs : 0 < stride) (hlast : Strided.coord start stride (total - 1) < 2 ^ 63)
    (hd : desired < 2 ^ 64)
    (hw : walk (fun b => alignedBlockEnd b desired total start stride chunk) total fuel 0 =
      some blocks) : LengthsFit (fun _ => desired) blocks := by
  have htotal := total_le_of_coord_lt hs hlast
  have hstep : ∀ b, b < total → (b = 0 ∨ desired < total) →
      alignedBlockEnd b desired total start stride chunk < total →
      (alignedBlockEnd b desired total start stride chunk = 0 ∨ desired < total) := by
    rintro b hb (rfl | hlt) hend
    · refine Or.inr (not_le.1 fun hle => hend.ne ?_)
      have htarget : total ≤ min (add 0 (if desired = 0 then 1 else desired)) total := by
        rw [add_eq (by split <;> omega)]
        split <;> omega
      rw [alignedBlockEnd]
      simp only [if_pos (Or.inl htarget)]
      omega
    · exact Or.inr hlt
  intro x hx
  have hasked := walk_invariant hw (Or.inl rfl) hstep x hx
  have hlt := ((walk_linked hw).2 x hx).1
  change x.1 + desired < 2 ^ 64
  omega

/-- The pieces of a read. -/
theorem pieces_lengthsFit {d : ImageDescriptor} {g f : ChunkGeometry} {r : ReadRequest}
    {o : ReadOptions} {axis fuel : ℕ} {blocks : List (ℕ × ℕ)} (hs : 0 < (r.axis axis).stride)
    (hlast : Strided.coord (r.axis axis).start (r.axis axis).stride
    ((r.axis axis).count - 1) < 2 ^ 63)
    (hbudget : o.readBudgetBytes < 2 ^ 64)
    (hw : walk (fun b => alignedBlockEnd b (unitsPerPiece r g axis (ReadCost.of d g f o))
      (r.axis axis).count (r.axis axis).start (r.axis axis).stride
        (g.chunk axis)) (r.axis axis).count
      fuel 0 = some blocks) :
    LengthsFit (fun _ => unitsPerPiece r g axis (ReadCost.of d g f o)) blocks :=
  lengthsFit_of_walk hs hlast (unitsPerPiece_lt (ReadCost.budgetBytes_lt d g f hbudget)) hw

/-- The blocks a pass hands over. -/
theorem PassPlan.SpectralInRange.blocks_lengthsFit {plan : PassPlan} (h : plan.SpectralInRange)
    {layerChunks bytesPerChannel hint fuel : ℕ} {blocks : List (ℕ × ℕ)}
    (hw : walk (fun b => plan.alignedSlabEnd b (plan.emitChannels layerChunks bytesPerChannel hint)
      plan.planes.spectral.count) plan.planes.spectral.count fuel 0 = some blocks) :
    LengthsFit (fun _ => plan.emitChannels layerChunks bytesPerChannel hint) blocks := by
  intro x hx
  have hcount := h.count_le
  have hlt := ((walk_linked hw).2 x hx).1
  have hemit : plan.emitChannels layerChunks bytesPerChannel hint ≤ plan.planes.spectral.count :=
    (min_le_right _ _).trans (min_le_right _ _)
  change x.1 + plan.emitChannels layerChunks bytesPerChannel hint < 2 ^ 64
  omega

/-- The slabs of a footprint, along the channels `[b, e)`. -/
theorem PassPlan.SpectralInRange.slabs_lengthsFit {plan : PassPlan} (h : plan.SpectralInRange)
    {channels b e fuel : ℕ} {slabs : List (ℕ × ℕ)} (he : e ≤ plan.planes.spectral.count)
    (hw : walk (fun s => plan.alignedSlabEnd s (min channels (sub e s)) e) e fuel b = some slabs) :
    LengthsFit (fun s => min channels (sub e s)) slabs := by
  intro x hx
  have hcount := h.count_le
  have hlt := ((walk_linked hw).2 x hx).1
  change x.1 + min channels (sub e x.1) < 2 ^ 64
  rw [sub_eq hlt.le (by omega)]
  omega

/-- **Chunk-aligned blocks.** Each makes progress, is not cut inside the chunk it began in, and is
longer than asked for in one chunk only; one after another, whatever each would like, they tile the
selection and share no chunk. The loops of a read and of a pass come to an end, and ask for no
length that wraps. -/
theorem alignedBlocks_partition {start stride chunk total : ℕ} (hs : 0 < stride) (hc : 0 < chunk)
    (hc' : chunk < 2 ^ 63) (hlast : start + (total - 1) * stride < 2 ^ 63) :
    (∀ b < total, ∀ desired, b + desired < 2 ^ 64 → AlignedEnd start stride chunk total b desired
      (alignedBlockEnd b desired total start stride chunk)) ∧
    (∀ desired : ℕ → ℕ, (∀ b < total, b + desired b < 2 ^ 64) → ∃ blocks,
      walk (fun b => alignedBlockEnd b (desired b) total start stride chunk) total total 0 =
        some blocks ∧ Tiling 0 blocks total ∧
      blocks.Pairwise fun x y => Disjoint (Strided.chunksOf start stride chunk x.1 x.2)
        (Strided.chunksOf start stride chunk y.1 y.2)) ∧
    (∀ (d : ImageDescriptor) (g f : ChunkGeometry) (r : ReadRequest) (o : ReadOptions)
      (axis fuel : ℕ), r.axis axis = ⟨start, total, stride⟩ → o.readBudgetBytes < 2 ^ 64 →
      (0 < g.chunk axis → total ≤ fuel → ∃ blocks,
        walk (fun b => alignedBlockEnd b (unitsPerPiece r g axis (ReadCost.of d g f o))
          (r.axis axis).count (r.axis axis).start (r.axis axis).stride (g.chunk axis))
          (r.axis axis).count fuel 0 = some blocks) ∧
      ∀ blocks, walk (fun b => alignedBlockEnd b (unitsPerPiece r g axis (ReadCost.of d g f o))
          (r.axis axis).count (r.axis axis).start (r.axis axis).stride (g.chunk axis))
          (r.axis axis).count fuel 0 = some blocks →
        LengthsFit (fun _ => unitsPerPiece r g axis (ReadCost.of d g f o)) blocks) ∧
    ∀ (plan : PassPlan), plan.SpectralInRange →
      (∀ layerChunks bytesPerChannel hint fuel : ℕ,
        (plan.planes.spectral.count ≤ fuel → ∃ blocks,
          walk (fun b => plan.alignedSlabEnd b (plan.emitChannels layerChunks bytesPerChannel hint)
            plan.planes.spectral.count) plan.planes.spectral.count fuel 0 = some blocks) ∧
        ∀ blocks, walk (fun b => plan.alignedSlabEnd b
              (plan.emitChannels layerChunks bytesPerChannel hint) plan.planes.spectral.count)
            plan.planes.spectral.count fuel 0 = some blocks →
          LengthsFit (fun _ => plan.emitChannels layerChunks bytesPerChannel hint) blocks) ∧
      ∀ footprintChunks b e fuel : ℕ, e ≤ plan.planes.spectral.count →
        (b ≤ e → e - b ≤ fuel → ∃ slabs,
          walk (fun s => plan.alignedSlabEnd s
            (min (plan.slabChannels footprintChunks) (sub e s)) e) e
            fuel b = some slabs) ∧
        ∀ slabs, walk (fun s => plan.alignedSlabEnd s
              (min (plan.slabChannels footprintChunks) (sub e s)) e) e fuel b = some slabs →
          LengthsFit (fun s => min (plan.slabChannels footprintChunks) (sub e s)) slabs := by
  refine ⟨fun _ hb _ hd => alignedEnd hs hc (by omega) hlast hb hd,
    fun _ hd => alignedBlocks_tile hs hc (by omega) hlast hd, ?_, fun plan h => ⟨?_, ?_⟩⟩
  · intro d g f r o axis fuel haxis hbudget
    have hs' : 0 < (r.axis axis).stride := by rwa [haxis]
    have hlast' : Strided.coord (r.axis axis).start (r.axis axis).stride ((r.axis axis).count - 1) <
        2 ^ 63 := by
      rw [haxis]
      exact hlast
    refine ⟨fun hchunk hfuel => ?_, fun _ hw => pieces_lengthsFit hs' hlast' hbudget hw⟩
    have hunits : unitsPerPiece r g axis (ReadCost.of d g f o) < 2 ^ 64 :=
      unitsPerPiece_lt (ReadCost.budgetBytes_lt d g f hbudget)
    have hcount : (r.axis axis).count - 0 ≤ fuel := by
      rw [haxis]
      exact hfuel
    exact (alignedWalk_tiling hs' hchunk (g.chunk_lt axis) (Nat.zero_le _) hlast'
      (by omega) hcount).imp
      fun _ h => h.1
  · exact fun layerChunks bytesPerChannel hint fuel =>
      ⟨fun hfuel => (h.blocks_tiling layerChunks bytesPerChannel hint hfuel).imp fun _ h => h.1,
        fun _ hw => h.blocks_lengthsFit hw⟩
  · exact fun footprintChunks b e fuel he =>
      ⟨fun hbe hfuel => (h.slabs_tiling (plan.slabChannels footprintChunks) hbe he hfuel).imp
        fun _ h => h.1, fun _ hw => h.slabs_lengthsFit he hw⟩

/-- Ten indices three apart, in chunks of eight, in blocks of whatever length. -/
theorem alignedBlocks_partition_tenOfEight :
    AlignedEnd 2 3 8 10 0 4 (alignedBlockEnd 0 4 10 2 3 8) ∧
    ∃ blocks, walk (fun b => alignedBlockEnd b (b % 3) 10 2 3 8) 10 10 0 = some blocks ∧
      Tiling 0 blocks 10 := by
  obtain ⟨hend, hwalk, -, -⟩ := alignedBlocks_partition (by decide : 0 < 3) (by decide : 0 < 8)
    (by decide) (by decide : 2 + (10 - 1) * 3 < 2 ^ 63)
  obtain ⟨blocks, hblocks, htile, -⟩ := hwalk (· % 3) (by decide)
  exact ⟨hend 0 (by decide) 4 (by decide), blocks, hblocks, htile⟩

end CartaZarr
