import CartaZarr.Read.FlagChunks

/-!
# The cost of a read bounds what it decodes

A read decodes every chunk it touches, of the pixels and, when the mask applies, of the flag in its
own layout. `ReadCost` counts this in pixel chunks, each with the most flag chunks it can lie
across. The count is an upper bound for every request, whatever the phase of the two grids, exactly
when the cost of one pixel chunk fits a word (`readCost_bounds_iff`); two chunk shapes that are each
below `2 ^ 63` elements are not enough for that (`readCost_wraps`).
-/

namespace CartaZarr

open Word

/-- What a read decodes is at most the cost of the pixel chunks it touches, and exactly that of the
flag where the two are chunked alike. -/
structure CostBounds (d : ImageDescriptor) (g f : ChunkGeometry)
    (o : ReadOptions) (r : ReadRequest) :
    Prop where
  flag_le : (r.touched f).card * chunkElements f ≤ (r.touched g).card * decodedFlagBytes d g f
  flag_eq : (∀ i < d.rank, f.chunk i = g.chunk i) →
    (r.touched f).card * chunkElements f = (r.touched g).card * decodedFlagBytes d g f
  decoded_le : (r.touched g).card * pixelChunkBytes d g +
      (if appliesPixelMask o d then (r.touched f).card * chunkVolume d f else 0) ≤
    (r.touched g).card * (ReadCost.of d g f o).chunkBytes

/-- The flag that a pixel chunk brings, and all that it decodes to, fit a word. -/
def CostFits (d : ImageDescriptor) (g f : ChunkGeometry) (o : ReadOptions) : Prop :=
  flagBytesBeside d g f < 2 ^ 64 ∧ chunkBytesBeside d g f o < 2 ^ 64

section Cost

variable {d : ImageDescriptor} {g f : ChunkGeometry} {r : ReadRequest} {o : ReadOptions}

theorem ReadCost.chunkBytes_lt (d : ImageDescriptor) (g f : ChunkGeometry) (o : ReadOptions) :
    (ReadCost.of d g f o).chunkBytes < 2 ^ 64 := add_lt _ _

variable (hg : g.Of d) (hf : f.Of d) (hwalk : ∀ i < d.rank, d.length i + g.chunk i ≤ 2 ^ 64)
include hg hf hwalk

/-- A cost that fits a word is the exact one. -/
theorem ReadCost.chunkBytes_eq (hfits : CostFits d g f o) :
    (ReadCost.of d g f o).chunkBytes = chunkBytesBeside d g f o := by
  have hpos := pixelChunkBytes_pos hg
  obtain ⟨hflag, hall⟩ := hfits
  simp only [chunkBytesBeside] at hall
  simp only [ReadCost.of, chunkBytesBeside, decodedChunkBytes_eq hg,
    decodedFlagBytes_eq hg hf hwalk,
    Nat.mod_eq_of_lt hflag, Nat.mod_eq_of_lt (show pixelChunkBytes d g < 2 ^ 64 by omega),
    max_eq_right (show 1 ≤ pixelChunkBytes d g from hpos)]
  exact add_eq hall

theorem costBounds_of_fits (hin : r.Inside d)
    (hfits : CostFits d g f o) : CostBounds d g f o r := by
  have hmost := card_touched_flag_le hin hg f
  have hpos : 0 < flagChunksBeside d g f := Finset.prod_pos fun _ _ => mostFlagChunks_pos
  have hvolume : chunkVolume d f < 2 ^ 64 := (Nat.le_mul_of_pos_left _ hpos).trans_lt hfits.1
  have hbytes : (r.touched f).card * chunkVolume d f ≤
      (r.touched g).card * flagBytesBeside d g f := by
    calc (r.touched f).card * chunkVolume d f
        ≤ (r.touched g).card * flagChunksBeside d g f * chunkVolume d f :=
          Nat.mul_le_mul_right _ hmost
      _ = (r.touched g).card * flagBytesBeside d g f := by rw [flagBytesBeside, mul_assoc]
  refine ⟨?_, fun halike => ?_, ?_⟩
  · rwa [chunkElements_eq hf, decodedFlagBytes_eq hg hf hwalk, Nat.mod_eq_of_lt hfits.1,
      Nat.mod_eq_of_lt hvolume]
  · obtain ⟨htouched, hone⟩ := touched_flag_of_alike hin hg halike
    rw [chunkElements_eq hf, decodedFlagBytes_eq hg hf hwalk, htouched,
      flagBytesBeside, hone, one_mul]
  · rw [ReadCost.chunkBytes_eq hg hf hwalk hfits, chunkBytesBeside, Nat.mul_add]
    split
    · exact Nat.add_le_add_left hbytes _
    · exact le_rfl

/-- The request of a pixel chunk that lies across the most flag chunks decodes the exact cost. -/
theorem fits_of_costBounds (hd : d.StoredInOrder) (hlength : ∀ i < d.rank, 0 < d.length i)
    (hpixels : chunkVolume d g < 2 ^ 64) (hflag : chunkVolume d f < 2 ^ 64)
    (h : ∀ r order s, buildSelection d r order = .ok s → CostBounds d g f o r) :
    CostFits d g f o := by
  obtain ⟨⟨c, hc, hmost⟩, -⟩ := isGreatest_flagChunks hg hf hlength
  obtain ⟨s, hs⟩ := buildSelection_of_valid hd (chunkRequest_valid hg hc hpixels) .logical
  have hbounds := h _ _ s hs
  have hflagLe := hbounds.flag_le
  have hdecoded := hbounds.decoded_le
  rw [card_touched_chunkRequest_self hg hc, one_mul, ← hmost, chunkElements_eq hf,
    Nat.mod_eq_of_lt hflag, decodedFlagBytes_eq hg hf hwalk] at hflagLe
  rw [card_touched_chunkRequest_self hg hc, one_mul, one_mul, ← hmost] at hdecoded
  exact ⟨hflagLe.trans_lt (Nat.mod_lt _ (by norm_num)),
    hdecoded.trans_lt (ReadCost.chunkBytes_lt d g f o)⟩

omit hwalk in
/-- **The cost of a read bounds what it decodes** exactly when that of one pixel chunk fits a
word. -/
theorem readCost_bounds_iff (hwalk : ∀ i < d.rank, d.length i + g.chunk i ≤ 2 ^ 64)
    (hpixels : chunkVolume d g < 2 ^ 63) (hflag : chunkVolume d f < 2 ^ 63) :
    (∀ r order s, buildSelection d r order = .ok s → CostBounds d g f o r) ↔
      (d.StoredInOrder → (∀ i < d.rank, 0 < d.length i) → CostFits d g f o) := by
  constructor
  · intro h hd hlength
    exact fits_of_costBounds hg hf hwalk hd hlength (hpixels.trans (by decide))
      (hflag.trans (by decide)) h
  · intro h r order s hs
    have hin := buildSelection_inside hs
    exact costBounds_of_fits hg hf hwalk hin (h (buildSelection_storedInOrder hs) fun i hi =>
      (hin.count_pos i hi).trans_le (hin.count_le hi))

end Cost

theorem smallCubeChunks_of : smallCubeChunks.Of smallCube := ⟨rfl, by decide⟩

/-- The cube's chunks, with its flags chunked alike. -/
theorem readCost_bounds_iff_smallCube :
    (∀ r order s, buildSelection smallCube r order = .ok s →
      CostBounds smallCube smallCubeChunks smallCubeChunks ⟨true, 320⟩ r) ↔
    (smallCube.StoredInOrder → (∀ i < smallCube.rank, 0 < smallCube.length i) →
      CostFits smallCube smallCubeChunks smallCubeChunks ⟨true, 320⟩) :=
  readCost_bounds_iff smallCubeChunks_of smallCubeChunks_of (by decide +kernel) (by decide +kernel)
    (by decide +kernel)

/-! ## Where the cost wraps -/

/-- A plane of `5 * 2 ^ 29` pixels a side. -/
def wideFlagPlane : ImageDescriptor where
  id := "SKY"
  storedType := .float32
  axes := [⟨"l", .spatialX, 5 * 2 ^ 29, 1⟩, ⟨"m", .spatialY, 5 * 2 ^ 29, 0⟩]
  hasPixelMask := true

/-- Chunks of the pixels, and longer ones of the flag, whose boundary falls inside the second. -/
def wideFlagPlaneChunks : ChunkGeometry := ⟨.spatialX, [3 * 2 ^ 29, 3 * 2 ^ 29]⟩

def wideFlagPlaneFlagChunks : ChunkGeometry := ⟨.spatialX, [2 ^ 31, 2 ^ 31]⟩

/-- The second chunk along both axes. -/
def wideFlagPlaneRequest : ReadRequest := ⟨[⟨3 * 2 ^ 29, 2 ^ 30, 1⟩, ⟨3 * 2 ^ 29, 2 ^ 30, 1⟩]⟩

theorem wideFlagPlaneRequest_inside : wideFlagPlaneRequest.Inside wideFlagPlane where
  rank_eq := rfl
  stride_pos := by decide +kernel
  count_pos := by decide +kernel
  last_lt := by decide +kernel

/-- **Chunk shapes that fit a word are not enough**: one pixel chunk lies across four flag chunks of
`2 ^ 62` bytes, which together count as none. -/
theorem readCost_wraps :
    wideFlagPlaneChunks.Of wideFlagPlane ∧ wideFlagPlaneFlagChunks.Of wideFlagPlane ∧
    (∏ i ∈ Finset.range wideFlagPlane.rank, wideFlagPlane.length i) < 2 ^ 63 ∧
    chunkVolume wideFlagPlane wideFlagPlaneChunks < 2 ^ 63 ∧
    chunkVolume wideFlagPlane wideFlagPlaneFlagChunks < 2 ^ 63 ∧
    (∃ s, buildSelection wideFlagPlane wideFlagPlaneRequest .logical = .ok s) ∧
    decodedFlagBytes wideFlagPlane wideFlagPlaneChunks wideFlagPlaneFlagChunks = 0 ∧
    ¬ ((wideFlagPlaneRequest.touched wideFlagPlaneFlagChunks).card *
      chunkElements wideFlagPlaneFlagChunks ≤
      (wideFlagPlaneRequest.touched wideFlagPlaneChunks).card *
        decodedFlagBytes wideFlagPlane wideFlagPlaneChunks wideFlagPlaneFlagChunks) := by
  have hzero : decodedFlagBytes wideFlagPlane wideFlagPlaneChunks wideFlagPlaneFlagChunks = 0 := by
    decide +kernel
  have hpos : 0 < (wideFlagPlaneRequest.touched wideFlagPlaneFlagChunks).card := by
    rw [ReadRequest.card_touched wideFlagPlaneRequest_inside]
    exact Finset.prod_pos fun i hi => card_chunks_pos
      (wideFlagPlaneRequest_inside.count_pos i (Finset.mem_range.1 hi))
  have helements : 0 < chunkElements wideFlagPlaneFlagChunks := by decide +kernel
  refine ⟨⟨rfl, by decide +kernel⟩, ⟨rfl, by decide +kernel⟩, by decide +kernel, by decide +kernel,
    by decide +kernel, buildSelection_of_valid (by decide +kernel)
      ⟨wideFlagPlaneRequest_inside, by decide +kernel⟩ .logical, hzero, ?_⟩
  rw [hzero, Nat.mul_zero]
  exact not_le.2 (Nat.mul_pos hpos helements)

end CartaZarr
