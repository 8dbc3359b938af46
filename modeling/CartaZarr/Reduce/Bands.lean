import CartaZarr.Reduce.PassSteps

/-!
# The bands of a plane

A pass over the whole plane walks bands of the chunk rows that the sample has a pixel in, and each
band in pieces along its columns. A piece is a rectangle of the chunks sampled
(`bandSegment_cells`): its pixels are the samples in them (`bandSegment_has_iff`). So the pieces
have no chunk in common (`bands_disjoint`), together they have every sample of the plane
(`bands_has_iff`), and the chunks they say they occupy are the ones they do (`bands_chunks`).
-/

namespace CartaZarr

open Word

/-! ## Samples in an interval -/

/-- **The samples of a range.** -/
theorem mem_sampledRange {b e stride x : ℕ} (hs : 0 < stride) (hb : b < 2 ^ 64) (he : e < 2 ^ 64) :
    (∃ j < (sampledRange b e stride).2, x = Strided.coord (sampledRange b e stride).1 stride j) ↔
      ∃ k, x = k * stride ∧ b ≤ x ∧ x < e := by
  have hfirst : ∀ k, b ⌈/⌉ stride ≤ k ↔ b ≤ k * stride := fun k => by
    rw [ceilDiv_le_iff_le_mul hs, Nat.mul_comm]
  have hlast : ∀ k, k < e ⌈/⌉ stride ↔ k * stride < e := fun k => by
    rw [← not_le, ceilDiv_le_iff_le_mul hs, Nat.mul_comm, not_le]
  simp only [sampledRange, ceilQuot_eq hb hs, ceilQuot_eq he hs]
  split_ifs with hlt
  · -- the first sample lies before the end, so its coordinate does not wrap
    have hwrap : b ⌈/⌉ stride * stride < 2 ^ 64 := ((hlast _).1 hlt).trans he
    rw [mul_eq hwrap]
    constructor
    · rintro ⟨j, hj, rfl⟩
      have hk : Strided.coord (b ⌈/⌉ stride * stride) stride j = (b ⌈/⌉ stride + j) * stride := by
        rw [Strided.coord, add_mul]
      exact ⟨b ⌈/⌉ stride + j, hk, hk ▸ (hfirst _).1 (by omega), hk ▸ (hlast _).1 (by omega)⟩
    · rintro ⟨k, rfl, h₁, h₂⟩
      have h₁ := (hfirst k).2 h₁
      have h₂ := (hlast k).2 h₂
      refine ⟨k - b ⌈/⌉ stride, by omega, ?_⟩
      rw [Strided.coord, ← add_mul]
      congr 1
      omega
  · simp only [not_lt_zero, false_and, exists_false, false_iff, not_exists, not_and, not_lt]
    rintro k rfl h₁
    have h₁ := (hfirst k).2 h₁
    by_contra h₂
    have h₂ := (hlast k).2 (by omega)
    omega

section Axis

variable {length chunk sample b e : ℕ}

/-- The range of an axis that a run of its sampled chunks is read with. -/
def runRange (length chunk sample b e : ℕ) : ℕ × ℕ :=
  sampledRange (mul ((chunksSampled length chunk sample).get b) chunk)
    (min length (mul (add ((chunksSampled length chunk sample).get (b + (e - b) - 1)) 1) chunk))
      sample

/-- **The pixels of a run of sampled chunks** are the samples in them. -/
theorem mem_runRange (hl : length ≤ 2 ^ 63) (hc : 0 < chunk)
    (hc' : chunk < 2 ^ 64) (hs : 0 < sample)
    (hbe : b < e) (he : e ≤ (chunksSampled length chunk sample).size) {x : ℕ} :
    (∃ j < (runRange length chunk sample b e).2,
        x = Strided.coord (runRange length chunk sample b e).1 sample j) ↔
      ∃ k, x = k * sample ∧ k < samplesIn length sample ∧ ∃ i, b ≤ i ∧ i < e ∧
        (chunksSampled length chunk sample).get i = Strided.chunkAt 0 sample chunk k := by
  -- the chunks at both ends hold samples, which are below the length
  have hend : ∀ i < (chunksSampled length chunk sample).size,
      ((chunksSampled length chunk sample).get i + 1) * chunk < 2 ^ 64 := fun i hi => by
    obtain ⟨k, hk, e⟩ := exists_sample_of_lt_size hc hs hi
    have hlt : k * sample < length := (lt_samplesIn_iff hs).1 hk
    rw [e, Strided.chunkAt, Strided.coord, Nat.zero_add]
    exact succ_mul_chunk_lt (by omega) hc'
  have hb := hend b (by omega)
  have hlast := hend (e - 1) (by omega)
  have hb' : (chunksSampled length chunk sample).get b * chunk < 2 ^ 64 :=
    lt_of_le_of_lt (Nat.mul_le_mul_right _ (Nat.le_succ _)) hb
  have hadd : (chunksSampled length chunk sample).get (e - 1) + 1 < 2 ^ 64 :=
    lt_of_le_of_lt (Nat.le_mul_of_pos_right _ hc) hlast
  rw [runRange, show b + (e - b) - 1 = e - 1 by omega, mul_eq hb', add_eq hadd, mul_eq hlast,
    mem_sampledRange hs hb' (by omega)]
  constructor
  · rintro ⟨k, rfl, h₁, h₂⟩
    have hk : k < samplesIn length sample := (lt_samplesIn_iff hs).2 (by omega)
    exact ⟨k, rfl, hk, (sample_mem_run_iff hc hs hbe hk).1 ⟨h₁, by omega⟩⟩
  · rintro ⟨k, rfl, hk, hrun⟩
    have hlt : k * sample < length := (lt_samplesIn_iff hs).1 hk
    obtain ⟨h₁, h₂⟩ := (sample_mem_run_iff hc hs hbe hk).2 hrun
    exact ⟨k, rfl, h₁, by omega⟩

/-- The chunks that a run of sampled chunks is read in are its own. -/
theorem chunksOf_runRange (hl : length ≤ 2 ^ 63) (hc : 0 < chunk) (hc' : chunk < 2 ^ 64)
    (hs : 0 < sample) (hbe : b < e) (he : e ≤ (chunksSampled length chunk sample).size) :
    Strided.chunksOf (runRange length chunk sample b e).1 sample chunk 0
        (runRange length chunk sample b e).2 =
      (Finset.Ico b e).image (chunksSampled length chunk sample).get := by
  ext c
  rw [Strided.mem_chunksOf, Finset.mem_image]
  constructor
  · rintro ⟨j, -, hj, rfl⟩
    obtain ⟨k, hx, -, i, hib, hie, hi⟩ := (mem_runRange hl hc hc' hs hbe he).1 ⟨j, hj, rfl⟩
    refine ⟨i, Finset.mem_Ico.2 ⟨hib, hie⟩, ?_⟩
    rw [hi, Strided.chunkAt, Strided.chunkAt, hx, Strided.coord, Nat.zero_add]
  · rintro ⟨i, hi, rfl⟩
    rw [Finset.mem_Ico] at hi
    obtain ⟨k, hk, hik⟩ := exists_sample_of_lt_size hc hs
      (show i < (chunksSampled length chunk sample).size by omega)
    obtain ⟨j, hj, hx⟩ := (mem_runRange hl hc hc' hs hbe he).2
      ⟨k, rfl, hk, i, hi.1, hi.2, hik⟩
    refine ⟨j, Nat.zero_le _, hj, ?_⟩
    rw [hik, Strided.chunkAt, Strided.chunkAt, ← hx, Strided.coord, Nat.zero_add]

end Axis

/-! ## Footprints -/

namespace SlabFootprint

/-- The footprint has the pixel `(u, v)` of the plane. -/
def Has (footprint : SlabFootprint) (u v : ℕ) : Prop :=
  (∃ i < footprint.uCount, u = Strided.coord footprint.uStart footprint.uStride i) ∧
    ∃ j < footprint.vCount, v = Strided.coord footprint.vStart footprint.vStride j

/-- The chunks of a plane that a footprint has a pixel in, each by its place along `u` and `v`. -/
def cells (plan : PassPlan) (footprint : SlabFootprint) : Finset (ℕ × ℕ) :=
  Strided.chunksOf footprint.uStart footprint.uStride plan.chunkU 0 footprint.uCount ×ˢ
    Strided.chunksOf footprint.vStart footprint.vStride plan.chunkV 0 footprint.vCount

theorem mem_cells {plan : PassPlan} {footprint : SlabFootprint} {c : ℕ × ℕ} :
    c ∈ footprint.cells plan ↔
      ∃ u v, footprint.Has u v ∧ u / plan.chunkU = c.1 ∧ v / plan.chunkV = c.2 := by
  simp only [cells, Finset.mem_product, Strided.mem_chunksOf, Nat.zero_le, true_and, Has]
  constructor
  · rintro ⟨⟨i, hi, hu⟩, j, hj, hv⟩
    exact ⟨_, _, ⟨⟨i, hi, rfl⟩, j, hj, rfl⟩, hu, hv⟩
  · rintro ⟨u, v, ⟨⟨i, hi, rfl⟩, j, hj, rfl⟩, hu, hv⟩
    exact ⟨⟨i, hi, hu⟩, j, hj, hv⟩

end SlabFootprint

theorem disjoint_image_Ico {f : ℕ → ℕ} (hf : Function.Injective f) {a b c d : ℕ} (h : b ≤ c) :
    Disjoint ((Finset.Ico a b).image f) ((Finset.Ico c d).image f) := by
  rw [Finset.disjoint_image hf, Finset.disjoint_left]
  intro x hx hx'
  rw [Finset.mem_Ico] at hx hx'
  omega

namespace PassPlan.InRange

variable {plan : PassPlan} (h : plan.InRange)
include h

theorem rows_injective : Function.Injective plan.rows.get :=
  (chunksSampled_get_strictMono h.chunkV_pos h.sample_pos).injective

theorem columns_injective : Function.Injective plan.columns.get :=
  (chunksSampled_get_strictMono h.chunkU_pos h.sample_pos).injective

theorem bandCuts_tiling : Tiling 0 plan.bandCuts plan.rows.size :=
  (cuts_tiling h.bandRows_pos _).2.1

omit h in
theorem segmentCuts_tiling (plan : PassPlan) (bandRows : ℕ) :
    Tiling 0 (plan.segmentCuts bandRows) plan.columns.size :=
  (cuts_tiling (unitsAffordable_pos _ _) _).2.1

variable {row column : ℕ × ℕ}

/-- **A piece of a band is a rectangle of the chunks sampled.** -/
theorem bandSegment_cells (hr : row.1 < row.2) (hr' : row.2 ≤ plan.rows.size)
    (hc : column.1 < column.2) (hc' : column.2 ≤ plan.columns.size) :
    (plan.bandSegment row column).cells plan =
      (Finset.Ico column.1 column.2).image plan.columns.get ×ˢ
        (Finset.Ico row.1 row.2).image plan.rows.get := by
  unfold SlabFootprint.cells
  congr 1
  · exact chunksOf_runRange h.uLength_le h.chunkU_pos h.chunkU_lt h.sample_pos hc hc'
  · exact chunksOf_runRange h.vLength_le h.chunkV_pos h.chunkV_lt h.sample_pos hr hr'

/-- Its pixels are the samples in them. -/
theorem bandSegment_has_iff (hr : row.1 < row.2) (hr' : row.2 ≤ plan.rows.size)
    (hc : column.1 < column.2) (hc' : column.2 ≤ plan.columns.size) {u v : ℕ} :
    (plan.bandSegment row column).Has u v ↔
      (∃ k, u = k * plan.sample ∧ k < samplesIn plan.uLength plan.sample ∧
        ∃ i, column.1 ≤ i ∧ i < column.2 ∧
          plan.columns.get i = Strided.chunkAt 0 plan.sample plan.chunkU k) ∧
      ∃ k, v = k * plan.sample ∧ k < samplesIn plan.vLength plan.sample ∧
        ∃ i, row.1 ≤ i ∧ i < row.2 ∧
          plan.rows.get i = Strided.chunkAt 0 plan.sample plan.chunkV k :=
  and_congr (mem_runRange h.uLength_le h.chunkU_pos h.chunkU_lt h.sample_pos hc hc')
    (mem_runRange h.vLength_le h.chunkV_pos h.chunkV_lt h.sample_pos hr hr')

/-- The pieces of the bands. -/
theorem mem_bands {footprint : SlabFootprint} (hf : footprint ∈ plan.bands) :
    ∃ row ∈ plan.bandCuts, ∃ column ∈ plan.segmentCuts (row.2 - row.1),
      footprint = plan.bandSegment row column ∧ row.1 < row.2 ∧ row.2 ≤ plan.rows.size ∧
        column.1 < column.2 ∧ column.2 ≤ plan.columns.size := by
  obtain ⟨row, hrow, hf⟩ := List.mem_flatMap.1 hf
  obtain ⟨column, hcolumn, rfl⟩ := List.mem_map.1 hf
  obtain ⟨-, hr, hr'⟩ := h.bandCuts_tiling.bounds row hrow
  obtain ⟨-, hc, hc'⟩ := (segmentCuts_tiling plan (row.2 - row.1)).bounds column hcolumn
  exact ⟨row, hrow, column, hcolumn, rfl, hr, hr', hc, hc'⟩

/-- A piece of a band has a pixel, and lies inside the plane. -/
theorem bands_within {footprint : SlabFootprint} (hf : footprint ∈ plan.bands) :
    0 < footprint.uCount ∧ 0 < footprint.uStride ∧
      Strided.coord footprint.uStart footprint.uStride (footprint.uCount - 1) < plan.uLength ∧
    0 < footprint.vCount ∧ 0 < footprint.vStride ∧
      Strided.coord footprint.vStart footprint.vStride (footprint.vCount - 1) < plan.vLength := by
  obtain ⟨row, -, column, -, rfl, hr, hr', hc, hc'⟩ := h.mem_bands hf
  have hiff := fun {u v} => h.bandSegment_has_iff (u := u) (v := v) hr hr' hc hc'
  -- the first chunks of the piece have a sample
  obtain ⟨k, hk, hck⟩ := exists_sample_of_lt_size h.chunkU_pos h.sample_pos
    (show column.1 < plan.columns.size by omega)
  obtain ⟨l, hl, hrl⟩ := exists_sample_of_lt_size h.chunkV_pos h.sample_pos
    (show row.1 < plan.rows.size by omega)
  obtain ⟨⟨i, hi, -⟩, j, hj, -⟩ := hiff.2
    ⟨⟨k, rfl, hk, column.1, le_rfl, hc, hck⟩, l, rfl, hl, row.1, le_rfl, hr, hrl⟩
  -- and its last pixel is one
  obtain ⟨⟨k', hk', hlt, -⟩, l', hl', hlt', -⟩ := hiff.1
    ⟨⟨(plan.bandSegment row column).uCount - 1, by omega, rfl⟩,
      (plan.bandSegment row column).vCount - 1, by omega, rfl⟩
  refine ⟨by omega, h.sample_pos, ?_, by omega, h.sample_pos, ?_⟩
  · rw [hk']
    exact (lt_samplesIn_iff h.sample_pos).1 hlt
  · rw [hl']
    exact (lt_samplesIn_iff h.sample_pos).1 hlt'

/-- **The bands have every sample of the plane**, and no other pixel. -/
theorem bands_has_iff {u v : ℕ} :
    (∃ footprint ∈ plan.bands, footprint.Has u v) ↔
      (plan.sample ∣ u ∧ u < plan.uLength) ∧ plan.sample ∣ v ∧ v < plan.vLength := by
  constructor
  · rintro ⟨footprint, hf, hhas⟩
    obtain ⟨row, -, column, -, rfl, hr, hr', hc, hc'⟩ := h.mem_bands hf
    obtain ⟨⟨k, rfl, hk, -⟩, l, rfl, hl, -⟩ := (h.bandSegment_has_iff hr hr' hc hc').1 hhas
    exact ⟨⟨Dvd.intro_left k rfl, (lt_samplesIn_iff h.sample_pos).1 hk⟩, Dvd.intro_left l rfl,
      (lt_samplesIn_iff h.sample_pos).1 hl⟩
  · rintro ⟨⟨⟨k, rfl⟩, hk⟩, ⟨l, rfl⟩, hl⟩
    rw [Nat.mul_comm] at hk hl
    have hk := (lt_samplesIn_iff h.sample_pos).2 hk
    have hl := (lt_samplesIn_iff h.sample_pos).2 hl
    obtain ⟨i, hi, hik⟩ := chunksSampled_get_of_sample h.chunkU_pos h.sample_pos hk
    obtain ⟨j, hj, hjl⟩ := chunksSampled_get_of_sample h.chunkV_pos h.sample_pos hl
    obtain ⟨row, hrow, hr₁, hr₂⟩ := (h.bandCuts_tiling.mem_iff j).2 ⟨Nat.zero_le _, hj⟩
    obtain ⟨column, hcolumn, hc₁, hc₂⟩ :=
      ((segmentCuts_tiling plan (row.2 - row.1)).mem_iff i).2 ⟨Nat.zero_le _, hi⟩
    obtain ⟨-, hr, hr'⟩ := h.bandCuts_tiling.bounds row hrow
    obtain ⟨-, hc, hc'⟩ := (segmentCuts_tiling plan (row.2 - row.1)).bounds column hcolumn
    refine ⟨plan.bandSegment row column,
      List.mem_flatMap.2 ⟨row, hrow, List.mem_map_of_mem hcolumn⟩,
      (h.bandSegment_has_iff hr hr' hc hc').2 ⟨⟨k, Nat.mul_comm _ _, hk, i, hc₁, hc₂, hik⟩, l,
        Nat.mul_comm _ _, hl, j, hr₁, hr₂, hjl⟩⟩

/-- **The bands have no chunk in common.** -/
theorem bands_disjoint :
    plan.bands.Pairwise fun f f' => Disjoint (f.cells plan) (f'.cells plan) := by
  rw [PassPlan.bands, List.pairwise_flatMap]
  constructor
  · -- pieces of one band differ in their columns
    intro row hrow
    obtain ⟨-, hr, hr'⟩ := h.bandCuts_tiling.bounds row hrow
    have htile := segmentCuts_tiling plan (row.2 - row.1)
    rw [List.pairwise_map]
    refine htile.pairwise.imp_of_mem fun {x y} hx hy hxy => ?_
    obtain ⟨-, hx₁, hx₂⟩ := htile.bounds x hx
    obtain ⟨-, hy₁, hy₂⟩ := htile.bounds y hy
    rw [h.bandSegment_cells hr hr' hx₁ hx₂, h.bandSegment_cells hr hr' hy₁ hy₂]
    exact Finset.disjoint_product.2 (Or.inl (disjoint_image_Ico h.columns_injective hxy))
  · -- bands differ in their rows
    refine h.bandCuts_tiling.pairwise.imp_of_mem fun {x y} hx hy hxy => ?_
    obtain ⟨-, hx₁, hx₂⟩ := h.bandCuts_tiling.bounds x hx
    obtain ⟨-, hy₁, hy₂⟩ := h.bandCuts_tiling.bounds y hy
    intro f hf f' hf'
    obtain ⟨c, hc, rfl⟩ := List.mem_map.1 hf
    obtain ⟨c', hc', rfl⟩ := List.mem_map.1 hf'
    obtain ⟨-, hc₁, hc₂⟩ := (segmentCuts_tiling plan (x.2 - x.1)).bounds c hc
    obtain ⟨-, hc₁', hc₂'⟩ := (segmentCuts_tiling plan (y.2 - y.1)).bounds c' hc'
    rw [h.bandSegment_cells hx₁ hx₂ hc₁ hc₂, h.bandSegment_cells hy₁ hy₂ hc₁' hc₂']
    exact Finset.disjoint_product.2 (Or.inr (disjoint_image_Ico h.rows_injective hxy))

/-- The chunks a band says it occupies are as many as it does, modulo `2 ^ 64`. -/
theorem bands_chunks {footprint : SlabFootprint} (hf : footprint ∈ plan.bands) :
    footprint.chunks = (footprint.cells plan).card % 2 ^ 64 := by
  obtain ⟨row, -, column, -, rfl, hr, hr', hc, hc'⟩ := h.mem_bands hf
  rw [h.bandSegment_cells hr hr' hc hc', Finset.card_product,
    Finset.card_image_of_injective _ h.columns_injective,
    Finset.card_image_of_injective _ h.rows_injective, Nat.card_Ico, Nat.card_Ico]
  rfl

end PassPlan.InRange

end CartaZarr
