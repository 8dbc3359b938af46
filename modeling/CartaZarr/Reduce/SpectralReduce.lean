import CartaZarr.ReducibleImage
import CartaZarr.Reduce.RegionPixels
import Mathlib.Algebra.BigOperators.Pi

/-!
# Spectral reductions

`reduceSpectral` reduces some regions, all in one pass over the chunks they occupy. A slab is
accumulated into private partials of its tasks, each of which takes a run of units, and the partials
are merged into the block's totals in order.

What is handed over describes the pixels that were read (`reduceSpectral_describes`): in a block
that is complete, of all the pixels a region selects in the plane, whatever the chunks, the budget,
the hint and the pool.
-/

namespace CartaZarr

open Word StatisticSlots

/-! ## The model -/

/-- The memory the partials of a spectral reduction may occupy together. -/
def kSpectralPartialBudgetBytes : ℕ := 16 * 2 ^ 20

/-- One request for the statistics of some regions. -/
structure SpectralReduceRequest where
  planes : PlaneSelection
  regions : BufferView RegionMask
  statistics : StatisticSet
  emitEveryChannels : ℕ

/-- What one channel of a block over `regions` regions occupies. -/
def StatisticLayout.bytesPerChannel (layout : StatisticLayout) (regions : ℕ) : ℕ :=
  mul (mul regions layout.stored) 8

/-- An accumulator, and how many channels it has. -/
abbrev BlockSlots (layout : StatisticLayout) (regions : ℕ) : Type :=
  Σ channels, StatisticSlots layout regions channels

section Model

variable {layout : StatisticLayout} {regions channels : ℕ} {ω : Type}
  (occupancy : Occupancy) (plan : PassPlan)

/-- How many chunk cells of a footprint a channel of it is cut into. -/
def OccupiedFootprint.cellCount (footprint : OccupiedFootprint) : ℕ :=
  max 1 (mul (sub footprint.chunkCvEnd footprint.chunkCvBegin)
    (sub footprint.chunkCuEnd footprint.chunkCuBegin))

/-- Units `[first, last)` of a slab: channel by channel, and in each the cells row by row. -/
def accumulateUnits (footprint : OccupiedFootprint) (slab : Slab (Option ℚ)) (first last : ℕ)
    (s : StatisticSlots layout regions channels) : StatisticSlots layout regions channels :=
  let cuSpan := sub footprint.chunkCuEnd footprint.chunkCuBegin
  let cells := footprint.cellCount
  (List.range' first (last - first)).foldl (fun s unit =>
    let channel := unit / cells
    let cell := unit % cells
    accumulateUnit slab occupancy plan footprint channel
      (add footprint.chunkCvBegin (cell / cuSpan))
      (add footprint.chunkCuBegin (cell % cuSpan)) s) s

/-- The private partials of the tasks, each as long as the slab, when these calls are made. -/
def slabPartials (footprint : OccupiedFootprint) (slab : Slab (Option ℚ)) (tasks : ℕ)
    (calls : List BodyCall) :
    List (StatisticSlots layout regions slab.channelCount) :=
  calls.foldl (fun partials call =>
    partials.modify call.task (accumulateUnits occupancy plan footprint slab call.first call.last))
    (List.replicate tasks (.reset layout regions slab.channelCount))

/-- How the units of a slab are divided. -/
def slabSplit (layout : StatisticLayout) (regions slabLength : ℕ)
    (workers : TaskPool ω) : TaskSplit :=
  .of workers.size kSpectralPartialBudgetBytes
    (max 1 (mul (layout.bytesPerChannel regions) slabLength))

/-- One read's worth of pixels, accumulated into the block's totals. -/
def accumulateSlab (workers : TaskPool ω) (footprint : OccupiedFootprint) (slab : Slab (Option ℚ))
    (s : BlockSlots layout regions) (w : ω) : BlockSlots layout regions × ω :=
  let units := mul slab.channelCount footprint.cellCount
  let split := slabSplit layout regions slab.channelCount workers
  let tasks := split.tasks (mul plan.chunkU plan.chunkV) units
  let called := workers.calls tasks units w
  let partials := slabPartials occupancy plan footprint slab tasks called.1
  (⟨s.1, s.2.mergeInOrder (partials.map (Sigma.mk slab.channelCount)) slab.firstChannel⟩, called.2)

/-- The reduction that accumulates regions for a sink. -/
def spectralReduction (layout : StatisticLayout) (regions : ℕ) (workers : TaskPool ω)
    (sink : SpectralBlock → ω → Bool × ω) :
    Reduction OccupiedFootprint (BlockSlots layout regions) SpectralBlock ω (Option ℚ) where
  reset length _ := ⟨length, .reset layout regions length⟩
  visit footprint slab s w :=
    match footprint with
    | some footprint => accumulateSlab occupancy plan workers footprint slab s w
    | none => (s, w)
  handOver firstChannel _ complete completeness s :=
    let settled := s.2.settle true
    (settled.block firstChannel complete completeness, ⟨s.1, settled.settle false⟩)
  sink := sink

end Model

/-- What a spectral reduction goes by, once its request is checked. -/
structure SpectralSetup (ω : Type) where
  sink : SpectralBlock → ω → Bool × ω
  plan : PassPlan
  occupancy : Occupancy
  footprints : List OccupiedFootprint

namespace ReducibleImage

variable {ω : Type} (image : ReducibleImage ω (Option ℚ))

/-- The plane of an image. -/
def plane : PlaneExtent :=
  ⟨image.descriptor.length image.map.x, image.descriptor.length image.map.y⟩

/-- What is refused before anything is read, and else what the reduction goes by; none when finding
the chunks of the regions does not end. -/
def checkSpectral (request : SpectralReduceRequest) (sink : Option (SpectralBlock → ω → Bool × ω))
    (options : ReadOptions) : Option (Except Error (SpectralSetup ω)) :=
  let node := image.descriptor.id
  match sink with
  | none => some (.error ⟨.invalidArgument, "A spectral reduction needs a sink", node⟩)
  | some sink =>
    if request.statistics = ∅ then
      some (.error ⟨.invalidArgument, "A spectral reduction needs at least one statistic", node⟩)
    else
      match image.plan request.planes 1 options with
      | .error e => some (.error e)
      | .ok plan =>
        (Occupancy.of request.regions image.plane plan.chunkU plan.chunkV
          (if plan.swapsSpatial then .spatialY else .spatialX) node).bind fun placed =>
            match placed with
            | .error e => some (.error e)
            | .ok occupancy => (occupancy.footprints plan.chunksPerRead).map fun footprints =>
                .ok ⟨sink, plan, occupancy, footprints⟩

/-- Reduce every region over each selected plane: how it ends, what the sink was handed, and the
world then. -/
def reduceSpectral (fuel : ℕ) (request : SpectralReduceRequest)
    (sink : Option (SpectralBlock → ω → Bool × ω))
    (options : ReadOptions) (control : ReadControl ω) (w : ω) :
    Option (Except (Halt Error) Unit × List SpectralBlock × ω) :=
  (image.checkSpectral request sink options).map fun checked =>
    match checked with
    | .error e => (.error (.error e), [], w)
    | .ok setup =>
      let layout := StatisticLayout.of request.statistics
      let regions := request.regions.size
      let walk : SlabWalk ω (Option ℚ) := ⟨image.source, setup.plan, control⟩
      (spectralReduction setup.occupancy setup.plan layout regions image.workers
        setup.sink).inBlocks
        (passOverFootprints (walk.beside (BlockSlots layout regions) SpectralBlock) setup.footprints
          "The spectral reduction was cancelled by its sink")
        fuel (layout.bytesPerChannel regions) request.emitEveryChannels
          ⟨0, .reset layout regions 0⟩ w

end ReducibleImage

/-! ## Slabs -/

section Slab

variable {layout : StatisticLayout} {channels : ℕ} {given : List RegionMask} {plane : PlaneExtent}
  {swapSpatial : Bool} {occupancy : Occupancy} {plan : PassPlan} {footprint : OccupiedFootprint}
  (hserves : occupancy.Serves given swapSpatial plane plan.chunkU plan.chunkV footprint)

/-- The chunk cell of a unit. -/
def OccupiedFootprint.cellOf (footprint : OccupiedFootprint) (unit : ℕ) : ℕ × ℕ :=
  (footprint.chunkCuBegin + unit % footprint.cellCount %
    (footprint.chunkCuEnd - footprint.chunkCuBegin),
    footprint.chunkCvBegin + unit % footprint.cellCount /
      (footprint.chunkCuEnd - footprint.chunkCuBegin))

/-- What a unit brings, when the slab has `f` at each channel. -/
def unitPixels (footprint : OccupiedFootprint) (plan : PassPlan) (sel : ℕ → ℕ → ℕ → Bool)
    (f : ℕ → ℕ → ℕ → Option ℚ) (unit : ℕ) : ℕ → ℕ → Multiset (Option ℚ) := fun r channel =>
  if channel = unit / footprint.cellCount then
    footprint.cellPixels plan.chunkU plan.chunkV (sel r) (f (unit / footprint.cellCount))
      (footprint.cellOf unit).1
      (footprint.cellOf unit).2
  else 0

include hserves

theorem ends_lt : footprint.chunkCuEnd < 2 ^ 64 ∧ footprint.chunkCvEnd < 2 ^ 64 := by
  have hcu := hserves.cu_lt
  have hcv := hserves.cv_lt
  obtain ⟨hu, hv⟩ := hserves.ends (footprint.chunkCuEnd - 1) (footprint.chunkCvEnd - 1)
    (OccupiedFootprint.mem_chunkCells.2 ⟨by omega, by omega, by omega, by omega⟩)
  rw [Nat.sub_add_cancel (by omega)] at hu hv
  exact ⟨lt_of_le_of_lt (Nat.le_mul_of_pos_right _ hserves.chunkU_pos) hu,
    lt_of_le_of_lt (Nat.le_mul_of_pos_right _ hserves.chunkV_pos) hv⟩

/-- The cells of a footprint are its chunks. -/
theorem cellCount_eq : footprint.cellCount =
    (footprint.chunkCvEnd - footprint.chunkCvBegin) *
      (footprint.chunkCuEnd - footprint.chunkCuBegin) := by
  have hcu := hserves.cu_lt
  have hcv := hserves.cv_lt
  obtain ⟨hu, hv⟩ := ends_lt hserves
  have hcard := hserves.cells_lt
  rw [OccupiedFootprint.chunkCells, Finset.card_product, Nat.card_Ico, Nat.card_Ico,
    Nat.mul_comm] at hcard
  have hpos : 0 < (footprint.chunkCvEnd - footprint.chunkCvBegin) *
      (footprint.chunkCuEnd - footprint.chunkCuBegin) := Nat.mul_pos (by omega) (by omega)
  rw [OccupiedFootprint.cellCount, sub_eq hcu.le hu, sub_eq hcv.le hv, mul_eq hcard]
  omega

/-- A unit is of one chunk cell of the footprint. -/
theorem cellOf_mem (unit : ℕ) : footprint.cellOf unit ∈ footprint.chunkCells := by
  have hcu := hserves.cu_lt
  have hcv := hserves.cv_lt
  have hcount := cellCount_eq hserves
  have hcell : unit % footprint.cellCount < (footprint.chunkCvEnd - footprint.chunkCvBegin) *
      (footprint.chunkCuEnd - footprint.chunkCuBegin) := by
    rw [← hcount]
    exact Nat.mod_lt _ (by rw [hcount]; exact Nat.mul_pos (by omega) (by omega))
  have hcolumn := Nat.mod_lt (unit % footprint.cellCount)
      (show 0 < footprint.chunkCuEnd - footprint.chunkCuBegin by
    omega)
  have hrow := (Nat.div_lt_iff_lt_mul
    (show 0 < footprint.chunkCuEnd - footprint.chunkCuBegin by omega)).2 hcell
  unfold OccupiedFootprint.cellOf
  generalize unit % footprint.cellCount %
    (footprint.chunkCuEnd - footprint.chunkCuBegin) = column at hcolumn ⊢
  generalize unit % footprint.cellCount /
    (footprint.chunkCuEnd - footprint.chunkCuBegin) = row at hrow ⊢
  exact OccupiedFootprint.mem_chunkCells.2 ⟨by omega, by omega, by omega, by omega⟩

variable (hplane : plane.Counted) {slab : Slab (Option ℚ)} {f : ℕ → ℕ → ℕ → Option ℚ}
  (hpixel : ∀ channel < channels, ∀ i < footprint.slab.uCount, ∀ j < footprint.slab.vCount,
    slab.pixel (channel * slab.strideZ + j * slab.strideV + i * slab.strideU) =
      f channel (footprint.slab.uStart + i) (footprint.slab.vStart + j))
include hplane hpixel

/-- **A run of units** brings what each of them does. -/
theorem accumulateUnits_carries {first last : ℕ} (hlast : last ≤ channels * footprint.cellCount)
    {pixels : ℕ → ℕ → Multiset (Option ℚ)} {s : StatisticSlots layout given.length channels}
    (h : Carries pixels s) :
    Carries (pixels + ((List.range' first (last - first)).map
        (unitPixels footprint plan (regionSelects given swapSpatial) f)).sum)
      (accumulateUnits occupancy plan footprint slab first last s) := by
  have hcu := hserves.cu_lt
  have hcv := hserves.cv_lt
  obtain ⟨hu, hv⟩ := ends_lt hserves
  have hcount := cellCount_eq hserves
  have hpos : 0 < footprint.cellCount := by
    rw [hcount]
    exact Nat.mul_pos (by omega) (by omega)
  unfold accumulateUnits
  dsimp only
  rw [sub_eq hcu.le hu]
  refine foldl_holds (fun unit hunit pixels s h => ?_) h
  have hunit := List.mem_range'_1.1 hunit
  have hchannel : unit / footprint.cellCount < channels := (Nat.div_lt_iff_lt_mul hpos).2 (by omega)
  have hmem := cellOf_mem hserves unit
  obtain ⟨-, hcolumn, -, hrow⟩ := OccupiedFootprint.mem_chunkCells.1 hmem
  rw [add_eq (by omega), add_eq (by omega)]
  exact accumulateUnit_carries hplane hserves hchannel hmem (hpixel _ hchannel) h

omit hplane hpixel in
/-- **The units of a slab** bring what is selected in it, each pixel once. -/
theorem sum_unitPixels (hstrides : footprint.slab.uStride = 1 ∧ footprint.slab.vStride = 1)
    (hchunks : footprint.chunkCuBegin * plan.chunkU ≤ footprint.slab.uStart ∧
      footprint.slab.uStart + footprint.slab.uCount ≤ footprint.chunkCuEnd * plan.chunkU ∧
      footprint.chunkCvBegin * plan.chunkV ≤ footprint.slab.vStart ∧
      footprint.slab.vStart + footprint.slab.vCount ≤ footprint.chunkCvEnd * plan.chunkV)
    (sel : ℕ → ℕ → ℕ → Bool) (f : ℕ → ℕ → ℕ → Option ℚ) {r channel : ℕ}
    (hchannel : channel < channels) :
    ((List.range (channels * footprint.cellCount)).map
    (unitPixels footprint plan sel f)).sum r channel =
      (footprint.slab.samples.filter fun p => sel r p.1 p.2).val.map fun p =>
        f channel p.1 p.2 := by
  have hcu := hserves.cu_lt
  have hcv := hserves.cv_lt
  have hcount := cellCount_eq hserves
  have hspan : 0 < footprint.chunkCuEnd - footprint.chunkCuBegin := by omega
  have hpos : 0 < footprint.cellCount := by
    rw [hcount]
    exact Nat.mul_pos (by omega) hspan
  have hchunk : ∀ {x chunk c : ℕ}, 0 < chunk →
      (x / chunk = c ↔ c * chunk ≤ x ∧ x < (c + 1) * chunk) := by
    intro x chunk c hpos
    rw [Nat.div_eq_iff hpos, Nat.add_mul, one_mul]
    omega
  -- the pixels of a unit, at the channel
  set window : ℕ → Finset (ℕ × ℕ) := fun unit =>
    if channel = unit / footprint.cellCount then
      footprint.slab.samples.filter fun p => sel r p.1 p.2 ∧
        (p.1 / plan.chunkU, p.2 / plan.chunkV) =
        footprint.cellOf unit
    else ∅ with hwindow
  have hunit : ∀ unit, unitPixels footprint plan sel f unit r channel =
      (window unit).val.map fun p => f channel p.1 p.2 := by
    intro unit
    simp only [unitPixels, hwindow]
    split_ifs with hat
    · rw [← hat, OccupiedFootprint.cellPixels, windowPixels]
      congr 2
      ext p
      rw [mem_window, Finset.mem_filter, SlabFootprint.mem_samples,
        SlabFootprint.has_iff_of_whole hstrides,
        Prod.ext_iff]
      dsimp only
      rw [hchunk hserves.chunkU_pos, hchunk hserves.chunkV_pos, max_le_iff, max_le_iff,
        lt_min_iff, lt_min_iff]
      tauto
    · rfl
  have hmem : ∀ unit p, p ∈ window unit ↔ channel = unit / footprint.cellCount ∧
      footprint.slab.Has p.1 p.2 ∧ sel r p.1 p.2 = true ∧
        (p.1 / plan.chunkU, p.2 / plan.chunkV) = footprint.cellOf unit := by
    intro unit p
    simp only [hwindow]
    split_ifs with hat
    · rw [Finset.mem_filter, SlabFootprint.mem_samples]
      tauto
    · simp [hat]
  rw [Pi.list_sum_apply, List.map_map, Pi.list_sum_apply, List.map_map]
  simp only [Function.comp_def, hunit]
  refine sum_val_map ?_ (fun p => ?_) _
  · -- two units of a channel are of two cells
    have hnodup : (List.range (channels * footprint.cellCount)).Nodup := List.nodup_range
    refine hnodup.imp fun {unit unit'} hne => Finset.disjoint_left.2 fun p hp hp' => hne ?_
    obtain ⟨hat, -, -, hcell⟩ := (hmem unit p).1 hp
    obtain ⟨hat', -, -, hcell'⟩ := (hmem unit' p).1 hp'
    obtain ⟨hcolumn, hrow⟩ := Prod.mk.inj (hcell.symm.trans hcell')
    have hcells : unit % footprint.cellCount = unit' % footprint.cellCount := by
      have h := Nat.div_add_mod (unit % footprint.cellCount)
        (footprint.chunkCuEnd - footprint.chunkCuBegin)
      have h' := Nat.div_add_mod (unit' % footprint.cellCount)
        (footprint.chunkCuEnd - footprint.chunkCuBegin)
      rw [Nat.add_left_cancel hcolumn, Nat.add_left_cancel hrow] at h
      exact h.symm.trans h'
    have h := Nat.div_add_mod unit footprint.cellCount
    have h' := Nat.div_add_mod unit' footprint.cellCount
    rw [← hat, hcells] at h
    rw [← hat'] at h'
    exact h.symm.trans h'
  · rw [Finset.mem_filter, SlabFootprint.mem_samples]
    constructor
    · rintro ⟨hhas, hsel⟩
      obtain ⟨hu, hu', hv, hv'⟩ := (SlabFootprint.has_iff_of_whole hstrides).1 hhas
      have hcu₀ := (Nat.le_div_iff_mul_le hserves.chunkU_pos).2 (hchunks.1.trans hu)
      have hcu₁ := (Nat.div_lt_iff_lt_mul hserves.chunkU_pos).2 (hu'.trans_le hchunks.2.1)
      have hcv₀ := (Nat.le_div_iff_mul_le hserves.chunkV_pos).2 (hchunks.2.2.1.trans hv)
      have hcv₁ := (Nat.div_lt_iff_lt_mul hserves.chunkV_pos).2 (hv'.trans_le hchunks.2.2.2)
      obtain ⟨column, hcolumn⟩ := Nat.exists_eq_add_of_le hcu₀
      obtain ⟨row, hrow⟩ := Nat.exists_eq_add_of_le hcv₀
      have hlt : column < footprint.chunkCuEnd - footprint.chunkCuBegin := by omega
      have hcell : row * (footprint.chunkCuEnd - footprint.chunkCuBegin) + column <
          footprint.cellCount := by
        have := Nat.mul_le_mul_right (footprint.chunkCuEnd - footprint.chunkCuBegin)
          (show row + 1 ≤ footprint.chunkCvEnd - footprint.chunkCvBegin by omega)
        rw [Nat.add_mul, one_mul] at this
        omega
      refine ⟨channel * footprint.cellCount +
        (row * (footprint.chunkCuEnd - footprint.chunkCuBegin) + column), ?_,
        (hmem _ p).2 ⟨?_, hhas, hsel, ?_⟩⟩
      · have := Nat.mul_le_mul_right footprint.cellCount (show channel + 1 ≤ channels from hchannel)
        rw [Nat.add_mul, one_mul] at this
        exact List.mem_range.2 (by omega)
      · rw [Nat.mul_comm, Nat.mul_add_div hpos, Nat.div_eq_of_lt hcell, Nat.add_zero]
      · rw [OccupiedFootprint.cellOf, Nat.mul_comm channel, Nat.mul_add_mod, Nat.mod_eq_of_lt hcell,
          Nat.mul_comm row, Nat.mul_add_mod, Nat.mod_eq_of_lt hlt, Nat.mul_add_div hspan,
          Nat.div_eq_of_lt hlt,
          hcolumn, hrow, Nat.add_zero]
    · rintro ⟨unit, -, hp⟩
      obtain ⟨-, hhas, hsel, -⟩ := (hmem unit p).1 hp
      exact ⟨hhas, hsel⟩

omit hpixel in
/-- **The partials of a slab** have together what its units bring, each unit once. -/
theorem slabPartials_carry {slab : Slab (Option ℚ)}
    (hpixel : ∀ channel < slab.channelCount, ∀ i < footprint.slab.uCount,
      ∀ j < footprint.slab.vCount,
      slab.pixel (channel * slab.strideZ + j * slab.strideV + i * slab.strideU) =
        f channel (footprint.slab.uStart + i) (footprint.slab.vStart + j))
    {most tasks : ℕ} {calls : List BodyCall}
    (hcalls : SplitCalls most tasks (slab.channelCount * footprint.cellCount) calls)
    (htasks : 0 < tasks) :
    ∃ partPixels, List.Forall₂ Carries partPixels
        (slabPartials occupancy plan footprint slab tasks calls :
          List (StatisticSlots layout given.length _)) ∧
      partPixels.sum = ((List.range (slab.channelCount * footprint.cellCount)).map
        (unitPixels footprint plan (regionSelects given swapSpatial) f)).sum := by
  set amount : BodyCall → ℕ → ℕ → Multiset (Option ℚ) := fun call =>
    ((List.range' call.first (call.last - call.first)).map
      (unitPixels footprint plan (regionSelects given swapSpatial) f)).sum with hamount
  have hcall : ∀ call ∈ calls, ∀ (pixels : ℕ → ℕ → Multiset (Option ℚ))
      (s : StatisticSlots layout given.length slab.channelCount), Carries pixels s →
      Carries (pixels + amount call)
          (accumulateUnits occupancy plan footprint slab call.first call.last s) :=
    fun call hmem _ _ h => accumulateUnits_carries hserves hplane hpixel (hcalls.inside call hmem) h
  refine ⟨(List.range tasks).map fun k =>
    (calls.map fun call => if call.task = k then amount call else 0).sum,
    List.forall₂_iff_get.2 ⟨?_, fun k hk hk' => ?_⟩, ?_⟩
  · rw [List.length_map, List.length_range, slabPartials, length_foldl_modify,
      List.length_replicate]
  · have hk : k < tasks := by simpa using hk
    have hpart := @foldl_modify_holds _ _ _ _ _ _ _ _ BodyCall.task hcall k 0
      (List.replicate tasks (.reset layout given.length slab.channelCount)) (fun s hs => by
        rw [List.getElem?_replicate, if_pos hk] at hs
        obtain rfl := Option.some.inj hs
        exact carries_reset _ _ _)
    rw [zero_add] at hpart
    have hget := hpart _ (List.getElem?_eq_getElem hk')
    rw [List.get_eq_getElem, List.get_eq_getElem, List.getElem_map, List.getElem_range]
    exact hget
  · have hsum : ((List.range tasks).map fun k =>
        (calls.map fun call => if call.task = k then amount call else 0).sum).sum =
            (calls.map amount).sum :=
      sum_owned amount fun call hmem => by
        have := (hcalls.task_lt call hmem).1
        omega
    rw [hsum, hamount, ← sum_map_flatMap]
    exact (hcalls.units_perm.map _).sum_eq

omit hpixel in
/-- **A slab** brings what its units do, at its channels of the block. -/
theorem accumulateSlab_carries {ω : Type} {workers : TaskPool ω} {slab : Slab (Option ℚ)}
    (hpixel : ∀ channel < slab.channelCount, ∀ i < footprint.slab.uCount,
      ∀ j < footprint.slab.vCount,
      slab.pixel (channel * slab.strideZ + j * slab.strideV + i * slab.strideU) =
        f channel (footprint.slab.uStart + i) (footprint.slab.vStart + j))
    (hpos : 0 < slab.channelCount) (hunits : slab.channelCount * footprint.cellCount ≤ 2 ^ 63)
    {s : BlockSlots layout given.length} (hfits : slab.firstChannel + slab.channelCount ≤ s.1)
    {pixels : ℕ → ℕ → Multiset (Option ℚ)} (h : Carries pixels s.2) (w : ω) :
    ∃ slots : StatisticSlots layout given.length s.1,
      (accumulateSlab occupancy plan workers footprint slab s w).1 = ⟨s.1, slots⟩ ∧
      Carries (pixels + shiftPixels slab.firstChannel slab.channelCount
        ((List.range (slab.channelCount * footprint.cellCount)).map
          (unitPixels footprint plan (regionSelects given swapSpatial) f)).sum) slots := by
  have hcu := hserves.cu_lt
  have hcv := hserves.cv_lt
  have hcells : 0 < footprint.cellCount := by
    rw [cellCount_eq hserves]
    exact Nat.mul_pos (by omega) (by omega)
  have hunits_eq : mul slab.channelCount footprint.cellCount =
      slab.channelCount * footprint.cellCount :=
    mul_eq (lt_of_le_of_lt hunits (by norm_num))
  set split := slabSplit layout given.length slab.channelCount workers with hsplit
  have hmost : 0 < split.most := TaskSplit.most_pos workers.size_pos _ _
  have htasks := split.tasks_pos (mul plan.chunkU plan.chunkV) (Nat.mul_pos hpos hcells)
  have hle := (split.tasks_le hmost (mul plan.chunkU plan.chunkV)
    (slab.channelCount * footprint.cellCount)).1
  have hlt := split.tasks_lt (mul plan.chunkU plan.chunkV) (slab.channelCount * footprint.cellCount)
  have hcalls := @TaskPool.calls_spec _ workers _ _
    (slab.channelCount * footprint.cellCount) hmost hle (by omega) w
  obtain ⟨partPixels, hparts, hsum⟩ :=
    @slabPartials_carry layout given plane swapSpatial occupancy plan footprint
    hserves hplane f slab hpixel _ _ _ hcalls htasks
  have hmerged := h.mergeInOrder hfits hparts
  rw [sum_shiftPixels, hsum] at hmerged
  refine ⟨_, ?_, hmerged⟩
  unfold accumulateSlab
  dsimp only
  rw [hunits_eq]

end Slab

/-! ## What is reported -/

section Report

variable {ω : Type} {layout : StatisticLayout} {given : List RegionMask} {swapSpatial : Bool}

/-- The pixels that each region selects of some reads, by channel of a block. -/
def SlabWalk.selectedPixels (walk : SlabWalk ω (Option ℚ)) (given : List RegionMask)
    (swapSpatial : Bool)
    (first : ℕ) (reads : List (SlabRead OccupiedFootprint)) : ℕ → ℕ →
    Multiset (Option ℚ) := fun r z =>
  walk.pixelsOf (regionSelects given swapSpatial r) reads (first + z)

variable (walk : SlabWalk ω (Option ℚ))

/-- The totals of a block once some reads of it are made. -/
structure BlockSlots.Holds (swapSpatial : Bool) (first length : ℕ)
    (reads : List (SlabRead OccupiedFootprint))
    (s : BlockSlots layout given.length) : Prop where
  length_eq : s.1 = length
  carries : s.2.Carries (walk.selectedPixels given swapSpatial first reads)

/-- What is handed over of some reads of a block. -/
structure SpectralBlock.Shows (layout : StatisticLayout) (given : List RegionMask)
    (swapSpatial : Bool)
    (x : HandOver OccupiedFootprint) (block : SpectralBlock) : Prop where
  firstChannel_eq : block.firstChannel = x.firstChannel
  channelCount_eq : block.channelCount = x.length
  complete_eq : block.complete = x.complete
  completeness_eq : block.completeness = x.completeness
  regionCount_eq : block.regionCount = given.length
  statistics_eq : block.statistics = layout.statistics
  reports : ∀ r < given.length, ∀ z < block.channelCount, (block.totals r z).Reports layout
    (walk.selectedPixels given swapSpatial x.firstChannel x.reads r z)

variable {walk} {plane : PlaneExtent} (hplane : plane.Counted) {occupancy : Occupancy}
  {footprints : List OccupiedFootprint} {workers : TaskPool ω} {sink : SpectralBlock → ω → Bool × ω}
  (hpart : occupancy.Partitioned given swapSpatial walk.plan.chunkU walk.plan.chunkV
    walk.plan.chunksPerRead
    footprints)
  (hserves : ∀ footprint ∈ footprints,
    occupancy.Serves given swapSpatial plane walk.plan.chunkU walk.plan.chunkV footprint)
  (hcells : ∀ footprint ∈ footprints,
    footprint.cellCount ≤ footprint.slab.uCount * footprint.slab.vCount)
  (hd : walk.plan.descriptor.StoredInOrder) (hp : walk.plan.Placed) (h : walk.plan.InRange)
include hplane hpart hserves hcells hd hp h

/-- A read of the block adds what each region selects of it. -/
theorem BlockSlots.Holds.visit {first length : ℕ} {reads : List (SlabRead OccupiedFootprint)}
    {s : BlockSlots layout given.length} (hholds : s.Holds walk swapSpatial first length reads)
    {read : SlabRead OccupiedFootprint} (hread : read.Occupied walk.plan footprints first length)
    (hsmall : read.request.elements ≤ 2 ^ 63) (haccepts : walk.Accepts read) (w : ω) :
    BlockSlots.Holds walk swapSpatial first length (reads ++ [read])
      ((spectralReduction occupancy walk.plan layout given.length workers sink).visit read.footprint
        (walk.visited read) s w).1 := by
  have hfits := hread.fits
  have hvisit := visit_of_fits hd hp h hfits haccepts
  obtain ⟨footprint, hfootprint, hof, hslab⟩ := hread.footprint
  rw [hof]
  set slab := walk.visited read
  obtain ⟨hus, hvs⟩ := hpart.strides footprint hfootprint
  have hblockBegin := hfits.blockBegin_eq
  have hfirst := hfits.first_le
  have hle := hfits.le_end
  have hcount := hfits.le_count
  have hlt := hfits.lt
  have hbegin := hvisit.firstChannel
  have hchannels := hvisit.channelCount
  -- the pixels of the slab are those of the image
  have hpixel : ∀ channel < slab.channelCount, ∀ i < footprint.slab.uCount,
    ∀ j < footprint.slab.vCount,
      slab.pixel (channel * slab.strideZ + j * slab.strideV + i * slab.strideU) =
        walk.valueAt (read.slabBegin + channel) (footprint.slab.uStart + i,
            footprint.slab.vStart + j) := by
    intro channel hchannel i hi j hj
    have hat := hvisit.pixel i (by rwa [hvisit.uCount, hslab]) j
      (by rwa [hvisit.vCount, hslab]) channel hchannel
    rw [hslab, hus, hvs, mul_one, mul_one, hbegin] at hat
    rw [Slab.pixel, List.getD_eq_getElem?_getD, hat]
    rfl
  have hunits : slab.channelCount * footprint.cellCount ≤ 2 ^ 63 := by
    rw [SlabRead.request, SlabFootprint.request, SlabRequest.elements, hslab,
      sub_eq hfits.lt.le (by have := h.count_le; omega), ← hchannels, Nat.mul_comm] at hsmall
    exact (Nat.mul_le_mul_left _ (hcells footprint hfootprint)).trans hsmall
  obtain ⟨slots, hslots, hcarries⟩ :=
    @accumulateSlab_carries layout given plane swapSpatial occupancy walk.plan
    footprint (hserves footprint hfootprint) hplane
    (fun channel u v => walk.valueAt (read.slabBegin + channel) (u, v)) ω workers slab hpixel
      (by omega)
    hunits s (by
      have := hholds.length_eq
      omega) _ hholds.carries w
  have hstate : ((spectralReduction occupancy walk.plan layout given.length workers sink).visit
    (some footprint)
      slab s w).1 = ⟨s.1, slots⟩ := hslots
  rw [hstate]
  refine ⟨hholds.length_eq, hcarries.congr fun r _ z _ => ?_⟩
  simp only [Pi.add_apply, shiftPixels, SlabWalk.selectedPixels, pixelsOf_append_singleton]
  congr 1
  rw [SlabRead.samplesAt, hslab]
  split_ifs with hin hin' hin'
  · rw [@sum_unitPixels slab.channelCount given plane swapSpatial occupancy walk.plan footprint
      (hserves footprint hfootprint) ⟨hus, hvs⟩
        (hpart.in_chunks footprint hfootprint) _ _ _ _ (by omega)]
    refine Multiset.map_congr rfl fun p _ => ?_
    rw [show read.slabBegin + (z - slab.firstChannel) = first + z by omega]
  · omega
  · omega
  · rfl

/-- **What a spectral reduction hands over** is of the reads that were made. -/
theorem spectralReduction_reports :
    (spectralReduction occupancy walk.plan layout given.length workers sink).Reports walk
      (fun first length read => read.Occupied walk.plan footprints first length ∧
        read.request.elements ≤ 2 ^ 63) (fun _ => True) (BlockSlots.Holds walk swapSpatial)
      (SpectralBlock.Shows walk layout given swapSpatial) where
  reset first length s _ := ⟨rfl, carries_reset _ _ _⟩
  ready _ _ _ _ _ := trivial
  visit first length reads read s w hread haccepts hholds :=
    hholds.visit hplane hpart hserves hcells hd hp h hread.1 hread.2 haccepts w
  handOver first length complete completeness reads s hholds := by
    refine ⟨⟨rfl, hholds.length_eq, rfl, rfl, rfl, rfl, fun r hr z hz => ?_⟩, ?_⟩
    · exact hholds.carries.block_describes first complete completeness hr hz
    · have hkept : ((spectralReduction occupancy walk.plan layout given.length workers
        sink).handOver first length
          complete completeness s).2 = s := Sigma.ext rfl (heq_of_eq hholds.carries.settle)
      rw [hkept]
      exact hholds

end Report

namespace ReducibleImage

variable {ω : Type} {image : ReducibleImage ω (Option ℚ)} {request : SpectralReduceRequest}
  {sink : Option (SpectralBlock → ω → Bool × ω)} {options : ReadOptions}

/-- What a request that is not refused asks. -/
theorem checkSpectral_ok {setup : SpectralSetup ω}
    (h : image.checkSpectral request sink options = some (.ok setup)) :
    image.plan request.planes 1 options = .ok setup.plan ∧
      Occupancy.of request.regions image.plane setup.plan.chunkU setup.plan.chunkV
        (if setup.plan.swapsSpatial then .spatialY else .spatialX) image.descriptor.id =
          some (.ok setup.occupancy) ∧
      setup.occupancy.footprints setup.plan.chunksPerRead = some setup.footprints := by
  unfold checkSpectral at h
  cases sink with
  | none => cases h
  | some sink =>
    dsimp only at h
    by_cases hnone : request.statistics = ∅
    · rw [if_pos hnone] at h
      cases h
    rw [if_neg hnone] at h
    cases hplan : image.plan request.planes 1 options with
    | error e =>
      rw [hplan] at h
      cases h
    | ok plan =>
      rw [hplan] at h
      obtain ⟨placed, hplaced, h⟩ := Option.bind_eq_some_iff.1 h
      cases placed with
      | error e => cases h
      | ok occupancy =>
        obtain ⟨footprints, hfootprints, heq⟩ := Option.map_eq_some_iff.1 h
        cases heq
        exact ⟨rfl, hplaced, hfootprints⟩

/-- The pixels that a region selects of a selected plane of the image, at a channel of the
selection. -/
def regionPixels (image : ReducibleImage ω (Option ℚ)) (planes : PlaneSelection)
    (options : ReadOptions)
    (region : RegionMask) (channel : ℕ) : Multiset (Option ℚ) :=
  image.source.regionPixels (appliesPixelMask options image.descriptor) image.descriptor
    image.map planes region
    channel

/-- A region that selects a finite pixel of the plane has one to count. -/
theorem card_regionPixels_pos {planes : PlaneSelection} {options : ReadOptions}
    {region : RegionMask} {channel x y : ℕ} {v : ℚ} (hx : x < image.plane.width)
    (hy : y < image.plane.height) (hselects : region.selects x y = true)
    (hpixel : image.source.maskedPixel (appliesPixelMask options image.descriptor)
      (planeIndex image.descriptor image.map planes channel x y) = some v) :
    0 < (finitePixels (image.regionPixels planes options region channel)).card := by
  have hplace : (x, y) ∈ (Finset.range image.plane.width ×ˢ Finset.range image.plane.height).filter
      fun p => region.selects p.1 p.2 = true :=
    Finset.mem_filter.2 ⟨Finset.mem_product.2 ⟨Finset.mem_range.2 hx, Finset.mem_range.2 hy⟩,
      hselects⟩
  exact Multiset.card_pos_iff_exists_mem.2 ⟨v, (Multiset.mem_filterMap _ _).2
    ⟨some v, Multiset.mem_map.2 ⟨(x, y), hplace, hpixel⟩, rfl⟩⟩

/-- The pass a spectral reduction makes. -/
def spectralPass (image : ReducibleImage ω (Option ℚ)) (plan : PassPlan) (control : ReadControl ω)
    (footprints : List OccupiedFootprint) : Pass OccupiedFootprint ω (Option ℚ) :=
  passOverFootprints ⟨image.source, plan,
    control⟩ footprints "The spectral reduction was cancelled by its sink"

/-- The slabs that a spectral reduction asks the image for. -/
def spectralSlabs (image : ReducibleImage ω (Option ℚ)) (request : SpectralReduceRequest)
    (sink : Option (SpectralBlock → ω → Bool × ω)) (options : ReadOptions)
    (control : ReadControl ω) : List SlabRequest :=
  match image.checkSpectral request sink options with
  | some (.ok setup) =>
    ((image.spectralPass setup.plan control setup.footprints).blockReads
      ((StatisticLayout.of request.statistics).bytesPerChannel request.regions.size)
      request.emitEveryChannels).map SlabRead.request
  | _ => []

/-- What the sink of a spectral reduction is handed. Blocks that are complete tile the selected
channels, and report every pixel that a region selects of the plane; any block reports the pixels
that were read. -/
structure HandsSpectra (image : ReducibleImage ω (Option ℚ)) (request : SpectralReduceRequest)
    (options : ReadOptions)
    (given : List RegionMask) (pass : Pass OccupiedFootprint ω (Option ℚ))
    (handed : List SpectralBlock) :
    Prop where
  shows : List.Forall₂
    (SpectralBlock.Shows pass.toSlabWalk (.of request.statistics) given pass.plan.swapsSpatial)
    (pass.handOvers ((StatisticLayout.of request.statistics).bytesPerChannel given.length)
      request.emitEveryChannels) handed
  tiling : Tiling 0 ((handed.filter SpectralBlock.complete).map fun block =>
    (block.firstChannel, block.firstChannel + block.channelCount)) request.planes.spectral.count
  reports : ∀ block ∈ handed, block.complete = true → ∀ r region, given[r]? = some region →
    ∀ z < block.channelCount, (block.totals r z).Reports (.of request.statistics)
      (image.regionPixels request.planes options region (block.firstChannel + z))

/-- **A spectral reduction that succeeds** has reported every pixel that a region selects, once, of
a plane of fewer than `2 ^ 64` pixels. -/
theorem reduceSpectral_describes (hd : image.descriptor.StoredInOrder)
    (hlen : ∀ i < image.descriptor.rank, image.descriptor.length i ≤ 2 ^ 63)
    (hplane : image.plane.width * image.plane.height < 2 ^ 64)
    (hbudget : options.readBudgetBytes < 2 ^ 64) {fuel : ℕ}
    (hfuel : request.planes.spectral.count ≤ fuel) {control : ReadControl ω}
    (hslabs : ∀ slab ∈ image.spectralSlabs request sink options control, slab.elements ≤ 2 ^ 63)
    {w w' : ω} {handed : List SpectralBlock}
    (hrun : image.reduceSpectral fuel request sink options control w = some (.ok (), handed, w')) :
    ∃ setup given, image.checkSpectral request sink options = some (.ok setup) ∧
      request.regions.data = some given ∧ (∀ region ∈ given, region.Fits image.plane) ∧
      image.HandsSpectra request options given
        (image.spectralPass setup.plan control setup.footprints) handed := by
  unfold reduceSpectral at hrun
  obtain ⟨checked, hcheck, hrun⟩ := Option.map_eq_some_iff.1 hrun
  cases checked with
  | error e => cases hrun
  | ok setup =>
    obtain ⟨hplan, hof, hfootprints⟩ := checkSpectral_ok hcheck
    obtain ⟨hdescriptor, hmap, hplanes, -, hmask⟩ := plan_fields hplan
    have hlen' := image.descriptor.length_le_of_lt hlen
    have hplaced := plan_placed hplan
    have hrange : setup.plan.InRange := plan_inRange hplan hlen'
    have hplaneEq : setup.plan.plane = image.plane := by
      rw [PassPlan.plane, ReducibleImage.plane, hdescriptor, hmap]
    have hwidth : image.plane.width ≤ 2 ^ 63 := hlen' _
    have hheight : image.plane.height ≤ 2 ^ 63 := hlen' _
    have hcounted : image.plane.Counted :=
      ⟨lt_of_le_of_lt hwidth (by norm_num), lt_of_le_of_lt hheight (by norm_num), hplane⟩
    have hchunks : setup.plan.chunkU < 2 ^ 64 ∧ setup.plan.chunkV < 2 ^ 64 := by
      obtain ⟨planes, -, hmade⟩ := plan_ok hplan
      rw [hmade]
      exact ⟨max_lt (by norm_num) (image.geometry.chunk_lt _),
        max_lt (by norm_num) (image.geometry.chunk_lt _)⟩
    have hread : setup.plan.chunksPerRead < 2 ^ 64 := by
      obtain ⟨planes, -, hmade⟩ := plan_ok hplan
      have hbytes : setup.plan.slabBudgetBytes < 2 ^ 64 := by
        rw [hmade]
        exact ReadCost.budgetBytes_lt _ _ _ hbudget
      exact lt_of_le_of_lt (Nat.div_le_self _ _) hbytes
    obtain ⟨given, hgiven, hfits, hpart, hserves⟩ :=
      occupancy_serves hcounted hwidth hheight hrange hchunks.1
      hchunks.2 hof hread hfootprints
    have hswap : decide ((if setup.plan.swapsSpatial = true then AxisRole.spatialY
      else AxisRole.spatialX) =
        AxisRole.spatialY) = setup.plan.swapsSpatial := by
      cases setup.plan.swapsSpatial <;> rfl
    rw [hswap] at hpart hserves
    rw [← hplaneEq] at hfits hcounted hserves
    set walk : SlabWalk ω (Option ℚ) := ⟨image.source, setup.plan, control⟩ with hwalk
    have hcells : ∀ footprint ∈ setup.footprints,
        footprint.cellCount ≤ footprint.slab.uCount * footprint.slab.vCount := by
      intro footprint hfootprint
      obtain ⟨hserve, hcard⟩ := hserves footprint hfootprint
      rw [cellCount_eq hserve, Nat.mul_comm]
      rwa [OccupiedFootprint.chunkCells, Finset.card_product, Nat.card_Ico, Nat.card_Ico] at hcard
    have hsize : request.regions.size = given.length := (request.regions.size_eq given hgiven).symm
    dsimp only at hrun
    rw [hsize] at hrun
    set layout := StatisticLayout.of request.statistics with hlayout
    have hreports := @spectralReduction_reports ω layout given setup.plan.swapsSpatial walk
      setup.plan.plane hcounted
      setup.occupancy setup.footprints image.workers setup.sink hpart (fun f hf =>
        (hserves f hf).1) hcells
      (hdescriptor ▸ hd) hplaced hrange
    set pass := passOverFootprints
      (walk.beside (BlockSlots layout given.length) SpectralBlock) setup.footprints
      "The spectral reduction was cancelled by its sink" with hpassDef
    have hwalks : pass.toSlabWalk =
      walk.beside (BlockSlots layout given.length) SpectralBlock := rfl
    have hblocks :
      ∀ block ∈ pass.blocks (layout.bytesPerChannel given.length) request.emitEveryChannels,
        block.1 < block.2 ∧ block.2 ≤ setup.plan.planes.spectral.count := fun block hblock =>
      ((hrange.blocks_spec pass.layerChunks (layout.bytesPerChannel given.length)
        request.emitEveryChannels).1.bounds block hblock).2
    have hlengths :
      ∀ block ∈ pass.blocks (layout.bytesPerChannel given.length) request.emitEveryChannels,
        sub block.2 block.1 = block.2 - block.1 := fun block hblock =>
      sub_eq (hblocks block hblock).1.le (by
        have := (hblocks block hblock).2
        have := hrange.count_le
        omega)
    have hsmall : ∀ block ∈ pass.blocks (layout.bytesPerChannel given.length)
        request.emitEveryChannels, ∀ read ∈ pass.reads block.1 block.2,
          read.request.elements ≤ 2 ^ 63 := by
      intro block hblock read hread
      refine hslabs _ ?_
      rw [spectralSlabs, hcheck, hsize]
      exact List.mem_map_of_mem (List.mem_flatMap.2 ⟨block, hblock, hread⟩)
    obtain ⟨hshows, -⟩ := Reduction.inBlocks_handed hwalks hreports hrange (hplanes ▸ hfuel)
      (fun block hblock read hread =>
        ⟨@footprintReads_occupied _ _ (walk.beside _ SpectralBlock) _ _ _ hpart hfits
          hplaced hrange _ _ _ (hblocks block hblock).1.le (hblocks block hblock).2 _ hread,
        hsmall block hblock read hread⟩) trivial hrun
    refine ⟨setup, given, hcheck, hgiven, hplaneEq ▸ hfits, hshows, ?_,
      fun block hblock hcomplete r region hregion z hz => ?_⟩
    · have hspans : (handed.filter SpectralBlock.complete).map
          (fun block => (block.firstChannel, block.firstChannel + block.channelCount)) =
          pass.blocks (layout.bytesPerChannel given.length) request.emitEveryChannels :=
        pass.complete_spans hshows (fun _ _ hshow => hshow.complete_eq)
          (fun _ _ hshow => by rw [hshow.firstChannel_eq, hshow.channelCount_eq])
          (fun block hblock => by
            have hlt := (hblocks block hblock).1
            rw [hlengths block hblock]
            omega)
      rw [hspans, ← hplanes]
      exact (hrange.blocks_spec _ _ _).1
    · obtain ⟨x, hx, hshow⟩ := exists_of_forall₂ hshows hblock
      obtain ⟨channels, hchannels, hfirst, hlength, -, hreads⟩ := pass.mem_handOvers hx
      have hz' : z < channels.2 - channels.1 := by
        rw [← hlengths channels hchannels, ← hlength, ← hshow.channelCount_eq]
        exact hz
      have hreport := hshow.reports r (List.getElem?_eq_some_iff.1 hregion).1 z hz
      rw [hreads (hshow.complete_eq ▸ hcomplete), hfirst, SlabWalk.selectedPixels] at hreport
      have hpixels := @pixelsOf_region _ _ _ walk _ _ _ hpart hfits hplaced hrange hcounted
        "The spectral reduction was cancelled by its sink" _ _ (hblocks channels hchannels).1.le
        (hblocks channels hchannels).2 (channels.1 + z) (Nat.le_add_right _ _)
          (by omega) _ _ hregion
      have hregionPixels : walk.pixelsOf (regionSelects given setup.plan.swapsSpatial r)
          (pass.reads channels.1 channels.2) (channels.1 + z) =
          image.regionPixels request.planes options region (channels.1 + z) := by
        rw [ReducibleImage.regionPixels, ← hmask, ← hdescriptor, ← hmap, ← hplanes, ← hpixels]
        rfl
      rw [hregionPixels] at hreport
      rw [hshow.firstChannel_eq, hfirst]
      exact hreport

end ReducibleImage

/-- The deviations and the extrema of a box and of a masked region, at the even channels of the
small image, handed over two channels at a time. -/
def smallSpectral : SpectralReduceRequest where
  planes := ⟨⟨0, 4, 2⟩, 0, 0⟩
  regions := .of [boxRegion 0 0 4 2, diagonalRegion]
  statistics := {.sumSqDev, .min, .max}
  emitEveryChannels := 2

theorem reduceSpectral_describes_smallImage :
    ∃ (setup : SpectralSetup Unit) (given : List RegionMask) (handed : List SpectralBlock),
      handed.length = 6 ∧ smallImage.HandsSpectra smallSpectral ⟨false, 64⟩ given
      (smallImage.spectralPass setup.plan freeControl setup.footprints) handed := by
  have hends : (smallImage.reduceSpectral 4 smallSpectral (some fun _ w => (true, w))
    ⟨false, 64⟩ freeControl ()).map
      (fun run => (run.1, run.2.1.length)) = some (.ok (), 6) := by
    decide +kernel
  obtain ⟨⟨ended, handed, ⟨⟩⟩, hrun, heq⟩ := Option.map_eq_some_iff.1 hends
  obtain ⟨rfl, hlength⟩ := Prod.mk.inj heq
  obtain ⟨setup, given, -, -, -, hhands⟩ :=
    @ReducibleImage.reduceSpectral_describes Unit smallImage
    smallSpectral (some fun _ w => (true, w)) ⟨false, 64⟩ (by decide) (by decide) (by decide)
      (by decide) 4 (by decide) freeControl (by decide +kernel) () () handed hrun
  exact ⟨setup, given, handed, hlength, hhands⟩

/-- A plane of `2 ^ 63 + 1` rows, in chunks of `2 ^ 63`. -/
def tallImage : ReducibleImage Unit (Option ℚ) := constantImage 1 (2 ^ 63 + 1) 1 (2 ^ 63)

/-- A plane of `2 ^ 33` by `2 ^ 32` pixels, in chunks of one pixel. -/
def vastImage : ReducibleImage Unit (Option ℚ) := constantImage (2 ^ 33) (2 ^ 32) 1 1

/-- The pixels of some boxes, counted in the first channel. -/
def countBoxes (boxes : List RegionMask) : SpectralReduceRequest where
  planes := ⟨⟨0, 1, 1⟩, 0, 0⟩
  regions := .of boxes
  statistics := {.numPixels}
  emitEveryChannels := 1

/-- How a count of some boxes ends, and what is handed over of the last of them. -/
def countLast (image : ReducibleImage Unit (Option ℚ)) (boxes : List RegionMask) :
    Option (Except (Halt Error) Unit × List (Bool × Extended)) :=
  (image.reduceSpectral 1 (countBoxes boxes) (some fun _ w => (true, w)) ⟨false, 64⟩ freeControl
    ()).map fun run => (run.1, run.2.1.map fun block =>
      (block.complete, (block.totals (boxes.length - 1) 0).numPixels))

/-- A pixel is not counted in the chunk row that ends at `2 ^ 64`, nor in the chunk whose number on
the grid is `2 ^ 64`. -/
theorem reduceSpectral_losesBoxes :
    (countLast tallImage [boxRegion 0 (2 ^ 63) 1 1] = some (.ok (), [(true, .finite 0)]) ∧
      0 < (finitePixels (tallImage.regionPixels ⟨⟨0, 1, 1⟩, 0, 0⟩ ⟨false, 64⟩
        (boxRegion 0 (2 ^ 63) 1 1) 0)).card) ∧
    countLast vastImage
        [boxRegion 0 0 1 1, boxRegion (2 ^ 33 - 1) 0 1 1, boxRegion 0 (2 ^ 31) 1 1] =
      some (.ok (), [(false, .finite 0), (true, .finite 0)]) ∧
    0 < (finitePixels (vastImage.regionPixels ⟨⟨0, 1, 1⟩, 0, 0⟩ ⟨false, 64⟩
      (boxRegion 0 (2 ^ 31) 1 1) 0)).card := by
  refine ⟨⟨by decide +kernel, ?_⟩, by decide +kernel, ?_⟩
  · exact @ReducibleImage.card_regionPixels_pos _ tallImage _ _ _ _ 0 (2 ^ 63) 1
      (by decide +kernel) (by decide +kernel) (by decide +kernel) (by decide +kernel)
  · exact @ReducibleImage.card_regionPixels_pos _ vastImage _ _ _ _ 0 (2 ^ 31) 1
      (by decide +kernel) (by decide +kernel) (by decide +kernel) (by decide +kernel)

end CartaZarr
