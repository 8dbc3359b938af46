import CartaZarr.ChunkBlocks
import CartaZarr.Zarr.PixelSelection

/-!
# What a pass decides before it reads anything

Which axes of an image a plane walk goes along (`mapAxes`), whether an image can give the planes
asked for (`CheckedPlanes`), and the plan of a pass over them (`planPass`): its two spatial axes,
the one the store varies fastest first, the chunks it is cut along and what one read may decode of
them.

A `CheckedPlanes` carries that its spectral range lies inside the image, so a plan made from one
selects coordinates of the spectral axis and no others (`planPass_inRange`).
-/

namespace CartaZarr

open Word

/-! ## Axes -/

/-- Where the axes of a plane walk are, by logical position. -/
structure AxisMap where
  x : ℕ
  y : ℕ
  spectral : ℕ
  polarization : Option ℕ
  time : Option ℕ
  deriving DecidableEq, Repr

/-- The axes found so far, each at the last position that has its role. -/
structure AxesFound where
  x : Option ℕ := none
  y : Option ℕ := none
  spectral : Option ℕ := none
  polarization : Option ℕ := none
  time : Option ℕ := none
  deriving DecidableEq, Repr

/-- The axes from position `i` on. -/
def findAxes (id : String) : List AxisDescriptor → ℕ → AxesFound → Except Error AxesFound
  | [], _, found => .ok found
  | axis :: axes, i, found =>
    match axis.role with
    | .spatialX => findAxes id axes (i + 1) { found with x := some i }
    | .spatialY => findAxes id axes (i + 1) { found with y := some i }
    | .spectral => findAxes id axes (i + 1) { found with spectral := some i }
    | .polarization => findAxes id axes (i + 1) { found with polarization := some i }
    | .time => findAxes id axes (i + 1) { found with time := some i }
    | .other =>
      -- index 0 of an axis nobody named would be a plane the caller never asked about
      if axis.length ≠ 1 then
        .error ⟨.notImplemented, "Axis '" ++ axis.name ++
          "' has no known role and is not degenerate",
          id⟩
      else findAxes id axes (i + 1) found

/-- Where the axes of an image are, when it has the three a plane walk needs. -/
def mapAxes (descriptor : ImageDescriptor) : Except Error AxisMap :=
  match findAxes descriptor.id descriptor.axes 0 {} with
  | .error e => .error e
  | .ok ⟨some x, some y, some spectral, polarization, time⟩ =>
    .ok ⟨x, y, spectral, polarization, time⟩
  | .ok _ =>
    .error ⟨.notImplemented, "A plane walk needs both spatial axes and a spectral axis",
      descriptor.id⟩

/-- Every position found has the role it was found for. -/
structure AxesFound.Sound (d : ImageDescriptor) (found : AxesFound) : Prop where
  x : ∀ i ∈ found.x, i < d.rank ∧ (d.axis i).role = .spatialX
  y : ∀ i ∈ found.y, i < d.rank ∧ (d.axis i).role = .spatialY
  spectral : ∀ i ∈ found.spectral, i < d.rank ∧ (d.axis i).role = .spectral
  polarization : ∀ i ∈ found.polarization, i < d.rank ∧ (d.axis i).role = .polarization
  time : ∀ i ∈ found.time, i < d.rank ∧ (d.axis i).role = .time

theorem findAxes_sound {d : ImageDescriptor} {axes : List AxisDescriptor} {i : ℕ}
    {found found' : AxesFound} (h : findAxes d.id axes i found = .ok found')
    (haxes : axes = d.axes.drop i) (hf : found.Sound d) : found'.Sound d := by
  induction axes generalizing i found with
  | nil =>
    rw [findAxes, Except.ok.injEq] at h
    exact h ▸ hf
  | cons axis axes ih =>
    have hi : i < d.rank := by
      by_contra hlt
      rw [List.drop_eq_nil_of_le (not_lt.1 hlt)] at haxes
      cases haxes
    rw [List.drop_eq_getElem_cons hi, List.cons.injEq,
      ← ImageDescriptor.axis_eq_getElem d hi] at haxes
    obtain ⟨rfl, hrest⟩ := haxes
    -- a new position is this one, and has the role the branch was taken for
    have hnew : ∀ role, (d.axis i).role = role → ∀ j ∈ some i, j < d.rank ∧
        (d.axis j).role = role :=
      fun role hrole j hj => by
        obtain rfl : i = j := by simpa using hj
        exact ⟨hi, hrole⟩
    rw [findAxes] at h
    split at h
    · exact ih h hrest ⟨hnew _ ‹_›, hf.y, hf.spectral, hf.polarization, hf.time⟩
    · exact ih h hrest ⟨hf.x, hnew _ ‹_›, hf.spectral, hf.polarization, hf.time⟩
    · exact ih h hrest ⟨hf.x, hf.y, hnew _ ‹_›, hf.polarization, hf.time⟩
    · exact ih h hrest ⟨hf.x, hf.y, hf.spectral, hnew _ ‹_›, hf.time⟩
    · exact ih h hrest ⟨hf.x, hf.y, hf.spectral, hf.polarization, hnew _ ‹_›⟩
    · split at h
      · cases h
      · exact ih h hrest hf

/-- A map names axes of the image, each of the role it is for. -/
structure AxisMap.Of (d : ImageDescriptor) (map : AxisMap) : Prop where
  x : map.x < d.rank ∧ (d.axis map.x).role = .spatialX
  y : map.y < d.rank ∧ (d.axis map.y).role = .spatialY
  spectral : map.spectral < d.rank ∧ (d.axis map.spectral).role = .spectral
  polarization : ∀ i ∈ map.polarization, i < d.rank ∧ (d.axis i).role = .polarization
  time : ∀ i ∈ map.time, i < d.rank ∧ (d.axis i).role = .time

theorem mapAxes_of {d : ImageDescriptor} {map : AxisMap} (h : mapAxes d = .ok map) : map.Of d := by
  unfold mapAxes at h
  split at h
  · cases h
  · rename_i x y spectral polarization time hfound
    rw [Except.ok.injEq] at h
    obtain ⟨hx, hy, hs, hp, ht⟩ :=
      findAxes_sound hfound rfl ⟨by simp, by simp, by simp, by simp, by simp⟩
    rw [← h]
    exact ⟨hx x rfl, hy y rfl, hs spectral rfl, hp, ht⟩
  · cases h

/-! ## Planes -/

/-- The planes a reduction is over. -/
structure PlaneSelection where
  spectral : Range
  polarization : ℕ
  time : ℕ
  deriving DecidableEq, Repr

/-- Whether an image can give these planes. -/
def checkPlanes (descriptor : ImageDescriptor) (map : AxisMap) (planes : PlaneSelection) :
    Except Error Unit :=
  let refuse (message : String) : Except Error Unit :=
    .error ⟨.invalidArgument, message, descriptor.id⟩
  if planes.spectral.stride = 0 ∨ planes.spectral.count = 0 ∨
      planes.spectral.Exceeds (descriptor.length map.spectral) then
    refuse "The spectral range falls outside the image"
  else if map.polarization.isNone ∧ planes.polarization ≠ 0 then
    refuse "The image has no polarization axis, so only polarization 0 selects a plane"
  else if map.polarization.any fun i => descriptor.length i ≤ planes.polarization then
    refuse "The polarization index falls outside the image"
  else if map.time.isNone ∧ planes.time ≠ 0 then
    refuse "The image has no time axis, so only time 0 selects a plane"
  else if map.time.any fun i => descriptor.length i ≤ planes.time then
    refuse "The time index falls outside the image"
  else .ok ()

/-- A plane selection that an image has agreed to serve. -/
structure CheckedPlanes (descriptor : ImageDescriptor) (map : AxisMap) where
  selection : PlaneSelection
  checked : checkPlanes descriptor map selection = .ok ()

namespace CheckedPlanes

variable {d : ImageDescriptor} {map : AxisMap}

/-- The only way to get checked planes is to check them. -/
def of (descriptor : ImageDescriptor) (map : AxisMap) (planes : PlaneSelection) :
    Except Error (CheckedPlanes descriptor map) :=
  match h : checkPlanes descriptor map planes with
  | .ok () => .ok ⟨planes, h⟩
  | .error e => .error e

theorem checks (p : CheckedPlanes d map) :
    (0 < p.selection.spectral.stride ∧ 0 < p.selection.spectral.count ∧
      Strided.coord p.selection.spectral.start p.selection.spectral.stride
        (p.selection.spectral.count - 1) < d.length map.spectral) ∧
    (∀ i ∈ map.polarization, p.selection.polarization < d.length i) ∧
    ∀ i ∈ map.time, p.selection.time < d.length i := by
  have h := p.checked
  unfold checkPlanes at h
  simp only at h
  split_ifs at h with h₁ h₂ h₃ h₄ h₅
  push Not at h₁
  obtain ⟨hs, hn, hin⟩ := h₁
  refine ⟨⟨Nat.pos_of_ne_zero hs, Nat.pos_of_ne_zero hn,
    (Range.not_exceeds_iff (Nat.pos_of_ne_zero hs)).1 hin⟩, fun i hi => ?_, fun i hi => ?_⟩
  · by_contra hle
    exact h₃ ((Option.any_eq_true _ _).2 ⟨i, hi, by simpa using hle⟩)
  · by_contra hle
    exact h₅ ((Option.any_eq_true _ _).2 ⟨i, hi, by simpa using hle⟩)

end CheckedPlanes

/-! ## The plan -/

/-- The memory one emitted block may occupy. -/
def kSpectralEmitBudgetBytes : ℕ := 64 * 2 ^ 20

/-- How a pass walks an image. Along `u` the store varies fastest; `v` is the other spatial axis. -/
structure PassPlan where
  descriptor : ImageDescriptor
  map : AxisMap
  axisU : ℕ
  axisV : ℕ
  uLength : ℕ
  vLength : ℕ
  chunkU : ℕ
  chunkV : ℕ
  chunkBytes : ℕ
  slabBudgetBytes : ℕ
  bandRows : ℕ
  layerChunks : ℕ
  planes : PlaneSelection
  sample : ℕ
  applyMask : Bool
  chunkDepth : ℕ
  leastChannels : ℕ
  deriving DecidableEq, Repr

namespace PassPlan

/-- Whether `u` is the image's y rather than its x. -/
def swapsSpatial (plan : PassPlan) : Bool := plan.axisU = plan.map.y

/-- How many chunks along the spectrum the selected channels `[begin_, end_)` touch. -/
def chunksTouched (plan : PassPlan) (begin_ end_ : ℕ) : ℕ :=
  CartaZarr.chunksTouched (add plan.planes.spectral.start (mul begin_ plan.planes.spectral.stride))
    (sub end_ begin_) plan.planes.spectral.stride plan.chunkDepth

/-- The chunks a walk over the channels `[begin_, end_)` decodes. -/
def chunksCovering (plan : PassPlan) (layerChunks begin_ end_ : ℕ) : ℕ :=
  max 1 (mul layerChunks (plan.chunksTouched begin_ end_))

/-- How many chunks one read may decode. -/
def chunksPerRead (plan : PassPlan) : ℕ := plan.slabBudgetBytes / max 1 plan.chunkBytes

/-- How many units of `chunksPerUnit` chunks one read affords. -/
def unitsAffordable (plan : PassPlan) (chunksPerUnit : ℕ) : ℕ :=
  CartaZarr.unitsAffordable plan.chunksPerRead chunksPerUnit

/-- How many channels one slab may hold over a footprint of `footprintChunks` chunks. -/
def slabChannels (plan : PassPlan) (footprintChunks : ℕ) : ℕ :=
  max 1 (mul (plan.unitsAffordable footprintChunks) plan.leastChannels)

/-- The end of a slab, moved onto a chunk boundary so that no decode serves two slabs. -/
def alignedSlabEnd (plan : PassPlan) (begin_ desired end_ : ℕ) : ℕ :=
  alignedBlockEnd begin_ desired end_ plan.planes.spectral.start plan.planes.spectral.stride
    plan.chunkDepth

/-- How many channels one emitted block may hold. -/
def emitChannels (plan : PassPlan) (layerChunks bytesPerChannel hint : ℕ) : ℕ :=
  let budgetChannels := max 1 (kSpectralEmitBudgetBytes / max 1 bytesPerChannel)
  let spatialChannels :=
    if layerChunks = 0 then plan.planes.spectral.count
    else mul (min plan.planes.spectral.count (plan.unitsAffordable layerChunks)) plan.leastChannels
  min (if hint = 0 then spatialChannels else hint) (min budgetChannels plan.planes.spectral.count)

end PassPlan

/-- The chunks of an axis that the sample has a pixel in. -/
def chunksUnderSample (length chunk sample : ℕ) : ℕ :=
  if length = 0 then 0 else chunksTouched 0 ((length - 1) / sample + 1) sample chunk

/-- The chunks the sample has a pixel in are as many as those sampled. -/
theorem chunksUnderSample_eq {length chunk sample : ℕ} (hl : length ≤ 2 ^ 64) (hc : 0 < chunk)
    (hs : 0 < sample) :
    chunksUnderSample length chunk sample = (chunksSampled length chunk sample).size := by
  rw [chunksSampled_size hc hs, chunksUnderSample, samplesIn]
  split_ifs with h0
  · simp [Strided.chunksOf]
  · refine chunksTouched_eq_card hs hc ?_
    have := Nat.div_mul_le_self (length - 1) sample
    rw [Nat.add_sub_cancel, Strided.coord]
    omega

/-- The plan of a pass. -/
def planPass (descriptor : ImageDescriptor) (geometry flagGeometry : ChunkGeometry) (map : AxisMap)
    (planes : CheckedPlanes descriptor map) (sample : ℕ) (options : ReadOptions) : PassPlan :=
  let spectral := planes.selection.spectral
  let swapSpatial := geometry.fastestSpatialAxis = .spatialY
  let axisU := if swapSpatial then map.y else map.x
  let axisV := if swapSpatial then map.x else map.y
  let uLength := descriptor.length axisU
  let vLength := descriptor.length axisV
  let chunkU := max 1 (geometry.chunk axisU)
  let chunkV := max 1 (geometry.chunk axisV)
  let chunkDepth := max 1 (geometry.chunk map.spectral)
  let cost := ReadCost.of descriptor geometry flagGeometry options
  let sample := max 1 sample
  let rowChunks := max 1 (chunksUnderSample uLength chunkU sample)
  let columnChunks := max 1 (chunksUnderSample vLength chunkV sample)
  { descriptor, map, axisU, axisV, uLength, vLength, chunkU, chunkV
    chunkBytes := cost.chunkBytes
    slabBudgetBytes := cost.budgetBytes
    bandRows := unitsAffordable (cost.budgetBytes / max 1 cost.chunkBytes) rowChunks
    layerChunks := max 1 (mul rowChunks columnChunks)
    planes := planes.selection
    sample
    applyMask := cost.applyMask
    chunkDepth
    leastChannels := ceilQuot chunkDepth spectral.stride }

/-! ## Plans in range -/

/-- A plan whose channels are below `2 ^ 63`. -/
structure PassPlan.SpectralInRange (plan : PassPlan) : Prop where
  stride_pos : 0 < plan.planes.spectral.stride
  last_lt : Strided.coord plan.planes.spectral.start plan.planes.spectral.stride
    (plan.planes.spectral.count - 1) < 2 ^ 63
  depth_pos : 0 < plan.chunkDepth
  depth_lt : plan.chunkDepth < 2 ^ 64

/-- A plan whose axes have fewer than `2 ^ 63` elements, and whose other numbers are as `planPass`
makes them. -/
structure PassPlan.InRange (plan : PassPlan) : Prop extends plan.SpectralInRange where
  count_pos : 0 < plan.planes.spectral.count
  chunkU_pos : 0 < plan.chunkU
  chunkU_lt : plan.chunkU < 2 ^ 64
  chunkV_pos : 0 < plan.chunkV
  chunkV_lt : plan.chunkV < 2 ^ 64
  uLength_le : plan.uLength ≤ 2 ^ 63
  vLength_le : plan.vLength ≤ 2 ^ 63
  sample_pos : 0 < plan.sample
  bandRows_pos : 0 < plan.bandRows

theorem planPass_inRange {d : ImageDescriptor} (g f : ChunkGeometry) {map : AxisMap}
    (p : CheckedPlanes d map) (sample : ℕ) (o : ReadOptions) (hd : ∀ i, d.length i ≤ 2 ^ 63) :
    (planPass d g f map p sample o).InRange where
  stride_pos := p.checks.1.1
  count_pos := p.checks.1.2.1
  last_lt := lt_of_lt_of_le p.checks.1.2.2 (hd _)
  depth_pos := lt_of_lt_of_le Nat.one_pos (le_max_left _ _)
  depth_lt := max_lt (by norm_num) (g.chunk_lt _)
  chunkU_pos := lt_of_lt_of_le Nat.one_pos (le_max_left _ _)
  chunkU_lt := max_lt (by norm_num) (g.chunk_lt _)
  chunkV_pos := lt_of_lt_of_le Nat.one_pos (le_max_left _ _)
  chunkV_lt := max_lt (by norm_num) (g.chunk_lt _)
  uLength_le := hd _
  vLength_le := hd _
  sample_pos := lt_of_lt_of_le Nat.one_pos (le_max_left _ _)
  bandRows_pos := unitsAffordable_pos _ _

namespace PassPlan

/-- The chunks along the spectrum that the selected channels `[b, e)` lie in. -/
def spectralChunks (plan : PassPlan) (b e : ℕ) : Finset ℕ :=
  Strided.chunksOf plan.planes.spectral.start plan.planes.spectral.stride plan.chunkDepth b e

/-- A channel at which no chunk is shared with the channel before. -/
def Boundary (plan : PassPlan) (b : ℕ) : Prop :=
  Strided.Boundary plan.planes.spectral.start plan.planes.spectral.stride plan.chunkDepth b

section Spectral

variable {plan : PassPlan} (h : plan.SpectralInRange)
include h

theorem SpectralInRange.count_le : plan.planes.spectral.count ≤ 2 ^ 63 :=
  total_le_of_coord_lt h.stride_pos h.last_lt

theorem SpectralInRange.coord_lt {i : ℕ} (hi : i < plan.planes.spectral.count) :
    Strided.coord plan.planes.spectral.start plan.planes.spectral.stride i < 2 ^ 63 :=
  lt_of_le_of_lt (Strided.coord_mono (by omega)) h.last_lt

/-- **The chunks touched, counted.** -/
theorem SpectralInRange.chunksTouched_eq {b e : ℕ} (hbe : b ≤ e)
    (he : e ≤ plan.planes.spectral.count) :
    plan.chunksTouched b e = (plan.spectralChunks b e).card := by
  have hcount := h.count_le
  unfold chunksTouched spectralChunks
  rw [sub_eq hbe (by omega)]
  rcases hbe.eq_or_lt with rfl | hlt
  · simp [CartaZarr.chunksTouched, Strided.chunksOf]
  · have hb := h.coord_lt (show b < _ by omega)
    have hmul : b * plan.planes.spectral.stride < 2 ^ 64 := by
      unfold Strided.coord at hb
      omega
    have hco : add plan.planes.spectral.start (mul b plan.planes.spectral.stride) =
        Strided.coord plan.planes.spectral.start plan.planes.spectral.stride b := by
      rw [mul_eq hmul, add_eq (by unfold Strided.coord at hb; omega)]
      rfl
    rw [hco, chunksTouched_run h.stride_pos h.depth_pos hbe]
    have := h.coord_lt (show e - 1 < _ by omega)
    omega

omit h in
theorem spectralChunks_pos {b e : ℕ} (hbe : b < e) :
    0 < (plan.spectralChunks b e).card :=
  Finset.card_pos.2 ⟨_, Strided.chunkAt_mem le_rfl hbe⟩

/-- The slabs of a footprint in the channels `[b, e)`: they tile them, and all but the first begin
where no chunk is shared. -/
theorem SpectralInRange.slabs_tiling {b e fuel : ℕ} (channels : ℕ) (hbe : b ≤ e)
    (he : e ≤ plan.planes.spectral.count) (hfuel : e - b ≤ fuel) :
    ∃ slabs, walk (fun s => plan.alignedSlabEnd s (min channels (sub e s)) e) e fuel b =
      some slabs ∧
      Tiling b slabs e ∧ ∀ x ∈ slabs, (x.1 = b ∨ plan.Boundary x.1) ∧
        x.2 = Strided.blockEnd plan.planes.spectral.start
          plan.planes.spectral.stride plan.chunkDepth
          x.1 (max 1 (min channels (sub e x.1))) e := by
  have hcount := h.count_le
  refine alignedWalk_tiling_of_fit h.stride_pos h.depth_pos h.depth_lt hbe ?_ (fun s hs => ?_) hfuel
  · exact lt_of_le_of_lt (Strided.coord_mono (by omega)) h.last_lt
  · rw [sub_eq hs.le (by omega)]
    omega

/-- The blocks of a selection: they tile it, and all begin where no chunk is shared. -/
theorem SpectralInRange.blocks_tiling {fuel : ℕ} (layerChunks bytesPerChannel hint : ℕ)
    (hfuel : plan.planes.spectral.count ≤ fuel) :
    ∃ blocks, walk (fun b => plan.alignedSlabEnd b
      (plan.emitChannels layerChunks bytesPerChannel hint)
        plan.planes.spectral.count) plan.planes.spectral.count fuel 0 = some blocks ∧
      Tiling 0 blocks plan.planes.spectral.count ∧ ∀ x ∈ blocks, plan.Boundary x.1 := by
  have hcount := h.count_le
  have hemit : plan.emitChannels layerChunks bytesPerChannel hint ≤ plan.planes.spectral.count :=
    (min_le_right _ _).trans (min_le_right _ _)
  have hfit : ∀ b < plan.planes.spectral.count,
      b + plan.emitChannels layerChunks bytesPerChannel hint < 2 ^ 64 := fun b hb => by omega
  obtain ⟨blocks, hw, ht, hb⟩ := alignedWalk_tiling_of_fit h.stride_pos h.depth_pos h.depth_lt
    (Nat.zero_le _) h.last_lt hfit (show plan.planes.spectral.count - 0 ≤ fuel by omega)
  exact ⟨blocks, hw, ht, fun x hx => (hb x hx).1.elim Or.inl id⟩

end Spectral

end PassPlan

end CartaZarr
