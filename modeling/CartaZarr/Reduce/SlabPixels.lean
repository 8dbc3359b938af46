import CartaZarr.Reduce.PassSteps

/-!
# What a slab holds

A slab is read through a selection in the store's own order, and is walked by three strides into the
buffer that comes back. `slabOf_holds` says what is there: at
`z * strideZ + j * strideV + i * strideU` the value of the image at the slab's `i`th pixel along
`u`, `j`th along `v` and `z`th channel, with the flag folded in, whichever order the axes are stored
in.
-/

namespace CartaZarr

open Word

/-- The axes of a plan are those of its map, and its planes lie inside the image. -/
structure PassPlan.Placed (plan : PassPlan) : Prop where
  map_of : plan.map.Of plan.descriptor
  axes : (plan.axisU = plan.map.x ∧ plan.axisV = plan.map.y) ∨
    (plan.axisU = plan.map.y ∧ plan.axisV = plan.map.x)
  uLength_eq : plan.uLength = plan.descriptor.length plan.axisU
  vLength_eq : plan.vLength = plan.descriptor.length plan.axisV
  last_lt : Strided.coord plan.planes.spectral.start plan.planes.spectral.stride
    (plan.planes.spectral.count - 1) < plan.descriptor.length plan.map.spectral
  polarization_lt : ∀ i ∈ plan.map.polarization, plan.planes.polarization < plan.descriptor.length i
  time_lt : ∀ i ∈ plan.map.time, plan.planes.time < plan.descriptor.length i

theorem planPass_placed {d : ImageDescriptor} (g f : ChunkGeometry) {map : AxisMap}
    (hmap : map.Of d) (p : CheckedPlanes d map) (sample : ℕ) (o : ReadOptions) :
    (planPass d g f map p sample o).Placed where
  map_of := hmap
  axes := by
    simp only [planPass]
    by_cases h : g.fastestSpatialAxis = .spatialY <;> simp [h]
  uLength_eq := rfl
  vLength_eq := rfl
  last_lt := p.checks.1.2.2
  polarization_lt := p.checks.2.1
  time_lt := p.checks.2.2

namespace PassPlan

/-- The image index of a pixel of a plane: `u` and `v` along the spatial axes, a channel of the
selection along the spectral one, the selected polarization and time, and 0 along what is left. -/
def imageIndex (plan : PassPlan) (u v channel : ℕ) : List ℕ :=
  (List.range plan.descriptor.rank).map fun i =>
    if i = plan.axisU then u
    else if i = plan.axisV then v
    else if i = plan.map.spectral then
      Strided.coord plan.planes.spectral.start plan.planes.spectral.stride channel
    else if plan.map.polarization = some i then plan.planes.polarization
    else if plan.map.time = some i then plan.planes.time
    else 0

/-- The range of axis `i` in the request a slab is read with. -/
def rangeAt (plan : PassPlan) (request : SlabRequest) (i : ℕ) : Range :=
  if i = plan.axisU then ⟨request.uStart, request.uCount, request.uStride⟩
  else if i = plan.axisV then ⟨request.vStart, request.vCount, request.vStride⟩
  else if i = plan.map.spectral then
    ⟨add plan.planes.spectral.start (mul request.channelIndex plan.planes.spectral.stride),
      request.channelCount, plan.planes.spectral.stride⟩
  else if plan.map.polarization = some i then ⟨plan.planes.polarization, 1, 1⟩
  else if plan.map.time = some i then ⟨plan.planes.time, 1, 1⟩
  else ⟨0, 1, 1⟩

theorem getD_set {l : List Range} {i : ℕ} (hi : i < l.length) (k : ℕ) (a b : Range) :
    (l.set k a).getD i b = if i = k then a else l.getD i b := by
  rw [List.getD_eq_getElem?_getD, List.getElem?_set]
  by_cases h : k = i
  · simp [h, hi]
  · simp [h, Ne.symm h, List.getD_eq_getElem?_getD]

variable {plan : PassPlan}

namespace Placed

variable (hp : plan.Placed)
include hp

/-- The role of an axis of the plan tells it from the others. -/
theorem roles : (plan.descriptor.axis plan.axisU).role ∈ [AxisRole.spatialX, .spatialY] ∧
    (plan.descriptor.axis plan.axisV).role ∈ [AxisRole.spatialX, .spatialY] ∧
    (plan.descriptor.axis plan.axisU).role ≠ (plan.descriptor.axis plan.axisV).role := by
  rcases hp.axes with ⟨hu, hv⟩ | ⟨hu, hv⟩ <;>
    simp [hu, hv, hp.map_of.x.2, hp.map_of.y.2]

theorem axisU_lt : plan.axisU < plan.descriptor.rank := by
  rcases hp.axes with ⟨hu, -⟩ | ⟨hu, -⟩ <;> rw [hu]
  · exact hp.map_of.x.1
  · exact hp.map_of.y.1

theorem axisV_lt : plan.axisV < plan.descriptor.rank := by
  rcases hp.axes with ⟨-, hv⟩ | ⟨-, hv⟩ <;> rw [hv]
  · exact hp.map_of.y.1
  · exact hp.map_of.x.1

theorem axisU_ne_axisV : plan.axisU ≠ plan.axisV := fun h => hp.roles.2.2 (by rw [h])

theorem spectral_ne : plan.map.spectral ≠ plan.axisU ∧ plan.map.spectral ≠ plan.axisV := by
  have hs := hp.map_of.spectral.2
  obtain ⟨hu, hv, -⟩ := hp.roles
  refine ⟨fun h => ?_, fun h => ?_⟩
  · rw [← h, hs] at hu
    simp at hu
  · rw [← h, hs] at hv
    simp at hv

theorem polarization_ne {i : ℕ} (hi : plan.map.polarization = some i) :
    i ≠ plan.axisU ∧ i ≠ plan.axisV ∧ i ≠ plan.map.spectral := by
  have hr := (hp.map_of.polarization i hi).2
  have hs := hp.map_of.spectral.2
  obtain ⟨hu, hv, -⟩ := hp.roles
  refine ⟨fun h => ?_, fun h => ?_, fun h => ?_⟩
  · rw [← h, hr] at hu
    simp at hu
  · rw [← h, hr] at hv
    simp at hv
  · rw [← h, hr] at hs
    cases hs

theorem time_ne {i : ℕ} (hi : plan.map.time = some i) :
    i ≠ plan.axisU ∧ i ≠ plan.axisV ∧ i ≠ plan.map.spectral ∧ plan.map.polarization ≠ some i := by
  have hr := (hp.map_of.time i hi).2
  have hs := hp.map_of.spectral.2
  obtain ⟨hu, hv, -⟩ := hp.roles
  refine ⟨fun h => ?_, fun h => ?_, fun h => ?_, fun h => ?_⟩
  · rw [← h, hr] at hu
    simp at hu
  · rw [← h, hr] at hv
    simp at hv
  · rw [← h, hr] at hs
    cases hs
  · have := (hp.map_of.polarization i h).2
    rw [hr] at this
    cases this

/-- The request a slab is read with, axis by axis. -/
theorem readRequest_axis (request : SlabRequest) {i : ℕ} (hi : i < plan.descriptor.rank) :
    (plan.readRequest request).axis i = plan.rangeAt request i := by
  have huv := hp.axisU_ne_axisV
  have hs := hp.spectral_ne
  have hpol := fun {q} => hp.polarization_ne (i := q)
  have htime := fun {t} => hp.time_ne (i := t)
  -- the axes are distinct, so the order in which their ranges are set does not matter
  unfold ReadRequest.axis PassPlan.readRequest rangeAt
  cases hq : plan.map.polarization <;> cases ht : plan.map.time <;>
    simp only [hq, ht, Option.some.injEq, reduceCtorEq] at hpol htime ⊢ <;>
    simp only [getD_set, List.length_set, List.length_replicate, hi, List.getD_replicate] <;>
    grind

end Placed

end PassPlan

/-! ## Requests inside the plane -/

/-- A slab inside the plane and the selection. -/
structure SlabRequest.Within (plan : PassPlan) (request : SlabRequest) : Prop where
  uCount_pos : 0 < request.uCount
  uStride_pos : 0 < request.uStride
  uLast_lt : Strided.coord request.uStart request.uStride (request.uCount - 1) < plan.uLength
  vCount_pos : 0 < request.vCount
  vStride_pos : 0 < request.vStride
  vLast_lt : Strided.coord request.vStart request.vStride (request.vCount - 1) < plan.vLength
  channelCount_pos : 0 < request.channelCount
  channel_le : request.channelIndex + request.channelCount ≤ plan.planes.spectral.count

/-- How many pixels a slab has. -/
def SlabRequest.elements (request : SlabRequest) : ℕ :=
  request.uCount * request.vCount * request.channelCount

namespace SlabRequest.Within

variable {plan : PassPlan} {request : SlabRequest} (hw : request.Within plan) (hp : plan.Placed)
  (h : plan.InRange)
include hw h

/-- The first channel of a slab is a coordinate of the spectral axis. -/
theorem spectralStart_eq :
    add plan.planes.spectral.start (mul request.channelIndex plan.planes.spectral.stride) =
      Strided.coord plan.planes.spectral.start plan.planes.spectral.stride
        request.channelIndex := by
  have hlt := h.coord_lt (i := request.channelIndex)
    (by have := hw.channel_le; have := hw.channelCount_pos; omega)
  unfold Strided.coord at hlt ⊢
  rw [mul_eq (by omega), add_eq (by omega)]

include hp

theorem inside (hother : ∀ i < plan.descriptor.rank, i ≠ plan.axisU → i ≠ plan.axisV →
    0 < plan.descriptor.length i) : (plan.readRequest request).Inside plan.descriptor := by
  have haxis := fun i hi => hp.readRequest_axis request (i := i) hi
  have hpos := hw.channelCount_pos
  have hle := hw.channel_le
  refine ⟨?_, fun i hi => ?_, fun i hi => ?_, fun i hi => ?_⟩
  · unfold PassPlan.readRequest
    cases plan.map.polarization <;> cases plan.map.time <;> simp
  · rw [haxis i hi, PassPlan.rangeAt]
    have := hw.uStride_pos
    have := hw.vStride_pos
    have := h.stride_pos
    split_ifs <;> simp_all
  · rw [haxis i hi, PassPlan.rangeAt]
    have := hw.uCount_pos
    have := hw.vCount_pos
    split_ifs <;> simp_all
  · rw [haxis i hi, PassPlan.rangeAt, hw.spectralStart_eq h]
    have hu := hp.uLength_eq
    have hv := hp.vLength_eq
    split_ifs with h₁ h₂ h₃ h₄ h₅
    · exact h₁ ▸ hu ▸ hw.uLast_lt
    · exact h₂ ▸ hv ▸ hw.vLast_lt
    · have hlast : Strided.coord (Strided.coord plan.planes.spectral.start
          plan.planes.spectral.stride request.channelIndex) plan.planes.spectral.stride
          (request.channelCount - 1) = Strided.coord plan.planes.spectral.start
            plan.planes.spectral.stride (request.channelIndex + (request.channelCount - 1)) := by
        rw [Strided.coord_add]
        rfl
      rw [hlast, h₃]
      exact lt_of_le_of_lt (Strided.coord_mono (by omega)) hp.last_lt
    · simpa [Strided.coord] using hp.polarization_lt i h₄
    · simpa [Strided.coord] using hp.time_lt i h₅
    · simpa [Strided.coord] using hother i hi h₁ h₂

end SlabRequest.Within

namespace PassPlan.Placed

variable {plan : PassPlan} (hp : plan.Placed)
include hp

theorem rangeAt_axes (request : SlabRequest) :
    plan.rangeAt request plan.axisU = ⟨request.uStart, request.uCount, request.uStride⟩ ∧
    plan.rangeAt request plan.axisV = ⟨request.vStart, request.vCount, request.vStride⟩ ∧
    plan.rangeAt request plan.map.spectral =
      ⟨add plan.planes.spectral.start (mul request.channelIndex plan.planes.spectral.stride),
        request.channelCount, plan.planes.spectral.stride⟩ := by
  simp [rangeAt, hp.axisU_ne_axisV.symm, hp.spectral_ne]

/-- What is 1 along every axis but the three of a slab has the product of the three. -/
theorem prod_axes {f : ℕ → ℕ} (hf : ∀ i, i ≠ plan.axisU → i ≠ plan.axisV → i ≠ plan.map.spectral →
    f i = 1) :
    ∏ i ∈ Finset.range plan.descriptor.rank, f i =
      f plan.axisU * f plan.axisV * f plan.map.spectral := by
  have hsub : ({plan.axisU, plan.axisV, plan.map.spectral} : Finset ℕ) ⊆
      Finset.range plan.descriptor.rank := by
    intro i hi
    simp only [Finset.mem_insert, Finset.mem_singleton] at hi
    rcases hi with rfl | rfl | rfl
    · exact Finset.mem_range.2 hp.axisU_lt
    · exact Finset.mem_range.2 hp.axisV_lt
    · exact Finset.mem_range.2 hp.map_of.spectral.1
  rw [← Finset.prod_subset hsub fun i _ hi => by
    simp only [Finset.mem_insert, Finset.mem_singleton, not_or] at hi
    exact hf i hi.1 hi.2.1 hi.2.2]
  rw [Finset.prod_insert (by simp [hp.axisU_ne_axisV, hp.spectral_ne.1.symm]),
    Finset.prod_insert (by simp [hp.spectral_ne.2.symm]), Finset.prod_singleton, mul_assoc]

/-- What is 0 along every axis but the three of a slab has the sum of the three. -/
theorem sum_axes {f : ℕ → ℕ} (hf : ∀ i, i ≠ plan.axisU → i ≠ plan.axisV → i ≠ plan.map.spectral →
    f i = 0) :
    ∑ i ∈ Finset.range plan.descriptor.rank, f i =
      f plan.axisU + f plan.axisV + f plan.map.spectral := by
  have hsub : ({plan.axisU, plan.axisV, plan.map.spectral} : Finset ℕ) ⊆
      Finset.range plan.descriptor.rank := by
    intro i hi
    simp only [Finset.mem_insert, Finset.mem_singleton] at hi
    rcases hi with rfl | rfl | rfl
    · exact Finset.mem_range.2 hp.axisU_lt
    · exact Finset.mem_range.2 hp.axisV_lt
    · exact Finset.mem_range.2 hp.map_of.spectral.1
  rw [← Finset.sum_subset hsub fun i _ hi => by
    simp only [Finset.mem_insert, Finset.mem_singleton, not_or] at hi
    exact hf i hi.1 hi.2.1 hi.2.2]
  rw [Finset.sum_insert (by simp [hp.axisU_ne_axisV, hp.spectral_ne.1.symm]),
    Finset.sum_insert (by simp [hp.spectral_ne.2.symm]), Finset.sum_singleton, add_assoc]

/-- A slab's request has the slab's pixels. -/
theorem readRequest_elements (request : SlabRequest) :
    (plan.readRequest request).elements = request.elements := by
  have hrank : (plan.readRequest request).axes.length = plan.descriptor.rank := by
    unfold PassPlan.readRequest
    cases plan.map.polarization <;> cases plan.map.time <;> simp
  have hcounts : (plan.readRequest request).counts =
      (List.range plan.descriptor.rank).map fun i => (plan.rangeAt request i).count := by
    apply List.ext_getElem
    · simp [ReadRequest.counts, hrank]
    · intro i hi hi'
      have hlt : i < plan.descriptor.rank := by simpa using hi'
      rw [List.getElem_map, List.getElem_range, ← hp.readRequest_axis request hlt,
        ReadRequest.axis_eq_getElem _ (hrank ▸ hlt)]
      simp [ReadRequest.counts]
  have hprod : (plan.readRequest request).elements =
      ∏ i ∈ Finset.range plan.descriptor.rank, (plan.rangeAt request i).count := by
    rw [ReadRequest.elements, hcounts]
    rfl
  obtain ⟨hu, hv, hs⟩ := hp.rangeAt_axes request
  rw [hprod, hp.prod_axes, hu, hv, hs, SlabRequest.elements]
  intro i h₁ h₂ h₃
  rw [rangeAt, if_neg h₁, if_neg h₂, if_neg h₃]
  split_ifs <;> rfl

end PassPlan.Placed

/-! ## Reading one -/

section Read

variable {ω α : Type} [Pixel α] {walk : SlabWalk ω α}

/-- The values of a selection, with the flag folded in when the walk applies one. -/
def SlabWalk.maskedPixels (walk : SlabWalk ω α) (s : PixelSelection) : List α :=
  (List.range s.elements).map fun k =>
    walk.source.maskedPixel walk.plan.applyMask
      (walk.plan.descriptor.logicalIndex (s.storedIndex k))

/-- A buffer that was read holds the values of its selection. -/
theorem readBuffer_ok {s : PixelSelection} {w w' : ω} {pixels : List α}
    (h : walk.readBuffer s w = (.ok pixels, w')) : pixels = walk.maskedPixels s := by
  have hfull : overwrite (List.replicate s.elements Pixel.zero)
      (walk.source.pixels walk.plan.descriptor s) = walk.source.pixels walk.plan.descriptor s := by
    simp [overwrite]
  unfold SlabWalk.readBuffer PixelSource.readPixels at h
  simp only [List.length_replicate, lt_irrefl, if_false] at h
  rcases hf : walk.source.pixelFault s w with ⟨_ | ⟨e, written⟩, w₁⟩
  · rw [hf] at h
    simp only [hfull] at h
    split_ifs at h with hm
    · unfold PixelSource.readMask at h
      simp only [lt_irrefl, if_false] at h
      rcases hg : walk.source.maskFault s w₁ with ⟨_ | e, w₂⟩
      · rw [hg] at h
        simp only [Prod.mk.injEq, Except.ok.injEq] at h
        rw [← h.1, PixelSource.applyPixelMask_pixels, SlabWalk.maskedPixels, hm]
      · rw [hg] at h
        simp at h
    · simp only [Prod.mk.injEq, Except.ok.injEq] at h
      rw [← h.1]
      simp [PixelSource.pixels, SlabWalk.maskedPixels, PixelSource.maskedPixel, hm]
  · rw [hf] at h
    simp at h

/-- The slab that a request is read into, when the image accepts it. -/
def SlabWalk.slabOf (walk : SlabWalk ω α) (request : SlabRequest)
    (s : PixelSelection) : Slab α where
  firstChannel := 0
  channelCount := request.channelCount
  pixels := walk.maskedPixels s
  strideU := s.destinationStrides.getD (walk.plan.descriptor.stored walk.plan.axisU) 1
  strideV := s.destinationStrides.getD (walk.plan.descriptor.stored walk.plan.axisV) 1
  strideZ := s.destinationStrides.getD (walk.plan.descriptor.stored walk.plan.map.spectral) 1
  uCount := request.uCount
  vCount := request.vCount

/-- A slab that was read is the one of its request's selection. -/
theorem readSlab_ok {request : SlabRequest} {w w' : ω} {slab : Slab α}
    (h : walk.readSlab request w = (.ok slab, w')) :
    ∃ s, buildSelection walk.plan.descriptor (walk.plan.readRequest request) .stored = .ok s ∧
      slab = walk.slabOf request s := by
  unfold SlabWalk.readSlab at h
  cases hs : buildSelection walk.plan.descriptor (walk.plan.readRequest request) .stored with
  | error e =>
    rw [hs] at h
    cases h
  | ok s =>
    rw [hs, Attempt.ofExcept_ok, pure_bind] at h
    rcases hb : walk.readBuffer s w with ⟨e | pixels, w₁⟩
    · have hhalt : Attempt.halting (walk.readBuffer s) w = (.error (.error e), w₁) := by
        rw [Attempt.halting, hb]
      rw [Attempt.bind_of_error hhalt] at h
      cases h
    · have hhalt : Attempt.halting (walk.readBuffer s) w = (.ok pixels, w₁) := by
        rw [Attempt.halting, hb]
      rw [Attempt.bind_of_ok hhalt] at h
      cases h
      exact ⟨s, rfl, by rw [readBuffer_ok hb]; rfl⟩

/-- **What a slab holds**: the values of the image, by the slab's three strides. -/
structure SlabWalk.Holds (walk : SlabWalk ω α) (request : SlabRequest) (slab : Slab α) : Prop where
  channelCount_eq : slab.channelCount = request.channelCount
  uCount_eq : slab.uCount = request.uCount
  vCount_eq : slab.vCount = request.vCount
  pixel : ∀ i < request.uCount, ∀ j < request.vCount, ∀ z < request.channelCount,
    slab.pixels[z * slab.strideZ + j * slab.strideV + i * slab.strideU]? =
      some (walk.source.maskedPixel walk.plan.applyMask
        (walk.plan.imageIndex (Strided.coord request.uStart request.uStride i)
          (Strided.coord request.vStart request.vStride j) (request.channelIndex + z)))

theorem slabOf_holds (hd : walk.plan.descriptor.StoredInOrder) (hp : walk.plan.Placed)
    (h : walk.plan.InRange) {request : SlabRequest} (hw : request.Within walk.plan)
    {s : PixelSelection}
    (hs : buildSelection walk.plan.descriptor (walk.plan.readRequest request) .stored = .ok s) :
    walk.Holds request (walk.slabOf request s) := by
  refine ⟨rfl, rfl, rfl, fun i hi j hj z hz => ?_⟩
  have hsel := buildSelection_selects hd hs
  obtain ⟨hu, hv, hz'⟩ := hp.rangeAt_axes request
  -- the pixel's number along each axis
  set n : ℕ → ℕ := fun a => if a = walk.plan.axisU then i else if a = walk.plan.axisV then j
    else if a = walk.plan.map.spectral then z else 0 with hn
  have hnU : n walk.plan.axisU = i := by simp [hn]
  have hnV : n walk.plan.axisV = j := by simp [hn, hp.axisU_ne_axisV.symm]
  have hnZ : n walk.plan.map.spectral = z := by simp [hn, hp.spectral_ne]
  have hnlt : ∀ a < walk.plan.descriptor.rank,
      n a < ((walk.plan.readRequest request).axis a).count := by
    intro a ha
    rw [hp.readRequest_axis request ha]
    by_cases h₁ : a = walk.plan.axisU
    · rw [h₁, hnU, hu]
      exact hi
    by_cases h₂ : a = walk.plan.axisV
    · rw [h₂, hnV, hv]
      exact hj
    by_cases h₃ : a = walk.plan.map.spectral
    · rw [h₃, hnZ, hz']
      exact hz
    · have := hsel.valid.count_pos a ha
      rw [hp.readRequest_axis request ha] at this
      simpa [hn, h₁, h₂, h₃] using this
  have hk : z * (walk.slabOf request s).strideZ + j * (walk.slabOf request s).strideV +
      i * (walk.slabOf request s).strideU = ∑ a ∈ Finset.range walk.plan.descriptor.rank,
        n a * s.destinationStrides.getD (walk.plan.descriptor.stored a) 1 := by
    rw [hp.sum_axes fun a h₁ h₂ h₃ => by simp [hn, h₁, h₂, h₃], hnU, hnV, hnZ]
    simp only [SlabWalk.slabOf]
    ring
  obtain ⟨hlt, hindex⟩ := hsel.storedIndex_position hd hnlt hk
  have himage : (walk.plan.readRequest request).indexAt n = walk.plan.imageIndex
      (Strided.coord request.uStart request.uStride i)
      (Strided.coord request.vStart request.vStride j) (request.channelIndex + z) := by
    rw [ReadRequest.indexAt, hsel.valid.rank_eq, PassPlan.imageIndex]
    refine List.map_congr_left fun a ha => ?_
    rw [hp.readRequest_axis request (List.mem_range.1 ha), PassPlan.rangeAt, hw.spectralStart_eq h]
    simp only [hn]
    split_ifs <;> simp [Strided.coord, add_mul, add_assoc]
  generalize z * (walk.slabOf request s).strideZ + j * (walk.slabOf request s).strideV +
    i * (walk.slabOf request s).strideU = k at hlt hindex ⊢
  change (walk.maskedPixels s)[k]? = _
  rw [SlabWalk.maskedPixels, List.getElem?_map, List.getElem?_range hlt,
    Option.map_some, hindex, himage]

end Read

end CartaZarr
