import CartaZarr.Reduce.ProvisionalHistograms
import CartaZarr.Reduce.Reduction
import Mathlib.Data.Finset.Prod

/-!
# The pixels of reads

What a reduction reports is said of the pixels of the reads it was shown: `SlabWalk.pixelsOf` is the
values of the image at the samples of some reads at a channel. The samples of the reads of a block
are apart, and at every channel of the block they are those of the footprints of the pass
(`Pass.pixelsOf_reads`). A pass over the whole plane reads the pixels of the plane, in whichever
order its axes are stored (`pixelsOf_plane`).
-/

namespace CartaZarr

open Word

namespace SlabFootprint

/-- The samples of a footprint. -/
def samples (footprint : SlabFootprint) : Finset (ℕ × ℕ) :=
  (Finset.range footprint.uCount).image (Strided.coord footprint.uStart footprint.uStride) ×ˢ
    (Finset.range footprint.vCount).image (Strided.coord footprint.vStart footprint.vStride)

theorem mem_samples {footprint : SlabFootprint} {p : ℕ × ℕ} : p ∈ footprint.samples ↔
    footprint.Has p.1 p.2 := by
  simp only [samples, Finset.mem_product, Finset.mem_image, Finset.mem_range, Has, eq_comm]

/-- What is at the samples of a footprint, row after row. -/
theorem samples_val_map {γ : Type} {footprint : SlabFootprint} (hu : 0 < footprint.uStride)
    (hv : 0 < footprint.vStride) (f : ℕ × ℕ → γ) : footprint.samples.val.map f =
      Multiset.ofList ((List.range footprint.vCount).flatMap fun j =>
        (List.range footprint.uCount).map fun i =>
        f (Strided.coord footprint.uStart footprint.uStride i,
          Strided.coord footprint.vStart footprint.vStride j)) := by
  have hinj : ∀ {start stride : ℕ}, 0 < stride → Function.Injective (Strided.coord start stride) :=
    fun hs a b hab => by
      unfold Strided.coord at hab
      exact Nat.eq_of_mul_eq_mul_right hs (by omega)
  have hval : footprint.samples.val =
      (Multiset.range footprint.uCount).map (Strided.coord footprint.uStart footprint.uStride) ×ˢ
        (Multiset.range footprint.vCount).map
            (Strided.coord footprint.vStart footprint.vStride) := by
    rw [samples, Finset.product_val, Finset.image_val_of_injOn (hinj hu).injOn,
      Finset.image_val_of_injOn (hinj hv).injOn]
    rfl
  have hbind : ∀ s t : Multiset ℕ, s ×ˢ t = s.bind fun a => t.map fun b => (a, b) := fun _ _ => rfl
  rw [hval, hbind, Multiset.map_bind, Multiset.bind_map]
  simp only [Multiset.map_map, Function.comp_apply]
  rw [Multiset.bind_map_comm, ← Multiset.coe_range, ← Multiset.coe_range]
  exact Multiset.coe_bind _ _

end SlabFootprint

namespace SlabRead

variable {φ : Type}

/-- The samples of a read at a channel, of those that are selected. -/
def samplesAt (read : SlabRead φ) (sel : ℕ → ℕ → Bool) (channel : ℕ) : Finset (ℕ × ℕ) :=
  if read.slabBegin ≤ channel ∧ channel < read.slabEnd
    then read.slab.samples.filter fun p => sel p.1 p.2 else ∅

theorem mem_samplesAt {read : SlabRead φ} {sel : ℕ → ℕ → Bool} {channel : ℕ} {p : ℕ × ℕ} :
    p ∈ read.samplesAt sel channel ↔ read.Has p.1 p.2 channel ∧ sel p.1 p.2 = true := by
  unfold samplesAt Has
  split_ifs with h
  · rw [Finset.mem_filter, SlabFootprint.mem_samples]
    tauto
  · simp only [Finset.notMem_empty, false_iff]
    tauto

/-- A read of the block of `length` channels that begins at `first`. -/
structure Fits (plan : PassPlan) (first length : ℕ) (read : SlabRead φ) : Prop where
  within : read.request.Within plan
  blockBegin_eq : read.blockBegin = first
  first_le : first ≤ read.slabBegin
  lt : read.slabBegin < read.slabEnd
  le_end : read.slabEnd ≤ first + length
  le_count : first + length ≤ plan.planes.spectral.count

end SlabRead

/-- What is at the places of sets that are apart is what is at those of their union. -/
theorem sum_val_map {ι β γ : Type} [DecidableEq β] {l : List ι} {s : ι → Finset β}
    (hapart : l.Pairwise fun i j => Disjoint (s i) (s j)) {S : Finset β}
    (hS : ∀ b, b ∈ S ↔ ∃ i ∈ l, b ∈ s i) (f : β → γ) :
    (l.map fun i => (s i).val.map f).sum = S.val.map f := by
  induction l generalizing S with
  | nil =>
    obtain rfl : S = ∅ := Finset.eq_empty_of_forall_notMem fun b hb => by simpa using (hS b).1 hb
    rfl
  | cons i l ih =>
    obtain ⟨hi, hl⟩ := List.pairwise_cons.1 hapart
    have hsub : s i ⊆ S := fun b hb => (hS b).2 ⟨i, List.mem_cons_self, hb⟩
    have hrest : ∀ b, b ∈ S \ s i ↔ ∃ j ∈ l, b ∈ s j := by
      intro b
      rw [Finset.mem_sdiff, hS]
      constructor
      · rintro ⟨⟨j, hj, hb⟩, hnot⟩
        rcases List.mem_cons.1 hj with rfl | hj
        · exact absurd hb hnot
        · exact ⟨j, hj, hb⟩
      · rintro ⟨j, hj, hb⟩
        exact ⟨⟨j, List.mem_cons_of_mem _ hj, hb⟩, Finset.disjoint_right.1 (hi j hj) hb⟩
    have hval : S.val = (s i).val + (S \ s i).val := by
      rw [← Finset.disjUnion_val _ _ Finset.disjoint_sdiff, Finset.disjUnion_eq_union,
        Finset.union_sdiff_of_subset hsub]
    rw [List.map_cons, List.sum_cons, ih hl hrest, hval, Multiset.map_add]

section Pixels

variable {φ ω α : Type} [Pixel α]

/-- The value of a pass at a pixel of the plane, at a channel of the selection. -/
def SlabWalk.valueAt (walk : SlabWalk ω α) (channel : ℕ) (p : ℕ × ℕ) : α :=
  walk.source.maskedPixel walk.plan.applyMask (walk.plan.imageIndex p.1 p.2 channel)

/-- The pixels of some reads at a channel, of those that are selected. -/
def SlabWalk.pixelsOf (walk : SlabWalk ω α) (sel : ℕ → ℕ → Bool)
    (reads : List (SlabRead φ)) (channel : ℕ) :
    Multiset α :=
  (reads.map fun read => (read.samplesAt sel channel).val.map (walk.valueAt channel)).sum

@[simp] theorem pixelsOf_nil (walk : SlabWalk ω α) (sel : ℕ → ℕ → Bool) (channel : ℕ) :
    walk.pixelsOf sel ([] : List (SlabRead φ)) channel = 0 := rfl

theorem pixelsOf_append_singleton (walk : SlabWalk ω α) (sel : ℕ → ℕ → Bool)
    (reads : List (SlabRead φ))
    (read : SlabRead φ) (channel : ℕ) : walk.pixelsOf sel (reads ++ [read]) channel =
      walk.pixelsOf sel reads channel + (read.samplesAt sel channel).val.map
        (walk.valueAt channel) := by
  rw [SlabWalk.pixelsOf, SlabWalk.pixelsOf, List.map_append, List.sum_append,
    List.map_singleton, List.sum_singleton]

/-- **The pixels of the reads of a block** at a channel of it are those of the footprints of the
pass. -/
theorem Pass.pixelsOf_reads [HasSlab φ] {pass : Pass φ ω α} (h : pass.plan.InRange)
    (hap : pass.Apart) {b e : ℕ}
    (hbe : b ≤ e) (he : e ≤ pass.plan.planes.spectral.count) {channel : ℕ}
    (hb : b ≤ channel) (hlt : channel < e)
    {sel : ℕ → ℕ → Bool} {S : Finset (ℕ × ℕ)}
    (hS : ∀ p, p ∈ S ↔ (∃ footprint ∈ pass.footprints, footprint.2.Has p.1 p.2) ∧
      sel p.1 p.2 = true) :
    pass.pixelsOf sel (pass.reads b e) channel = S.val.map (pass.valueAt channel) := by
  refine sum_val_map ((Pass.reads_disjoint h hap hbe he).imp fun hdisj => ?_) (fun p => ?_) _
  · refine Finset.disjoint_left.2 fun p hp hp' => ?_
    exact SlabRead.not_both_has hdisj _ _ _ ⟨(SlabRead.mem_samplesAt.1 hp).1,
      (SlabRead.mem_samplesAt.1 hp').1⟩
  · have hhas : (∃ read ∈ pass.reads b e, read.Has p.1 p.2 channel) ↔ _ :=
      Pass.reads_has_iff h hbe he
    simp only [SlabRead.mem_samplesAt]
    rw [hS]
    constructor
    · rintro ⟨hf, hsel⟩
      obtain ⟨read, hread, hp⟩ := hhas.2 ⟨hf, hb, hlt⟩
      exact ⟨read, hread, hp, hsel⟩
    · rintro ⟨read, hread, hp, hsel⟩
      exact ⟨(hhas.1 ⟨read, hread, hp⟩).1, hsel⟩

omit [Pixel α] in
/-- Reads of a block that are inside the plane fit it. -/
theorem Pass.reads_fit [HasSlab φ] {pass : Pass φ ω α} (h : pass.plan.InRange)
    {b e : ℕ} (hbe : b ≤ e)
    (he : e ≤ pass.plan.planes.spectral.count)
    (hwithin : ∀ read ∈ pass.reads b e, read.request.Within pass.plan) {read : SlabRead φ}
    (hread : read ∈ pass.reads b e) : read.Fits pass.plan b (sub e b) := by
  have hcount := h.count_le
  obtain ⟨-, hbegin, -, hb, hlt, hle, -⟩ := Pass.mem_reads h hbe he hread
  have hlength : sub e b = e - b := sub_eq hbe (by omega)
  exact ⟨hwithin read hread, hbegin, hb, hlt, by omega, by omega⟩

/-- The slab of a read that fits its block, and that the image serves. -/
theorem visit_of_fits {walk : SlabWalk ω α} (hd : walk.plan.descriptor.StoredInOrder)
    (hp : walk.plan.Placed)
    (h : walk.plan.InRange) {first length : ℕ} {read : SlabRead φ}
    (hfits : read.Fits walk.plan first length)
    (haccepts : walk.Accepts read) : Visit walk read (walk.visited read) := by
  have hb := hfits.blockBegin_eq
  have hfirst := hfits.first_le
  have hle := hfits.le_end
  have hcount := hfits.le_count
  exact visit_of_accepted hd hp h hfits.within (by omega) hfits.lt (by omega) haccepts

end Pixels

/-! ## Slabs -/

section Rows

variable {φ ω : Type} {walk : SlabWalk ω (Option ℚ)} {read : SlabRead φ} {slab : Slab (Option ℚ)}

/-- The pixels of rows `[first, last)` of a plane of a slab, row after row. -/
def Slab.rowPixels (slab : Slab (Option ℚ)) (z first last : ℕ) : List (Option ℚ) :=
  (List.range' first (last - first)).flatMap fun v =>
    (List.range slab.uCount).map fun u =>
      slab.pixel (z * slab.strideZ + v * slab.strideV + u * slab.strideU)

/-- **A plane of a slab** has the pixels of its read at the channel. -/
theorem Visit.rowPixels (hvisit : Visit walk read slab)
    (hwithin : read.request.Within walk.plan) {z : ℕ}
    (hz : z < slab.channelCount) :
    Multiset.ofList (slab.rowPixels z 0 slab.vCount) =
      (read.samplesAt (fun _ _ => true) (read.slabBegin + z)).val.map
        (walk.valueAt (read.slabBegin + z)) := by
  have hfirst := hvisit.firstChannel
  have hcount := hvisit.channelCount
  have hus : 0 < read.slab.uStride := hwithin.uStride_pos
  have hvs : 0 < read.slab.vStride := hwithin.vStride_pos
  rw [SlabRead.samplesAt, if_pos (by omega), Finset.filter_true_of_mem fun _ _ => rfl,
    SlabFootprint.samples_val_map hus hvs, Slab.rowPixels, ← List.range_eq_range',
    Nat.sub_zero, hvisit.vCount,
    hvisit.uCount]
  refine congrArg _ (List.flatMap_congr fun j hj => List.map_congr_left fun i hi => ?_)
  have hpixel := hvisit.pixel i (hvisit.uCount ▸ List.mem_range.1 hi) j
    (hvisit.vCount ▸ List.mem_range.1 hj) z hz
  rw [Slab.pixel, List.getD_eq_getElem?_getD, hpixel, Option.getD_some, hfirst]
  rfl

end Rows

/-! ## Planes -/

/-- The image index of a pixel of a selected plane, at a channel of the selection. -/
def planeIndex (d : ImageDescriptor) (map : AxisMap) (planes : PlaneSelection)
    (channel x y : ℕ) : List ℕ :=
  (List.range d.rank).map fun i =>
    if i = map.x then x
    else if i = map.y then y
    else if i = map.spectral then Strided.coord planes.spectral.start planes.spectral.stride channel
    else if map.polarization = some i then planes.polarization
    else if map.time = some i then planes.time
    else 0

/-- The pixels of a selected plane of the image at some places, at a channel of the selection. -/
def PixelSource.pixelsAt {ω α : Type} [Pixel α] (source : PixelSource ω α) (applyMask : Bool)
    (d : ImageDescriptor) (map : AxisMap) (planes : PlaneSelection) (places : ℕ × ℕ → Prop)
    [DecidablePred places]
    (channel : ℕ) : Multiset α :=
  ((Finset.range (d.length map.x) ×ˢ Finset.range (d.length map.y)).filter places).val.map fun p =>
    source.maskedPixel applyMask (planeIndex d map planes channel p.1 p.2)

/-- All of them. -/
def PixelSource.planePixels {ω α : Type} [Pixel α] (source : PixelSource ω α) (applyMask : Bool)
    (d : ImageDescriptor) (map : AxisMap) (planes : PlaneSelection) (channel : ℕ) : Multiset α :=
  source.pixelsAt applyMask d map planes (fun _ => True) channel

/-- One in each `sample` along both axes. -/
def PixelSource.sampledPixels {ω α : Type} [Pixel α] (source : PixelSource ω α) (applyMask : Bool)
    (d : ImageDescriptor) (map : AxisMap) (planes : PlaneSelection)
    (sample channel : ℕ) : Multiset α :=
  source.pixelsAt applyMask d map planes (fun p => sample ∣ p.1 ∧ sample ∣ p.2) channel

section Plane

variable {φ ω α : Type} [Pixel α] [HasSlab φ] {walk : SlabWalk ω α}

omit [Pixel α] in
/-- The reads of a pass over the whole plane fit their block. -/
theorem planeReads_fit {pass : Pass φ ω α} (hs : pass.shape = .planeBands)
    (h : pass.plan.InRange) {b e : ℕ}
    (hbe : b ≤ e) (he : e ≤ pass.plan.planes.spectral.count) {read : SlabRead φ}
    (hread : read ∈ pass.reads b e) :
    read.Fits pass.plan b (sub e b) := by
  refine Pass.reads_fit h hbe he (fun read hread => ?_) hread
  obtain ⟨-, -, -, -, hlt, hle, -⟩ := Pass.mem_reads h hbe he hread
  exact request_within h (planeReads_band hs h hbe he hread) hlt (hle.trans he)

omit [Pixel α] in
/-- A pixel of the pass is one of the plane, by whichever axis it goes along. -/
theorem imageIndex_eq_planeIndex (hp : walk.plan.Placed) (u v channel : ℕ) :
    walk.plan.imageIndex u v channel =
      if walk.plan.swapsSpatial then planeIndex walk.plan.descriptor walk.plan.map
        walk.plan.planes channel v u
      else planeIndex walk.plan.descriptor walk.plan.map walk.plan.planes channel u v := by
  have hne := hp.axisU_ne_axisV
  unfold PassPlan.imageIndex planeIndex PassPlan.swapsSpatial
  rcases hp.axes with ⟨hu, hv⟩ | ⟨hu, hv⟩
  · rw [hu, hv] at hne ⊢
    rw [if_neg (by simpa using hne)]
  · rw [hu, hv] at hne ⊢
    rw [if_pos (by simp)]
    refine List.map_congr_left fun i _ => ?_
    split_ifs with h₁ h₂ <;> first | rfl | exact absurd (h₁.symm.trans h₂) hne

omit [HasSlab φ] in
/-- The value at a pixel of the pass, by the axes of the image. -/
theorem valueAt_eq (hp : walk.plan.Placed) (channel : ℕ) (p : ℕ × ℕ) :
    walk.valueAt channel p = walk.source.maskedPixel walk.plan.applyMask
      (if walk.plan.swapsSpatial then planeIndex walk.plan.descriptor walk.plan.map
        walk.plan.planes channel p.2 p.1
      else planeIndex walk.plan.descriptor walk.plan.map walk.plan.planes channel p.1 p.2) := by
  rw [← imageIndex_eq_planeIndex hp]
  rfl

omit [Pixel α] [HasSlab φ] in
/-- The lengths of the walk are those of the plane. -/
theorem PassPlan.Placed.lengths_eq {plan : PassPlan} (hp : plan.Placed) :
    plan.uLength = plan.descriptor.length (if plan.swapsSpatial then plan.map.y else plan.map.x) ∧
      plan.vLength = plan.descriptor.length (if plan.swapsSpatial then plan.map.x
        else plan.map.y) := by
  have hne := hp.axisU_ne_axisV
  rw [hp.uLength_eq, hp.vLength_eq, swapsSpatial]
  rcases hp.axes with ⟨hu, hv⟩ | ⟨hu, hv⟩
  · rw [hu, hv] at hne ⊢
    simp [hne]
  · rw [hu, hv]
    simp

/-- **What is selected of the reads of a block**, when the footprints have the places of the plane,
on the axes of the walk, each once. -/
theorem Pass.pixelsOf_places {pass : Pass φ ω α} (h : pass.plan.InRange)
    (hp : pass.plan.Placed) (hap : pass.Apart)
    {b e : ℕ} (hbe : b ≤ e) (he : e ≤ pass.plan.planes.spectral.count)
    {channel : ℕ} (hb : b ≤ channel)
    (hlt : channel < e) {sel : ℕ → ℕ → Bool} {places : ℕ × ℕ → Prop} [DecidablePred places]
    (hplaces : ∀ u v, (∃ f ∈ pass.footprints, f.2.Has u v) ∧ sel u v = true ↔
      (u < pass.plan.uLength ∧ v < pass.plan.vLength) ∧
      places (if pass.plan.swapsSpatial then (v, u) else (u, v))) :
    pass.pixelsOf sel (pass.reads b e) channel =
      pass.source.pixelsAt pass.plan.applyMask pass.plan.descriptor pass.plan.map
        pass.plan.planes places channel := by
  have hS : ∀ p, p ∈ (Finset.range pass.plan.uLength ×ˢ Finset.range pass.plan.vLength).filter
      (fun p => places (if pass.plan.swapsSpatial then (p.2, p.1) else p)) ↔
      (∃ f ∈ pass.footprints, f.2.Has p.1 p.2) ∧ sel p.1 p.2 = true := fun p => by
    rw [Finset.mem_filter, Finset.mem_product, Finset.mem_range, Finset.mem_range, hplaces]
  refine (Pass.pixelsOf_reads h hap hbe he hb hlt hS).trans ?_
  obtain ⟨hu, hv⟩ := hp.lengths_eq
  rw [hu, hv, Multiset.map_congr rfl fun p _ => @valueAt_eq _ _ _ pass.toSlabWalk hp channel p]
  unfold PixelSource.pixelsAt
  cases pass.plan.swapsSpatial
  · rfl
  · -- the places, the other axis first
    have hswap : ((Finset.range (pass.plan.descriptor.length pass.plan.map.y) ×ˢ
        Finset.range (pass.plan.descriptor.length pass.plan.map.x)).filter fun p =>
          places (p.2, p.1)) =
        ((Finset.range (pass.plan.descriptor.length pass.plan.map.x) ×ˢ
          Finset.range (pass.plan.descriptor.length pass.plan.map.y)).filter places).map
            (Equiv.prodComm ℕ ℕ).toEmbedding := by
      ext ⟨u, v⟩
      simp [and_comm]
    simp only [if_true]
    rw [hswap, Finset.map_val, Multiset.map_map]
    rfl

/-- **The pixels of a pass over the plane** are those it samples. -/
theorem pixelsOf_sampled (hp : walk.plan.Placed) (h : walk.plan.InRange)
    (cancelled : String) {b e : ℕ}
    (hbe : b ≤ e) (he : e ≤ walk.plan.planes.spectral.count) {channel : ℕ} (hb : b ≤ channel)
    (hlt : channel < e) :
    walk.pixelsOf (fun _ _ => true) ((passOverPlane φ walk cancelled).reads b e) channel =
      walk.source.sampledPixels walk.plan.applyMask walk.plan.descriptor
        walk.plan.map walk.plan.planes
        walk.plan.sample channel := by
  have hs : (passOverPlane φ walk cancelled).shape = .planeBands := rfl
  refine @Pass.pixelsOf_places _ _ _ _ _ (passOverPlane φ walk cancelled) h hp
    (planePass_apart hs h) _ _ hbe he _ hb
    hlt _ _ _ fun u v => ?_
  have hbands : (∃ footprint ∈ (passOverPlane φ walk cancelled).footprints, footprint.2.Has u v) ↔
      (walk.plan.sample ∣ u ∧ u < walk.plan.uLength) ∧ walk.plan.sample ∣ v ∧
          v < walk.plan.vLength :=
    (planeFootprints_has_iff hs).trans h.bands_has_iff
  rw [hbands]
  change _ ↔ (u < walk.plan.uLength ∧ v < walk.plan.vLength) ∧ _
  split_ifs <;> tauto

/-- When it samples them all, they are those of the plane. -/
theorem pixelsOf_plane (hp : walk.plan.Placed) (h : walk.plan.InRange)
    (hsample : walk.plan.sample = 1)
    (cancelled : String) {b e : ℕ} (hbe : b ≤ e)
    (he : e ≤ walk.plan.planes.spectral.count) {channel : ℕ}
    (hb : b ≤ channel) (hlt : channel < e) :
    walk.pixelsOf (fun _ _ => true) ((passOverPlane φ walk cancelled).reads b e) channel =
      walk.source.planePixels walk.plan.applyMask walk.plan.descriptor walk.plan.map
        walk.plan.planes channel := by
  rw [pixelsOf_sampled hp h cancelled hbe he hb hlt, hsample]
  unfold PixelSource.sampledPixels PixelSource.planePixels PixelSource.pixelsAt
  simp

end Plane

end CartaZarr
