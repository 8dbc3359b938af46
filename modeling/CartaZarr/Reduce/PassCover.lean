import CartaZarr.Reduce.PassChunks
import CartaZarr.Reduce.SlabPixels

/-!
# A pass over the plane covers it once

When the source does not fail and nothing refuses, a pass over the whole plane hands its visitor
every sample of the plane at every selected channel in exactly one slab, each slab holding the
image's values at the places it says, and its first channel counted from the block that was prepared
last (`planePass_covers`). A slab of `2 ^ 64` pixels or more is refused by the image, and the pass
with it (`planePass_hugePlane`).

What a visitor sees is observed through `seen`, a part of the world that the visitor and the
preparation of blocks write down what they are given in, and nothing else changes.
-/

namespace CartaZarr

open Word

/-- What a visitor of a pass sees: a block being prepared, and a slab. -/
inductive Seen (α : Type)
  | reset (length : ℕ)
  | slab (slab : Slab α)
  deriving DecidableEq, Repr

section Observe

variable {φ ω α : Type}

/-- Nothing refuses and nothing fails. -/
structure Pass.Willing (pass : Pass φ ω α) (callbacks : Callbacks φ ω α) : Prop where
  cancellation : ∀ requested ∈ pass.control.cancellationRequested, ∀ w, (requested w).1 = false
  deadline : ∀ w, (pass.control.deadlinePassed w).1 = false
  pixels : ∀ s w, (pass.source.pixelFault s w).1 = none
  mask : ∀ s w, (pass.source.maskFault s w).1 = none
  handOver : ∀ b n c q w, (callbacks.handOver b n c q w).1 = true
  progress : ∀ q w, (callbacks.progress q w).1 = true

/-- `seen` is a record of the blocks prepared and the slabs visited. -/
structure Pass.Recorded (pass : Pass φ ω α) (callbacks : Callbacks φ ω α)
    (seen : ω → List (Seen α)) :
    Prop where
  reset : ∀ n w, seen (callbacks.reset n w) = seen w ++ [.reset n]
  visit : ∀ f slab w, seen (callbacks.visit f slab w) = seen w ++ [.slab slab]
  handOver : ∀ b n c q w, seen (callbacks.handOver b n c q w).2 = seen w
  progress : ∀ q w, seen (callbacks.progress q w).2 = seen w
  cancellation : ∀ requested ∈ pass.control.cancellationRequested, ∀ w,
    seen (requested w).2 = seen w
  deadline : ∀ w, seen (pass.control.deadlinePassed w).2 = seen w
  pixels : ∀ s w, seen (pass.source.pixelFault s w).2 = seen w
  mask : ∀ s w, seen (pass.source.maskFault s w).2 = seen w

/-- The request a slab is read with. -/
def SlabRead.request (read : SlabRead φ) : SlabRequest :=
  read.slab.request read.slabBegin (sub read.slabEnd read.slabBegin)

variable [Pixel α]

/-- The slab a visitor is handed for a read. -/
def SlabWalk.visited (walk : SlabWalk ω α) (read : SlabRead φ) : Slab α :=
  match buildSelection walk.plan.descriptor (walk.plan.readRequest read.request) .stored with
  | .ok s => { walk.slabOf read.request s with firstChannel := sub read.slabBegin read.blockBegin }
  | .error _ => ⟨0, 0, [], 1, 1, 1, 0, 0⟩

/-- What a visitor sees of a step. -/
def Pass.shows (pass : Pass φ ω α) : PassStep φ → Option (Seen α)
  | .reset length => some (.reset length)
  | .read r => some (.slab (pass.visited r))
  | _ => none

variable {pass : Pass φ ω α} {callbacks : Callbacks φ ω α} {seen : ω → List (Seen α)}

omit [Pixel α] in
theorem allowed_seen (hw : pass.Willing callbacks) (hr : pass.Recorded callbacks seen) (w : ω) :
    ∃ w', pass.allowed w = (.ok (), w') ∧ seen w' = seen w := by
  unfold SlabWalk.allowed Attempt.halting checkReadControl
  cases hc : pass.control.cancellationRequested with
  | none =>
    simp only [Bool.false_eq_true, if_false, hw.deadline]
    exact ⟨_, rfl, hr.deadline w⟩
  | some requested =>
    simp only [hw.cancellation requested hc, Bool.false_eq_true, if_false, hw.deadline]
    exact ⟨_, rfl, by rw [hr.deadline, hr.cancellation requested hc]⟩

/-- A read that nothing fails leaves the world as the source's calls do, of which the one for the
mask may not be made. -/
theorem readBuffer_of_willing (hw : pass.Willing callbacks) (s : PixelSelection) (w : ω) :
    ∃ w', pass.readBuffer s w = (.ok (pass.maskedPixels s), w') ∧
      (w' = (pass.source.pixelFault s w).2 ∨
        w' = (pass.source.maskFault s (pass.source.pixelFault s w).2).2) := by
  obtain ⟨pixels, w', hread, hworld⟩ : ∃ pixels w', pass.readBuffer s w = (.ok pixels, w') ∧
      (w' = (pass.source.pixelFault s w).2 ∨
        w' = (pass.source.maskFault s (pass.source.pixelFault s w).2).2) := by
    obtain ⟨w₁, hf⟩ : ∃ w₁, pass.source.pixelFault s w = (none, w₁) :=
      ⟨_, Prod.ext (hw.pixels s w) rfl⟩
    obtain ⟨w₂, hg⟩ : ∃ w₂, pass.source.maskFault s w₁ = (none, w₂) :=
      ⟨_, Prod.ext (hw.mask s w₁) rfl⟩
    simp only [SlabWalk.readBuffer, PixelSource.readPixels, PixelSource.readMask,
      List.length_replicate, lt_irrefl, if_false, hf, hg]
    split
    · exact ⟨_, _, rfl, .inr rfl⟩
    · exact ⟨_, _, rfl, .inl rfl⟩
  exact ⟨w', by rw [hread, readBuffer_ok hread], hworld⟩

theorem readBuffer_seen (hw : pass.Willing callbacks) (hr : pass.Recorded callbacks seen)
    (s : PixelSelection) (w : ω) :
    ∃ w', pass.readBuffer s w = (.ok (pass.maskedPixels s), w') ∧ seen w' = seen w := by
  obtain ⟨w', hread, rfl | rfl⟩ := readBuffer_of_willing hw s w
  · exact ⟨_, hread, hr.pixels s w⟩
  · exact ⟨_, hread, (hr.mask s _).trans (hr.pixels s w)⟩

/-- A step that the image does not refuse returns, and shows what it shows. -/
theorem perform_seen (hw : pass.Willing callbacks) (hr : pass.Recorded callbacks seen)
    {step : PassStep φ} (hread : ∀ r, step = .read r → ∃ s, buildSelection pass.plan.descriptor
      (pass.plan.readRequest r.request) .stored = .ok s) (w : ω) :
    ∃ w', pass.perform callbacks step w = (.ok (), w') ∧
    seen w' = seen w ++ (pass.shows step).toList := by
  cases step with
  | reset length => exact ⟨_, rfl, hr.reset length w⟩
  | ask =>
    obtain ⟨w', h, hseen⟩ := allowed_seen hw hr w
    exact ⟨w', h, by simpa [Pass.shows] using hseen⟩
  | handOver b n c q =>
    refine ⟨(callbacks.handOver b n c q w).2, ?_, by simpa [Pass.shows] using hr.handOver b n c q w⟩
    simp only [Pass.perform, Pass.unlessCancelled]
    rcases hh : callbacks.handOver b n c q w with ⟨_ | _, w'⟩
    · have := hw.handOver b n c q w
      rw [hh] at this
      cases this
    · rfl
  | progress q =>
    refine ⟨(callbacks.progress q w).2, ?_, by simpa [Pass.shows] using hr.progress q w⟩
    simp only [Pass.perform, Pass.unlessCancelled]
    rcases hh : callbacks.progress q w with ⟨_ | _, w'⟩
    · have := hw.progress q w
      rw [hh] at this
      cases this
    · rfl
  | read r =>
    obtain ⟨s, hs⟩ := hread r rfl
    obtain ⟨w', hbuf, hseen⟩ := readBuffer_seen hw hr s w
    have hslab : pass.readSlab r.request w = (.ok (pass.slabOf r.request s), w') := by
      have hhalt : Attempt.halting (pass.readBuffer s) w = (.ok (pass.maskedPixels s), w') := by
        rw [Attempt.halting, hbuf]
      unfold SlabWalk.readSlab
      rw [hs, Attempt.ofExcept_ok, pure_bind, Attempt.bind_of_ok hhalt]
      rfl
    have hvisited : pass.visited r =
        { pass.slabOf r.request s with firstChannel := sub r.slabBegin r.blockBegin } := by
      rw [SlabWalk.visited, hs]
    refine ⟨callbacks.visit r.footprint (pass.visited r) w', ?_, ?_⟩
    · rw [hvisited]
      exact Attempt.bind_of_ok hslab
    · rw [hr.visit, hseen]
      rfl

/-- **What a visitor sees of a pass** is what its steps show. -/
theorem forEach_seen (hw : pass.Willing callbacks) (hr : pass.Recorded callbacks seen)
    {steps : List (PassStep φ)} (hread : ∀ r, .read r ∈ steps → ∃ s, buildSelection
      pass.plan.descriptor (pass.plan.readRequest r.request) .stored = .ok s) (w : ω) :
    ∃ w', Attempt.forEach (pass.perform callbacks) steps w = (.ok (), w') ∧
      seen w' = seen w ++ steps.filterMap pass.shows := by
  induction steps generalizing w with
  | nil => exact ⟨w, rfl, by simp⟩
  | cons step steps ih =>
    have hstep : ∀ r, step = .read r → ∃ s, buildSelection pass.plan.descriptor
        (pass.plan.readRequest r.request) .stored = .ok s := fun r e => hread r (by simp [e])
    obtain ⟨w₁, h₁, hs₁⟩ := perform_seen hw hr hstep w
    obtain ⟨w₂, h₂, hs₂⟩ := ih (fun r hr => hread r (by simp [hr])) w₁
    refine ⟨w₂, (Attempt.bind_of_ok h₁).trans h₂, ?_⟩
    rw [hs₂, hs₁, List.filterMap_cons]
    cases pass.shows step <;> simp

end Observe

/-! ## Covering the plane -/

/-- A slab handed to the visitor for a read: the image's values at the read's pixels, with channels
counted from the beginning of the block. -/
structure Visit {φ ω α : Type} [Pixel α] (walk : SlabWalk ω α) (read : SlabRead φ) (slab : Slab α) :
    Prop where
  firstChannel : read.blockBegin + slab.firstChannel = read.slabBegin
  channelCount : slab.channelCount = read.slabEnd - read.slabBegin
  uCount : slab.uCount = read.slab.uCount
  vCount : slab.vCount = read.slab.vCount
  pixel : ∀ i < slab.uCount, ∀ j < slab.vCount, ∀ z < slab.channelCount,
    slab.pixels[z * slab.strideZ + j * slab.strideV + i * slab.strideU]? =
      some (walk.source.maskedPixel walk.plan.applyMask
        (walk.plan.imageIndex (read.slab.uStart + i * read.slab.uStride)
          (read.slab.vStart + j * read.slab.vStride) (read.blockBegin + slab.firstChannel + z)))

/-- Visits that have every sample of the plane at every selected channel in exactly one slab, and no
other pixel. -/
structure CoversOnce {φ ω α : Type} [Pixel α] (walk : SlabWalk ω α)
    (visits : List (SlabRead φ × Slab α)) : Prop where
  has_iff : ∀ u v channel, (∃ x ∈ visits, x.1.Has u v channel) ↔
    ((walk.plan.sample ∣ u ∧ u < walk.plan.uLength) ∧ walk.plan.sample ∣ v ∧
      v < walk.plan.vLength) ∧
      channel < walk.plan.planes.spectral.count
  once : visits.Pairwise fun x y => ∀ u v channel, ¬ (x.1.Has u v channel ∧ y.1.Has u v channel)
  stride : ∀ x ∈ visits, x.1.slab.uStride = walk.plan.sample ∧ x.1.slab.vStride = walk.plan.sample
  visit : ∀ x ∈ visits, Visit walk x.1 x.2

namespace Pass

variable {φ ω α : Type} [Pixel α] [HasSlab φ]

/-- The visits of the channels `[b, e)`. -/
def visits (pass : Pass φ ω α) (b e : ℕ) : List (SlabRead φ × Slab α) :=
  (pass.reads b e).map fun read => (read, pass.visited read)

omit [Pixel α] in
theorem read_mem_wholeSteps {pass : Pass φ ω α} {read : SlabRead φ}
    (h : .read read ∈ pass.wholeSteps) :
    read ∈ pass.reads 0 pass.plan.planes.spectral.count := by
  rw [← pass.reads_wholeSteps]
  exact List.mem_filterMap.2 ⟨_, h, rfl⟩

omit [Pixel α] in
theorem read_mem_stepsOfBlock {pass : Pass φ ω α} {b e : ℕ} {read : SlabRead φ}
    (h : .read read ∈ pass.stepsOfBlock b e) : read ∈ pass.reads b e := by
  rw [← pass.reads_stepsOfBlock]
  exact List.mem_filterMap.2 ⟨_, h, rfl⟩

omit [Pixel α] in
theorem read_mem_blockSteps {pass : Pass φ ω α} {bytesPerChannel hint : ℕ} {read : SlabRead φ}
    (h : .read read ∈ pass.blockSteps bytesPerChannel hint) :
    read ∈ pass.blockReads bytesPerChannel hint := by
  obtain ⟨block, hb, h⟩ := List.mem_flatMap.1 h
  exact List.mem_flatMap.2 ⟨block, hb, read_mem_stepsOfBlock h⟩

/-- What the steps of a walk show. -/
theorem shows_walkSteps (pass : Pass φ ω α) {tell : ℕ → PassStep φ}
    (htell : ∀ done, pass.shows (tell done) = none) (b e : ℕ) :
    (pass.walkSteps tell b e).filterMap pass.shows = (pass.visits b e).map fun x => .slab x.2 := by
  rw [pass.filterMap_walkSteps rfl htell, visits, List.map_map, ← List.filterMap_eq_map]
  rfl

/-- What the steps of a block show: its length, and its visits. -/
theorem shows_stepsOfBlock (pass : Pass φ ω α) (b e : ℕ) :
    (pass.stepsOfBlock b e).filterMap pass.shows =
      .reset (sub e b) :: (pass.visits b e).map fun x => .slab x.2 := by
  have htell : ∀ done, pass.shows (pass.tellBlock b e done) = none := fun _ => rfl
  have hwalk := pass.shows_walkSteps htell b e
  rw [stepsOfBlock, List.cons_append, List.filterMap_cons, List.filterMap_append, hwalk]
  simp [shows]

end Pass

section Cover

variable {φ ω α : Type} [Pixel α] [HasSlab φ] {pass : Pass φ ω α}

omit [Pixel α] [HasSlab φ] in
/-- A slab of a band lies inside the plane and the selection. -/
theorem request_within {plan : PassPlan} (h : plan.InRange) {read : SlabRead φ}
    (hband : read.slab ∈ plan.bands) (hlt : read.slabBegin < read.slabEnd)
    (hle : read.slabEnd ≤ plan.planes.spectral.count) : read.request.Within plan := by
  have hcount := h.count_le
  obtain ⟨hu, hus, hul, hv, hvs, hvl⟩ := h.bands_within hband
  have hlen : sub read.slabEnd read.slabBegin = read.slabEnd - read.slabBegin :=
    sub_eq hlt.le (by omega)
  refine ⟨hu, hus, hul, hv, hvs, hvl, ?_, ?_⟩
  · simp only [SlabRead.request, SlabFootprint.request, hlen]
    omega
  · simp only [SlabRead.request, SlabFootprint.request, hlen]
    omega

omit [HasSlab φ] in
/-- The slab of a read that the image accepts is a visit. -/
theorem visit_of_accepted {walk : SlabWalk ω α} (hd : walk.plan.descriptor.StoredInOrder)
    (hp : walk.plan.Placed) (h : walk.plan.InRange) {read : SlabRead φ}
    (hwithin : read.request.Within walk.plan)
    (hb : read.blockBegin ≤ read.slabBegin) (hlt : read.slabBegin < read.slabEnd)
    (hle : read.slabEnd ≤ walk.plan.planes.spectral.count)
    (hok : ∃ s, buildSelection walk.plan.descriptor
    (walk.plan.readRequest read.request) .stored = .ok s) :
    Visit walk read (walk.visited read) := by
  have hcount := h.count_le
  obtain ⟨s, hs⟩ := hok
  have hsub : sub read.slabBegin read.blockBegin = read.slabBegin - read.blockBegin :=
    sub_eq hb (by omega)
  have hlen : sub read.slabEnd read.slabBegin = read.slabEnd - read.slabBegin :=
    sub_eq hlt.le (by omega)
  have hholds : walk.Holds read.request (walk.slabOf read.request s) :=
    slabOf_holds hd hp h hwithin hs
  have hvisited : walk.visited read =
      { walk.slabOf read.request s with firstChannel := sub read.slabBegin read.blockBegin } := by
    rw [SlabWalk.visited, hs]
  rw [hvisited]
  refine ⟨by simp only; omega, hlen, rfl, rfl, fun i hi j hj z hz => ?_⟩
  simp only [hsub, show read.blockBegin + (read.slabBegin - read.blockBegin) + z =
    read.slabBegin + z by omega]
  exact hholds.pixel i hi j hj z hz

omit [HasSlab φ] in
/-- Reads with every sample once, that the image accepts, are visits that cover the plane once. -/
theorem coversOnce_of_reads (hd : pass.plan.descriptor.StoredInOrder) (hp : pass.plan.Placed)
    (h : pass.plan.InRange) {reads : List (SlabRead φ)}
    (hhas : ∀ u v channel, (∃ read ∈ reads, read.Has u v channel) ↔
      (∃ footprint ∈ pass.plan.bands, footprint.Has u v) ∧
      channel < pass.plan.planes.spectral.count)
    (hdisj : reads.Pairwise fun r r' => Disjoint (r.chunks pass.plan) (r'.chunks pass.plan))
    (hband : ∀ read ∈ reads, read.slab ∈ pass.plan.bands)
    (hslab : ∀ read ∈ reads, read.blockBegin ≤ read.slabBegin ∧ read.slabBegin < read.slabEnd ∧
      read.slabEnd ≤ pass.plan.planes.spectral.count)
    (hok : ∀ read ∈ reads, ∃ s, buildSelection pass.plan.descriptor
      (pass.plan.readRequest read.request) .stored = .ok s) :
    CoversOnce pass.toSlabWalk (reads.map fun read => (read, pass.visited read)) := by
  refine ⟨fun u v channel => ?_, ?_, fun x hx => ?_, fun x hx => ?_⟩
  · rw [← h.bands_has_iff, ← hhas]
    simp
  · rw [List.pairwise_map]
    exact hdisj.imp fun hrr => SlabRead.not_both_has hrr
  · obtain ⟨read, hr, rfl⟩ := List.mem_map.1 hx
    obtain ⟨row, -, column, -, e, -⟩ := h.mem_bands (hband read hr)
    exact e ▸ ⟨rfl, rfl⟩
  · obtain ⟨read, hr, rfl⟩ := List.mem_map.1 hx
    obtain ⟨hb, hlt, hle⟩ := hslab read hr
    exact visit_of_accepted hd hp h
      (request_within h (hband read hr) hlt hle) hb hlt hle (hok read hr)

end Cover

section Plane

variable {φ ω α : Type} [HasSlab φ] {pass : Pass φ ω α} (hs : pass.shape = .planeBands)
  (h : pass.plan.InRange)
include hs

theorem footprints_of_planeBands :
    pass.footprints = pass.plan.bands.map fun slab => ((none : Option φ), slab) := by
  rw [Pass.footprints, hs]

theorem planeFootprints_has_iff {u v : ℕ} :
    (∃ footprint ∈ pass.footprints, footprint.2.Has u v) ↔
      ∃ footprint ∈ pass.plan.bands, footprint.Has u v := by
  rw [footprints_of_planeBands hs]
  simp

include h

/-- The reads of a pass over the plane are over its bands. -/
theorem planeReads_band {b e : ℕ} (hbe : b ≤ e) (he : e ≤ pass.plan.planes.spectral.count)
    {read : SlabRead φ} (hr : read ∈ pass.reads b e) : read.slab ∈ pass.plan.bands := by
  have hf := (Pass.mem_reads h hbe he hr).1
  rw [footprints_of_planeBands hs] at hf
  obtain ⟨slab, hslab, e⟩ := List.mem_map.1 hf
  rw [Prod.mk.injEq] at e
  exact e.2 ▸ hslab

theorem planePass_apart : pass.Apart := by
  rw [Pass.Apart, footprints_of_planeBands hs]
  exact List.pairwise_map.2 h.bands_disjoint

variable [Pixel α] (hd : pass.plan.descriptor.StoredInOrder) (hp : pass.plan.Placed)
  (hother : ∀ i < pass.plan.descriptor.rank, i ≠ pass.plan.axisU → i ≠ pass.plan.axisV →
    0 < pass.plan.descriptor.length i)
  {callbacks : Callbacks φ ω α} {seen : ω → List (Seen α)}
include hd hp hother

omit [Pixel α] in
/-- The image accepts a read of the plane that has fewer than `2 ^ 64` pixels. -/
theorem planeRead_accepted {b e : ℕ} (hbe : b ≤ e) (he : e ≤ pass.plan.planes.spectral.count)
    {read : SlabRead φ} (hr : read ∈ pass.reads b e) (hfit : read.request.elements < 2 ^ 64) :
    ∃ s, buildSelection pass.plan.descriptor (pass.plan.readRequest read.request) .stored =
      .ok s := by
  obtain ⟨-, -, -, -, hlt, hle, -⟩ := Pass.mem_reads h hbe he hr
  have hw := request_within h (planeReads_band hs h hbe he hr) hlt (hle.trans he)
  exact buildSelection_of_valid hd
    ⟨hw.inside hp h hother, by rwa [hp.readRequest_elements read.request]⟩ .stored

variable (hw : pass.Willing callbacks) (hr : pass.Recorded callbacks seen)
include hw hr

theorem planeWhole_covers {fuel : ℕ} (hfuel : pass.plan.planes.spectral.count ≤ fuel)
    (hfit : ∀ read ∈ pass.reads 0 pass.plan.planes.spectral.count, read.request.elements < 2 ^ 64)
    (w : ω) :
    ∃ w', pass.whole fuel callbacks w = (.ok (), w') ∧
      seen w' = seen w ++ (pass.visits 0 pass.plan.planes.spectral.count).map (fun x => .slab x.2) ∧
      CoversOnce pass.toSlabWalk (pass.visits 0 pass.plan.planes.spectral.count) ∧
      ∀ x ∈ pass.visits 0 pass.plan.planes.spectral.count, x.1.blockBegin = 0 := by
  have hok : ∀ read ∈ pass.reads 0 pass.plan.planes.spectral.count, ∃ s, buildSelection
      pass.plan.descriptor (pass.plan.readRequest read.request) .stored = .ok s := fun read hread =>
    planeRead_accepted hs h hd hp hother (Nat.zero_le _) le_rfl hread (hfit read hread)
  have hsteps : ∀ r, .read r ∈ pass.wholeSteps → ∃ s, buildSelection pass.plan.descriptor
      (pass.plan.readRequest r.request) .stored = .ok s := fun r hmem =>
    hok r (Pass.read_mem_wholeSteps hmem)
  obtain ⟨w', hrun, hseen⟩ := forEach_seen hw hr hsteps w
  refine ⟨w', by rw [Pass.whole_eq h callbacks hfuel, hrun], ?_, ?_, fun x hx => ?_⟩
  · rw [hseen, Pass.wholeSteps, pass.shows_walkSteps fun _ => rfl]
  · refine coversOnce_of_reads hd hp h (fun u v channel => ?_)
      (Pass.reads_disjoint h (planePass_apart hs h) (Nat.zero_le _) le_rfl)
      (fun read hread => planeReads_band hs h (Nat.zero_le _) le_rfl hread)
        (fun read hread => ?_) hok
    · rw [Pass.reads_has_iff h (Nat.zero_le _) le_rfl, planeFootprints_has_iff hs]
      simp
    · obtain ⟨-, hbegin, -, hb, hlt, hle, -⟩ := Pass.mem_reads h (Nat.zero_le _) le_rfl hread
      exact ⟨by omega, hlt, hle⟩
  · obtain ⟨read, hread, rfl⟩ := List.mem_map.1 hx
    exact (Pass.mem_reads h (Nat.zero_le _) le_rfl hread).2.1

theorem planeBlocks_covers {fuel : ℕ} (hfuel : pass.plan.planes.spectral.count ≤ fuel)
    (bytesPerChannel hint : ℕ)
    (hfit : ∀ read ∈ pass.blockReads bytesPerChannel hint, read.request.elements < 2 ^ 64) (w : ω) :
    ∃ w', pass.inBlocks fuel callbacks bytesPerChannel hint w = (.ok (), w') ∧
      Tiling 0 (pass.blocks bytesPerChannel hint) pass.plan.planes.spectral.count ∧
      seen w' = seen w ++ (pass.blocks bytesPerChannel hint).flatMap (fun block =>
        .reset (block.2 - block.1) :: (pass.visits block.1 block.2).map fun x => .slab x.2) ∧
      CoversOnce pass.toSlabWalk
        ((pass.blocks bytesPerChannel hint).flatMap fun block => pass.visits block.1 block.2) ∧
      ∀ block ∈ pass.blocks bytesPerChannel hint, ∀ x ∈ pass.visits block.1 block.2,
        x.1.blockBegin = block.1 := by
  have hcount := h.count_le
  have htile : Tiling 0 (pass.blocks bytesPerChannel hint) pass.plan.planes.spectral.count :=
    (h.blocks_spec _ _ _).1
  have hok : ∀ read ∈ pass.blockReads bytesPerChannel hint, ∃ s, buildSelection
      pass.plan.descriptor (pass.plan.readRequest read.request) .stored = .ok s := by
    intro read hread
    obtain ⟨block, hb, hread'⟩ := List.mem_flatMap.1 hread
    obtain ⟨-, hlt, hle⟩ := htile.bounds block hb
    exact planeRead_accepted hs h hd hp hother hlt.le hle hread' (hfit read hread)
  obtain ⟨w', hrun, hseen⟩ := forEach_seen hw hr (fun r hmem =>
    hok r (Pass.read_mem_blockSteps hmem)) w
  refine ⟨w', by rw [Pass.inBlocks_eq h callbacks bytesPerChannel hint hfuel, hrun], htile,
    ?_, ?_, ?_⟩
  · rw [hseen, Pass.blockSteps, List.filterMap_flatMap]
    congr 1
    refine List.flatMap_congr fun block hb => ?_
    obtain ⟨-, hlt, hle⟩ := htile.bounds block hb
    rw [pass.shows_stepsOfBlock, sub_eq hlt.le (by omega)]
  · have hvisits : ((pass.blocks bytesPerChannel hint).flatMap fun block =>
        pass.visits block.1 block.2) =
        (pass.blockReads bytesPerChannel hint).map fun read => (read, pass.visited read) := by
      rw [Pass.blockReads, List.map_flatMap]
      rfl
    rw [hvisits]
    refine coversOnce_of_reads hd hp h (fun u v channel => ?_)
      (Pass.blockReads_disjoint h (planePass_apart hs h) _ _) (fun read hread => ?_)
      (fun read hread => ?_) hok
    · rw [Pass.blockReads_has_iff h, planeFootprints_has_iff hs]
    · obtain ⟨block, hb, hread⟩ := List.mem_flatMap.1 hread
      obtain ⟨-, hlt, hle⟩ := htile.bounds block hb
      exact planeReads_band hs h hlt.le hle hread
    · obtain ⟨block, hb, hread⟩ := List.mem_flatMap.1 hread
      obtain ⟨-, hlt, hle⟩ := htile.bounds block hb
      obtain ⟨-, hbegin, -, hb, hlt', hle', -⟩ := Pass.mem_reads h hlt.le hle hread
      exact ⟨by omega, hlt', by omega⟩
  · intro block hb x hx
    obtain ⟨read, hread, rfl⟩ := List.mem_map.1 hx
    obtain ⟨-, hlt, hle⟩ := htile.bounds block hb
    exact (Pass.mem_reads h hlt.le hle hread).2.1

end Plane

/-- The axes that a pass does not walk are those that are not spatial. -/
theorem PassPlan.Placed.other_pos {plan : PassPlan} (hp : plan.Placed)
    (hother : ∀ i < plan.descriptor.rank, i ≠ plan.map.x → i ≠ plan.map.y →
      0 < plan.descriptor.length i) :
    ∀ i < plan.descriptor.rank, i ≠ plan.axisU → i ≠ plan.axisV → 0 < plan.descriptor.length i := by
  intro i hi hu hv
  rcases hp.axes with ⟨e₁, e₂⟩ | ⟨e₁, e₂⟩ <;> rw [e₁] at hu <;> rw [e₂] at hv
  · exact hother i hi hu hv
  · exact hother i hi hv hu

/-- **A pass over the whole plane covers its selection exactly once**, as one run and in blocks,
when nothing fails or refuses and no slab of it has `2 ^ 64` pixels. -/
theorem planePass_covers {φ ω α : Type} [Pixel α] [HasSlab φ] {d : ImageDescriptor}
    (hd : d.StoredInOrder) (hlen : ∀ i < d.rank, d.length i < 2 ^ 62) {map : AxisMap}
    (hmap : mapAxes d = .ok map) (hother : ∀ i < d.rank, i ≠ map.x → i ≠ map.y → 0 < d.length i)
    (g f : ChunkGeometry) (p : CheckedPlanes d map) (sample : ℕ) (o : ReadOptions)
    (source : PixelSource ω α) (control : ReadControl ω) (cancelled : String) {pass : Pass φ ω α}
    (hpass : pass = passOverPlane φ ⟨source, planPass d g f map p sample o, control⟩ cancelled)
    {callbacks : Callbacks φ ω α} {seen : ω → List (Seen α)} (hw : pass.Willing callbacks)
    (hr : pass.Recorded callbacks seen) {fuel : ℕ}
    (hfuel : p.selection.spectral.count ≤ fuel) (w : ω) :
    ((∀ read ∈ pass.reads 0 p.selection.spectral.count, read.request.elements < 2 ^ 64) →
      ∃ w', pass.whole fuel callbacks w = (.ok (), w') ∧
        seen w' = seen w ++ (pass.visits 0 p.selection.spectral.count).map (fun x => .slab x.2) ∧
        CoversOnce pass.toSlabWalk (pass.visits 0 p.selection.spectral.count) ∧
        ∀ x ∈ pass.visits 0 p.selection.spectral.count, x.1.blockBegin = 0) ∧
    ∀ bytesPerChannel hint, (∀ read ∈ pass.blockReads bytesPerChannel hint,
        read.request.elements < 2 ^ 64) →
      ∃ w', pass.inBlocks fuel callbacks bytesPerChannel hint w = (.ok (), w') ∧
        Tiling 0 (pass.blocks bytesPerChannel hint) p.selection.spectral.count ∧
        seen w' = seen w ++ (pass.blocks bytesPerChannel hint).flatMap (fun block =>
          .reset (block.2 - block.1) :: (pass.visits block.1 block.2).map fun x => .slab x.2) ∧
        CoversOnce pass.toSlabWalk
          ((pass.blocks bytesPerChannel hint).flatMap fun block => pass.visits block.1 block.2) ∧
        ∀ block ∈ pass.blocks bytesPerChannel hint, ∀ x ∈ pass.visits block.1 block.2,
          x.1.blockBegin = block.1 := by
  have hs : pass.shape = .planeBands := by rw [hpass]; rfl
  have hplan : pass.plan = planPass d g f map p sample o := by rw [hpass]; rfl
  have h : pass.plan.InRange := hplan ▸ planPass_inRange g f p sample o
    (d.length_le_of_lt fun i hi => (hlen i hi).le.trans (by decide))
  have hp : pass.plan.Placed := hplan ▸ planPass_placed g f (mapAxes_of hmap) p sample o
  have hcount : p.selection.spectral.count = pass.plan.planes.spectral.count := by rw [hplan]; rfl
  have hd' : pass.plan.descriptor.StoredInOrder := by rw [hplan]; exact hd
  have hother' : ∀ i < pass.plan.descriptor.rank, i ≠ pass.plan.axisU → i ≠ pass.plan.axisV →
      0 < pass.plan.descriptor.length i := by
    refine hp.other_pos ?_
    rw [show pass.plan.descriptor = d by rw [hplan]; rfl,
      show pass.plan.map = map by rw [hplan]; rfl]
    exact hother
  rw [hcount] at hfuel ⊢
  exact ⟨fun hfit => planeWhole_covers hs h hd' hp hother' hw hr hfuel hfit w,
    fun bytesPerChannel hint hfit =>
      planeBlocks_covers hs h hd' hp hother' hw hr hfuel bytesPerChannel hint hfit w⟩

/-! ## A small plane, and one too large -/

instance : HasSlab SlabFootprint := ⟨id⟩

/-- Callbacks that refuse nothing and write down what they are given. -/
def recorder {φ α : Type} : Callbacks φ (List (Seen α)) α where
  reset n w := w ++ [.reset n]
  visit _ slab w := w ++ [.slab slab]
  handOver _ _ _ _ w := (true, w)
  progress _ w := (true, w)

theorem recorder_willing {φ : Type} (plan : PassPlan) (cancelled : String) :
    (passOverPlane φ ⟨steadySource, plan, freeControl⟩ cancelled).Willing recorder where
  cancellation _ h := by cases h
  deadline _ := rfl
  pixels _ _ := rfl
  mask _ _ := rfl
  handOver _ _ _ _ _ := rfl
  progress _ _ := rfl

theorem recorder_recorded {φ : Type} (plan : PassPlan) (cancelled : String) :
    (passOverPlane φ ⟨steadySource, plan, freeControl⟩ cancelled).Recorded recorder fun w => w where
  reset _ _ := rfl
  visit _ _ _ := rfl
  handOver _ _ _ _ _ := rfl
  progress _ _ := rfl
  cancellation _ h := by cases h
  deadline _ := rfl
  pixels _ _ := rfl
  mask _ _ := rfl

/-- Where the axes of the small cube are. -/
def smallCubeMap : AxisMap := ⟨0, 1, 2, none, none⟩

/-- Every other channel of the small cube. -/
def evenChannels : CheckedPlanes smallCube smallCubeMap := ⟨⟨⟨0, 4, 2⟩, 0, 0⟩, rfl⟩

/-- Every third pixel of every other channel of the small cube, in reads of one chunk. -/
def smallPass : Pass SlabFootprint (List (Seen (Option ℚ))) (Option ℚ) :=
  passOverPlane SlabFootprint
    ⟨steadySource, planPass smallCube ⟨.spatialY, [2, 2, 4]⟩
      ⟨.spatialY, []⟩ smallCubeMap evenChannels 3
      ⟨false, 64⟩, freeControl⟩ "stopped"

theorem planePass_covers_smallPass :
    ∃ w', smallPass.inBlocks 4 recorder 0 1 [] = (.ok (), w') ∧
      CoversOnce smallPass.toSlabWalk
        ((smallPass.blocks 0 1).flatMap fun block => smallPass.visits block.1 block.2) := by
  obtain ⟨w', hrun, -, -, hcover, -⟩ := (planePass_covers (show smallCube.StoredInOrder by decide)
    (by decide) (show mapAxes smallCube = .ok smallCubeMap from rfl)
      (by decide) _ _ evenChannels _ _ _ _
    _ (show smallPass = _ from rfl) (recorder_willing _ _) (recorder_recorded _ _)
    (show 4 ≤ 4 by decide) []).2 0 1 (by decide +kernel)
  exact ⟨w', hrun, hcover⟩

/-- A plane of `2 ^ 40` by `2 ^ 40` pixels in one chunk. -/
def hugePlane : ImageDescriptor where
  id := "SKY"
  storedType := .float32
  axes := [⟨"l", .spatialX, 2 ^ 40, 2⟩, ⟨"m", .spatialY, 2 ^ 40, 1⟩, ⟨"frequency", .spectral, 1, 0⟩]
  hasPixelMask := false

def hugePass : Pass SlabFootprint (List (Seen (Option ℚ))) (Option ℚ) :=
  passOverPlane SlabFootprint
    ⟨steadySource, planPass hugePlane ⟨.spatialX, [2 ^ 40, 2 ^ 40, 1]⟩ ⟨.spatialX, []⟩ smallCubeMap
      ⟨⟨⟨0, 1, 1⟩, 0, 0⟩, rfl⟩ 1 ⟨false, 0⟩, freeControl⟩ "stopped"

/-- A plane of four pixels with two spectral axes, of which the second is the one planes are chosen
along and the first has no length. -/
def hollowCube : ImageDescriptor where
  id := "SKY"
  storedType := .float32
  axes := [⟨"l", .spatialX, 2, 3⟩, ⟨"m", .spatialY, 2, 2⟩, ⟨"window", .spectral, 0, 1⟩,
    ⟨"frequency", .spectral, 1, 0⟩]
  hasPixelMask := false

def hollowMap : AxisMap := ⟨0, 1, 3, none, none⟩

def hollowPass : Pass SlabFootprint (List (Seen (Option ℚ))) (Option ℚ) :=
  passOverPlane SlabFootprint
    ⟨steadySource, planPass hollowCube ⟨.spatialX, [2, 2, 1, 1]⟩ ⟨.spatialX, []⟩ hollowMap
      ⟨⟨⟨0, 1, 1⟩, 0, 0⟩, rfl⟩ 1 ⟨false, 0⟩, freeControl⟩ "stopped"

/-- A slab of `2 ^ 64` pixels or more is refused, and so is one of an image with an empty axis
that the plane does not name: either pass visits nothing. -/
theorem planePass_hugePlane :
    (hugePlane.StoredInOrder ∧ (∀ i < hugePlane.rank, hugePlane.length i < 2 ^ 62) ∧
      mapAxes hugePlane = .ok smallCubeMap ∧ hugePass.Willing recorder ∧
      hugePass.Recorded recorder (fun w => w) ∧
      hugePass.whole 1 recorder [] =
        (.error (.error ⟨.invalidArgument, "Request selects more elements than can be counted",
          "SKY"⟩), [])) ∧
    hollowCube.StoredInOrder ∧ (∀ i < hollowCube.rank, hollowCube.length i < 2 ^ 62) ∧
    mapAxes hollowCube = .ok hollowMap ∧ hollowPass.Willing recorder ∧
    hollowPass.Recorded recorder (fun w => w) ∧
    hollowPass.whole 1 recorder [] =
      (.error (.error ⟨.invalidArgument, "Axis 'window' request exceeds its length of 0", "SKY"⟩),
        []) :=
  ⟨⟨by decide, by decide, rfl, recorder_willing _ _, recorder_recorded _ _, by decide +kernel⟩,
    by decide, by decide, rfl, recorder_willing _ _, recorder_recorded _ _, by decide +kernel⟩

end CartaZarr
