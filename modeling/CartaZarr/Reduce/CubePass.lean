import CartaZarr.Reduce.CubeHistogram
import CartaZarr.Reduce.PlaneHistogram

/-!
# A pass that fills a cube histogram

`computeCubeHistogram` makes one pass over the pixels it samples of all selected planes, adds each
slab to its provisional histograms, and answers over all of them. Before every read after the first
it tells the caller how far it is, with what it would answer then.

When it succeeds its answer is of every sampled pixel once (`computeCubeHistogram_conserves`), and
each answer it told on the way is of the pixels read until then.
-/

namespace CartaZarr

open Word ProvisionalHistograms

/-! ## The model -/

/-- One histogram for a whole selection. -/
structure CubeHistogramRequest where
  planes : PlaneSelection
  bins : ℕ
  provisionalBins : ℕ
  spatialSample : ℕ

/-- What a caller is told on the way. -/
structure CubeHistogramProgress where
  progress : ℚ
  snapshot : CubeHistogramResult

/-- A cube histogram under way: none when adding to it did not end. -/
abbrev Filling (ω : Type) : Type := Underway (Option ProvisionalHistograms) CubeHistogramProgress ω

section Model

variable {ω : Type} (spacing : ℚ → ℚ) (fuel : ℕ) (workers : TaskPool ω)
  (progress : Option (CubeHistogramProgress → ω → Bool × ω))

/-- What the pass calls. -/
def fillingCallbacks : Callbacks SlabFootprint (Filling ω) (Option ℚ) where
  reset _ w := w
  visit _ slab w :=
    match w.state with
    | none => w
    | some h =>
      let called := workers.orderOf (h.split.tasks slab.uCount
        (mul slab.channelCount slab.vCount)) w.world
      { w with state := h.add spacing fuel slab called.1, world := called.2 }
  handOver _ _ _ _ w := (true, w)
  progress fraction w :=
    match w.state, progress with
    | some h, some progress =>
      let update : CubeHistogramProgress := ⟨fraction, h.collect⟩
      let said := progress update w.world
      (said.1, ⟨w.state, w.handed ++ [update], said.2⟩)
    | _, _ => (true, w)

end Model

namespace ReducibleImage

variable {ω : Type} (image : ReducibleImage ω (Option ℚ))

end ReducibleImage

/-! ## Slabs -/

/-- The pixels of some reads, at all channels of the selection. -/
def SlabWalk.cubePixels {ω : Type} (walk : SlabWalk ω (Option ℚ))
    (reads : List (SlabRead SlabFootprint)) :
    Multiset (Option ℚ) :=
  ∑ channel ∈ Finset.range walk.plan.planes.spectral.count,
    walk.pixelsOf (fun _ _ => true) reads channel

/-- Rows numbered across planes, one plane after another. -/
theorem flatMap_range_mul {α : Type} (planes rows : ℕ) (f : ℕ → List α) :
    (List.range (planes * rows)).flatMap f =
      (List.range planes).flatMap fun z => (List.range rows).flatMap fun v => f (z * rows + v) := by
  induction planes with
  | zero => simp
  | succ planes ih =>
    rw [Nat.add_mul, one_mul, List.range_add, List.flatMap_append, ih, List.range_succ,
      List.flatMap_append,
      List.flatMap_singleton, List.flatMap_map]

/-- The pixels of a slab are those of its planes. -/
theorem slabPixels_eq (slab : Slab (Option ℚ)) : slabPixels slab =
    Multiset.ofList ((List.range slab.channelCount).flatMap fun z =>
      slab.rowPixels z 0 slab.vCount) := by
  rw [slabPixels, flatMap_range_mul]
  refine congrArg _ (List.flatMap_congr fun z _ => ?_)
  rw [Slab.rowPixels, Nat.sub_zero, ← List.range_eq_range']
  refine List.flatMap_congr fun v hv => List.map_congr_left fun u _ => ?_
  have hv := List.mem_range.1 hv
  rw [rowOf, Nat.add_comm (z * slab.vCount), Nat.add_mul_div_right _ _ (by omega),
    Nat.div_eq_of_lt hv,
    Nat.add_mul_mod_self_right, Nat.mod_eq_of_lt hv, Nat.zero_add]

section Slab

variable {ω : Type} {walk : SlabWalk ω (Option ℚ)}

/-- A slab brings the pixels of its read. -/
theorem cubePixels_append_singleton (hd : walk.plan.descriptor.StoredInOrder)
    (hp : walk.plan.Placed)
    (h : walk.plan.InRange) (reads : List (SlabRead SlabFootprint)) {read : SlabRead SlabFootprint}
    (hfits : read.Fits walk.plan 0 walk.plan.planes.spectral.count) (haccepts : walk.Accepts read) :
    walk.cubePixels (reads ++ [read]) = walk.cubePixels reads + slabPixels (walk.visited read) := by
  have hvisit := visit_of_fits hd hp h hfits haccepts
  have hbegin := hvisit.firstChannel
  have hchannels := hvisit.channelCount
  have hblock := hfits.blockBegin_eq
  have hlt := hfits.lt
  have hle := hfits.le_end
  simp only [SlabWalk.cubePixels, pixelsOf_append_singleton, Finset.sum_add_distrib]
  congr 1
  -- the channels of the read, from its first
  have hinside : ∀ channel ∈ Finset.range walk.plan.planes.spectral.count,
    channel ∉ Finset.Ico read.slabBegin
      read.slabEnd → (read.samplesAt (fun _ _ => true) channel).val.map
          (walk.valueAt channel) = 0 := by
    intro channel _ hout
    rw [Finset.mem_Ico] at hout
    rw [SlabRead.samplesAt, if_neg hout]
    rfl
  have hsub : Finset.Ico read.slabBegin read.slabEnd ⊆
      Finset.range walk.plan.planes.spectral.count := fun z hz => by
    rw [Finset.mem_Ico] at hz
    exact Finset.mem_range.2 (by omega)
  rw [← Finset.sum_subset hsub fun channel hchannel hout => hinside channel hchannel hout,
    Finset.sum_Ico_eq_sum_range,
    ← hchannels, slabPixels_eq]
  have hplanes : ∀ n ≤ (walk.visited read).channelCount,
      ∑ z ∈ Finset.range n, (read.samplesAt (fun _ _ => true) (read.slabBegin + z)).val.map
        (walk.valueAt (read.slabBegin + z)) =
      Multiset.ofList ((List.range n).flatMap fun z =>
        (walk.visited read).rowPixels z 0 (walk.visited read).vCount) := by
    intro n hn
    induction n with
    | zero => rfl
    | succ n ih =>
      rw [Finset.sum_range_succ, ih (by omega), List.range_succ, List.flatMap_append,
        List.flatMap_singleton,
        ← Multiset.coe_add, ← hvisit.rowPixels hfits.within (by omega)]
  exact hplanes _ le_rfl

end Slab

/-! ## What is told -/

/-- What steps tell after some reads: how far they are, and the reads until then. -/
def toldAfter {φ : Type} : List (SlabRead φ) → List (PassStep φ) → List (ℚ × List (SlabRead φ))
  | _, [] => []
  | reads, .progress fraction :: steps => (fraction, reads) :: toldAfter reads steps
  | reads, .read r :: steps => toldAfter (reads ++ [r]) steps
  | reads, _ :: steps => toldAfter reads steps

theorem toldAfter_cons {φ : Type} (reads : List (SlabRead φ)) (step : PassStep φ)
    (steps : List (PassStep φ)) :
    toldAfter reads (step :: steps) =
      toldAfter reads [step] ++ toldAfter (reads ++ readsOf [step]) steps := by
  cases step <;> simp only [toldAfter, readsOf, List.filterMap_cons,
    List.filterMap_nil, PassStep.read?,
    List.append_nil, List.nil_append, List.cons_append]

/-- What a caller is told is of the reads until then. -/
structure CubeHistogramProgress.Shows {ω : Type} (walk : SlabWalk ω (Option ℚ))
    (bins : ℕ) (sampled : Bool)
    (x : ℚ × List (SlabRead SlabFootprint)) (update : CubeHistogramProgress) : Prop where
  progress_eq : update.progress = x.1
  conserves : Conserves bins sampled update.snapshot (walk.cubePixels x.2)

section Tell

variable {ω : Type} {spacing : ℚ → ℚ} {fuel : ℕ} {workers : TaskPool ω}
  (pass : Pass SlabFootprint (Filling ω) (Option ℚ)) (fraction : ℚ) (w : Filling ω)

end Tell

section Run

variable {ω : Type} {walk : SlabWalk ω (Option ℚ)} {start : ProvisionalHistograms} {n : ℕ}

/-- The histograms have become what these reads make of them. -/
def Filled (walk : SlabWalk ω (Option ℚ)) (start : ProvisionalHistograms) (n : ℕ)
    (reads : List (SlabRead SlabFootprint)) (state : Option ProvisionalHistograms) : Prop :=
  ∃ h, state = some h ∧ start.Becomes n (walk.cubePixels reads) h

/-- How steps end, after some reads: some of the first of them are done, and all of them when the
run goes well. -/
def FillsOn (walk : SlabWalk ω (Option ℚ)) (start : ProvisionalHistograms) (n : ℕ) (telling : Bool)
    (reads : List (SlabRead SlabFootprint)) (steps : List (PassStep SlabFootprint)) (w : Filling ω)
    (run : Except (Halt Error) Unit × Filling ω) : Prop :=
  ∃ done updates, done <+: steps ∧ (run.1 = .ok () → done = steps) ∧
    Filled walk start n (reads ++ readsOf done) run.2.state ∧ run.2.handed = w.handed ++ updates ∧
    (telling = true →
      List.Forall₂ (CubeHistogramProgress.Shows walk start.bins start.sampled)
        (toldAfter reads done) updates)

section FillsOn

variable {telling : Bool} {reads : List (SlabRead SlabFootprint)} {step : PassStep SlabFootprint}
  {steps : List (PassStep SlabFootprint)} {w w₁ : Filling ω}
    {run : Except (Halt Error) Unit × Filling ω}

/-- Steps that stop before the first is done. -/
theorem FillsOn.stop (hw : Filled walk start n reads w.state) (hstate : run.2.state = w.state)
    (hhanded : run.2.handed = w.handed)
    (hfails : run.1 ≠ .ok ()) : FillsOn walk start n telling reads steps w run := by
  refine ⟨[], [], List.nil_prefix, fun hok => absurd hok hfails, ?_, ?_, fun _ => .nil⟩
  · rw [readsOf, List.filterMap_nil, List.append_nil, hstate]
    exact hw
  · rw [hhanded, List.append_nil]

/-- Steps that go on when the first is done. -/
theorem FillsOn.cons {updates₁ : List CubeHistogramProgress}
    (h : FillsOn walk start n telling (reads ++ readsOf [step]) steps w₁ run)
    (hhanded : w₁.handed = w.handed ++ updates₁)
    (hshows : telling = true → List.Forall₂
    (CubeHistogramProgress.Shows walk start.bins start.sampled)
      (toldAfter reads [step]) updates₁) :
    FillsOn walk start n telling reads (step :: steps) w run := by
  obtain ⟨done, updates, hpre, hall, hfilled, hhanded', hshows'⟩ := h
  refine ⟨step :: done, updates₁ ++ updates, List.cons_prefix_cons.2 ⟨rfl, hpre⟩, fun hok =>
    congrArg _ (hall hok), ?_,
    ?_, fun htelling => ?_⟩
  · have hreads : readsOf (step :: done) = readsOf [step] ++ readsOf done := by
      rw [← List.singleton_append, readsOf, List.filterMap_append]
    rwa [hreads, ← List.append_assoc]
  · rw [hhanded', hhanded, List.append_assoc]
  · rw [toldAfter_cons]
    exact List.rel_append (hshows htelling) (hshows' htelling)

end FillsOn

variable {pass : Pass SlabFootprint (Filling ω) (Option ℚ)}
  (hpass : pass.toSlabWalk = walk.beside (Option ProvisionalHistograms) CubeHistogramProgress)
  {spacing : ℚ → ℚ} (hspacing : ∀ x, 0 < spacing x) (hn : 2 ≤ n) (heven : Even n)
    (hbins : 1 ≤ start.bins)
  (hmost : 0 < start.split.most) (hd : walk.plan.descriptor.StoredInOrder) (hp : walk.plan.Placed)
  (h : walk.plan.InRange)
  (hrows : walk.plan.planes.spectral.count * walk.plan.vLength + start.split.most < 2 ^ 64)
    {workers : TaskPool ω}
  {progress : Option (CubeHistogramProgress → ω → Bool × ω)}

include hn heven hspacing hmost hd hp h hrows

/-- A slab that is visited is added. -/
theorem Filled.visit {reads : List (SlabRead SlabFootprint)} {w : Filling ω}
    (hw : Filled walk start n reads w.state)
    {read : SlabRead SlabFootprint} (hfits : read.Fits walk.plan 0 walk.plan.planes.spectral.count)
    (haccepts : walk.Accepts read) :
    Settles (fun fuel => some ((fillingCallbacks spacing fuel workers progress).visit read.footprint
        (walk.visited read) w)) fun w' =>
      Filled walk start n (reads ++ [read]) w'.state ∧ w'.handed = w.handed := by
  obtain ⟨state, handed, world⟩ := w
  obtain ⟨histograms, hstate, hbecomes⟩ := hw
  dsimp only at hstate
  subst hstate
  have hvisit := visit_of_fits hd hp h hfits haccepts
  set slab := walk.visited read with hslab
  have hvCount : slab.vCount ≤ walk.plan.vLength := by
    have hlast : Strided.coord read.slab.vStart read.slab.vStride (read.slab.vCount - 1) <
        walk.plan.vLength :=
      hfits.within.vLast_lt
    have hstride : 0 < read.slab.vStride := hfits.within.vStride_pos
    have hmul : read.slab.vCount - 1 ≤ (read.slab.vCount - 1) * read.slab.vStride :=
      Nat.le_mul_of_pos_right _ hstride
    rw [hvisit.vCount]
    unfold Strided.coord at hlast
    omega
  have hcount : slab.channelCount ≤ walk.plan.planes.spectral.count := by
    have := hvisit.channelCount
    have := hfits.le_end
    omega
  have hfit : slab.channelCount * slab.vCount + histograms.split.most < 2 ^ 64 := by
    rw [hbecomes.split_eq]
    exact lt_of_le_of_lt (Nat.add_le_add_right (Nat.mul_le_mul hcount hvCount) _) hrows
  have hmul : mul slab.channelCount slab.vCount = slab.channelCount * slab.vCount :=
    mul_eq (by omega)
  obtain ⟨histograms', hbecomes', enough, hadd⟩ := add_holds hn heven hspacing hbecomes.holds
    (hbecomes.split_eq ▸ hmost) slab hfit (workers.orderOf_perm _ world)
  refine ⟨⟨some histograms', handed,
    (workers.orderOf (histograms.split.tasks slab.uCount
      (slab.channelCount * slab.vCount)) world).2⟩,
    ⟨⟨histograms', rfl, ?_⟩, rfl⟩, enough, fun fuel hfuel => ?_⟩
  · rw [cubePixels_append_singleton hd hp h reads hfits haccepts]
    exact hbecomes.trans hbecomes'
  · have hrun := hadd fuel hfuel
    simp only [fillingCallbacks, hmul, hrun]

include hpass hbins

end Run

/-! ## Cube histograms -/

/-- What a pass as one run tells. -/
def Pass.told {φ ω α : Type} [HasSlab φ] (pass : Pass φ ω α) : List (ℚ × List (SlabRead φ)) :=
  toldAfter [] pass.wholeSteps

namespace ReducibleImage

variable {ω : Type} {image : ReducibleImage ω (Option ℚ)} {request : CubeHistogramRequest}
  {options : ReadOptions}

/-- The pixels that a request samples of all planes it selects. -/
def sampledPixels (image : ReducibleImage ω (Option ℚ)) (request : CubeHistogramRequest)
    (options : ReadOptions) :
    Multiset (Option ℚ) :=
  ∑ channel ∈ Finset.range request.planes.spectral.count,
    image.source.sampledPixels (appliesPixelMask options image.descriptor) image.descriptor
      image.map request.planes
      request.spatialSample channel

end ReducibleImage

end CartaZarr
