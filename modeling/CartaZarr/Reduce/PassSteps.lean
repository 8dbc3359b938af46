import CartaZarr.Reduce.Pass

/-!
# The steps of a pass

What a pass is to do is known before it reads anything: which blocks there are, which slabs are read
for each, what is reported before each read. `blockSteps` and `wholeSteps` are the lists of these
steps, `perform` what each of them does to the world, and a pass of a plan in range is its steps, in
order, until one of them fails (`inBlocks_eq`, `whole_eq`).

The later modules are about these lists: which pixels the reads cover, which chunks they decode, and
what is handed over when.
-/

namespace CartaZarr

open Word

/-- One slab that a pass reads: over a footprint, the channels `[slabBegin, slabEnd)`, which the
visitor counts from `blockBegin`. -/
structure SlabRead (φ : Type) where
  footprint : Option φ
  slab : SlabFootprint
  blockBegin : ℕ
  slabBegin : ℕ
  slabEnd : ℕ

/-- One step of a pass. -/
inductive PassStep (φ : Type)
  | reset (length : ℕ)
  | ask
  | handOver (firstChannel length : ℕ) (complete : Bool) (completeness : ℚ)
  | progress (fraction : ℚ)
  | read (read : SlabRead φ)

/-- The slab a step reads. -/
def PassStep.read? {φ : Type} : PassStep φ → Option (SlabRead φ)
  | .read r => some r
  | _ => none

namespace PassPlan

/-- The slabs of a footprint of `chunks` chunks in the channels `[b, e)`. -/
def slabs (plan : PassPlan) (chunks b e : ℕ) : List (ℕ × ℕ) :=
  (CartaZarr.walk (fun s => plan.alignedSlabEnd s (min (plan.slabChannels chunks) (sub e s)) e)
    e (e - b) b).getD []

/-- The blocks a selection is emitted in. -/
def blocks (plan : PassPlan) (layerChunks bytesPerChannel hint : ℕ) : List (ℕ × ℕ) :=
  (CartaZarr.walk (fun b => plan.alignedSlabEnd b
    (plan.emitChannels layerChunks bytesPerChannel hint)
    plan.planes.spectral.count) plan.planes.spectral.count plan.planes.spectral.count 0).getD []

/-- The chunk rows the sample has a pixel in. -/
def rows (plan : PassPlan) : SampledChunks := chunksSampled plan.vLength plan.chunkV plan.sample

/-- The chunk columns the sample has a pixel in. -/
def columns (plan : PassPlan) : SampledChunks := chunksSampled plan.uLength plan.chunkU plan.sample

/-- The bands of the plane, each as the rows `[row, row')` of the chunk rows sampled. -/
def bandCuts (plan : PassPlan) : List (ℕ × ℕ) := cuts plan.bandRows plan.rows.size

/-- The pieces along a band of `bandRows` rows. -/
def segmentCuts (plan : PassPlan) (bandRows : ℕ) : List (ℕ × ℕ) :=
  cuts (plan.unitsAffordable bandRows) plan.columns.size

/-- The footprint of a piece of a band. -/
def bandSegment (plan : PassPlan) (row column : ℕ × ℕ) : SlabFootprint :=
  plan.segment (plan.band plan.rows row.1 (row.2 - row.1)) plan.columns column.1
    (column.2 - column.1) (row.2 - row.1)

/-- The footprints a pass over the whole plane walks. -/
def bands (plan : PassPlan) : List SlabFootprint :=
  plan.bandCuts.flatMap fun row =>
    (plan.segmentCuts (row.2 - row.1)).map (plan.bandSegment row)

end PassPlan

/-- What a walk has counted after a read. -/
def Counters.after (plan : PassPlan) {φ : Type} (counters : Counters)
    (read : SlabRead φ) : Counters :=
  ⟨add counters.readsDone 1,
    add counters.chunksDone (mul read.slab.chunks (plan.chunksTouched read.slabBegin read.slabEnd))⟩

/-- The steps of one read, which is told about unless it is the first. -/
def Counters.stepsOf {φ : Type} (tell : ℕ → PassStep φ) (counters : Counters) (read : SlabRead φ) :
    List (PassStep φ) :=
  (if 0 < counters.readsDone then [tell counters.chunksDone] else []) ++ [.ask, .read read]

namespace Pass

variable {φ ω α : Type} [Pixel α] [HasSlab φ]

/-- The footprints a pass walks, each with what the visitor is given beside its slabs. -/
def footprints (pass : Pass φ ω α) : List (Option φ × SlabFootprint) :=
  match pass.shape with
  | .planeBands => pass.plan.bands.map fun slab => (none, slab)
  | .footprintsOf footprints => footprints.map fun f => (some f, HasSlab.slab f)

/-- The reads of one footprint. -/
def readsOver (pass : Pass φ ω α) (b e : ℕ) (footprint : Option φ × SlabFootprint) :
    List (SlabRead φ) :=
  (pass.plan.slabs footprint.2.chunks b e).map fun s => ⟨footprint.1, footprint.2, b, s.1, s.2⟩

/-- The reads of the channels `[b, e)`. -/
def reads (pass : Pass φ ω α) (b e : ℕ) : List (SlabRead φ) :=
  pass.footprints.flatMap (pass.readsOver b e)

/-- The steps of a walk along the channels `[b, e)`. -/
def walkSteps (pass : Pass φ ω α) (tell : ℕ → PassStep φ) (b e : ℕ) : List (PassStep φ) :=
  .ask :: Attempt.steps (Counters.stepsOf tell) (Counters.after pass.plan) ⟨0, 0⟩ (pass.reads b e)

/-- What there is of a block is handed over with the part of its chunks that is in it. -/
def tellBlock (pass : Pass φ ω α) (b e chunksDone : ℕ) : PassStep φ :=
  .handOver b (sub e b) false
    (fraction chunksDone (pass.plan.chunksCovering (max 1 pass.layerChunks) b e))

/-- A run is told the part of its chunks that is read. -/
def tellWhole (pass : Pass φ ω α) (chunksDone : ℕ) : PassStep φ :=
  .progress (fraction chunksDone
    (pass.plan.chunksCovering (max 1 pass.layerChunks) 0 pass.plan.planes.spectral.count))

/-- The steps of one block. -/
def stepsOfBlock (pass : Pass φ ω α) (b e : ℕ) : List (PassStep φ) :=
  .reset (sub e b) :: pass.walkSteps (pass.tellBlock b e) b e ++ [.handOver b (sub e b) true 1]

/-- The blocks a pass emits. -/
def blocks (pass : Pass φ ω α) (bytesPerChannel hint : ℕ) : List (ℕ × ℕ) :=
  pass.plan.blocks pass.layerChunks bytesPerChannel hint

/-- The steps of a pass in blocks. -/
def blockSteps (pass : Pass φ ω α) (bytesPerChannel hint : ℕ) : List (PassStep φ) :=
  (pass.blocks bytesPerChannel hint).flatMap fun block => pass.stepsOfBlock block.1 block.2

/-- The steps of a pass as one run. -/
def wholeSteps (pass : Pass φ ω α) : List (PassStep φ) :=
  pass.walkSteps pass.tellWhole 0 pass.plan.planes.spectral.count

/-- What a step does. -/
def perform (pass : Pass φ ω α) (callbacks : Callbacks φ ω α) :
    PassStep φ → Attempt (Halt Error) ω Unit
  | .reset length => .modify (callbacks.reset length)
  | .ask => pass.allowed
  | .handOver firstChannel length complete completeness =>
    pass.unlessCancelled (callbacks.handOver firstChannel length complete completeness)
  | .progress fraction => pass.unlessCancelled (callbacks.progress fraction)
  | .read r =>
    pass.readAndVisit (callbacks.visit r.footprint) r.slab r.blockBegin r.slabBegin r.slabEnd

end Pass

/-! ## The reads among the steps -/

namespace Pass

variable {φ ω α β : Type} [HasSlab φ] (pass : Pass φ ω α)

/-- What is looked at in the steps of a walk, when it is in its reads alone. -/
theorem filterMap_walkSteps {see : PassStep φ → Option β} {tell : ℕ → PassStep φ}
    (hask : see .ask = none) (htell : ∀ done, see (tell done) = none) (b e : ℕ) :
    (pass.walkSteps tell b e).filterMap see = (pass.reads b e).filterMap fun read =>
      see (.read read) := by
  have hreads : ∀ (reads : List (SlabRead φ)) (counters : Counters),
      (Attempt.steps (Counters.stepsOf tell)
        (Counters.after pass.plan) counters reads).filterMap see =
        reads.filterMap fun read => see (.read read) := by
    intro reads
    induction reads with
    | nil => exact fun _ => rfl
    | cons read reads ih =>
      intro counters
      rw [Attempt.steps, List.filterMap_append, ih, Counters.stepsOf]
      split <;> simp only [List.filterMap_append, List.filterMap_cons,
        List.filterMap_nil, htell, hask,
        List.nil_append] <;> cases see (.read read) <;> rfl
  rw [walkSteps, List.filterMap_cons, hask]
  exact hreads _ _

/-- The reads of a pass as one run. -/
theorem reads_wholeSteps :
    pass.wholeSteps.filterMap PassStep.read? = pass.reads 0 pass.plan.planes.spectral.count := by
  rw [wholeSteps, pass.filterMap_walkSteps rfl fun _ => rfl]
  exact List.filterMap_some

/-- The reads of a block. -/
theorem reads_stepsOfBlock (b e : ℕ) :
    (pass.stepsOfBlock b e).filterMap PassStep.read? = pass.reads b e := by
  have hwalk : (pass.walkSteps (pass.tellBlock b e) b e).filterMap PassStep.read? =
      pass.reads b e := by
    rw [pass.filterMap_walkSteps rfl fun _ => rfl]
    exact List.filterMap_some
  rw [stepsOfBlock, List.cons_append, List.filterMap_cons, List.filterMap_append, hwalk]
  exact List.append_nil _

end Pass

/-! ## A pass is its steps -/

namespace PassPlan

variable {plan : PassPlan} (h : plan.InRange)
include h

theorem InRange.walk_slabs (chunks : ℕ) {b e fuel : ℕ} (hbe : b ≤ e)
    (he : e ≤ plan.planes.spectral.count) (hfuel : e - b ≤ fuel) :
    CartaZarr.walk (fun s => plan.alignedSlabEnd s (min (plan.slabChannels chunks) (sub e s)) e)
      e fuel b = some (plan.slabs chunks b e) := by
  obtain ⟨slabs, hw, -⟩ := h.slabs_tiling (plan.slabChannels chunks) hbe he le_rfl
  rw [PassPlan.slabs, hw, Option.getD_some]
  exact walk_mono hw hfuel

theorem InRange.walk_blocks (layerChunks bytesPerChannel hint : ℕ) {fuel : ℕ}
    (hfuel : plan.planes.spectral.count ≤ fuel) :
    CartaZarr.walk (fun b => plan.alignedSlabEnd b
      (plan.emitChannels layerChunks bytesPerChannel hint)
      plan.planes.spectral.count) plan.planes.spectral.count fuel 0 =
      some (plan.blocks layerChunks bytesPerChannel hint) := by
  obtain ⟨blocks, hw, -⟩ := h.blocks_tiling layerChunks bytesPerChannel hint le_rfl
  rw [PassPlan.blocks, hw, Option.getD_some]
  exact walk_mono hw hfuel

/-- The blocks tile the selection, and begin where no chunk is shared. -/
theorem InRange.blocks_spec (layerChunks bytesPerChannel hint : ℕ) :
    Tiling 0 (plan.blocks layerChunks bytesPerChannel hint) plan.planes.spectral.count ∧
      ∀ x ∈ plan.blocks layerChunks bytesPerChannel hint, plan.Boundary x.1 := by
  obtain ⟨blocks, hw, ht, hb⟩ := h.blocks_tiling layerChunks bytesPerChannel hint le_rfl
  rw [h.walk_blocks _ _ _ le_rfl, Option.some.injEq] at hw
  exact hw ▸ ⟨ht, hb⟩

/-- The slabs of a footprint tile its channels, all but the first begin where no chunk is shared,
and each ends where `blockEnd` puts it. -/
theorem InRange.slabs_spec (chunks : ℕ) {b e : ℕ} (hbe : b ≤ e)
    (he : e ≤ plan.planes.spectral.count) :
    Tiling b (plan.slabs chunks b e) e ∧ ∀ x ∈ plan.slabs chunks b e,
      (x.1 = b ∨ plan.Boundary x.1) ∧
      x.2 = Strided.blockEnd plan.planes.spectral.start plan.planes.spectral.stride plan.chunkDepth
        x.1 (max 1 (min (plan.slabChannels chunks) (sub e x.1))) e := by
  obtain ⟨slabs, hw, hspec⟩ := h.slabs_tiling (plan.slabChannels chunks) hbe he le_rfl
  rw [h.walk_slabs chunks hbe he le_rfl, Option.some.injEq] at hw
  exact hw ▸ hspec

end PassPlan

namespace Pass

variable {φ ω α : Type} [Pixel α] [HasSlab φ] {pass : Pass φ ω α} (h : pass.plan.InRange)
include h

omit [HasSlab φ] h in
/-- One slab of a walk is the steps of its read. -/
theorem overSlab_eq (callbacks : Callbacks φ ω α) (tell : ℕ → PassStep φ) (read : SlabRead φ)
    (counters : Counters) :
    pass.overSlab (fun done => pass.perform callbacks (tell done)) (callbacks.visit read.footprint)
      read.slab read.blockBegin read.slabBegin read.slabEnd counters = (do
        .forEach (pass.perform callbacks) (counters.stepsOf tell read)
        pure (counters.after pass.plan read)) := by
  simp only [SlabWalk.overSlab, Counters.stepsOf]
  split <;> simp [Attempt.forEach, perform, Counters.after]

omit [HasSlab φ] in
/-- Walking a footprint is its reads. -/
theorem across_eq (callbacks : Callbacks φ ω α) (tell : ℕ → PassStep φ)
    (footprint : Option φ × SlabFootprint) {fuel b e : ℕ} (hbe : b ≤ e)
    (he : e ≤ pass.plan.planes.spectral.count) (hfuel : pass.plan.planes.spectral.count ≤ fuel)
    (counters : Counters) :
    pass.across fuel (fun done => pass.perform callbacks (tell done)) (callbacks.visit footprint.1)
      footprint.2 b e counters = (do
        .forEach (pass.perform callbacks) (Attempt.steps (Counters.stepsOf tell)
          (Counters.after pass.plan) counters (pass.readsOver b e footprint))
        pure ((pass.readsOver b e footprint).foldl (Counters.after pass.plan) counters)) := by
  rw [SlabWalk.across, Attempt.loop_eq_foldlM (h.walk_slabs _ hbe he (by omega))]
  rw [← Attempt.foldlM_eq_forEach fun read _ counters => overSlab_eq callbacks tell read counters,
    readsOver, List.foldlM_map]

omit [HasSlab φ] h in
/-- Walking the plane is walking its bands. -/
theorem overBands_eq (hrows : 0 < pass.plan.bandRows) (report : ℕ → Attempt (Halt Error) ω Unit)
    (visit : Slab α → ω → ω) (fuel b e : ℕ) (counters : Counters) :
    pass.overBands fuel report visit b e counters =
      pass.plan.bands.foldlM (fun counters slab => pass.across fuel report visit slab b e counters)
        counters := by
  obtain ⟨hw, -, hcut⟩ := cuts_tiling hrows pass.plan.rows.size
  rw [PassPlan.bands, Attempt.foldlM_flatMap]
  refine (Attempt.loop_eq_foldlM hw _ counters).trans ?_
  refine Attempt.foldlM_congr (fun row hrow counters => ?_) counters
  have hband : min pass.plan.bandRows (pass.plan.rows.size - row.1) = row.2 - row.1 := by
    rw [hcut row hrow]
    omega
  obtain ⟨hw', -, hcut'⟩ := cuts_tiling
    (unitsAffordable_pos pass.plan.chunksPerRead (row.2 - row.1))
    pass.plan.columns.size
  rw [PassPlan.rows] at hband
  simp only [hband, List.foldlM_map]
  refine (Attempt.loop_eq_foldlM hw' _ counters).trans ?_
  refine Attempt.foldlM_congr (fun column hcolumn counters => ?_) counters
  have hwidth : min (pass.plan.unitsAffordable (row.2 - row.1))
      (pass.plan.columns.size - column.1) = column.2 - column.1 := by
    rw [hcut' column hcolumn]
    exact (Nat.add_sub_cancel_left _ _).symm
  rw [PassPlan.columns] at hwidth
  simp only [hwidth]
  rfl

/-- Walking the shape is the reads of its footprints. -/
theorem walk_eq (callbacks : Callbacks φ ω α) (tell : ℕ → PassStep φ) {fuel b e : ℕ} (hbe : b ≤ e)
    (he : e ≤ pass.plan.planes.spectral.count) (hfuel : pass.plan.planes.spectral.count ≤ fuel) :
    ∃ counters, pass.walk fuel (fun done => pass.perform callbacks (tell done)) callbacks.visit b e
      ⟨0, 0⟩ = (do
        .forEach (pass.perform callbacks) (pass.walkSteps tell b e)
        pure counters) := by
  refine ⟨(pass.reads b e).foldl (Counters.after pass.plan) ⟨0, 0⟩, ?_⟩
  -- both shapes are a fold over the footprints
  have hshape : pass.walk fuel (fun done => pass.perform callbacks (tell done)) callbacks.visit b e
      ⟨0, 0⟩ = (do
        pass.allowed
        pass.footprints.foldlM (fun counters footprint =>
          pass.across fuel (fun done => pass.perform callbacks (tell done))
            (callbacks.visit footprint.1) footprint.2 b e counters) ⟨0, 0⟩) := by
    unfold walk footprints
    congr 1
    funext _
    cases pass.shape with
    | planeBands =>
      simp only
      rw [overBands_eq h.bandRows_pos, List.foldlM_map]
    | footprintsOf footprints =>
      simp only
      rw [List.foldlM_map]
  rw [hshape, walkSteps, Attempt.forEach, bind_assoc]
  congr 1
  funext _
  rw [reads, ← Attempt.foldlM_eq_forEach (p := fun counters (read : SlabRead φ) =>
      pass.overSlab (fun done => pass.perform callbacks (tell done))
        (callbacks.visit read.footprint)
        read.slab read.blockBegin read.slabBegin read.slabEnd counters)
      (fun read _ counters => overSlab_eq callbacks tell read counters),
    Attempt.foldlM_flatMap]
  refine Attempt.foldlM_congr (fun footprint _ counters => ?_) _
  rw [across_eq h callbacks tell footprint hbe he hfuel,
    ← Attempt.foldlM_eq_forEach fun read _ counters => overSlab_eq callbacks tell read counters]

/-- **A block is its steps.** -/
theorem block_eq (callbacks : Callbacks φ ω α) {fuel b e : ℕ} (hbe : b ≤ e)
    (he : e ≤ pass.plan.planes.spectral.count) (hfuel : pass.plan.planes.spectral.count ≤ fuel) :
    pass.block fuel callbacks b e =
      .forEach (pass.perform callbacks) (pass.stepsOfBlock b e) := by
  obtain ⟨counters, hwalk⟩ := walk_eq h callbacks (pass.tellBlock b e) hbe he hfuel
  rw [stepsOfBlock, List.cons_append, Attempt.forEach, Attempt.forEach_append]
  change (do
    Attempt.modify (callbacks.reset (sub e b))
    let _ ← pass.walk fuel (fun done => pass.perform callbacks (pass.tellBlock b e done))
      callbacks.visit b e ⟨0, 0⟩
    pass.unlessCancelled (callbacks.handOver b (sub e b) true 1)) = _
  rw [hwalk]
  simp only [Attempt.forEach, perform, bind_assoc, pure_bind, bind_pure_unit]

/-- **A pass in blocks is its steps.** -/
theorem inBlocks_eq (callbacks : Callbacks φ ω α) (bytesPerChannel hint : ℕ) {fuel : ℕ}
    (hfuel : pass.plan.planes.spectral.count ≤ fuel) :
    pass.inBlocks fuel callbacks bytesPerChannel hint =
      .forEach (pass.perform callbacks) (pass.blockSteps bytesPerChannel hint) := by
  have htile := (h.blocks_spec pass.layerChunks bytesPerChannel hint).1
  have hblock : ∀ block ∈ pass.blocks bytesPerChannel hint, ∀ c : Unit,
      pass.block fuel callbacks block.1 block.2 = (do
        .forEach (pass.perform callbacks) (pass.stepsOfBlock block.1 block.2)
        pure c) := fun block hb c => by
    obtain ⟨-, hlt, hle⟩ := htile.bounds block hb
    rw [block_eq h callbacks hlt.le hle hfuel, bind_pure_unit]
  rw [inBlocks, Attempt.loop_eq_foldlM (h.walk_blocks pass.layerChunks bytesPerChannel hint hfuel)]
  rw [← blocks, Attempt.foldlM_eq_forEach (f := fun _ block => pass.stepsOfBlock block.1 block.2)
    (g := fun c _ => c) hblock, Attempt.steps_eq_flatMap, bind_pure_unit]
  rfl

/-- **A pass as one run is its steps.** -/
theorem whole_eq (callbacks : Callbacks φ ω α) {fuel : ℕ}
    (hfuel : pass.plan.planes.spectral.count ≤ fuel) :
    pass.whole fuel callbacks = .forEach (pass.perform callbacks) pass.wholeSteps := by
  obtain ⟨counters, hwalk⟩ := walk_eq h callbacks pass.tellWhole (Nat.zero_le _) le_rfl hfuel
  change (do
    let _ ← pass.walk fuel (fun done => pass.perform callbacks (pass.tellWhole done))
      callbacks.visit 0 pass.plan.planes.spectral.count ⟨0, 0⟩
    pure ()) = _
  rw [hwalk]
  simp only [bind_assoc, pure_bind, bind_pure_unit]
  rfl

end Pass

end CartaZarr
