import CartaZarr.Foundations.Double
import CartaZarr.Foundations.Loop
import CartaZarr.PixelSource
import CartaZarr.Reduce.PassPlan

/-!
# The walk a pass makes over an image

`Pass.inBlocks` and `Pass.whole` read an image slab by slab: the whole plane in bands of chunk rows,
or the footprints a region set occupies, each along the spectrum in turn. What is in hand is handed
over before every read but the first and when a block is finished; the control is asked before every
read; and whatever says no stops the walk.

A pass is four nested loops over state that callbacks and the source change. What it does is fixed
beforehand all the same: `Pass.blockSteps` and `Pass.wholeSteps` list the steps it takes, and a pass
is those steps one after another (`inBlocks_eq`, `whole_eq`).

The world `ω` is everything the source, the control and the callbacks look at and change. The walk's
pixel buffer is made anew for each slab: a read that returns has written all of it.
-/

namespace CartaZarr

open Word

/-! ## Footprints and slabs -/

/-- One spatial footprint a run of slabs is read over, and the chunks it occupies in one chunk of
the spectral axis. -/
structure SlabFootprint where
  uStart : ℕ
  uCount : ℕ
  uStride : ℕ
  vStart : ℕ
  vCount : ℕ
  vStride : ℕ
  chunks : ℕ
  deriving DecidableEq, Repr, Inhabited

/-- One read of the pass, handed to the visitor: its pixels and three strides into them. -/
structure Slab (α : Type) where
  firstChannel : ℕ
  channelCount : ℕ
  pixels : List α
  strideU : ℕ
  strideV : ℕ
  strideZ : ℕ
  uCount : ℕ
  vCount : ℕ
  deriving DecidableEq, Repr

/-- One slab to read, in the pass's own axes. -/
structure SlabRequest where
  uStart : ℕ
  uCount : ℕ
  uStride : ℕ
  vStart : ℕ
  vCount : ℕ
  vStride : ℕ
  channelIndex : ℕ
  channelCount : ℕ
  deriving DecidableEq, Repr

/-- The samples of `stride` that fall in `[begin_, end_)`, as a start and a count. -/
def sampledRange (begin_ end_ stride : ℕ) : ℕ × ℕ :=
  let first := ceilQuot begin_ stride
  let last := ceilQuot end_ stride
  (mul first stride, if first < last then last - first else 0)

/-- A footprint over some of the selected channels. -/
def SlabFootprint.request (footprint : SlabFootprint) (channelIndex channelCount : ℕ) :
    SlabRequest where
  uStart := footprint.uStart
  uCount := footprint.uCount
  uStride := footprint.uStride
  vStart := footprint.vStart
  vCount := footprint.vCount
  vStride := footprint.vStride
  channelIndex := channelIndex
  channelCount := channelCount

namespace PassPlan

/-- The request of the image that a slab is read with. -/
def readRequest (plan : PassPlan) (request : SlabRequest) : ReadRequest :=
  let spectral := plan.planes.spectral
  let axes := List.replicate plan.descriptor.rank (⟨0, 1, 1⟩ : Range)
  let axes := axes.set plan.axisU ⟨request.uStart, request.uCount, request.uStride⟩
  let axes := axes.set plan.axisV ⟨request.vStart, request.vCount, request.vStride⟩
  let axes := axes.set plan.map.spectral
    ⟨add spectral.start (mul request.channelIndex spectral.stride), request.channelCount,
      spectral.stride⟩
  let axes := match plan.map.polarization with
    | some i => axes.set i ⟨plan.planes.polarization, 1, 1⟩
    | none => axes
  let axes := match plan.map.time with
    | some i => axes.set i ⟨plan.planes.time, 1, 1⟩
    | none => axes
  ⟨axes⟩

/-- A band of chunk rows: its extent along `v`. -/
def band (plan : PassPlan) (rows : SampledChunks) (row bandRows : ℕ) : SlabFootprint :=
  let v := sampledRange (mul (rows.get row) plan.chunkV)
    (min plan.vLength (mul (add (rows.get (row + bandRows - 1)) 1) plan.chunkV)) plan.sample
  { uStart := 0, uCount := 0, uStride := plan.sample
    vStart := v.1, vCount := v.2, vStride := plan.sample
    chunks := 1 }

/-- A piece along a band. -/
def segment (plan : PassPlan) (band : SlabFootprint) (columns : SampledChunks)
    (column width bandRows : ℕ) : SlabFootprint :=
  let u := sampledRange (mul (columns.get column) plan.chunkU)
    (min plan.uLength (mul (add (columns.get (column + width - 1)) 1) plan.chunkU)) plan.sample
  { band with uStart := u.1, uCount := u.2, chunks := mul width bandRows }

end PassPlan

/-! ## Walking footprints -/

/-- What a walk counts, modulo `2 ^ 64`: the reads it has begun and the chunks they decoded. -/
structure Counters where
  readsDone : ℕ
  chunksDone : ℕ
  deriving DecidableEq, Repr

/-- What a walk reads with. -/
structure SlabWalk (ω α : Type) where
  source : PixelSource ω α
  plan : PassPlan
  control : ReadControl ω

namespace SlabWalk

variable {ω α : Type} [Pixel α]

/-- Whether the caller's control still lets the walk go on. -/
def allowed (walk : SlabWalk ω α) : Attempt (Halt Error) ω Unit :=
  .halting (checkReadControl walk.control walk.plan.descriptor.id)

/-- The pixels of a selection with the mask, when the walk applies one, folded in. -/
def readBuffer (walk : SlabWalk ω α) (selection : PixelSelection) :
    Attempt Error ω (List α) := fun w =>
  let buffer := List.replicate selection.elements Pixel.zero
  match walk.source.readPixels walk.plan.descriptor selection (w, buffer) with
  | (.error e, w, _) => (.error e, w)
  | (.ok (), w, pixels) =>
    if walk.plan.applyMask then
      match walk.source.readMask walk.plan.descriptor selection selection.elements w with
      | (.error e, w) => (.error e, w)
      | (.ok mask, w) => (.ok (applyPixelMask pixels mask selection.elements), w)
    else (.ok pixels, w)

/-- Read one slab, in the order the store wrote it, and hand back how to walk it. -/
def readSlab (walk : SlabWalk ω α) (request : SlabRequest) : Attempt (Halt Error) ω (Slab α) := do
  let plan := walk.plan
  let selection ← .ofExcept (buildSelection plan.descriptor (plan.readRequest request) .stored)
  let pixels ← .halting (walk.readBuffer selection)
  let stride (axis : ℕ) := selection.destinationStrides.getD (plan.descriptor.stored axis) 1
  pure
    { firstChannel := 0
      channelCount := request.channelCount
      pixels := pixels
      strideU := stride plan.axisU
      strideV := stride plan.axisV
      strideZ := stride plan.map.spectral
      uCount := request.uCount
      vCount := request.vCount }

/-- Read the channels `[slabBegin, slabEnd)` of a footprint and visit them; `first` is where the
visitor counts channels from. -/
def readAndVisit (walk : SlabWalk ω α) (visit : Slab α → ω → ω) (footprint : SlabFootprint)
    (first slabBegin slabEnd : ℕ) : Attempt (Halt Error) ω Unit := do
  let slab ← walk.readSlab (footprint.request slabBegin (sub slabEnd slabBegin))
  .modify (visit { slab with firstChannel := sub slabBegin first })

/-- One slab of `over`. What is in hand is reported before the read, unless this is the first. -/
def overSlab (walk : SlabWalk ω α) (report : ℕ → Attempt (Halt Error) ω Unit)
    (visit : Slab α → ω → ω) (footprint : SlabFootprint) (first slabBegin slabEnd : ℕ)
    (counters : Counters) : Attempt (Halt Error) ω Counters := do
  if 0 < counters.readsDone then report counters.chunksDone else pure ()
  walk.allowed
  walk.readAndVisit visit footprint first slabBegin slabEnd
  pure ⟨add counters.readsDone 1,
    add counters.chunksDone (mul footprint.chunks (walk.plan.chunksTouched slabBegin slabEnd))⟩

/-- Walk one footprint along the channels `[begin_, end_)`. -/
def across (walk : SlabWalk ω α) (fuel : ℕ) (report : ℕ → Attempt (Halt Error) ω Unit)
    (visit : Slab α → ω → ω) (footprint : SlabFootprint) (begin_ end_ : ℕ) (counters : Counters) :
    Attempt (Halt Error) ω Counters :=
  let slabChannels := walk.plan.slabChannels footprint.chunks
  .loop (fun slabBegin =>
      walk.plan.alignedSlabEnd slabBegin (min slabChannels (sub end_ slabBegin)) end_)
    end_ (walk.overSlab report visit footprint begin_) fuel begin_ counters

/-- Walk the whole plane along the channels `[begin_, end_)`: a band of chunk rows at a time, and a
band in pieces along its rows when one row is wider than a read may decode. -/
def overBands (walk : SlabWalk ω α) (fuel : ℕ) (report : ℕ → Attempt (Halt Error) ω Unit)
    (visit : Slab α → ω → ω) (begin_ end_ : ℕ) (counters : Counters) :
    Attempt (Halt Error) ω Counters :=
  let plan := walk.plan
  let rows := chunksSampled plan.vLength plan.chunkV plan.sample
  let columns := chunksSampled plan.uLength plan.chunkU plan.sample
  .loop (fun row => row + min plan.bandRows (rows.size - row)) rows.size
    (fun row _ counters =>
      let bandRows := min plan.bandRows (rows.size - row)
      let band := plan.band rows row bandRows
      let segmentChunks := plan.unitsAffordable bandRows
      .loop (fun column => column + min segmentChunks (columns.size - column)) columns.size
        (fun column _ counters =>
          let width := min segmentChunks (columns.size - column)
          walk.across fuel report visit (plan.segment band columns column width
            bandRows) begin_ end_
            counters)
        columns.size 0 counters)
    rows.size 0 counters

end SlabWalk

/-! ## Passes -/

/-- Anything read over a footprint. -/
class HasSlab (φ : Type) where
  slab : φ → SlabFootprint

/-- What a pass walks, spatially: the whole plane, in bands of chunk rows, or the footprints a
region set's occupancy cut. -/
inductive Shape (φ : Type)
  | planeBands
  | footprintsOf (footprints : List φ)

/-- What a pass calls. The visitor is given the footprint beside each slab read over one. `handOver`
and `progress` say whether to go on. -/
structure Callbacks (φ ω α : Type) where
  reset : ℕ → ω → ω
  visit : Option φ → Slab α → ω → ω
  handOver : ℕ → ℕ → Bool → ℚ → ω → Bool × ω
  progress : ℚ → ω → Bool × ω

/-- One pass over an image. `layerChunks` is what one spectral layer of the shape occupies. -/
structure Pass (φ ω α : Type) extends SlabWalk ω α where
  shape : Shape φ
  layerChunks : ℕ
  cancelled : String

/-- A pass over the whole plane. -/
def passOverPlane {ω α : Type} (φ : Type) (walk : SlabWalk ω α) (cancelled : String) : Pass φ ω α :=
  { walk with shape := .planeBands, layerChunks := walk.plan.layerChunks, cancelled }

/-- A pass over a region set's footprints. -/
def passOverFootprints {φ ω α : Type} [HasSlab φ] (walk : SlabWalk ω α) (footprints : List φ)
    (cancelled : String) : Pass φ ω α :=
  { walk with
    shape := .footprintsOf footprints
    layerChunks := footprints.foldl (fun layer footprint =>
      add layer (HasSlab.slab footprint).chunks) 0
    cancelled }

namespace Pass

variable {φ ω α : Type} [Pixel α] [HasSlab φ]

/-- What a callback said: `false` cancels the pass. -/
def unlessCancelled (pass : Pass φ ω α)
    (say : ω → Bool × ω) : Attempt (Halt Error) ω Unit := fun w =>
  match say w with
  | (true, w) => (.ok (), w)
  | (false, w) => (.error (.error ⟨.cancelled, pass.cancelled, pass.plan.descriptor.id⟩), w)

/-- The channels `[begin_, end_)` of every footprint of the shape. -/
def walk (pass : Pass φ ω α) (fuel : ℕ) (report : ℕ → Attempt (Halt Error) ω Unit)
    (visit : Option φ → Slab α → ω → ω) (begin_ end_ : ℕ) (counters : Counters) :
    Attempt (Halt Error) ω Counters := do
  -- asked here as well as before every read, for a shape that occupies nothing makes no read
  pass.allowed
  match pass.shape with
  | .planeBands => pass.overBands fuel report (visit none) begin_ end_ counters
  | .footprintsOf footprints =>
    footprints.foldlM (fun counters footprint =>
      pass.across fuel report (visit (some footprint))
        (HasSlab.slab footprint) begin_ end_ counters)
      counters

/-- How far along a walk is, as a double. -/
def fraction (done total : ℕ) : ℚ := Double.div (Double.ofNat done) (Double.ofNat total)

/-- One block: prepare for it, walk it, handing over what there is of it, and hand it over
complete. -/
def block (pass : Pass φ ω α) (fuel : ℕ) (callbacks : Callbacks φ ω α) (begin_ end_ : ℕ) :
    Attempt (Halt Error) ω Unit := do
  let length := sub end_ begin_
  .modify (callbacks.reset length)
  let chunksTotal := pass.plan.chunksCovering (max 1 pass.layerChunks) begin_ end_
  let _ ← pass.walk fuel
    (fun chunksDone => pass.unlessCancelled
      (callbacks.handOver begin_ length false (fraction chunksDone chunksTotal)))
    callbacks.visit begin_ end_ ⟨0, 0⟩
  pass.unlessCancelled (callbacks.handOver begin_ length true 1)

/-- Walk the whole selection, a block at a time, handing each over as it fills. -/
def inBlocks (pass : Pass φ ω α) (fuel : ℕ) (callbacks : Callbacks φ ω α)
    (bytesPerChannel hint : ℕ) : Attempt (Halt Error) ω Unit :=
  let count := pass.plan.planes.spectral.count
  let emitChannels := pass.plan.emitChannels pass.layerChunks bytesPerChannel hint
  .loop (fun begin_ => pass.plan.alignedSlabEnd begin_ emitChannels count) count
    (fun begin_ end_ _ => pass.block fuel callbacks begin_ end_) fuel 0 ()

/-- Walk the whole selection as one run, telling how far along it is. -/
def whole (pass : Pass φ ω α) (fuel : ℕ) (callbacks : Callbacks φ ω α) :
    Attempt (Halt Error) ω Unit := do
  let count := pass.plan.planes.spectral.count
  let chunksTotal := pass.plan.chunksCovering (max 1 pass.layerChunks) 0 count
  let _ ← pass.walk fuel
    (fun chunksDone => pass.unlessCancelled (callbacks.progress (fraction chunksDone chunksTotal)))
    callbacks.visit 0 count ⟨0, 0⟩
  pure ()

end Pass

end CartaZarr
