import CartaZarr.Foundations.Quotient
import CartaZarr.Read.PrefetchOnce
import CartaZarr.Read.StoredCost

/-!
# What a read divides by

The functions of a read once more, in `Dividing`, with every division and every remainder that the
code executes checked: a zero divisor is no value, and a prefetch that meets one halts there
(`Halt.dividedByZero`). Each comes to what the function of its name comes to, whatever the layouts
and the budget, since its divisors are at least one by a `max`, or tested before, or counts that
have passed their check. The one division that is kept from zero by nothing is that by the bytes of
a chunk of the flag, in `flagPieceElements`.
-/

namespace CartaZarr.Dividing

open Word

/-! ## Chunks -/

/-- A quotient rounded up. -/
def ceilQuot (a b : ℕ) : Option ℕ := do
  let quotient ← divide a b
  let rest ← remainder a b
  some (add quotient (ofBool (rest ≠ 0)))

def unitsAffordable (chunksPerRead chunksPerUnit : ℕ) : Option ℕ := do
  let units ← divide chunksPerRead (max 1 chunksPerUnit)
  some (max 1 units)

def flagChunksWalk (length step flagChunk : ℕ) : ℕ → ℕ → ℕ → Divided ℕ
  | 0, first, most => ended (if first < length then none else some most)
  | fuel + 1, first, most =>
    if first < length then do
      let last := sub (min (add first step) length) 1
      let lastChunk ← OptionT.lift (divide last flagChunk)
      let firstChunk ← OptionT.lift (divide first flagChunk)
      flagChunksWalk length step flagChunk fuel (add first step)
        (max most (add (sub lastChunk firstChunk) 1))
    else pure most

def flagChunksAcross (length pixelChunk flagChunk : ℕ) : Option ℕ :=
  if flagChunk = 0 ∨ length = 0 ∨ flagChunk = pixelChunk then some 1
  else do
    let step := if pixelChunk = 0 then length else pixelChunk
    let most ← (flagChunksWalk length step flagChunk length 0 1).run
    some (most.getD 1)

def decodedFlagBytes (descriptor : ImageDescriptor)
    (geometry flagGeometry : ChunkGeometry) : Option ℕ :=
  let flag := if flagGeometry.chunkShape.isEmpty then geometry else flagGeometry
  (List.range descriptor.rank).foldlM (fun bytes axis => do
    let across ← flagChunksAcross (descriptor.length axis) (geometry.chunk axis) (flag.chunk axis)
    some (mul bytes (mul across (max 1 (flag.chunk axis))))) 1

def ReadCost.of (descriptor : ImageDescriptor) (geometry flagGeometry : ChunkGeometry)
    (options : ReadOptions) : Option ReadCost := do
  let applyMask := appliesPixelMask options descriptor
  let flagBytes ← if applyMask then decodedFlagBytes descriptor geometry flagGeometry else some 0
  let chunkBytes := add (decodedChunkBytes descriptor geometry) flagBytes
  some
    { applyMask := applyMask
      chunkBytes := chunkBytes
      budgetBytes :=
        if options.readBudgetBytes ≠ 0 then options.readBudgetBytes
          else defaultReadBytes chunkBytes }

def chunkOf (axisStart stride chunk index : ℕ) : Option ℕ :=
  divide (add axisStart (mul index stride)) chunk

def firstAt (axisStart stride absolute : ℕ) : Option ℕ :=
  if absolute ≤ axisStart then some 0 else ceilQuot (sub absolute axisStart) stride

def alignedBlockEnd (begin_ desired total axisStart stride chunk : ℕ) : Option ℕ :=
  let desired := if desired = 0 then 1 else desired
  let target := min (add begin_ desired) total
  if total ≤ target ∨ chunk = 0 ∨ stride = 0 then some target
  else do
    let chunkIndex ← chunkOf axisStart stride chunk target
    let chunkBefore ← chunkOf axisStart stride chunk (sub target 1)
    if chunkBefore ≠ chunkIndex then some target
    else
      let chunkFirst ← firstAt axisStart stride (mul chunkIndex chunk)
      if begin_ < chunkFirst then some chunkFirst
      else
        let nextFirst ← firstAt axisStart stride (mul (add chunkIndex 1) chunk)
        some (min nextFirst total)

def chunksTouched (start count stride chunk : ℕ) : Option ℕ :=
  if count = 0 then some 0
  else if chunk = 0 ∨ chunk ≤ stride then some count
  else do
    let last := add start (mul (sub count 1) (if stride = 0 then 1 else stride))
    let lastChunk ← divide last chunk
    let firstChunk ← divide start chunk
    some (add (sub lastChunk firstChunk) 1)

theorem ceilQuot_eq {b : ℕ} (hb : b ≠ 0) (a : ℕ) : ceilQuot a b = some (Word.ceilQuot a b) := by
  rw [ceilQuot, divide_of_ne hb, remainder_of_ne hb]
  rfl

@[simp] theorem unitsAffordable_eq (chunksPerRead chunksPerUnit : ℕ) :
    unitsAffordable chunksPerRead chunksPerUnit =
      some (CartaZarr.unitsAffordable chunksPerRead chunksPerUnit) := by
  rw [unitsAffordable, divide_max_one]
  rfl

theorem flagChunksWalk_eq {flagChunk : ℕ} (h : flagChunk ≠ 0) (length step fuel first most : ℕ) :
    flagChunksWalk length step flagChunk fuel first most =
      ended (CartaZarr.flagChunksWalk length step flagChunk fuel first most) := by
  induction fuel generalizing first most with
  | zero => rfl
  | succ fuel ih =>
    rw [flagChunksWalk, CartaZarr.flagChunksWalk]
    split_ifs
    · simp only [divide_of_ne h, lift_some_bind, ih]
    · rfl

@[simp] theorem flagChunksAcross_eq (length pixelChunk flagChunk : ℕ) :
    flagChunksAcross length pixelChunk flagChunk =
      some (CartaZarr.flagChunksAcross length pixelChunk flagChunk) := by
  unfold flagChunksAcross CartaZarr.flagChunksAcross
  split_ifs with h
  · rfl
  all_goals
    push Not at h
    simp only [flagChunksWalk_eq h.1]
    rfl

@[simp] theorem decodedFlagBytes_eq (d : ImageDescriptor) (g f : ChunkGeometry) :
    decodedFlagBytes d g f = some (CartaZarr.decodedFlagBytes d g f) :=
  foldlM_eq_some (fun axis _ bytes => by rw [flagChunksAcross_eq]; rfl) 1

@[simp] theorem ReadCost.of_eq (d : ImageDescriptor) (g f : ChunkGeometry) (o : ReadOptions) :
    ReadCost.of d g f o = some (CartaZarr.ReadCost.of d g f o) := by
  unfold ReadCost.of CartaZarr.ReadCost.of
  cases happ : appliesPixelMask o d with
  | true => simp only [if_true, decodedFlagBytes_eq, Option.bind_eq_bind, Option.bind_some]
  | false => simp only [Bool.false_eq_true, if_false, Option.bind_eq_bind, Option.bind_some]

theorem chunkOf_eq {chunk : ℕ} (h : chunk ≠ 0) (axisStart stride index : ℕ) :
    chunkOf axisStart stride chunk index = some (CartaZarr.chunkOf axisStart stride chunk index) :=
  divide_of_ne h

theorem firstAt_eq {stride : ℕ} (h : stride ≠ 0) (axisStart absolute : ℕ) :
    firstAt axisStart stride absolute = some (CartaZarr.firstAt axisStart stride absolute) := by
  unfold firstAt CartaZarr.firstAt
  split_ifs
  · rfl
  · exact ceilQuot_eq h _

/-- The chunk and the stride are tested before a block is aligned. -/
@[simp] theorem alignedBlockEnd_eq (b desired total axisStart stride chunk : ℕ) :
    alignedBlockEnd b desired total axisStart stride chunk =
      some (CartaZarr.alignedBlockEnd b desired total axisStart stride chunk) := by
  unfold alignedBlockEnd CartaZarr.alignedBlockEnd
  dsimp only
  generalize min (add b (if desired = 0 then 1 else desired)) total = target
  by_cases h : total ≤ target ∨ chunk = 0 ∨ stride = 0
  · rw [if_pos h, if_pos h]
  have hchunk : chunk ≠ 0 := fun h0 => h (.inr (.inl h0))
  have hstride : stride ≠ 0 := fun h0 => h (.inr (.inr h0))
  rw [if_neg h, if_neg h, chunkOf_eq hchunk, chunkOf_eq hchunk,
    Option.bind_eq_bind, Option.bind_some,
    Option.bind_some, firstAt_eq hstride, firstAt_eq hstride, Option.bind_some, Option.bind_some]
  split_ifs <;> rfl

@[simp] theorem chunksTouched_eq (start count stride chunk : ℕ) :
    chunksTouched start count stride chunk =
      some (CartaZarr.chunksTouched start count stride chunk) := by
  unfold chunksTouched CartaZarr.chunksTouched
  split_ifs with _ h
  · rfl
  · rfl
  all_goals
    push Not at h
    simp only [divide_of_ne h.1, Option.bind_eq_bind, Option.bind_some]

/-! ## Selections -/

/-- Whether a range exceeds an axis; the room that is left is not asked for past the end. -/
def exceeds (range : Range) (length : ℕ) : Option Bool :=
  if length ≤ range.start then some true
  else do
    let steps ← divide (length - 1 - range.start) range.stride
    some (decide (steps < range.count - 1))

def placeAxes (id : String) (rank : ℕ) :
    List AxisDescriptor → List Range → ℕ → PixelSelection → Option (Except Error PixelSelection)
  | axis :: axes, range :: ranges, logical, selection =>
    if range.stride = 0 then
      some (.error ⟨.invalidArgument, "Axis '" ++ axis.name ++ "' has a zero stride", id⟩)
    else if range.count = 0 then
      some (.error ⟨.invalidArgument, "Axis '" ++ axis.name ++ "' selects no elements", id⟩)
    else do
      let outside ← exceeds range axis.length.toNat
      if outside then
        some (.error ⟨.invalidArgument,
          "Axis '" ++ axis.name ++ "' request exceeds its length of " ++
          toString axis.length.toNat, id⟩)
      else if rank ≤ axis.storageIndex then
        some (.error ⟨.invalidMetadata,
          "Axis '" ++ axis.name ++ "' has an out-of-range storage index",
          id⟩)
      else
        placeAxes id rank axes ranges (logical + 1)
          { selection with
            start := selection.start.set axis.storageIndex range.start
            count := selection.count.set axis.storageIndex range.count
            stride := selection.stride.set axis.storageIndex
              (if range.count = 1 then 1 else range.stride)
            destinationToStored := selection.destinationToStored.set logical axis.storageIndex }
  | _, _, _, selection => some (.ok selection)

def countElements : List ℕ → ℕ → Option (Option ℕ)
  | [], elements => some (some elements)
  | count :: counts, elements => do
    let most ← divide (2 ^ 64 - 1) count
    if most < elements then some none else countElements counts (mul elements count)

def buildSelection (descriptor : ImageDescriptor) (request : ReadRequest)
    (order : DestinationOrder) : Option (Except Error PixelSelection) :=
  let rank := descriptor.rank
  if request.axes.length ≠ rank then
    some (.error ⟨.invalidArgument, "Request has " ++ toString request.axes.length ++
      " axes but the image has " ++ toString rank, descriptor.id⟩)
  else do
    match ← placeAxes descriptor.id rank descriptor.axes request.axes 0 (.blank rank) with
    | .error e => some (.error e)
    | .ok selection =>
      let destinationToStored := match order with
        | .logical => selection.destinationToStored
        | .stored => (List.range rank).map fun axis => rank - 1 - axis
      match ← countElements selection.count 1 with
      | none =>
        some (.error ⟨.invalidArgument, "Request selects more elements than can be counted",
          descriptor.id⟩)
      | some elements =>
        some (.ok { selection with destinationToStored := destinationToStored,
                                   elements := elements })

theorem exceeds_eq {range : Range} (h : range.stride ≠ 0) (length : ℕ) :
    exceeds range length = some (decide (range.Exceeds length)) := by
  unfold exceeds
  by_cases hlength : length ≤ range.start
  · simp [Range.Exceeds, hlength]
  · rw [if_neg hlength, divide_of_ne h]
    simp [Range.Exceeds, hlength]

@[simp] theorem placeAxes_eq (id : String) (rank : ℕ) (axes : List AxisDescriptor)
    (ranges : List Range)
    (logical : ℕ) (selection : PixelSelection) : placeAxes id rank axes ranges logical selection =
      some (CartaZarr.placeAxes id rank axes ranges logical selection) := by
  induction axes generalizing ranges logical selection with
  | nil => rfl
  | cons axis axes ih => cases ranges with
    | nil => rfl
    | cons range ranges =>
      rw [placeAxes, CartaZarr.placeAxes]
      by_cases hstride : range.stride = 0
      · rw [if_pos hstride, if_pos hstride]
      · rw [if_neg hstride, if_neg hstride, exceeds_eq hstride, Option.bind_eq_bind,
          Option.bind_some, ih]
        simp only [decide_eq_true_eq]
        split_ifs <;> rfl

theorem countElements_eq {counts : List ℕ} (hpos : ∀ c ∈ counts, 0 < c) (elements : ℕ) :
    countElements counts elements = some (CartaZarr.countElements counts elements) := by
  induction counts generalizing elements with
  | nil => rfl
  | cons c cs ih =>
    rw [countElements, CartaZarr.countElements, divide_of_ne (hpos c List.mem_cons_self).ne',
      Option.bind_eq_bind, Option.bind_some, ih fun x hx => hpos x (List.mem_cons_of_mem _ hx)]
    split_ifs <;> rfl

/-- The counts are divided by once they are placed, and each of them has passed its check. -/
theorem buildSelection_eq {d : ImageDescriptor} (hd : d.StoredInOrder) (r : ReadRequest)
    (order : DestinationOrder) : buildSelection d r order =
      some (CartaZarr.buildSelection d r order) := by
  unfold buildSelection CartaZarr.buildSelection
  dsimp only
  by_cases hlen : r.axes.length = d.rank
  · rw [if_neg (not_not.2 hlen), if_neg (not_not.2 hlen), placeAxes_eq, Option.bind_eq_bind,
      Option.bind_some]
    cases hp : CartaZarr.placeAxes d.id d.rank d.axes r.axes 0 (.blank d.rank) with
    | error e => rfl
    | ok placed =>
      have hok := (zip_ok_iff hlen).1 (placeAxes_ok (by simpa using hlen) hp).1
      have hperm := placed_count_perm hd hlen hp
      have hpos : ∀ c ∈ placed.count, 0 < c := fun c hc =>
        prod_counts_pos (fun i hi => (hok i hi).2.1) hlen c (hperm.mem_iff.1 hc)
      dsimp only
      rw [countElements_eq hpos, Option.bind_eq_bind, Option.bind_some]
      cases CartaZarr.countElements placed.count 1 <;> rfl
  · rw [if_pos hlen, if_pos hlen]

/-! ## Pieces -/

def otherChunks (request : ReadRequest) (geometry : ChunkGeometry) (axis : ℕ) : Option ℕ :=
  (List.range request.axes.length).foldlM (fun chunks i =>
    if i = axis then some chunks
    else do
      let chunk := geometry.chunk i
      let range := request.axis i
      let touched ← if chunk = 0 then some 1
        else (chunksTouched range.start range.count range.stride chunk).map (max 1)
      some (mul chunks touched)) 1

def chunksPerPiece (request : ReadRequest) (geometry : ChunkGeometry) (axis : ℕ)
    (cost : ReadCost) : Option ℕ := do
  let others ← otherChunks request geometry axis
  let chunks ← divide cost.budgetBytes (max 1 (mul cost.chunkBytes others))
  some (max 1 chunks)

def unitsPerPiece (request : ReadRequest) (geometry : ChunkGeometry) (axis : ℕ)
    (cost : ReadCost) : Option ℕ := do
  let chunks ← chunksPerPiece request geometry axis cost
  let chunk := geometry.chunk axis
  let stride := max 1 (request.axis axis).stride
  if chunk ≠ 0 ∧ chunk ≤ stride then some chunks
  else (divide (mul chunks (max 1 chunk)) stride).map (max 1)

def planPieces (fuel : ℕ) (descriptor : ImageDescriptor) (geometry flagGeometry : ChunkGeometry)
    (request : ReadRequest) (options : ReadOptions) (watching : Bool) : Divided (List Piece) :=
  match slowestSelectedAxis request with
  | none => pure [⟨request, 0⟩]
  | some axis =>
    if !watching ∧ options.readBudgetBytes = 0 then pure [⟨request, 0⟩]
    else do
      let cost ← OptionT.lift (ReadCost.of descriptor geometry flagGeometry options)
      let units ← OptionT.lift (unitsPerPiece request geometry axis cost)
      let cut := request.axis axis
      let blocks ← walkM (fun b =>
        alignedBlockEnd b units cut.count cut.start cut.stride
          (geometry.chunk axis)) cut.count fuel 0
      pure (blocks.map (cutPiece request axis))

/-- The sample of one axis. -/
def sampleRange (chunk : ℕ) (range : Range) : Option Range :=
  if chunk = 0 ∨ chunk ≤ range.stride then some range
  else do
    let first ← divide range.start chunk
    let last ← divide (add range.start (mul (sub range.count 1) range.stride)) chunk
    some { start := mul first chunk, count := add (sub last first) 1, stride := chunk }

def oneElementPerChunk (geometry : ChunkGeometry) (request : ReadRequest) : Option ReadRequest := do
  let axes ← (request.axes.mapIdx fun axis range => sampleRange (geometry.chunk axis) range).mapM id
  some ⟨axes⟩

theorem otherChunks_eq (r : ReadRequest) (g : ChunkGeometry) (axis : ℕ) :
    otherChunks r g axis = some (CartaZarr.otherChunks r g axis) := by
  refine foldlM_eq_some (fun i _ chunks => ?_) 1
  dsimp only
  split_ifs
  · rfl
  · rfl
  · rw [chunksTouched_eq]
    rfl

theorem chunksPerPiece_eq (r : ReadRequest) (g : ChunkGeometry) (axis : ℕ) (cost : ReadCost) :
    chunksPerPiece r g axis cost = some (CartaZarr.chunksPerPiece r g axis cost) := by
  rw [chunksPerPiece, otherChunks_eq, Option.bind_eq_bind, Option.bind_some, divide_max_one]
  rfl

@[simp] theorem unitsPerPiece_eq (r : ReadRequest) (g : ChunkGeometry)
    (axis : ℕ) (cost : ReadCost) :
    unitsPerPiece r g axis cost = some (CartaZarr.unitsPerPiece r g axis cost) := by
  unfold unitsPerPiece CartaZarr.unitsPerPiece
  rw [chunksPerPiece_eq, Option.bind_eq_bind, Option.bind_some]
  dsimp only
  rw [divide_max_one]
  split_ifs <;> rfl

/-- A plan divides by no zero, and has the pieces of the model, if it ends. -/
theorem planPieces_eq (fuel : ℕ) (d : ImageDescriptor) (g f : ChunkGeometry) (r : ReadRequest)
    (o : ReadOptions) (watching : Bool) : planPieces fuel d g f r o watching =
      ended (CartaZarr.planPieces fuel d g f r o watching) := by
  unfold planPieces CartaZarr.planPieces
  cases slowestSelectedAxis r with
  | none => rfl
  | some axis =>
    dsimp only
    split_ifs
    · rfl
    · rw [ReadCost.of_eq, lift_some_bind, unitsPerPiece_eq, lift_some_bind,
        walkM_eq_ended fun b => alignedBlockEnd_eq _ _ _ _ _ _]
      generalize walk _ _ fuel 0 = blocks
      cases blocks <;> rfl

theorem sampleRange_eq (chunk : ℕ) (range : Range) : sampleRange chunk range =
    some (if chunk = 0 ∨ chunk ≤ range.stride then range
      else
        let first := range.start / chunk
        let last := add range.start (mul (sub range.count 1) range.stride) / chunk
        { start := mul first chunk, count := add (sub last first) 1, stride := chunk }) := by
  unfold sampleRange
  split_ifs with h
  · rfl
  · push Not at h
    rw [divide_of_ne h.1, divide_of_ne h.1]
    rfl

@[simp] theorem oneElementPerChunk_eq (g : ChunkGeometry) (r : ReadRequest) :
    oneElementPerChunk g r = some (CartaZarr.oneElementPerChunk g r) := by
  simp only [oneElementPerChunk, sampleRange_eq]
  rw [mapIdx_some, mapM_map_some]
  rfl

/-! ## Reads -/

section Read

variable {ω α : Type} [Pixel α]

def checkRead (descriptor : ImageDescriptor) (request : ReadRequest) (control : ReadControl ω) :
    Reading ω α PixelSelection := do
  let built ← .ofQuotient (buildSelection descriptor request .logical)
  let selection ← .ofExcept built
  let state ← .get
  if state.destination.length < selection.elements then
    .fail (.error ⟨.invalidArgument, "Destination buffer is too small for the request",
      descriptor.id⟩)
  else
    askControl control descriptor.id
    pure selection

def readPiece (source : PixelSource ω α) (descriptor : ImageDescriptor) (options : ReadOptions)
    (progress : ProgressCallback ω α) (elements : ℕ) (piece : Piece) : Reading ω α Unit := do
  let built ← .ofQuotient (buildSelection descriptor piece.request .logical)
  let selection ← .ofExcept built
  let mask ← pieceMask source descriptor options selection
  readPixelsAt source descriptor selection piece.firstElement
  maskAt descriptor options mask piece.firstElement selection.elements
  reportProgress progress descriptor (add piece.firstElement selection.elements) elements

def readInPieces (fuel : ℕ) (source : PixelSource ω α) (descriptor : ImageDescriptor)
    (geometry flagGeometry : ChunkGeometry) (request : ReadRequest) (options : ReadOptions)
    (control : ReadControl ω) (progress : ProgressCallback ω α) : Reading ω α ℕ := do
  let checked ← checkRead descriptor request control
  let pieces ← .ofDivided
    (planPieces fuel descriptor geometry flagGeometry request options progress.isSome)
  .forEach (readPiece source descriptor options progress checked.elements) pieces
  pure checked.elements

variable {d : ImageDescriptor} (hd : d.StoredInOrder)
include hd

omit [Pixel α] in
theorem checkRead_eq (r : ReadRequest) (control : ReadControl ω) :
    (checkRead d r control : Reading ω α PixelSelection) = CartaZarr.checkRead d r control := by
  rw [checkRead, buildSelection_eq hd, Attempt.ofQuotient_some, pure_bind]
  rfl

theorem readPiece_eq (source : PixelSource ω α) (o : ReadOptions) (progress : ProgressCallback ω α)
    (elements : ℕ) (piece : Piece) : readPiece source d o progress elements piece =
      CartaZarr.readPiece source d o progress elements piece := by
  rw [readPiece, buildSelection_eq hd, Attempt.ofQuotient_some, pure_bind]
  rfl

/-- A read divides by no zero, and does what the model does. -/
theorem readInPieces_eq (fuel : ℕ) (source : PixelSource ω α)
    (g f : ChunkGeometry) (r : ReadRequest)
    (o : ReadOptions) (control : ReadControl ω) (progress : ProgressCallback ω α) :
    readInPieces fuel source d g f r o control progress =
      CartaZarr.readInPieces fuel source d g f r o control progress := by
  simp only [readInPieces, checkRead_eq hd, planPieces_eq, Attempt.ofDivided_ended,
    funext (readPiece_eq hd source o progress _)]
  rfl

end Read

/-! ## Samples -/

def sampleElements (options : ReadOptions) (elementBytes : ℕ) : Option ℕ :=
  if options.readBudgetBytes = 0 then some kSampleElements
  else (divide options.readBudgetBytes elementBytes).map (max 1)

def sampleCut (most : ℕ) : List ℕ → ℕ → Option (ℕ × ℕ)
  | [], inner => some (0, inner)
  | count :: counts, inner => do
    let inner ← divide inner (max 1 count)
    if inner ≤ most then some (0, inner)
    else
      let (cut, inner) ← sampleCut most counts inner
      some (cut + 1, inner)

def forEachPiece {ε σ : Type} (fuel : ℕ) (request : ReadRequest) (most : ℕ)
    (read : ReadRequest → Attempt (Halt ε) σ Unit) : Attempt (Halt ε) σ Unit := do
  let (cut, inner) ← .ofQuotient (sampleCut most request.counts (countedElements request))
  if cut = request.axes.length then read request
  else
    let elements ← .ofQuotient (divide most (max 1 inner))
    forEachPosition (request.counts.take cut) (readRuns fuel request cut (max 1 elements) read) fuel
      (List.replicate cut 0)

theorem sampleElements_eq (o : ReadOptions) {elementBytes : ℕ} (h : elementBytes ≠ 0) :
    sampleElements o elementBytes = some (CartaZarr.sampleElements o elementBytes) := by
  unfold sampleElements CartaZarr.sampleElements
  split_ifs
  · rfl
  · rw [divide_of_ne h]
    rfl

theorem sampleCut_eq (most : ℕ) (counts : List ℕ) (inner : ℕ) :
    sampleCut most counts inner = some (CartaZarr.sampleCut most counts inner) := by
  induction counts generalizing inner with
  | nil => rfl
  | cons c cs ih =>
    rw [sampleCut, CartaZarr.sampleCut, divide_max_one, Option.bind_eq_bind, Option.bind_some, ih]
    split_ifs <;> rfl

@[simp] theorem forEachPiece_eq {ε σ : Type} (fuel : ℕ) (r : ReadRequest) (most : ℕ)
    (read : ReadRequest → Attempt (Halt ε) σ Unit) :
    forEachPiece fuel r most read = CartaZarr.forEachPiece fuel r most read := by
  unfold forEachPiece CartaZarr.forEachPiece
  rw [sampleCut_eq, Attempt.ofQuotient_some, pure_bind]
  dsimp only
  rw [divide_max_one, Attempt.ofQuotient_some, pure_bind]

section Prefetch

variable {ω α : Type} [Pixel α]

def readFlagPiece (source : PixelSource ω α) (descriptor : ImageDescriptor) (size : ℕ)
    (piece : ReadRequest) : Reading ω α Unit := do
  let built ← .ofQuotient (buildSelection descriptor piece .logical)
  let selection ← .ofExcept built
  let _ ← readFlags source descriptor selection size
  pure ()

def readPixelPiece (fuel : ℕ) (source : PixelSource ω α) (descriptor : ImageDescriptor)
    (geometry flagGeometry : ChunkGeometry) (options : ReadOptions) (control : ReadControl ω)
    (piece : ReadRequest) : Reading ω α Unit := do
  let _ ← readInPieces fuel source descriptor geometry flagGeometry piece
    { options with applyPixelMask := false } control none
  pure ()

def prefetchPixels (fuel : ℕ) (source : PixelSource ω α) (descriptor : ImageDescriptor)
    (geometry flagGeometry : ChunkGeometry) (request : ReadRequest) (options : ReadOptions)
    (control : ReadControl ω) : Reading ω α ℕ := do
  let sample ← .ofQuotient (oneElementPerChunk geometry request)
  let chunks := countedElements sample
  let most ← .ofQuotient (sampleElements options 4)
  let size := min chunks most
  .modify fun state => { state with destination := List.replicate size Pixel.zero }
  forEachPiece fuel sample size
    (readPixelPiece fuel source descriptor geometry flagGeometry options control)
  pure chunks

def prefetchFlags (fuel : ℕ) (source : PixelSource ω α) (descriptor : ImageDescriptor)
    (geometry flagGeometry : ChunkGeometry) (request : ReadRequest) (options : ReadOptions) :
    Reading ω α ℕ := do
  let sample ← .ofQuotient (oneElementPerChunk flagGeometry request)
  let chunks := countedElements sample
  let held ← .ofQuotient (sampleElements options 1)
  let size := min chunks held
  let most ← .ofQuotient (flagPieceElements geometry flagGeometry options size)
  forEachPiece fuel sample most (readFlagPiece source descriptor size)
  pure chunks

def prefetchChunks (fuel : ℕ) (source : PixelSource ω α) (descriptor : ImageDescriptor)
    (geometry flagGeometry : ChunkGeometry) (request : ReadRequest) (options : ReadOptions)
    (control : ReadControl ω) : Reading ω α ℕ := do
  let built ← .ofQuotient (buildSelection descriptor request .logical)
  let _ ← .ofExcept built
  askControl control descriptor.id
  let chunks ← prefetchPixels fuel source descriptor geometry flagGeometry request options control
  if appliesPixelMask options descriptor then
    let flagChunks ← prefetchFlags fuel source descriptor geometry flagGeometry request options
    pure (add chunks flagChunks)
  else pure chunks

variable {d : ImageDescriptor} (hd : d.StoredInOrder) (fuel : ℕ) (source : PixelSource ω α)
  (g f : ChunkGeometry) (r : ReadRequest) (o : ReadOptions) (control : ReadControl ω)
include hd

omit [Pixel α] in
theorem readFlagPiece_eq (size : ℕ) : (readFlagPiece source d size r : Reading ω α Unit) =
    CartaZarr.readFlagPiece source d size r := by
  rw [readFlagPiece, buildSelection_eq hd, Attempt.ofQuotient_some, pure_bind]
  rfl

theorem readPixelPiece_eq : readPixelPiece fuel source d g f o control r =
    CartaZarr.readPixelPiece fuel source d g f o control r := by
  rw [readPixelPiece, readInPieces_eq hd]
  rfl

theorem prefetchPixels_eq : prefetchPixels fuel source d g f r o control =
    CartaZarr.prefetchPixels fuel source d g f r o control := by
  simp only [prefetchPixels, oneElementPerChunk_eq, sampleElements_eq o (show 4 ≠ 0 by decide),
    Attempt.ofQuotient_some, pure_bind, forEachPiece_eq,
    funext fun piece => readPixelPiece_eq hd fuel source g f piece o control]
  rfl

omit [Pixel α] in
theorem prefetchFlags_eq : prefetchFlags fuel source d g f r o =
    CartaZarr.prefetchFlags fuel source d g f r o := by
  simp only [prefetchFlags, oneElementPerChunk_eq, sampleElements_eq o (show 1 ≠ 0 by decide),
    Attempt.ofQuotient_some, pure_bind, forEachPiece_eq,
    fun size => funext fun piece => readFlagPiece_eq hd source piece size]
  rfl

/-- A prefetch does what the model does, which halts where it divides by the bytes of a chunk of the
flag and they are counted as zero. -/
theorem prefetchChunks_eq : prefetchChunks fuel source d g f r o control =
    CartaZarr.prefetchChunks fuel source d g f r o control := by
  simp only [prefetchChunks, buildSelection_eq hd, Attempt.ofQuotient_some, pure_bind,
    prefetchPixels_eq hd, prefetchFlags_eq hd]
  rfl

end Prefetch

end CartaZarr.Dividing

namespace CartaZarr

/-! ## Where a prefetch divides by zero -/

section ByZero

variable {ω α β : Type}

/-- The computation does not halt at a division by zero. -/
abbrev NeverByZero (x : Reading ω α β) : Prop :=
  Attempt.Ensures (fun _ => True) x (fun _ _ => True) fun e _ => e ≠ .dividedByZero

theorem NeverByZero.ne {x : Reading ω α β} (h : NeverByZero x) (state : ReadState ω α) :
    (x state).1 ≠ .error .dividedByZero := by
  have hstate := h state trivial
  rcases hx : x state with ⟨e | b, after⟩
  · rw [hx] at hstate
    simpa using hstate
  · exact nofun

theorem ofExcept_neverByZero (r : Except Error β) :
    NeverByZero (Attempt.ofExcept r : Reading ω α β) :=
  .ofExcept (fun _ _ _ _ => trivial) fun _ _ _ _ => nofun

theorem askControl_neverByZero (control : ReadControl ω) (node : String) :
    NeverByZero (askControl control node : Reading ω α Unit) := by
  intro st _
  unfold askControl
  rcases checkReadControl control node st.world with ⟨e | _, w⟩
  · exact nofun
  · trivial

theorem readFlags_neverByZero (source : PixelSource ω α) (d : ImageDescriptor) (s : PixelSelection)
    (size : ℕ) : NeverByZero (readFlags source d s size) := by
  intro st _
  unfold readFlags
  dsimp only
  rcases source.readMask d s size st.world with ⟨e | mask, w⟩
  · exact nofun
  · trivial

theorem readPixelsAt_neverByZero (source : PixelSource ω α) (d : ImageDescriptor)
    (s : PixelSelection)
    (first : ℕ) : NeverByZero (readPixelsAt source d s first) := by
  intro st _
  unfold readPixelsAt
  dsimp only
  rcases source.readPixels d s (st.world, st.destination.drop first) with ⟨e | _, w, rest⟩
  · exact nofun
  · trivial

variable [Pixel α] (source : PixelSource ω α) (d : ImageDescriptor) (o : ReadOptions)

theorem maskAt_neverByZero (mask : List UInt8) (first count : ℕ) :
    NeverByZero (maskAt d o mask first count : Reading ω α Unit) :=
  .ite (fun _ => .modify fun _ _ => trivial) fun _ => .pure fun _ _ => trivial

omit [Pixel α] in
theorem reportProgress_neverByZero (progress : ProgressCallback ω α) (finished total : ℕ) :
    NeverByZero (reportProgress progress d finished total) := by
  intro st _
  unfold reportProgress
  cases progress with
  | none => trivial
  | some callback =>
    dsimp only
    split_ifs
    · trivial
    · exact nofun

omit [Pixel α] in
theorem pieceMask_neverByZero (s : PixelSelection) : NeverByZero (pieceMask source d o s) :=
  .ite (fun _ => .ite (fun _ => .fail fun _ _ => nofun) fun _ => readFlags_neverByZero source d s _)
    fun _ => .pure fun _ _ => trivial

theorem readPiece_neverByZero (progress : ProgressCallback ω α) (elements : ℕ) (piece : Piece) :
    NeverByZero (readPiece source d o progress elements piece) :=
  .bind (ofExcept_neverByZero _) fun s => .bind (pieceMask_neverByZero source d o s) fun _ =>
    .bind (readPixelsAt_neverByZero source d s _) fun _ =>
        .bind (maskAt_neverByZero d o _ _ _) fun _ =>
      reportProgress_neverByZero d progress _ _

omit [Pixel α] in
theorem checkRead_neverByZero (r : ReadRequest) (control : ReadControl ω) :
    NeverByZero (checkRead d r control : Reading ω α PixelSelection) :=
  .bind (ofExcept_neverByZero _) fun _ => .get_bind fun _ _ =>
    .ite (fun _ => .fail fun _ _ => nofun)
    fun _ => (Attempt.Ensures.bind (askControl_neverByZero control d.id) fun _ =>
      .pure fun _ _ => trivial).imp (fun _ _ => trivial) (fun _ _ h => h) fun _ _ h => h

/-- A read halts at no division by zero. -/
theorem readInPieces_neverByZero (fuel : ℕ) (g f : ChunkGeometry) (r : ReadRequest)
    (control : ReadControl ω) (progress : ProgressCallback ω α) :
    NeverByZero (readInPieces fuel source d g f r o control progress) :=
  .bind (checkRead_neverByZero d r control) fun _ =>
    .bind (.ofFuel (fun _ _ _ _ => trivial) fun _ _ _ => nofun) fun _ =>
      .bind (.forEach_keep fun piece _ =>
          readPiece_neverByZero source d o progress _ piece) fun _ =>
        .pure fun _ _ => trivial

/-- A prefetch halts at none, where the bytes of a chunk of the flag are not counted as zero. -/
theorem prefetchChunks_neverByZero (fuel : ℕ) {g f : ChunkGeometry} (r : ReadRequest)
    (control : ReadControl ω) (h : appliesPixelMask o d = true → flagChunkBytes g f ≠ 0) :
    NeverByZero (prefetchChunks fuel source d g f r o control) := by
  have hpixels : NeverByZero (prefetchPixels fuel source d g f r o control) :=
    .bind (.modify fun _ _ => trivial) fun _ =>
      .bind (forEachPiece_keep (fun _ _ => nofun) (fun p =>
        .bind (readInPieces_neverByZero source d _ fuel g f p control none) fun _ =>
          .pure fun _ _ => trivial) fuel _ _) fun _ => .pure fun _ _ => trivial
  have hflags (happ : appliesPixelMask o d = true) :
      NeverByZero (prefetchFlags fuel source d g f r o) := by
    refine .bind (.ofQuotient (fun _ _ _ _ => trivial) fun hnone => ?_) fun _ =>
      .bind (forEachPiece_keep (fun _ _ => nofun) (fun p => .bind (ofExcept_neverByZero _) fun s =>
        .bind (readFlags_neverByZero source d s _) fun _ => .pure fun _ _ => trivial) fuel _ _)
        fun _ => .pure fun _ _ => trivial
    rw [flagPieceElements, divide_of_ne (h happ)] at hnone
    cases hnone
  exact .bind (ofExcept_neverByZero _) fun _ => .bind (askControl_neverByZero control d.id) fun _ =>
    .bind hpixels fun _ =>
      .ite (fun happ => .bind (hflags happ) fun _ => .pure fun _ _ => trivial) fun _ =>
        .pure fun _ _ => trivial

end ByZero

/-- The bytes of a chunk of the flag are counted modulo a word. -/
theorem flagChunkBytes_eq {d : ImageDescriptor} {g f : ChunkGeometry} (hg : g.Of d) (hf : f.Of d) :
    flagChunkBytes g f = chunkVolume d f % 2 ^ 64 := by
  unfold flagChunkBytes
  split_ifs with h
  · -- only an image without axes has a flag without a chunk shape
    have hrank : d.rank = 0 := by
      rw [← hf.length_eq, List.isEmpty_iff.1 h, List.length_nil]
    rw [chunkElements_eq hg, chunkVolume, chunkVolume, hrank, Finset.prod_range_zero,
      Finset.prod_range_zero]
  · exact chunkElements_eq hf

/-! ### A prefetch of one element -/

/-- The first element of an image. -/
def firstElementRequest (d : ImageDescriptor) : ReadRequest :=
  ⟨List.replicate d.rank ⟨0, 1, 1⟩⟩

section FirstElement

variable {d : ImageDescriptor}

theorem axis_firstElementRequest {i : ℕ}
    (hi : i < d.rank) : (firstElementRequest d).axis i = ⟨0, 1, 1⟩ := by
  rw [ReadRequest.axis_eq_getElem _ (by simpa [firstElementRequest] using hi)]
  simp [firstElementRequest]

theorem elements_firstElementRequest : (firstElementRequest d).elements = 1 := by
  simp [ReadRequest.elements, ReadRequest.counts, firstElementRequest]

theorem firstElementRequest_valid (hlength : ∀ i < d.rank, 0 < d.length i) :
    (firstElementRequest d).Valid d where
  rank_eq := by simp [firstElementRequest]
  stride_pos i hi := by
    rw [axis_firstElementRequest hi]
    exact Nat.one_pos
  count_pos i hi := by
    rw [axis_firstElementRequest hi]
    exact Nat.one_pos
  last_lt i hi := by
    rw [axis_firstElementRequest hi]
    exact hlength i hi
  elements_lt := by
    rw [elements_firstElementRequest]
    decide

/-- A request of one element selects one along every axis. -/
theorem count_le_of_elements {r : ReadRequest} (hv : r.Valid d) (h : r.elements ≤ 1) {i : ℕ}
    (hi : i < d.rank) : (r.axis i).count ≤ 1 := by
  have hi' : i < r.axes.length := hv.rank_eq ▸ hi
  have hmem : (r.axis i).count ∈ r.counts := by
    rw [ReadRequest.axis_eq_getElem r hi']
    exact List.mem_map_of_mem (List.getElem_mem hi')
  exact (Nat.le_of_dvd (List.prod_pos (prod_counts_pos hv.count_pos hv.rank_eq))
    (List.dvd_prod hmem)).trans h

/-- A request of one element is not cut. -/
theorem planPieces_of_elements {r : ReadRequest} (hv : r.Valid d) (h : r.elements ≤ 1) (fuel : ℕ)
    (g f : ChunkGeometry) (o : ReadOptions) (watching : Bool) :
    planPieces fuel d g f r o watching = some [⟨r, 0⟩] := by
  have hnone : slowestSelectedAxis r = none := by
    by_contra hsome
    obtain ⟨axis, haxis⟩ := Option.ne_none_iff_exists'.1 hsome
    obtain ⟨hlt, hcount, -⟩ := slowestSelectedAxis_eq_some haxis
    have := count_le_of_elements hv h (hv.rank_eq ▸ hlt)
    omega
  rw [planPieces, hnone]

/-- **A prefetch that divides by zero**: that of the first element of an image, whose pixels are
read, when the bytes of a chunk of its flag are counted as zero. -/
theorem prefetchChunks_dividesByZero (hd : d.StoredInOrder) (hlength : ∀ i < d.rank, 0 < d.length i)
    {g f : ChunkGeometry} (hpos : ∀ i < d.rank, 0 < g.chunk i) {o : ReadOptions}
    (hbudget : o.readBudgetBytes < 2 ^ 64) (happ : appliesPixelMask o d = true)
    (hbytes : flagChunkBytes g f = 0) {fuel : ℕ} (hfuel : 0 < fuel) :
    (prefetchChunks fuel steadySource d g f
    (firstElementRequest d) o freeControl (.start () [])).1 =
      .error .dividedByZero := by
  have hv := firstElementRequest_valid hlength
  have hcard : ((firstElementRequest d).touched g).card ≤ 1 :=
    (card_touched_le _ g).trans elements_firstElementRequest.le
  have hsteady : Succeeds (steadySource : PixelSource Unit (Option ℚ)) freeControl :=
    ⟨fun _ _ => rfl, fun _ _ => rfl, fun _ _ => rfl⟩
  have hsv := oneElementPerChunk_valid hv hpos
  have hsample : (oneElementPerChunk g (firstElementRequest d)).elements ≤ 1 :=
    (elements_sample hv.toInside hpos).trans_le hcard
  have hcount : ∀ i < d.rank, ((oneElementPerChunk g (firstElementRequest d)).axis
      i).count ≤ 2 ^ 63 :=
    fun i hi => (count_le_of_elements hsv hsample hi).trans (by norm_num)
  have hplan : ∀ p : ReadRequest, p.Valid d →
    p.elements ≤ ((firstElementRequest d).touched g).card →
      ∃ pieces, planPieces fuel d g f p { o with applyPixelMask := false } false = some pieces ∧
        ∀ q ∈ pieces, q.request.Valid d := fun p hp hle =>
    ⟨_, planPieces_of_elements hp (hle.trans hcard) fuel g f _ false, by simpa using hp⟩
  have hpixels : Attempt.Ensures (HasRead d _ 1 [] [])
      (prefetchPixels fuel steadySource d g f (firstElementRequest d) o freeControl) _ _ :=
    prefetchPixels_reads hsteady hd hv hbudget
      (elements_firstElementRequest.trans_le hfuel) hpos hcount
      hplan
  obtain ⟨s, hs⟩ := buildSelection_of_valid hd hv .logical
  have hread := hpixels (.start () [])
    ⟨rfl, rfl, by simp [ReadState.start], by simp [ReadState.start],
    by simp [ReadState.start]⟩
  rcases hrun : prefetchPixels fuel steadySource d g f (firstElementRequest d) o freeControl
    (.start () []) with ⟨e | n, after⟩
  · rw [hrun] at hread
    exact hread.elim
  have hflags : ∀ st : ReadState Unit (Option ℚ),
      prefetchFlags fuel steadySource d g f (firstElementRequest d) o st =
          (.error .dividedByZero, st) := by
    intro st
    rw [prefetchFlags]
    refine Attempt.bind_of_error ?_
    rw [flagPieceElements, hbytes]
    rfl
  rw [prefetchChunks, hs, Attempt.ofExcept_ok, pure_bind,
    Attempt.bind_of_ok (x := askControl _ _) rfl]
  change ((prefetchPixels fuel steadySource d g f (firstElementRequest d) o freeControl >>= _)
    (.start () [])).1 = _
  rw [Attempt.bind_of_ok hrun, if_pos happ, Attempt.bind_of_error (hflags after)]

end FirstElement

end CartaZarr
