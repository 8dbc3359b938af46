import CartaZarr.Read.Divisors
import CartaZarr.Reduce.OccupancyIndex
import CartaZarr.Reduce.PassPlan
import CartaZarr.Xradio.Qualification

/-!
# What a pass divides by

The plan of a pass, what is asked of the plan, and the occupancy and the footprints of a set of
regions, with every division and remainder checked, as those of a read are. `dividesByNoZero_iff` is
of the two together: whatever layout an image and its flag were accepted with, no division is by
zero, unless the mask applies and the elements of a chunk of the flag are a multiple of `2 ^ 64`.
-/

namespace CartaZarr.Dividing

open Word

/-! ## The plan -/

def chunksUnderSample (length chunk sample : ℕ) : Option ℕ :=
  if length = 0 then some 0
  else do
    let steps ← divide (length - 1) sample
    chunksTouched 0 (steps + 1) sample chunk

namespace PassPlan

def chunksTouched (plan : PassPlan) (begin_ end_ : ℕ) : Option ℕ :=
  Dividing.chunksTouched (add plan.planes.spectral.start (mul begin_ plan.planes.spectral.stride))
    (sub end_ begin_) plan.planes.spectral.stride plan.chunkDepth

def chunksCovering (plan : PassPlan) (layerChunks begin_ end_ : ℕ) : Option ℕ := do
  let touched ← chunksTouched plan begin_ end_
  some (max 1 (mul layerChunks touched))

def chunksPerRead (plan : PassPlan) : Option ℕ :=
  divide plan.slabBudgetBytes (max 1 plan.chunkBytes)

def unitsAffordable (plan : PassPlan) (chunksPerUnit : ℕ) : Option ℕ := do
  let chunks ← chunksPerRead plan
  Dividing.unitsAffordable chunks chunksPerUnit

def slabChannels (plan : PassPlan) (footprintChunks : ℕ) : Option ℕ := do
  let units ← unitsAffordable plan footprintChunks
  some (max 1 (mul units plan.leastChannels))

def alignedSlabEnd (plan : PassPlan) (begin_ desired end_ : ℕ) : Option ℕ :=
  alignedBlockEnd begin_ desired end_ plan.planes.spectral.start plan.planes.spectral.stride
    plan.chunkDepth

def emitChannels (plan : PassPlan) (layerChunks bytesPerChannel hint : ℕ) : Option ℕ := do
  let affordable ← divide kSpectralEmitBudgetBytes (max 1 bytesPerChannel)
  let spatialChannels ←
    if layerChunks = 0 then some plan.planes.spectral.count
    else do
      let units ← unitsAffordable plan layerChunks
      some (mul (min plan.planes.spectral.count units) plan.leastChannels)
  some (min (if hint = 0 then spatialChannels else hint)
    (min (max 1 affordable) plan.planes.spectral.count))

end PassPlan

def planPass (descriptor : ImageDescriptor) (geometry flagGeometry : ChunkGeometry) (map : AxisMap)
    (planes : CheckedPlanes descriptor map) (sample : ℕ)
    (options : ReadOptions) : Option PassPlan := do
  let spectral := planes.selection.spectral
  let swapSpatial := geometry.fastestSpatialAxis = .spatialY
  let axisU := if swapSpatial then map.y else map.x
  let axisV := if swapSpatial then map.x else map.y
  let uLength := descriptor.length axisU
  let vLength := descriptor.length axisV
  let chunkU := max 1 (geometry.chunk axisU)
  let chunkV := max 1 (geometry.chunk axisV)
  let chunkDepth := max 1 (geometry.chunk map.spectral)
  let cost ← ReadCost.of descriptor geometry flagGeometry options
  let leastChannels ← ceilQuot chunkDepth spectral.stride
  let sample := max 1 sample
  let rows ← chunksUnderSample uLength chunkU sample
  let columns ← chunksUnderSample vLength chunkV sample
  let rowChunks := max 1 rows
  let columnChunks := max 1 columns
  let chunksPerRead ← divide cost.budgetBytes (max 1 cost.chunkBytes)
  let bandRows ← unitsAffordable chunksPerRead rowChunks
  some
    { descriptor, map, axisU, axisV, uLength, vLength, chunkU, chunkV
      chunkBytes := cost.chunkBytes
      slabBudgetBytes := cost.budgetBytes
      bandRows
      layerChunks := max 1 (mul rowChunks columnChunks)
      planes := planes.selection
      sample
      applyMask := cost.applyMask
      chunkDepth
      leastChannels }

theorem chunksUnderSample_eq {sample : ℕ} (h : sample ≠ 0) (length chunk : ℕ) :
    chunksUnderSample length chunk sample =
      some (CartaZarr.chunksUnderSample length chunk sample) := by
  unfold chunksUnderSample CartaZarr.chunksUnderSample
  split_ifs
  · rfl
  · rw [divide_of_ne h, Option.bind_eq_bind, Option.bind_some, chunksTouched_eq]

namespace PassPlan

theorem chunksTouched_eq (plan : PassPlan) (b e : ℕ) :
    chunksTouched plan b e = some (plan.chunksTouched b e) := Dividing.chunksTouched_eq _ _ _ _

theorem chunksCovering_eq (plan : PassPlan) (layerChunks b e : ℕ) :
    chunksCovering plan layerChunks b e = some (plan.chunksCovering layerChunks b e) := by
  rw [chunksCovering, chunksTouched_eq]
  rfl

theorem chunksPerRead_eq (plan : PassPlan) : chunksPerRead plan = some plan.chunksPerRead :=
  divide_max_one _ _

theorem unitsAffordable_eq (plan : PassPlan) (chunksPerUnit : ℕ) :
    unitsAffordable plan chunksPerUnit = some (plan.unitsAffordable chunksPerUnit) := by
  rw [unitsAffordable, chunksPerRead_eq, Option.bind_eq_bind, Option.bind_some,
    Dividing.unitsAffordable_eq]
  rfl

theorem slabChannels_eq (plan : PassPlan) (footprintChunks : ℕ) :
    slabChannels plan footprintChunks = some (plan.slabChannels footprintChunks) := by
  rw [slabChannels, unitsAffordable_eq]
  rfl

theorem alignedSlabEnd_eq (plan : PassPlan) (b desired e : ℕ) :
    alignedSlabEnd plan b desired e = some (plan.alignedSlabEnd b desired e) :=
  alignedBlockEnd_eq _ _ _ _ _ _

theorem emitChannels_eq (plan : PassPlan) (layerChunks bytesPerChannel hint : ℕ) :
    emitChannels plan layerChunks bytesPerChannel hint =
      some (plan.emitChannels layerChunks bytesPerChannel hint) := by
  unfold emitChannels CartaZarr.PassPlan.emitChannels
  rw [divide_max_one, unitsAffordable_eq]
  split_ifs <;> rfl

end PassPlan

/-- The stride of the planes was checked, and the plan takes its sample to be at least one. -/
theorem planPass_eq {d : ImageDescriptor} (g f : ChunkGeometry) {map : AxisMap}
    (p : CheckedPlanes d map)
    (sample : ℕ) (o : ReadOptions) :
    planPass d g f map p sample o = some (CartaZarr.planPass d g f map p sample o) := by
  have hsample : max 1 sample ≠ 0 := by omega
  unfold planPass
  simp only [ReadCost.of_eq, ceilQuot_eq p.checks.1.1.ne',
    chunksUnderSample_eq hsample, divide_max_one,
    unitsAffordable_eq, Option.bind_eq_bind, Option.bind_some]
  rfl

/-! ## The regions -/

def ChunkGrid.over (chunkU chunkV : ℕ) (placed : List PlacedRegion) : Option ChunkGrid := do
  let u0 := placed.foldl (fun least region => min least region.uStart) (2 ^ 64 - 1)
  let v0 := placed.foldl (fun least region => min least region.vStart) (2 ^ 64 - 1)
  let u1 := placed.foldl (fun most region => max most region.uEnd) 0
  let v1 := placed.foldl (fun most region => max most region.vEnd) 0
  let chunkCu0 ← divide u0 chunkU
  let chunkCv0 ← divide v0 chunkV
  let lastCu ← divide (sub u1 1) chunkU
  some { chunkU, chunkV, u0, v0, u1, v1, chunkCu0, chunkCv0,
         columns := add (sub lastCu chunkCu0) 1 }

def markRaster (chunkU cx0 : ℕ) (span : PlacedRegion.Span) : ℕ → ℕ → Marks → Divided Marks
  | 0, _, _ => ended none
  | fuel + 1, x, marks =>
    if x < span.last then do
      let column ← OptionT.lift (divide x chunkU)
      let boundary := min span.last (mul (add column 1) chunkU)
      let seen ← ended (marks.marked cx0 column)
      if !seen && (List.range' x (boundary - x)).any span.has then do
        let marks ← ended (marks.mark cx0 column)
        markRaster chunkU cx0 span fuel boundary marks
      else markRaster chunkU cx0 span fuel boundary marks
    else pure marks

def markSpan (chunkU cx0 : ℕ) (marks : Marks) (span : PlacedRegion.Span) : Divided Marks :=
  match span.selected with
  | none => do
    let first ← OptionT.lift (divide span.first chunkU)
    let last ← OptionT.lift (divide (sub span.last 1) chunkU)
    ended ((List.range' first (last + 1 - first)).foldlM (fun marks column =>
      marks.mark cx0 column) marks)
  | some _ => markRaster chunkU cx0 span (span.last + 1) span.first marks

def markRows (chunkU cx0 columns : ℕ) (region : PlacedRegion) : List ℕ → Marks → Divided Marks
  | [], marks => pure marks
  | y :: rest, marks =>
    if marks.found < columns then do
      let marks ← (region.forEachSpan y region.uStart region.uEnd).foldlM
        (markSpan chunkU cx0) marks
      markRows chunkU cx0 columns region rest marks
    else pure marks

def occupiedColumns (grid : ChunkGrid) (region : PlacedRegion) (cy : ℕ) : Divided (List ℕ) := do
  let cx0 ← OptionT.lift (divide region.uStart grid.chunkU)
  let cx1 ← OptionT.lift (divide (sub region.uEnd 1) grid.chunkU)
  let columns := add (sub cx1 cx0) 1
  let yFirst := max region.vStart (mul cy grid.chunkV)
  let yLast := min region.vEnd (mul (add cy 1) grid.chunkV)
  let marks ← markRows grid.chunkU cx0 columns region (List.range' yFirst (yLast - yFirst))
    ⟨List.replicate columns false, 0⟩
  pure ((List.range' cx0 columns).filter fun cx => marks.marked cx0 cx = some true)

def scanRows (grid : ChunkGrid) (region : PlacedRegion) : List ℕ → Incidences → Divided Incidences
  | [], seen => pure seen
  | cy :: rest, seen =>
    if seen.tooMany then pure seen
    else do
      let columns ← occupiedColumns grid region cy
      scanRows grid region rest (columns.foldl (Incidences.visit grid cy) seen)

def forEachCell (grid : ChunkGrid) (region : PlacedRegion)
    (seen : Incidences) : Divided Incidences := do
  let cy0 ← OptionT.lift (divide region.vStart grid.chunkV)
  let cy1 ← OptionT.lift (divide (sub region.vEnd 1) grid.chunkV)
  scanRows grid region (List.range' cy0 (cy1 + 1 - cy0)) seen

def incidencesOf (grid : ChunkGrid) :
    List PlacedRegion → Incidences → List ℕ → Divided (Incidences × List ℕ)
  | [], seen, regionFirst => pure (seen, regionFirst)
  | region :: rest, seen, regionFirst =>
    if seen.tooMany then pure (seen, regionFirst)
    else do
      let seen ← forEachCell grid region seen
      incidencesOf grid rest seen (regionFirst ++ [seen.cells.length])

def addCell (columns : ℕ) (rows : List OccupiedRow) (cell : ℕ) : Option (List OccupiedRow) := do
  let row ← divide cell columns
  let column ← remainder cell columns
  some <| match rows.getLast? with
    | some last =>
      if last.row = row then rows.dropLast ++ [⟨row, addColumn last.runs column⟩]
      else rows ++ [⟨row, addColumn [] column⟩]
    | none => [⟨row, addColumn [] column⟩]

def Occupancy.index (grid : ChunkGrid) (placed : List PlacedRegion)
    (incidenceCells regionFirst : List ℕ) :
    Option Occupancy := do
  let cells := unique (incidenceCells.insertionSort (· ≤ ·))
  let slots := incidenceCells.map fun cell => lowerBound cells cell % 2 ^ 32
  let offsets := keyOffsets cells.length slots
  let items := (List.range placed.length).flatMap fun i =>
    (List.range' (regionFirst.getD i 0)
        (regionFirst.getD (i + 1) 0 - regionFirst.getD i 0)).map fun k =>
      (slots.getD k 0, i % 2 ^ 32)
  let occupiedRows ← cells.foldlM (addCell grid.columns) []
  some
    { grid
      regions := placed
      cells
      offsets
      entries := placeByKey 0 cells.length offsets items
      occupiedRows
      layerChunks := cells.length }

def Occupancy.of (regions : BufferView RegionMask) (plane : PlaneExtent) (chunkU chunkV : ℕ)
    (fastestSpatialAxis : AxisRole) (node : String) : Divided (Except Error Occupancy) :=
  match regions.data with
  | none => pure (.error ⟨.invalidArgument, "A spectral reduction needs at least one region", node⟩)
  | some given =>
    if regions.size = 0 then
      pure (.error ⟨.invalidArgument, "A spectral reduction needs at least one region", node⟩)
    else if regions.size > kMaxSpectralRegions then
      pure (.error ⟨.invalidArgument, "A spectral reduction accepts at most " ++
        toString kMaxSpectralRegions ++ " regions, not " ++ toString regions.size, node⟩)
    else
      match placeableAll plane node given 0 with
      | .error e => pure (.error e)
      | .ok () => do
        let placed := given.map (RegionMask.place (fastestSpatialAxis = .spatialY))
        let grid ← OptionT.lift (ChunkGrid.over chunkU chunkV placed)
        let found ← incidencesOf grid placed ⟨[], false⟩ [0]
        if found.1.tooMany then
          pure (.error ⟨.invalidArgument,
            "The regions together touch more chunks than one reduction can index", node⟩)
        else do
          let occupancy ← OptionT.lift (Occupancy.index grid placed found.1.cells found.2)
          pure (.ok occupancy)

def Occupancy.footprintsFrom (grid : ChunkGrid) (chunksPerRead : ℕ) :
    ℕ → List OccupiedRow → Divided (List OccupiedFootprint)
  | _, [] => pure []
  | 0, _ :: _ => ended none
  | fuel + 1, first :: rest => do
    let bandLimit ← OptionT.lift (unitsAffordable chunksPerRead
      (CartaZarr.Occupancy.widest first.runs))
    let rows := CartaZarr.Occupancy.bandRows first bandLimit 1 rest
    let segmentLimit ← OptionT.lift (unitsAffordable chunksPerRead rows)
    let band ← ended (first.runs.mapM (CartaZarr.Occupancy.pieces grid first.row rows segmentLimit))
    let below ← footprintsFrom grid chunksPerRead fuel (rest.drop (rows - 1))
    pure (band.flatten ++ below)

def Occupancy.footprints (occupancy : Occupancy)
    (chunksPerRead : ℕ) : Divided (List OccupiedFootprint) :=
  footprintsFrom occupancy.grid chunksPerRead occupancy.occupiedRows.length occupancy.occupiedRows

theorem ChunkGrid.over_eq {chunkU chunkV : ℕ} (hu : chunkU ≠ 0) (hv : chunkV ≠ 0)
    (placed : List PlacedRegion) :
    ChunkGrid.over chunkU chunkV placed = some (CartaZarr.ChunkGrid.over chunkU chunkV placed) := by
  unfold ChunkGrid.over
  simp only [divide_of_ne hu, divide_of_ne hv, Option.bind_eq_bind, Option.bind_some]
  rfl

section Marking

variable {chunkU : ℕ} (hu : chunkU ≠ 0) (cx0 : ℕ)
include hu

theorem markRaster_eq (span : PlacedRegion.Span) (fuel x : ℕ) (marks : Marks) :
    markRaster chunkU cx0 span fuel x marks =
      ended (CartaZarr.markRaster chunkU cx0 span fuel x marks) := by
  induction fuel generalizing x marks with
  | zero => rfl
  | succ fuel ih =>
    rw [markRaster, CartaZarr.markRaster]
    split_ifs
    · rw [divide_of_ne hu, lift_some_bind]
      refine ended_bind fun seen => ?_
      split_ifs
      · exact ended_bind fun marks => ih _ marks
      · exact ih _ marks
    · rfl

theorem markSpan_eq (marks : Marks) (span : PlacedRegion.Span) :
    markSpan chunkU cx0 marks span = ended (CartaZarr.markSpan chunkU cx0 marks span) := by
  unfold markSpan CartaZarr.markSpan
  cases span.selected with
  | none =>
    dsimp only
    rw [divide_of_ne hu, lift_some_bind, divide_of_ne hu, lift_some_bind]
  | some selected => exact markRaster_eq hu cx0 span _ _ marks

theorem markRows_eq (columns : ℕ) (region : PlacedRegion) (ys : List ℕ) (marks : Marks) :
    markRows chunkU cx0 columns region ys marks =
      ended (CartaZarr.markRows chunkU cx0 columns region ys marks) := by
  induction ys generalizing marks with
  | nil => rfl
  | cons y ys ih =>
    rw [markRows, CartaZarr.markRows]
    split_ifs
    · rw [foldlM_eq_ended fun span marks => markSpan_eq hu cx0 marks span]
      exact ended_bind ih
    · rfl

end Marking

section Cells

variable {grid : ChunkGrid} (hu : grid.chunkU ≠ 0) (hv : grid.chunkV ≠ 0)
include hu

theorem occupiedColumns_eq (region : PlacedRegion) (cy : ℕ) :
    occupiedColumns grid region cy = ended (CartaZarr.occupiedColumns grid region cy) := by
  unfold occupiedColumns CartaZarr.occupiedColumns
  rw [divide_of_ne hu, lift_some_bind, divide_of_ne hu, lift_some_bind]
  dsimp only
  rw [markRows_eq hu]
  exact ended_map _ _

theorem scanRows_eq (region : PlacedRegion) (rows : List ℕ) (seen : Incidences) :
    scanRows grid region rows seen = ended (CartaZarr.scanRows grid region rows seen) := by
  induction rows generalizing seen with
  | nil => rfl
  | cons cy rows ih =>
    rw [scanRows, CartaZarr.scanRows]
    split_ifs
    · rfl
    · rw [occupiedColumns_eq hu]
      exact ended_bind fun columns => ih _

include hv

theorem forEachCell_eq (region : PlacedRegion) (seen : Incidences) :
    forEachCell grid region seen = ended (CartaZarr.forEachCell grid region seen) := by
  unfold forEachCell
  rw [divide_of_ne hv, lift_some_bind, divide_of_ne hv, lift_some_bind, scanRows_eq hu]
  rfl

theorem incidencesOf_eq (regions : List PlacedRegion) (seen : Incidences) (regionFirst : List ℕ) :
    incidencesOf grid regions seen regionFirst =
      ended (CartaZarr.incidencesOf grid regions seen regionFirst) := by
  induction regions generalizing seen regionFirst with
  | nil => rfl
  | cons region regions ih =>
    rw [incidencesOf, CartaZarr.incidencesOf]
    split_ifs
    · rfl
    · rw [forEachCell_eq hu hv]
      exact ended_bind fun seen => ih _ _

end Cells

theorem addCell_eq {columns : ℕ} (h : columns ≠ 0) (rows : List OccupiedRow) (cell : ℕ) :
    addCell columns rows cell = some (CartaZarr.addCell columns rows cell) := by
  rw [addCell, divide_of_ne h, remainder_of_ne h]
  rfl

theorem Occupancy.index_eq {grid : ChunkGrid} (h : grid.columns ≠ 0) (placed : List PlacedRegion)
    (incidenceCells regionFirst : List ℕ) : Occupancy.index grid placed incidenceCells regionFirst =
      some (CartaZarr.Occupancy.index grid placed incidenceCells regionFirst) := by
  unfold Occupancy.index
  dsimp only
  rw [foldlM_eq_some fun cell _ rows => addCell_eq h rows cell]
  rfl

/-- The grid over regions on a plane has a column: their box has a pixel, and no more than fit a
word. -/
theorem columns_pos {given : List RegionMask} (hne : given ≠ []) {plane : PlaneExtent}
    (hw : plane.width < 2 ^ 64) (hh : plane.height < 2 ^ 64) {chunkU chunkV : ℕ} (hu : 0 < chunkU)
    (hv : 0 < chunkV) {node : String} (h : placeableAll plane node given 0 = .ok ())
    (swapSpatial : Bool) :
    0 < (CartaZarr.ChunkGrid.over chunkU chunkV
      (given.map (RegionMask.place swapSpatial))).columns := by
  have hsize : ∀ region ∈ given.map (RegionMask.place swapSpatial),
    0 < region.uSize ∧ 0 < region.vSize ∧
      region.uStart + region.uSize < 2 ^ 64 ∧ region.vStart + region.vSize < 2 ^ 64 := by
    intro region hregion
    obtain ⟨r, hr, rfl⟩ := List.mem_map.1 hregion
    obtain ⟨j, hj⟩ := placeable_of_placeableAll h r hr
    obtain ⟨⟨hwidth, hheight⟩, hx, hy⟩ := placeable_box hw hh hj
    cases swapSpatial <;>
      simp only [RegionMask.place, Bool.false_eq_true, if_false, if_true] <;> omega
  rw [(ChunkGrid.over_around (by simpa using hne) hu hv hsize).columns_eq]
  exact Nat.succ_pos _

/-- Pixels are divided by the extents of a chunk, and the numbers of the cells by the columns of the
grid. -/
theorem Occupancy.of_eq (regions : BufferView RegionMask) {plane : PlaneExtent}
    (hw : plane.width < 2 ^ 64) (hh : plane.height < 2 ^ 64) {chunkU chunkV : ℕ} (hu : 0 < chunkU)
    (hv : 0 < chunkV) (axis : AxisRole) (node : String) :
    Occupancy.of regions plane chunkU chunkV axis node =
      ended (CartaZarr.Occupancy.of regions plane chunkU chunkV axis node) := by
  unfold Occupancy.of CartaZarr.Occupancy.of
  cases hgiven : regions.data with
  | none => rfl
  | some given =>
    dsimp only
    split_ifs with hzero hcount
    · rfl
    · rfl
    cases hplaceable : placeableAll plane node given 0 with
    | error e => rfl
    | ok _ =>
      have hne : given ≠ [] := by
        rintro rfl
        exact hzero (regions.size_eq [] hgiven).symm
      have hcolumns := columns_pos hne hw hh hu hv hplaceable (axis = .spatialY)
      dsimp only
      rw [ChunkGrid.over_eq hu.ne' hv.ne', lift_some_bind, incidencesOf_eq hu.ne' hv.ne']
      simp only [Occupancy.index_eq hcolumns.ne', lift_some_bind]
      generalize CartaZarr.incidencesOf _ _ _ _ = found
      cases found with
      | none => rfl
      | some found =>
        rw [ended_some, pure_bind, Option.map_some]
        split_ifs <;> rfl

theorem Occupancy.footprintsFrom_eq (grid : ChunkGrid) (chunksPerRead fuel : ℕ)
    (rows : List OccupiedRow) :
    footprintsFrom grid chunksPerRead fuel rows =
      ended (CartaZarr.Occupancy.footprintsFrom grid chunksPerRead fuel rows) := by
  induction fuel generalizing rows with
  | zero => cases rows <;> rfl
  | succ fuel ih => cases rows with
    | nil => rfl
    | cons first rest =>
      rw [footprintsFrom, CartaZarr.Occupancy.footprintsFrom, unitsAffordable_eq, lift_some_bind]
      dsimp only
      rw [unitsAffordable_eq, lift_some_bind]
      refine ended_bind fun band => ?_
      rw [ih]
      exact ended_bind fun below => rfl

theorem Occupancy.footprints_eq (occupancy : Occupancy) (chunksPerRead : ℕ) :
    Occupancy.footprints occupancy chunksPerRead = ended (occupancy.footprints chunksPerRead) :=
  footprintsFrom_eq _ _ _ _

end CartaZarr.Dividing

namespace CartaZarr

/-! ## Reads and passes -/

/-- Nothing that is asked of a plan is divided by zero. -/
structure PassPlan.DividesByNoZero (plan : PassPlan) : Prop where
  chunksTouched : ∀ b e, Dividing.PassPlan.chunksTouched plan b e ≠ none
  chunksCovering : ∀ layerChunks b e, Dividing.PassPlan.chunksCovering plan layerChunks b e ≠ none
  chunksPerRead : Dividing.PassPlan.chunksPerRead plan ≠ none
  unitsAffordable : ∀ chunksPerUnit, Dividing.PassPlan.unitsAffordable plan chunksPerUnit ≠ none
  slabChannels : ∀ footprintChunks, Dividing.PassPlan.slabChannels plan footprintChunks ≠ none
  alignedSlabEnd : ∀ b desired e, Dividing.PassPlan.alignedSlabEnd plan b desired e ≠ none
  emitChannels : ∀ layerChunks bytesPerChannel hint,
    Dividing.PassPlan.emitChannels plan layerChunks bytesPerChannel hint ≠ none

theorem PassPlan.dividesByNoZero (plan : PassPlan) : plan.DividesByNoZero := by
  constructor <;> intros <;>
    simp only [Dividing.PassPlan.chunksTouched_eq, Dividing.PassPlan.chunksCovering_eq,
      Dividing.PassPlan.chunksPerRead_eq, Dividing.PassPlan.unitsAffordable_eq,
      Dividing.PassPlan.slabChannels_eq, Dividing.PassPlan.alignedSlabEnd_eq,
      Dividing.PassPlan.emitChannels_eq, ne_eq, reduceCtorEq, not_false_eq_true]

/-- No division is by zero, on the way of a read of an image and of a pass over it, whatever the
source answers and the control says. -/
structure DividesByNoZero (d : ImageDescriptor) (g f : ChunkGeometry) (o : ReadOptions)
    (r : ReadRequest) : Prop where
  cost : Dividing.ReadCost.of d g f o ≠ none
  pieces : ∀ fuel watching, (Dividing.planPieces fuel d g f r o watching).run ≠ none
  read : ∀ {ω α : Type} [Pixel α] fuel (source : PixelSource ω α) control progress state,
    (Dividing.readInPieces fuel source d g f r o control progress state).1 ≠ .error .dividedByZero
  prefetch : ∀ {ω α : Type} [Pixel α] fuel (source : PixelSource ω α) control state,
    (Dividing.prefetchChunks fuel source d g f r o control state).1 ≠ .error .dividedByZero
  pass : ∀ map (planes : CheckedPlanes d map) sample,
    Dividing.planPass d g f map planes sample o ≠ none
  plan : ∀ map (planes : CheckedPlanes d map) sample,
    (planPass d g f map planes sample o).DividesByNoZero
  /-- The occupancy is of the image's plane, and in the chunks of the plan. -/
  occupancy : ∀ map (planes : CheckedPlanes d map) sample regions,
    (Dividing.Occupancy.of regions ⟨d.length map.x, d.length map.y⟩
      (planPass d g f map planes sample o).chunkU (planPass d g f map planes sample o).chunkV
      g.fastestSpatialAxis d.id).run ≠ none
  footprints : ∀ occupancy chunksPerRead,
    (Dividing.Occupancy.footprints occupancy chunksPerRead).run ≠ none

/-- Only the prefetch can divide by zero. -/
theorem dividesByNoZero_of {d : ImageDescriptor} (hd : d.StoredInOrder) {g f : ChunkGeometry}
    (o : ReadOptions) (r : ReadRequest) (h : appliesPixelMask o d = true → flagChunkBytes g f ≠ 0) :
    DividesByNoZero d g f o r where
  cost := by simp
  pieces fuel watching := by
    rw [Dividing.planPieces_eq]
    exact ended_ne_none _
  read fuel source control progress state := by
    rw [Dividing.readInPieces_eq hd]
    exact (readInPieces_neverByZero source d o fuel g f r control progress).ne state
  prefetch fuel source control state := by
    rw [Dividing.prefetchChunks_eq hd]
    exact (prefetchChunks_neverByZero source d o fuel r control h).ne state
  pass map planes sample := by simp [Dividing.planPass_eq]
  plan map planes sample := PassPlan.dividesByNoZero _
  occupancy map planes sample regions := by
    rw [Dividing.Occupancy.of_eq regions (d.length_lt _) (d.length_lt _) (by simp [planPass])
      (by simp [planPass])]
    exact ended_ne_none _
  footprints occupancy chunksPerRead := by
    rw [Dividing.Occupancy.footprints_eq]
    exact ended_ne_none _

/-- **No zero divisor, for any stored layout**, exactly when the mask does not apply or the elements
of a chunk of the flag are no multiple of `2 ^ 64`. -/
theorem dividesByNoZero_iff {image flag : Json} {node node' : String} {m m' : ArrayMetadata}
    (hm : parseArrayMetadata image node = .ok m) (hm' : parseArrayMetadata flag node' = .ok m')
    (hshape : m'.shape = m.shape) {d : ImageDescriptor} (hd : d.Of m) {o : ReadOptions}
    (hbudget : o.readBudgetBytes < 2 ^ 64)
    (haccepts : ∃ r s, buildSelection d r .logical = .ok s) :
    ∃ g f, buildChunkGeometry d (parseStorageLayout m) = some g ∧
      buildChunkGeometry d (parseStorageLayout m') = some f ∧
      ((∀ r s, buildSelection d r .logical = .ok s →
          DividesByNoZero d g.toChunkGeometry f.toChunkGeometry o r) ↔
        ¬ (appliesPixelMask o d ∧ 2 ^ 64 ∣ chunkVolume d f.toChunkGeometry)) := by
  have hlayout := parseStorageLayout_describes hm
  have hlayout' := parseStorageLayout_describes hm'
  rw [← hd.rank_eq] at hlayout
  rw [hshape, ← hd.rank_eq] at hlayout'
  obtain ⟨g, hg, hgof, -, -⟩ := buildChunkGeometry_of hd.storedInOrder hlayout
  obtain ⟨f, hf, hfof, -, -⟩ := buildChunkGeometry_of hd.storedInOrder hlayout'
  refine ⟨g, f, hg, hf, ?_⟩
  have hbytes : flagChunkBytes g.toChunkGeometry f.toChunkGeometry = 0 ↔
      2 ^ 64 ∣ chunkVolume d f.toChunkGeometry := by
    rw [flagChunkBytes_eq hgof hfof, Nat.dvd_iff_mod_eq_zero]
  rw [← hbytes]
  constructor
  · rintro h ⟨happ, hzero⟩
    obtain ⟨r, s, hs⟩ := haccepts
    have hr := (buildSelection_ok_iff hd.storedInOrder .logical).1 ⟨s, hs⟩
    have hlength : ∀ i < d.rank, 0 < d.length i :=
      fun i hi => (Nat.zero_le _).trans_lt (hr.last_lt i hi)
    obtain ⟨s, hs⟩ := buildSelection_of_valid hd.storedInOrder
      (firstElementRequest_valid hlength) .logical
    refine (h _ s hs).prefetch 1 steadySource freeControl (.start () []) ?_
    rw [Dividing.prefetchChunks_eq hd.storedInOrder]
    exact prefetchChunks_dividesByZero hd.storedInOrder hlength hgof.chunk_pos hbudget happ hzero
      Nat.one_pos
  · rintro h r s -
    exact dividesByNoZero_of hd.storedInOrder o r fun happ hzero => h ⟨happ, hzero⟩

/-- The cube, with flags in chunks of a plane each. -/
theorem dividesByNoZero_iff_smallCube :
    ∃ g f, buildChunkGeometry { smallCube with hasPixelMask := true }
        (parseStorageLayout (plainMetadata [8, 4, 4] [4, 4, 4] "float32")) = some g ∧
      buildChunkGeometry { smallCube with hasPixelMask := true }
        (parseStorageLayout (plainMetadata [8, 4, 4] [1, 4, 4] "bool")) = some f ∧
      ((∀ r s, buildSelection { smallCube with hasPixelMask := true } r .logical = .ok s →
          DividesByNoZero { smallCube with hasPixelMask := true }
            g.toChunkGeometry f.toChunkGeometry
            ⟨true, 320⟩ r) ↔
        ¬ (appliesPixelMask ⟨true, 320⟩ { smallCube with hasPixelMask := true } ∧
          2 ^ 64 ∣ chunkVolume { smallCube with hasPixelMask := true } f.toChunkGeometry)) :=
  @dividesByNoZero_iff (plainDocument [8, 4, 4] [4, 4, 4] "float32")
    (plainDocument [8, 4, 4] [1, 4, 4] "bool") "SKY" "FLAG" _ _ rfl rfl rfl
    { smallCube with hasPixelMask := true } ⟨by decide, rfl, by decide⟩ ⟨true, 320⟩ (by decide)
    ⟨midChunkRequest, _, rfl⟩

/-- A store of an image and its flag, in chunks of `2 ^ 64` elements. -/
def vastFlagCube : Backing :=
  cubeWithFlag (chunkedDocument [1, 1, 1, 2 ^ 32, 2 ^ 32] "bool" [("type", .string "flag")])

def vastFlagStore : Store := { maskedCubeStore with backing := vastFlagCube }

/-- The image of that store. -/
def vastFlagImage : ImageDescriptor where
  id := "SKY"
  storedType := .float32
  axes := [⟨"l", .spatialX, 3, 3⟩, ⟨"m", .spatialY, 4, 4⟩, ⟨"frequency", .spectral, 2, 1⟩,
    ⟨"polarization", .polarization, 1, 2⟩, ⟨"time", .time, 1, 0⟩]
  hasPixelMask := true

/-- **Reading ahead of a flag in chunks of `2 ^ 64` elements divides by zero.** -/
theorem vastFlag_dividesByZero :
    openStore vastFlagCube = .ok vastFlagStore ∧
    ∃ entries image own, (vastFlagStore.inventory (fun _ => none) vastFlagStore.initial).1 =
      .ok entries ∧
      (⟨"SKY", .array, some (.ok image), none⟩ : NodeEntry) ∈ entries ∧
      (qualifyNode vastFlagStore (fun _ => none) ⟨"SKY", .array, some (.ok image), none⟩
        vastFlagStore.initial).1.openable = true ∧
      describeAxes image = some vastFlagImage.axes ∧
      (determineFlag vastFlagStore (fun _ => none) image "SKY" [] vastFlagStore.initial).1.1 =
        .ok "FLAG" ∧
      (vastFlagStore.verifyArray (fun _ => none) "FLAG" vastFlagStore.initial).1 = .ok own ∧
      (∃ s, buildSelection vastFlagImage (firstElementRequest vastFlagImage) .logical = .ok s) ∧
      ∃ g f, buildChunkGeometry vastFlagImage (parseStorageLayout image) = some g ∧
        buildChunkGeometry vastFlagImage (parseStorageLayout own) = some f ∧
        (Dividing.prefetchChunks 1 (steadySource : PixelSource Unit (Option ℚ)) vastFlagImage
          g.toChunkGeometry f.toChunkGeometry (firstElementRequest vastFlagImage)
            ⟨true, 0⟩ freeControl
          (.start () [])).1 = .error .dividedByZero ∧
        ¬ DividesByNoZero vastFlagImage g.toChunkGeometry f.toChunkGeometry ⟨true, 0⟩
          (firstElementRequest vastFlagImage) := by
  have hhalts (g f : ChunkGeometry) (hg : g = ⟨.spatialY, [2, 2, 1, 1, 1]⟩)
      (hf : f = ⟨.spatialY, [2 ^ 32, 2 ^ 32, 1, 1, 1]⟩) :
      (Dividing.prefetchChunks 1 (steadySource : PixelSource Unit (Option ℚ)) vastFlagImage g f
        (firstElementRequest vastFlagImage) ⟨true, 0⟩ freeControl (.start () [])).1 =
          .error .dividedByZero := by
    subst hg hf
    rw [Dividing.prefetchChunks_eq (by decide)]
    exact prefetchChunks_dividesByZero (by decide) (by decide) (by decide)
      (by decide) rfl (by decide)
      Nat.one_pos
  refine ⟨rfl, _, _, _, rfl, List.mem_cons_of_mem _ List.mem_cons_self, rfl, rfl, rfl, rfl,
    buildSelection_of_valid (by decide) (firstElementRequest_valid (by decide)) .logical,
    ⟨⟨.spatialY, [2, 2, 1, 1, 1]⟩, [2, 2, 1, 1, 1], [2, 2, 2, 1, 1], false, ""⟩,
    ⟨⟨.spatialY, [2 ^ 32, 2 ^ 32, 1, 1, 1]⟩, [2 ^ 32, 2 ^ 32, 1, 1, 1], [1, 1, 2, 1, 1], false, ""⟩,
    by decide +kernel, by decide +kernel, hhalts _ _ rfl rfl,
    fun h => h.prefetch 1 _ _ _ (hhalts _ _ rfl rfl)⟩

end CartaZarr
