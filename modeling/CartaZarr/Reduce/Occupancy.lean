import CartaZarr.Foundations.Sorted
import CartaZarr.Foundations.Walk
import CartaZarr.ChunkBlocks
import CartaZarr.Reduce.Pass
import CartaZarr.Reduce.PlacedRegion

/-!
# Which chunks a set of regions occupies

`Occupancy.of` places the regions, finds the chunks each of them occupies by marking the columns of
one chunk row after another, and keeps the incidences of cells and regions as a compressed-row
index: the occupied cells in order, and the regions of each between its offset and the next.
`footprints` cuts the occupied chunk runs into rectangles one read can decode.

Numbers are 64-bit words. A call that never returns, because a boundary past `2 ^ 64` sends a scan
back to the start of its row, is `none`.
-/

namespace CartaZarr

open Word

def kMaxSpectralRegions : ℕ := 2 ^ 20

def kMaxChunkIncidences : ℕ := 2 ^ 26

/-! ## The grid over the regions -/

/-- The box around a set of regions, in pixels, half-open, and the chunk grid covering it. -/
structure ChunkGrid where
  chunkU : ℕ
  chunkV : ℕ
  u0 : ℕ
  v0 : ℕ
  u1 : ℕ
  v1 : ℕ
  chunkCu0 : ℕ
  chunkCv0 : ℕ
  columns : ℕ
  deriving DecidableEq, Repr

def ChunkGrid.over (chunkU chunkV : ℕ) (placed : List PlacedRegion) : ChunkGrid :=
  let u0 := placed.foldl (fun least region => min least region.uStart) (2 ^ 64 - 1)
  let v0 := placed.foldl (fun least region => min least region.vStart) (2 ^ 64 - 1)
  let u1 := placed.foldl (fun most region => max most region.uEnd) 0
  let v1 := placed.foldl (fun most region => max most region.vEnd) 0
  { chunkU, chunkV, u0, v0, u1, v1
    chunkCu0 := u0 / chunkU
    chunkCv0 := v0 / chunkV
    columns := add (sub (sub u1 1 / chunkU) (u0 / chunkU)) 1 }

/-- A cell's number in the grid, row by row. -/
def ChunkGrid.cell (grid : ChunkGrid) (chunkCu chunkCv : ℕ) : ℕ :=
  add (mul (sub chunkCv grid.chunkCv0) grid.columns) (sub chunkCu grid.chunkCu0)

/-! ## Marking a chunk row -/

/-- Which columns of a chunk row are occupied, from column `cx0` on, and how many of them. -/
structure Marks where
  occupied : List Bool
  found : ℕ
  deriving DecidableEq, Repr

/-- Whether a column is marked; none past the columns of the row. -/
def Marks.marked (marks : Marks) (cx0 column : ℕ) : Option Bool := marks.occupied[sub column cx0]?

def Marks.mark (marks : Marks) (cx0 column : ℕ) : Option Marks :=
  (marks.marked cx0 column).map fun seen =>
    if seen then marks else ⟨marks.occupied.set (sub column cx0) true, add marks.found 1⟩

/-- Mark the columns of a span read through the raster, from `x` on: a column once a selected pixel
is found in it, and a column already marked is not looked at again. -/
def markRaster (chunkU cx0 : ℕ) (span : PlacedRegion.Span) : ℕ → ℕ → Marks → Option Marks
  | 0, _, _ => none
  | fuel + 1, x, marks =>
    if x < span.last then
      let column := x / chunkU
      let boundary := min span.last (mul (add column 1) chunkU)
      (marks.marked cx0 column).bind fun seen =>
        if !seen && (List.range' x (boundary - x)).any span.has then
          (marks.mark cx0 column).bind (markRaster chunkU cx0 span fuel boundary)
        else markRaster chunkU cx0 span fuel boundary marks
    else some marks

/-- Mark the columns a span occupies. -/
def markSpan (chunkU cx0 : ℕ) (marks : Marks) (span : PlacedRegion.Span) : Option Marks :=
  match span.selected with
  | none =>
    let first := span.first / chunkU
    (List.range' first (sub span.last 1 / chunkU + 1 - first)).foldlM (fun marks column =>
      marks.mark cx0 column) marks
  -- the loop is at one pixel at most once, unless it never ends
  | some _ => markRaster chunkU cx0 span (span.last + 1) span.first marks

/-- Mark row after row, until every column is. -/
def markRows (chunkU cx0 columns : ℕ) (region : PlacedRegion) : List ℕ → Marks → Option Marks
  | [], marks => some marks
  | y :: rest, marks =>
    if marks.found < columns then
      ((region.forEachSpan y region.uStart region.uEnd).foldlM (markSpan chunkU cx0) marks).bind
        (markRows chunkU cx0 columns region rest)
    else some marks

/-- The columns of chunk row `cy` a region occupies. -/
def occupiedColumns (grid : ChunkGrid) (region : PlacedRegion) (cy : ℕ) : Option (List ℕ) :=
  let cx0 := region.uStart / grid.chunkU
  let columns := add (sub (sub region.uEnd 1 / grid.chunkU) cx0) 1
  let yFirst := max region.vStart (mul cy grid.chunkV)
  let yLast := min region.vEnd (mul (add cy 1) grid.chunkV)
  (markRows grid.chunkU cx0 columns region (List.range' yFirst (yLast - yFirst))
    ⟨List.replicate columns false, 0⟩).map fun marks =>
      (List.range' cx0 columns).filter fun cx => marks.marked cx0 cx = some true

/-! ## Incidences -/

/-- The cells of each region, in region order, until there are too many. -/
structure Incidences where
  cells : List ℕ
  tooMany : Bool
  deriving DecidableEq, Repr

def Incidences.visit (grid : ChunkGrid) (cy : ℕ) (seen : Incidences) (cx : ℕ) : Incidences :=
  if seen.cells.length = kMaxChunkIncidences then { seen with tooMany := true }
  else { seen with cells := seen.cells ++ [grid.cell cx cy] }

/-- The chunk rows of a region. -/
def scanRows (grid : ChunkGrid) (region : PlacedRegion) : List ℕ → Incidences → Option Incidences
  | [], seen => some seen
  | cy :: rest, seen =>
    if seen.tooMany then some seen
    else (occupiedColumns grid region cy).bind fun columns =>
      scanRows grid region rest (columns.foldl (Incidences.visit grid cy) seen)

def forEachCell (grid : ChunkGrid) (region : PlacedRegion)
    (seen : Incidences) : Option Incidences :=
  let cy0 := region.vStart / grid.chunkV
  scanRows grid region (List.range' cy0 (sub region.vEnd 1 / grid.chunkV + 1 - cy0)) seen

/-- The incidences of the regions, and where each region's end. -/
def incidencesOf (grid : ChunkGrid) :
    List PlacedRegion → Incidences → List ℕ → Option (Incidences × List ℕ)
  | [], seen, regionFirst => some (seen, regionFirst)
  | region :: rest, seen, regionFirst =>
    if seen.tooMany then some (seen, regionFirst)
    else (forEachCell grid region seen).bind fun seen =>
      incidencesOf grid rest seen (regionFirst ++ [seen.cells.length])

/-! ## The index -/

/-- A maximal run of consecutive occupied chunk columns, inclusive. -/
structure ColumnRun where
  first : ℕ
  last : ℕ
  deriving DecidableEq, Repr

structure OccupiedRow where
  row : ℕ
  runs : List ColumnRun
  deriving DecidableEq, Repr

def addColumn (runs : List ColumnRun) (column : ℕ) : List ColumnRun :=
  match runs.getLast? with
  | some run =>
    if add run.last 1 = column then runs.dropLast ++ [⟨run.first, column⟩]
    else runs ++ [⟨column, column⟩]
  | none => [⟨column, column⟩]

def addCell (columns : ℕ) (rows : List OccupiedRow) (cell : ℕ) : List OccupiedRow :=
  let row := cell / columns
  let column := cell % columns
  match rows.getLast? with
  | some last =>
    if last.row = row then rows.dropLast ++ [⟨row, addColumn last.runs column⟩]
    else rows ++ [⟨row, addColumn [] column⟩]
  | none => [⟨row, addColumn [] column⟩]

/-- Which chunks a set of regions occupies, and which of the regions touch each one. -/
structure Occupancy where
  grid : ChunkGrid
  regions : List PlacedRegion
  /-- The numbers of the occupied cells, ascending. -/
  cells : List ℕ
  /-- Where the regions of each cell start among the entries, and one past the last. -/
  offsets : List ℕ
  entries : List ℕ
  occupiedRows : List OccupiedRow
  layerChunks : ℕ
  deriving DecidableEq, Repr

/-- The index of some incidences. -/
def Occupancy.index (grid : ChunkGrid) (placed : List PlacedRegion)
    (incidenceCells regionFirst : List ℕ) :
    Occupancy :=
  let cells := unique (incidenceCells.insertionSort (· ≤ ·))
  let slots := incidenceCells.map fun cell => lowerBound cells cell % 2 ^ 32
  let offsets := keyOffsets cells.length slots
  let items := (List.range placed.length).flatMap fun i =>
    (List.range' (regionFirst.getD i 0)
        (regionFirst.getD (i + 1) 0 - regionFirst.getD i 0)).map fun k =>
      (slots.getD k 0, i % 2 ^ 32)
  { grid
    regions := placed
    cells
    offsets
    entries := placeByKey 0 cells.length offsets items
    occupiedRows := cells.foldl (addCell grid.columns) []
    layerChunks := cells.length }

/-- Why a set of regions cannot be placed. -/
def placeableAll (plane : PlaneExtent) (node : String) : List RegionMask → ℕ → Except Error Unit
  | [], _ => .ok ()
  | region :: rest, i =>
    match placeable region i plane node with
    | .error e => .error e
    | .ok () => placeableAll plane node rest (i + 1)

def Occupancy.of (regions : BufferView RegionMask) (plane : PlaneExtent) (chunkU chunkV : ℕ)
    (fastestSpatialAxis : AxisRole) (node : String) : Option (Except Error Occupancy) :=
  match regions.data with
  | none => some (.error ⟨.invalidArgument, "A spectral reduction needs at least one region", node⟩)
  | some given =>
    if regions.size = 0 then
      some (.error ⟨.invalidArgument, "A spectral reduction needs at least one region", node⟩)
    else if regions.size > kMaxSpectralRegions then
      some (.error ⟨.invalidArgument, "A spectral reduction accepts at most " ++
        toString kMaxSpectralRegions ++ " regions, not " ++ toString regions.size, node⟩)
    else
      match placeableAll plane node given 0 with
      | .error e => some (.error e)
      | .ok () =>
        let placed := given.map (RegionMask.place (fastestSpatialAxis = .spatialY))
        let grid := ChunkGrid.over chunkU chunkV placed
        (incidencesOf grid placed ⟨[], false⟩ [0]).map fun found =>
          if found.1.tooMany then
            .error ⟨.invalidArgument,
              "The regions together touch more chunks than one reduction can index", node⟩
          else .ok (Occupancy.index grid placed found.1.cells found.2)

namespace Occupancy

/-- The regions touching one chunk, none for a chunk no region occupies. -/
def regionsTouching (occupancy : Occupancy) (chunkCu chunkCv : ℕ) : List ℕ :=
  let key := occupancy.grid.cell chunkCu chunkCv
  let slot := lowerBound occupancy.cells key
  if occupancy.cells[slot]? = some key then
    let first := occupancy.offsets.getD slot 0
    let last := occupancy.offsets.getD (slot + 1) 0
    (occupancy.entries.drop first).take (last - first)
  else []

end Occupancy

/-! ## Footprints -/

/-- What the walk reads, and the chunk cells it spans, half-open. -/
structure OccupiedFootprint where
  slab : SlabFootprint
  chunkCuBegin : ℕ
  chunkCuEnd : ℕ
  chunkCvBegin : ℕ
  chunkCvEnd : ℕ
  deriving DecidableEq, Repr

namespace Occupancy

/-- How many of the rows after one are read with it: those that follow it directly and are occupied
exactly alike, as many as a read affords. -/
def bandRows (first : OccupiedRow) (bandLimit : ℕ) : ℕ → List OccupiedRow → ℕ
  | count, [] => count
  | count, next :: rest =>
    if next.row = add first.row count ∧ count < bandLimit ∧ next.runs = first.runs then
      bandRows first bandLimit (count + 1) rest
    else count

/-- A piece of a run of a band, clamped to the regions' own pixels. -/
def piece (grid : ChunkGrid) (row bandRows first width : ℕ) : OccupiedFootprint :=
  let chunkCvBegin := add grid.chunkCv0 row
  let chunkCvEnd := add grid.chunkCv0 (add row bandRows)
  let vBegin := max grid.v0 (mul chunkCvBegin grid.chunkV)
  let vEnd := min grid.v1 (mul chunkCvEnd grid.chunkV)
  let chunkCuBegin := add grid.chunkCu0 first
  let chunkCuEnd := add chunkCuBegin width
  let uBegin := max grid.u0 (mul chunkCuBegin grid.chunkU)
  let uEnd := min grid.u1 (mul chunkCuEnd grid.chunkU)
  { slab := ⟨uBegin, sub uEnd uBegin, 1, vBegin, sub vEnd vBegin, 1, mul width bandRows⟩
    chunkCuBegin, chunkCuEnd, chunkCvBegin, chunkCvEnd }

/-- The pieces of a run, none when cutting it would not end. -/
def pieces (grid : ChunkGrid) (row bandRows segmentLimit : ℕ) (whole : ColumnRun) :
    Option (List OccupiedFootprint) :=
  (walk (fun first => add first (min segmentLimit (add (sub whole.last first) 1))) (whole.last + 1)
    (whole.last + 1) whole.first).map fun cut => cut.map fun block =>
      piece grid row bandRows block.1 (min segmentLimit (add (sub whole.last block.1) 1))

def widest (runs : List ColumnRun) : ℕ :=
  runs.foldl (fun widest run => max widest (add (sub run.last run.first) 1)) 0

/-- The footprints of the rows from one on. -/
def footprintsFrom (grid : ChunkGrid) (chunksPerRead : ℕ) :
    ℕ → List OccupiedRow → Option (List OccupiedFootprint)
  | _, [] => some []
  | 0, _ :: _ => none
  | fuel + 1, first :: rest => do
    let bandLimit := unitsAffordable chunksPerRead (widest first.runs)
    let rows := bandRows first bandLimit 1 rest
    let segmentLimit := unitsAffordable chunksPerRead rows
    let band ← first.runs.mapM (pieces grid first.row rows segmentLimit)
    let below ← footprintsFrom grid chunksPerRead fuel (rest.drop (rows - 1))
    pure (band.flatten ++ below)

/-- The occupied chunk runs, cut into footprints one read can decode; none when the cutting would
not end. -/
def footprints (occupancy : Occupancy) (chunksPerRead : ℕ) : Option (List OccupiedFootprint) :=
  footprintsFrom occupancy.grid chunksPerRead occupancy.occupiedRows.length occupancy.occupiedRows

end Occupancy

end CartaZarr
