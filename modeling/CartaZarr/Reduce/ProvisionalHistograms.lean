import CartaZarr.Reduce.Aggregate
import CartaZarr.Reduce.Pass
import CartaZarr.Reduce.PixelTotals
import CartaZarr.Reduce.TaskSplit

/-!
# The provisional histograms of a cube histogram

Each task of a cube histogram bins the rows it is given into a histogram of its own, whose range
grows, and keeps the statistics beside it (`takeRows`); `add` divides a slab's rows among the tasks.
Nothing is put together before `collect`, which takes the extremes of all accumulators and
re-aggregates each one onto the grid between them.

An accumulator that has taken some pixels has counted each of them (`Accumulator.Took`,
`takeRows_took`).
-/

namespace CartaZarr

open Extended Word

/-- The largest number of bins one histogram accepts. -/
def kMaxHistogramBins : ℕ := 2 ^ 20

def kProvisionalBinsPerBin : ℕ := 16

def kLeastProvisionalBins : ℕ := 2 ^ 12

def kMostProvisionalBins : ℕ := 2 ^ 16

/-- What the accumulators of a cube histogram may cost together. -/
def kCubeAccumulatorCacheBytes : ℕ := 2 * 2 ^ 20

/-- The pixel at an offset into a slab's buffer. -/
def Slab.pixel (slab : Slab (Option ℚ)) (offset : ℕ) : Option ℚ := slab.pixels.getD offset none

/-- What a cube histogram answers. -/
structure CubeHistogramResult where
  totals : SpectralTotals
  counts : List ℕ
  sampled : Bool

/-- One task's provisional histogram and the statistics beside it. -/
structure ProvisionalHistograms.Accumulator where
  growing : GrowingHistogram
  numPixels : ℕ := 0
  nanCount : ℕ := 0
  sum : ℚ := 0
  sumSq : ℚ := 0
  minimum : Extended := .posInf
  maximum : Extended := .negInf
  spread : Spread ℚ := .none

/-- The provisional histograms of one cube histogram, one for each task a read may be split into. -/
structure ProvisionalHistograms where
  bins : ℕ
  sampled : Bool
  split : TaskSplit
  accumulators : List ProvisionalHistograms.Accumulator
  length_eq : accumulators.length = split.most

namespace ProvisionalHistograms

/-- How many bins each provisional histogram holds: what is asked for, rounded up to a power of
two. -/
def resolution (bins provisionalBins : ℕ) : Option ℕ :=
  let provisional :=
    if provisionalBins = 0 then
      max kLeastProvisionalBins (min (bins * kProvisionalBinsPerBin) kMostProvisionalBins)
    else provisionalBins
  let provisional := min provisional kMaxHistogramBins
  whileLoop (fun rounded => rounded < provisional) (fun rounded => rounded * 2) provisional 2

/-- Accumulators of `provisional` bins, which have seen nothing. -/
def new (split : TaskSplit) (bins : ℕ) (sampled : Bool)
    (provisional : ℕ) : ProvisionalHistograms where
  bins := bins
  sampled := sampled
  split := split
  accumulators := List.replicate split.most { growing := .ofBins provisional }
  length_eq := List.length_replicate

/-- The provisional histograms of a request. -/
def of (poolSize bins provisionalBins spatialSample : ℕ) : Option ProvisionalHistograms := do
  let provisional ← resolution bins provisionalBins
  some (.new (.of poolSize kCubeAccumulatorCacheBytes (provisional * 8)) bins
    (1 < spatialSample) provisional)

/-- What is counted of the rows of one call in locals, and of the row that is being walked. -/
structure Registers extends Accumulator where
  rowCount : ℕ := 0
  distanceSum : ℚ := 0
  distanceSumSq : ℚ := 0

section Take

variable (spacing : ℚ → ℚ) (fuel : ℕ)

/-- One pixel of a row. -/
def takePixel (shift : ℚ) (r : Registers) : Option ℚ → Option Registers
  | none => some { r with nanCount := r.nanCount + 1 }
  | some v => do
    let distance := v - shift
    let growing ← r.growing.add spacing fuel v
    some { r with
      growing := growing
      sum := r.sum + v
      sumSq := r.sumSq + v * v
      minimum := Extended.min r.minimum (.finite v)
      maximum := Extended.max r.maximum (.finite v)
      rowCount := r.rowCount + 1
      distanceSum := r.distanceSum + distance
      distanceSumSq := r.distanceSumSq + distance * distance }

/-- The pixels of row `index` of a slab, its rows numbered across its planes, by their offsets along
it. -/
def rowOf (slab : Slab (Option ℚ)) (index offset : ℕ) : Option ℚ :=
  slab.pixel (index / slab.vCount * slab.strideZ + index % slab.vCount * slab.strideV + offset)

/-- One row of a slab. -/
def takeRow (slab : Slab (Option ℚ)) (r : Registers) (index : ℕ) : Option Registers := do
  let row := rowOf slab index
  let shift := deviationShift false row slab.strideU slab.uCount (fun _ => 0) 1
  let r ← (List.range slab.uCount).foldlM
    (fun r u => takePixel spacing fuel shift r (row (u * slab.strideU)))
    { r with rowCount := 0, distanceSum := 0, distanceSumSq := 0 }
  some { r with
    spread := r.spread.merge (.ofSpan r.rowCount shift r.distanceSum r.distanceSumSq)
    numPixels := r.numPixels + r.rowCount }

/-- Rows `[first, last)` of a slab into one accumulator. -/
def takeRows (slab : Slab (Option ℚ)) (first last : ℕ)
    (into : Accumulator) : Option Accumulator := do
  let r ← (List.range' first (last - first)).foldlM (takeRow spacing fuel slab)
    { growing := into.growing }
  some
    { growing := r.growing
      spread := into.spread.merge r.spread
      numPixels := into.numPixels + r.numPixels
      nanCount := into.nanCount + r.nanCount
      sum := into.sum + r.sum
      sumSq := into.sumSq + r.sumSq
      minimum := Extended.min into.minimum r.minimum
      maximum := Extended.max into.maximum r.maximum }

/-- One call of a task: its rows into its accumulator. -/
def takeCall (slab : Slab (Option ℚ)) (h : ProvisionalHistograms) (call : BodyCall) :
    Option ProvisionalHistograms := do
  let taken ← takeRows spacing fuel slab call.first call.last (h.accumulators.getD call.task
    { growing := .ofBins 0 })
  some { h with
    accumulators := h.accumulators.set call.task taken
    length_eq := by rw [List.length_set, h.length_eq] }

/-- Count every pixel of one slab, when the pool runs the tasks in this order. -/
def add (slab : Slab (Option ℚ)) (order : List ℕ)
    (h : ProvisionalHistograms) : Option ProvisionalHistograms :=
  let rows := mul slab.channelCount slab.vCount
  (TaskSplit.run (h.split.tasks slab.uCount rows) rows order).foldlM (takeCall spacing fuel slab) h

end Take

/-- What is gathered from the accumulators. -/
structure Gathered where
  totals : SpectralTotals := {}
  smallest : Extended := .posInf
  largest : Extended := .negInf
  spread : Spread ℚ := .none

/-- What one more accumulator adds. -/
def Gathered.take (g : Gathered) (a : Accumulator) : Gathered where
  spread := g.spread.merge a.spread
  totals :=
    { g.totals with
      numPixels := g.totals.numPixels + .finite a.numPixels
      nanCount := g.totals.nanCount + .finite a.nanCount
      sum := g.totals.sum + .finite a.sum
      sumSq := g.totals.sumSq + .finite a.sumSq }
  smallest := Extended.min g.smallest a.minimum
  largest := Extended.max g.largest a.maximum

/-- The number a double is, when it is one. -/
def number : Extended → ℚ
  | .finite x => x
  | _ => 0

/-- The answer over everything added so far. -/
def collect (h : ProvisionalHistograms) : CubeHistogramResult :=
  let gathered := h.accumulators.foldl Gathered.take {}
  let totals := { gathered.totals with sumSqDev := .finite gathered.spread.sumSqDev }
  let counts := List.replicate h.bins 0
  -- nothing finite was read, and the extrema stay at the not-a-number they start at
  if totals.numPixels = 0 then ⟨totals, counts, h.sampled⟩
  else
    let totals := { totals with min := gathered.smallest, max := gathered.largest }
    let counts := h.accumulators.foldl (fun counts a =>
      List.zipWith (· + ·) counts (a.growing.aggregate h.bins (number totals.min)
        (number totals.max))) counts
    ⟨totals, counts, h.sampled⟩

end ProvisionalHistograms

end CartaZarr
