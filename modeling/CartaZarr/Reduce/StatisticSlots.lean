import CartaZarr.Foundations.ForRange
import CartaZarr.Reduce.RowTotals

/-!
# Where a spectral reduction keeps what it has counted

A `StatisticSlots` is one flat array, laid out as region, statistic, channel, with only the
statistics that were asked for, and with two more columns a region, the base and the offset of the
mean, when deviations are. The block accumulator and each task's partial are the same thing at two
extents.

Its layout and its extents are in its type, so a partial that is merged has the layout and the
regions of the block, and no array has another size than its extents say.
-/

namespace CartaZarr

/-- One statistic a spectral reduction can produce. -/
inductive Statistic
  | numPixels
  | nanCount
  | sum
  | sumSq
  | min
  | max
  | sumSqDev
  deriving DecidableEq, Repr

abbrev StatisticSet : Type := Finset Statistic

/-- The order that a block reports its statistics in. -/
def kStatisticOrder : List Statistic := [.numPixels, .nanCount, .sum, .sumSq, .min, .max, .sumSqDev]

/-- Which statistics a reduction accumulates: some of them, in order, and with the deviations what
putting two sets of them together needs. -/
structure StatisticLayout where
  statistics : List Statistic
  ordered : statistics.Sublist kStatisticOrder
  numPixels_mem : .sumSqDev ∈ statistics → .numPixels ∈ statistics

namespace StatisticLayout

/-- The statistics in `requested`, in order. -/
def of (requested : StatisticSet) : StatisticLayout :=
  let requested :=
    if .sumSqDev ∈ requested then requested ∪ {.numPixels, .sum} else requested
  { statistics := kStatisticOrder.filter (· ∈ requested)
    ordered := List.filter_sublist
    numPixels_mem := fun h => by
      simp only [List.mem_filter, decide_eq_true_eq, requested] at h ⊢
      refine ⟨by decide, ?_⟩
      split_ifs at h ⊢ with hdev
      · simp
      · exact absurd h.2 hdev }

def count (layout : StatisticLayout) : ℕ := layout.statistics.length

/-- The slot of a statistic, if it is accumulated. -/
def slotOf (layout : StatisticLayout) (statistic : Statistic) : Option ℕ :=
  if statistic ∈ layout.statistics then some (layout.statistics.idxOf statistic) else none

/-- Whether the per-pixel loop has deviations to take. -/
def deviations (layout : StatisticLayout) : Bool := (layout.slotOf .sumSqDev).isSome

/-- How many values one region keeps at one channel. -/
def stored (layout : StatisticLayout) : ℕ := layout.count + if layout.deviations then 2 else 0

end StatisticLayout

/-- A block's accumulator, or one task's private partial of it. Its values are one vector in memory:
`regions * layout.stored * channels` is below `2 ^ 64`, and the places of the values are numbered in
`ℕ`. -/
structure StatisticSlots (layout : StatisticLayout) (regions channels : ℕ) where
  values : List Extended
  length_eq : values.length = regions * (layout.stored * channels)

namespace StatisticSlots

variable {layout : StatisticLayout} {regions channels : ℕ}

/-- Where a slot of a region has its value at a channel: below the number of values (`index_lt`), so
that nothing wraps that the code adds or multiplies on the way. -/
def index (layout : StatisticLayout) (channels region slot channel : ℕ) : ℕ :=
  region * (layout.stored * channels) + slot * channels + channel

def get (s : StatisticSlots layout regions channels) (region slot channel : ℕ) : Extended :=
  s.values.getD (index layout channels region slot channel) 0

def set (s : StatisticSlots layout regions channels) (region slot channel : ℕ) (v : Extended) :
    StatisticSlots layout regions channels where
  values := s.values.set (index layout channels region slot channel) v
  length_eq := by rw [List.length_set, s.length_eq]

/-- Change the value of a statistic, where it is accumulated. -/
def change (s : StatisticSlots layout regions channels) (region channel : ℕ) (statistic : Statistic)
    (f : Extended → Extended) : StatisticSlots layout regions channels :=
  match layout.slotOf statistic with
  | some slot => s.set region slot channel (f (s.get region slot channel))
  | none => s

/-- The extrema, and what they are of nothing. -/
def kExtrema : List (Statistic × Extended) := [(.min, .posInf), (.max, .negInf)]

/-- Start from nothing: zero for the counts and sums, and the identities of the extrema. -/
def reset (layout : StatisticLayout)
    (regions channels : ℕ) : StatisticSlots layout regions channels :=
  forRange regions (fun region s => kExtrema.foldl (fun s (statistic, identity) =>
      forRange channels (fun channel s => s.change region channel statistic fun _ => identity) s) s)
    { values := List.replicate (regions * (layout.stored * channels)) 0
      length_eq := List.length_replicate }

/-- The spread that the slots of a region keep at a channel. -/
def spreadAt (s : StatisticSlots layout regions channels) (count deviations region channel : ℕ) :
    Spread Extended where
  count := s.get region count channel
  base := s.get region layout.count channel
  offset := s.get region (layout.count + 1) channel
  sumSqDev := s.get region deviations channel

/-- Take another spread in, where deviations are accumulated. The count is not changed. -/
def mergeSpread (s : StatisticSlots layout regions channels) (region channel : ℕ)
    (other : Spread Extended) : StatisticSlots layout regions channels :=
  match layout.slotOf .numPixels, layout.slotOf .sumSqDev with
  | some count, some deviations =>
    let spread := (s.spreadAt count deviations region channel).merge other
    ((s.set region layout.count channel spread.base).set region (layout.count + 1) channel
      spread.offset).set region deviations channel spread.sumSqDev
  | _, _ => s

/-- One row's totals into one region at one channel. The deviations come first, while the count is
still that of what came before the row. -/
def fold (s : StatisticSlots layout regions channels) (region channel : ℕ) (row : RowTotals) :
    StatisticSlots layout regions channels :=
  let s := s.mergeSpread region channel row.spread.finite
  let s := s.change region channel .numPixels (· + .finite row.good)
  let s := s.change region channel .nanCount (· + .finite row.bad)
  let s := s.change region channel .sum (· + .finite row.sum)
  let s := s.change region channel .sumSq (· + .finite row.sumSq)
  let s := s.change region channel .min fun current => Extended.min current row.smallest
  s.change region channel .max fun current => Extended.max current row.largest

/-- How two values of a statistic are put together. Those of the deviations are not, by
themselves. -/
def mergeValues : Statistic → Extended → Extended → Extended
  | .min, current, value => Extended.min current value
  | .max, current, value => Extended.max current value
  | .sumSqDev, current, _ => current
  | _, current, value => current + value

/-- Add one region of a partial into the channels from `offset` on. -/
def mergeRegion {extent : ℕ} (partialSlots : StatisticSlots layout regions extent)
    (offset region : ℕ)
    (s : StatisticSlots layout regions channels) : StatisticSlots layout regions channels :=
  -- the deviations first: they need the counts from before
  let s := match layout.slotOf .numPixels, layout.slotOf .sumSqDev with
    | some count, some deviations => forRange extent (fun c s =>
        s.mergeSpread region (offset + c) (partialSlots.spreadAt count deviations region c)) s
    | _, _ => s
  forRange layout.count (fun slot s => forRange extent (fun c s =>
    s.set region slot (offset + c) (mergeValues (layout.statistics.getD slot .sumSqDev)
      (s.get region slot (offset + c)) (partialSlots.get region slot c))) s) s

/-- Add partials into the channels from `offset` on, in their order. -/
def mergeInOrder (s : StatisticSlots layout regions channels)
    (partials : List (Σ extent, StatisticSlots layout regions extent)) (offset : ℕ) :
    StatisticSlots layout regions channels :=
  partials.foldl (fun s p => forRange regions (mergeRegion p.2 offset) s) s

/-- What an extremum becomes when the slots are settled: not-a-number for the infinity of one that
is untouched, or its identity again. -/
def settleValue (report : Bool) (identity : Extended) (v : Extended) : Extended :=
  if report then (if v = .posInf ∨ v = .negInf then .nan else v)
  else if v = .nan then identity else v

/-- Untouched extrema to not-a-number when `report`, and back to their identities when not. -/
def settle (s : StatisticSlots layout regions channels) (report : Bool) :
    StatisticSlots layout regions channels :=
  forRange regions (fun region s => kExtrema.foldl (fun s (statistic, identity) =>
    forRange channels (fun channel s =>
      s.change region channel statistic (settleValue report identity)) s) s) s

end StatisticSlots

/-- What is said of one region at one channel. A statistic that is not carried reads as here. -/
structure SpectralTotals where
  numPixels : Extended := 0
  nanCount : Extended := 0
  sum : Extended := 0
  sumSq : Extended := 0
  min : Extended := .nan
  max : Extended := .nan
  sumSqDev : Extended := 0

/-- One contiguous run of channels, for every region and every requested statistic. -/
structure SpectralBlock where
  firstChannel : ℕ
  channelCount : ℕ
  complete : Bool
  completeness : ℚ
  regionCount : ℕ
  values : List Extended
  regionStride : ℕ
  statistics : List Statistic

namespace SpectralBlock

/-- Whether the block carries every statistic in `wanted`. -/
def carries (block : SpectralBlock) (wanted : StatisticSet) : Bool :=
  let carried := block.statistics.foldl (fun carried statistic => carried ∪ {statistic}) ∅
  wanted ⊆ carried

/-- One region's values of one statistic, in channel order, if the block carries it. -/
def series (block : SpectralBlock) (region : ℕ) (statistic : Statistic) : Option (ℕ → Extended) :=
  if statistic ∈ block.statistics then
    some fun channel => block.values.getD (region * block.regionStride +
      block.statistics.idxOf statistic * block.channelCount + channel) 0
  else none

/-- One statistic of one region at one channel, or as it was when the block does not carry it. -/
def readInto (block : SpectralBlock) (region channel : ℕ) (statistic : Statistic)
    (initial : Extended) :
    Extended :=
  match block.series region statistic with
  | some series => series channel
  | none => initial

/-- Every statistic of one region at one channel. -/
def totals (block : SpectralBlock) (region channel : ℕ) : SpectralTotals :=
  let initial : SpectralTotals := {}
  let read := block.readInto region channel
  { numPixels := read .numPixels initial.numPixels
    nanCount := read .nanCount initial.nanCount
    sum := read .sum initial.sum
    sumSq := read .sumSq initial.sumSq
    min := read .min initial.min
    max := read .max initial.max
    sumSqDev := read .sumSqDev initial.sumSqDev }

end SpectralBlock

namespace StatisticSlots

variable {layout : StatisticLayout} {regions channels : ℕ}

/-- The block that settled slots are handed over as. -/
def block (s : StatisticSlots layout regions channels) (firstChannel : ℕ) (complete : Bool)
    (completeness : ℚ) : SpectralBlock where
  firstChannel := firstChannel
  channelCount := channels
  complete := complete
  completeness := completeness
  regionCount := regions
  values := s.values
  regionStride := layout.stored * channels
  statistics := layout.statistics

/-- Hand the block to `sink`, and return what it returned beside the accumulator that is left. -/
def handOver (s : StatisticSlots layout regions channels) (firstChannel : ℕ) (complete : Bool)
    (completeness : ℚ) (sink : SpectralBlock → Bool) :
    Bool × StatisticSlots layout regions channels :=
  let s := s.settle true
  let keepGoing := sink (s.block firstChannel complete completeness)
  (keepGoing, s.settle false)

end StatisticSlots

end CartaZarr
