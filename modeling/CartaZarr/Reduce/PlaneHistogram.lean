import CartaZarr.Foundations.Fallible
import CartaZarr.Foundations.WordCounts
import CartaZarr.Reduce.PassProgress
import CartaZarr.ReducibleImage

/-!
# Plane histograms

`computeHistogram` bins every pixel of each selected plane over a fixed range. A block of channels
is prepared, its slabs are binned one channel at a time, and its counts are handed over as it fills.
A channel of a slab that is worth more than one task is binned into the private counts of its tasks,
which are cleared first and added to the block's counts at the end.

What is handed over are the counts of the pixels that were read (`computeHistogram_counts`): in a
block that is complete, of all pixels of the plane, whatever the chunks, the budget, the hint and
the pool. A histogram that nothing refuses succeeds (`computeHistogram_ends`).
-/

namespace CartaZarr

open Word ProvisionalHistograms

/-- The memory the private counts of a plane histogram may occupy together. -/
def kHistogramPartialBudgetBytes : ℕ := 64 * 2 ^ 20

/-- One plane histogram request. -/
structure HistogramRequest where
  planes : PlaneSelection
  bins : ℕ
  lower : Extended
  upper : Extended
  emitEveryChannels : ℕ

/-- Bin counts for a run of planes. `held` is by channel and then by bin. -/
structure HistogramBlock where
  firstChannel : ℕ
  channelCount : ℕ
  binCount : ℕ
  complete : Bool
  completeness : ℚ
  held : List ℕ
  deriving DecidableEq, Repr

/-- The count of a bin at a channel of the block, counted from its first. -/
def HistogramBlock.counts (block : HistogramBlock) (channel bin : ℕ) : ℕ :=
  block.held.getD (mul channel block.binCount + bin) 0

/-! ## What is asked -/

/-- Whether a number, as a float, is finite: it is when it does not round to an infinity. -/
def FitsFloat (x : ℚ) : Prop := |x| < 2 ^ 128 - 2 ^ 103

instance (x : ℚ) : Decidable (FitsFloat x) := inferInstanceAs (Decidable (|x| < 2 ^ 128 - 2 ^ 103))

def Extended.isFinite : Extended → Bool
  | .finite _ => true
  | _ => false

def validateBins (node : String) (bins : ℕ) : Except Error Unit :=
  if bins = 0 ∨ kMaxHistogramBins < bins then
    .error ⟨.invalidArgument, "A histogram needs between 1 and " ++
      toString kMaxHistogramBins ++ " bins", node⟩
  else .ok ()

/-- The bounds a fixed-range histogram bins against. -/
def validateRange (node : String) (request : HistogramRequest) : Except Error Unit :=
  if ¬ request.lower < request.upper ∨ ¬ request.lower.isFinite ∨ ¬ request.upper.isFinite then
    .error ⟨.invalidArgument,
      "A histogram needs a finite range with a lower bound below its upper bound", node⟩
  else if ¬ FitsFloat (number request.lower) ∨ ¬ FitsFloat (number request.upper) then
    .error ⟨.invalidArgument, "A histogram needs bounds that fit in a float, as its pixels do",
      node⟩
  else .ok ()

/-! ## Binning -/

/-- What pixels are binned against. -/
structure Binning where
  bins : ℕ
  lower : ℚ
  upper : ℚ

/-- The binning of a request. -/
def HistogramRequest.binning (request : HistogramRequest) : Binning :=
  ⟨request.bins, number request.lower, number request.upper⟩

namespace Binning

def width (b : Binning) : ℚ := (b.upper - b.lower) / b.bins

/-- Whether every offset of a pixel in the range is a finite float. -/
def finiteOffsets (b : Binning) : Bool :=
  0 < b.upper - b.lower ∧ FitsFloat (b.upper - b.lower) ∧ 0 < b.width ∧ FitsFloat b.width

/-- The bin of a pixel in the range. Where offsets are not finite floats they are found in
double. -/
def bin (b : Binning) (value : ℚ) : ℕ :=
  if b.finiteOffsets then
    let bin := ⌊(value - b.lower) / b.width⌋₊
    if b.bins ≤ bin then b.bins - 1 else bin
  else
    let offset := if 0 < b.width then (value - b.lower) / b.width else 0
    ⌊min offset (b.bins - 1 : ℕ)⌋₊

/-- Where a pixel is counted, among counts whose first is `into`: nowhere, when it is not in the
range. -/
def place (b : Binning) (into : ℕ) : Option ℚ → Option ℕ
  | none => none
  | some value => if b.lower ≤ value ∧ value ≤ b.upper then some (into + b.bin value) else none

/-- The pixels a bin is of. -/
def Lands (b : Binning) (bin : ℕ) : Option ℚ → Prop
  | none => False
  | some value =>
    b.lower ≤ value ∧ value ≤ b.upper ∧ min ⌊(value - b.lower) / b.width⌋₊ (b.bins - 1) = bin

instance (b : Binning) (bin : ℕ) : DecidablePred (b.Lands bin)
  | none => .isFalse id
  | some value => inferInstanceAs (Decidable (b.lower ≤ value ∧ value ≤ b.upper ∧
      min ⌊(value - b.lower) / b.width⌋₊ (b.bins - 1) = bin))

/-- A range that is not empty, in some bins. -/
structure Valid (b : Binning) : Prop where
  bins_pos : 0 < b.bins
  lt : b.lower < b.upper

section Bins

variable {b : Binning} (hb : b.Valid)
include hb

theorem width_pos : 0 < b.width :=
  div_pos (sub_pos.2 hb.lt) (Nat.cast_pos.2 hb.bins_pos)

/-- **Either way of binning** finds the bin of a pixel. -/
theorem bin_eq {value : ℚ} : b.bin value = min ⌊(value - b.lower) / b.width⌋₊ (b.bins - 1) := by
  have hpos := hb.bins_pos
  have hwidth := width_pos hb
  unfold bin
  by_cases hfinite : b.finiteOffsets = true
  · rw [if_pos hfinite]
    dsimp only
    split_ifs <;> omega
  · rw [if_neg hfinite]
    dsimp only
    rw [if_pos hwidth, Nat.floor_mono.map_min, Nat.floor_natCast]

/-- A pixel is counted in the bin it lands in. -/
theorem place_eq_some_iff {into i : ℕ} {pixel : Option ℚ} :
    b.place into pixel = some i ↔ into ≤ i ∧ b.Lands (i - into) pixel := by
  cases pixel with
  | none => exact Iff.intro (fun h => nomatch h) fun h => h.2.elim
  | some value =>
    have hplace : b.place into (some value) =
        if b.lower ≤ value ∧ value ≤ b.upper then some (into + b.bin value) else none := rfl
    have hlands : b.Lands (i - into) (some value) ↔ b.lower ≤ value ∧ value ≤ b.upper ∧
        min ⌊(value - b.lower) / b.width⌋₊ (b.bins - 1) = i - into := Iff.rfl
    rw [hplace, hlands, bin_eq hb]
    split_ifs with hrange
    · rw [Option.some.injEq]
      refine Iff.intro (fun h => ⟨by omega, hrange.1, hrange.2, by omega⟩) fun h => by omega
    · exact Iff.intro (fun h => nomatch h) fun h => absurd ⟨h.2.1, h.2.2.1⟩ hrange

theorem Lands.lt {bin : ℕ} {pixel : Option ℚ} (h : b.Lands bin pixel) : bin < b.bins := by
  have hpos := hb.bins_pos
  cases pixel with
  | none => exact h.elim
  | some value =>
    have hmin : min ⌊(value - b.lower) / b.width⌋₊ (b.bins - 1) = bin := h.2.2
    omega

/-- Each pixel in the range lands in one bin. -/
theorem existsUnique_lands {value : ℚ} (hlower : b.lower ≤ value) (hupper : value ≤ b.upper) :
    ∃! bin, bin < b.bins ∧ b.Lands bin (some value) := by
  have hpos := hb.bins_pos
  exact ⟨min ⌊(value - b.lower) / b.width⌋₊ (b.bins - 1), ⟨by omega, hlower, hupper, rfl⟩,
    fun bin hbin => hbin.2.2.2.symm⟩

end Bins

/-- Rows `[first, last)` of a channel of a slab, binned into the counts from `into` on. -/
def binRows (b : Binning) (slab : Slab (Option ℚ)) (offset first last into : ℕ)
    (counts : List ℕ) : List ℕ :=
  (List.range' first (last - first)).foldl (fun counts v =>
    (List.range slab.uCount).foldl (fun counts u => countOne (b.place into) counts
      (slab.pixel (offset * slab.strideZ + v * slab.strideV + u * slab.strideU))) counts) counts

section Rows

variable {b : Binning} (hb : b.Valid) {slab : Slab (Option ℚ)}

theorem binRows_eq (offset first last into : ℕ) (counts : List ℕ) :
    b.binRows slab offset first last into counts =
      (slab.rowPixels offset first last).foldl (countOne (b.place into)) counts := by
  rw [binRows, Slab.rowPixels, List.foldl_flatMap]
  simp only [List.foldl_map]

@[simp] theorem length_binRows (offset first last into : ℕ) (counts : List ℕ) :
    (b.binRows slab offset first last into counts).length = counts.length := by
  rw [binRows_eq, length_foldl_countOne]

include hb

/-- **Binning some rows** adds to each count how many of their pixels land in its bin. -/
theorem binRows_getD (offset first last into : ℕ) {counts : List ℕ} {i n : ℕ}
    (hi : i < counts.length)
    (h : counts.getD i 0 = n % 2 ^ 64) :
    (b.binRows slab offset first last into counts).getD i 0 =
      (n + if into ≤ i then (slab.rowPixels offset first last).countP (b.Lands (i - into))
        else 0) % 2 ^ 64 := by
  rw [binRows_eq, foldl_countOne_getD _ _ hi h]
  congr 2
  simp only [place_eq_some_iff hb]
  split_ifs with hinto
  · simp [hinto]
  · simp [hinto]

end Rows

end Binning

/-- The counts of a block, and the private counts of the tasks, which are made once. -/
structure HistogramCounts where
  counts : List ℕ
  partials : List ℕ

section Bin

variable {ω : Type} (b : Binning) (split : TaskSplit) (workers : TaskPool ω)

/-- One channel of a slab. -/
def binChannel (slab : Slab (Option ℚ)) (offset : ℕ) (h : HistogramCounts)
    (w : ω) : HistogramCounts × ω :=
  let into := mul (add slab.firstChannel offset) b.bins
  let tasks := split.tasks slab.uCount slab.vCount
  if tasks ≤ 1 then ({ h with counts := b.binRows slab offset 0 slab.vCount into h.counts }, w)
  else
    let cleared := overwrite h.partials (List.replicate (tasks * b.bins) 0)
    let (order, w) := workers.order tasks w
    let partials := (TaskSplit.run tasks slab.vCount order).foldl (fun partials call =>
      b.binRows slab offset call.first call.last (call.task * b.bins) partials) cleared
    let counts := (List.range tasks).foldl (fun counts task =>
      addInto into b.bins (fun bin => partials.getD (task * b.bins + bin) 0) counts) h.counts
    (⟨counts, partials⟩, w)

/-- One read's worth of pixels, binned into the block's counts. -/
def binSlab (slab : Slab (Option ℚ)) (h : HistogramCounts) (w : ω) : HistogramCounts × ω :=
  (List.range slab.channelCount).foldl (fun s offset =>
    binChannel b split workers slab offset s.1 s.2) (h, w)

/-- The reduction that bins planes for a sink. -/
def planeHistogram (sink : HistogramBlock → ω → Bool × ω) :
    Reduction SlabFootprint HistogramCounts HistogramBlock ω (Option ℚ) where
  reset length h := { h with counts := List.replicate (mul length b.bins) 0 }
  visit _ := binSlab b split workers
  handOver firstChannel length complete completeness h :=
    (⟨firstChannel, length, b.bins, complete, completeness, h.counts⟩, h)
  sink := sink

end Bin

/-! ## What is counted -/

section Count

variable {b : Binning} (hb : b.Valid) {slab : Slab (Option ℚ)} {offset : ℕ}
include hb

/-- A call counts in the counts of its own task alone. -/
theorem countP_lands_of_task (pixels : List (Option ℚ)) {task bin : ℕ}
    (hbin : bin < b.bins) (other : ℕ) :
    (if other * b.bins ≤ task * b.bins + bin then
        pixels.countP (b.Lands (task * b.bins + bin - other * b.bins)) else 0) =
      if other = task then pixels.countP (b.Lands bin) else 0 := by
  rcases lt_trichotomy other task with hlt | rfl | hlt
  · have hmul : (other + 1) * b.bins ≤ task * b.bins := Nat.mul_le_mul_right _ hlt
    rw [Nat.add_mul, one_mul] at hmul
    rw [if_pos (by omega), if_neg (by omega), List.countP_eq_zero]
    intro pixel _ hlands
    have := Binning.Lands.lt hb (of_decide_eq_true hlands)
    omega
  · rw [if_pos (Nat.le_add_right _ _), if_pos rfl, Nat.add_sub_cancel_left]
  · have hmul : (task + 1) * b.bins ≤ other * b.bins := Nat.mul_le_mul_right _ hlt
    rw [Nat.add_mul, one_mul] at hmul
    rw [if_neg (by omega), if_neg (by omega)]

/-- What the calls of the tasks count. -/
theorem foldl_binRows_getD {calls : List BodyCall} {partials : List ℕ} {task bin n : ℕ}
    (hbin : bin < b.bins)
    (hi : task * b.bins + bin < partials.length)
    (h : partials.getD (task * b.bins + bin) 0 = n % 2 ^ 64) :
    (calls.foldl (fun partials call =>
      b.binRows slab offset call.first call.last (call.task * b.bins) partials)
        partials).getD (task * b.bins + bin) 0 =
      (n + (calls.map fun call => if call.task = task then
        (slab.rowPixels offset call.first call.last).countP (b.Lands bin)
          else 0).sum) % 2 ^ 64 := by
  induction calls generalizing partials n with
  | nil => simpa using h
  | cons call calls ih =>
    have hcall := @Binning.binRows_getD b hb slab offset call.first call.last
      (call.task * b.bins) _ _ _ hi h
    rw [countP_lands_of_task hb _ hbin] at hcall
    rw [List.foldl_cons, ih (by rwa [Binning.length_binRows]) hcall, List.map_cons,
      List.sum_cons, add_assoc]

omit hb in
@[simp] theorem length_foldl_binRows (calls : List BodyCall) (partials : List ℕ) :
    (calls.foldl (fun partials call =>
      b.binRows slab offset call.first call.last (call.task * b.bins) partials)
      partials).length = partials.length := by
  induction calls generalizing partials with
  | nil => rfl
  | cons call calls ih => rw [List.foldl_cons, ih, Binning.length_binRows]

omit hb in
/-- The rows of the calls are those of the plane. -/
theorem sum_countP_calls {most tasks : ℕ} {calls : List BodyCall}
    (hcalls : SplitCalls most tasks slab.vCount calls)
    (lands : Option ℚ → Prop) [DecidablePred lands] :
    (calls.map fun call => (slab.rowPixels offset call.first call.last).countP lands).sum =
      (slab.rowPixels offset 0 slab.vCount).countP lands := by
  have hperm := hcalls.units_perm.flatMap_right fun v =>
    (List.range slab.uCount).map fun u =>
      slab.pixel (offset * slab.strideZ + v * slab.strideV + u * slab.strideU)
  rw [List.flatMap_assoc] at hperm
  have hcount := hperm.countP_eq lands
  rw [List.countP_flatMap] at hcount
  rw [Slab.rowPixels, ← List.range_eq_range', Nat.sub_zero, ← hcount]
  rfl

omit hb in
/-- What each of some tasks counts, of the calls that are theirs, is what all the calls count. -/
theorem sum_tasks (calls : List BodyCall) (count : BodyCall → ℕ) {tasks : ℕ}
    (hlt : ∀ call ∈ calls, call.task < tasks) :
    ∑ task ∈ Finset.range tasks, (calls.map fun call =>
      if call.task = task then count call else 0).sum =
      (calls.map count).sum := by
  induction calls with
  | nil => simp
  | cons call calls ih =>
    simp only [List.map_cons, List.sum_cons, Finset.sum_add_distrib]
    rw [ih fun c hc => hlt c (List.mem_cons_of_mem _ hc), Finset.sum_ite_eq,
      if_pos (Finset.mem_range.2 (hlt call List.mem_cons_self))]

end Count

section Slab

variable {ω : Type} {b : Binning} (hb : b.Valid) {split : TaskSplit} (hmost : 0 < split.most)
  {workers : TaskPool ω} {slab : Slab (Option ℚ)} (hslab : slab.vCount ≤ 2 ^ 63)

/-- Private counts for as many tasks as there may be, when there may be several. -/
def HistogramCounts.Private (b : Binning) (split : TaskSplit) (h : HistogramCounts) : Prop :=
  1 < split.most → h.partials.length = split.most * b.bins

/-- A channel leaves the counts as many as they were. -/
theorem binChannel_lengths (offset : ℕ) {h : HistogramCounts}
    (hprivate : h.Private b split) (w : ω) :
    (binChannel b split workers slab offset h w).1.counts.length = h.counts.length ∧
      (binChannel b split workers slab offset h w).1.Private b split := by
  unfold binChannel
  dsimp only
  split_ifs with htasks
  · exact ⟨Binning.length_binRows _ _ _ _ _, hprivate⟩
  · refine ⟨?_, fun hmost => ?_⟩
    · have hcounts : ∀ (more : ℕ → ℕ → ℕ) (into tasks : ℕ),
          ((List.range tasks).foldl (fun counts task =>
            addInto into b.bins (more task) counts) h.counts).length =
            h.counts.length := by
        intro more into tasks
        induction tasks with
        | zero => rfl
        | succ tasks ih => rw [List.range_succ, List.foldl_concat, length_addInto, ih]
      exact hcounts _ _ _
    · have hle : split.tasks slab.uCount slab.vCount ≤ split.most :=
        (TaskSplit.tasks_le split (by omega) slab.uCount slab.vCount).1
      have hlength := hprivate hmost
      dsimp only
      rw [length_foldl_binRows, length_overwrite, hlength]
      rw [List.length_replicate, hlength]
      exact Nat.mul_le_mul_right _ hle

include hb hmost hslab

/-- **A channel of a slab** adds to the counts of its channel what its pixels are, whether one task
bins them or several do. -/
theorem binChannel_getD (offset : ℕ) {h : HistogramCounts}
    (hprivate : h.Private b split) (w : ω) {i n : ℕ}
    (hi : i < h.counts.length) (hn : h.counts.getD i 0 = n % 2 ^ 64) :
    (binChannel b split workers slab offset h w).1.counts.getD i 0 =
      (n + if mul (add slab.firstChannel offset) b.bins ≤ i ∧
          i < mul (add slab.firstChannel offset) b.bins + b.bins then
        (slab.rowPixels offset 0 slab.vCount).countP
          (b.Lands (i - mul (add slab.firstChannel offset) b.bins)) else 0) % 2 ^ 64 := by
  set into := mul (add slab.firstChannel offset) b.bins with hinto
  set tasks := split.tasks slab.uCount slab.vCount with hdef
  unfold binChannel
  rw [← hinto, ← hdef]
  dsimp only
  by_cases hone : tasks ≤ 1
  · rw [if_pos hone, Binning.binRows_getD hb _ _ _ _ hi hn]
    congr 2
    by_cases hle : into ≤ i
    · rw [if_pos hle]
      by_cases hlt : i < into + b.bins
      · rw [if_pos ⟨hle, hlt⟩]
      · rw [if_neg fun hboth => hlt hboth.2, List.countP_eq_zero]
        intro pixel _ hlands
        have := Binning.Lands.lt hb (of_decide_eq_true hlands)
        omega
    · rw [if_neg hle, if_neg fun hboth => hle hboth.1]
  · rw [if_neg hone]
    dsimp only
    -- the private counts of the tasks are cleared before they are counted in
    have hle : tasks ≤ split.most := (TaskSplit.tasks_le split hmost slab.uCount slab.vCount).1
    have hlength : h.partials.length = split.most * b.bins := hprivate (by omega)
    set cleared := overwrite h.partials (List.replicate (tasks * b.bins) 0) with hcleared
    have hclearedLength : cleared.length = split.most * b.bins := by
      rw [hcleared, length_overwrite, hlength]
      rw [List.length_replicate, hlength]
      exact Nat.mul_le_mul_right _ hle
    set order := (workers.order tasks w).1
    have horder : order.Perm (List.range tasks) := workers.order_perm tasks w
    have hcalls : SplitCalls split.most tasks slab.vCount (TaskSplit.run tasks slab.vCount order) :=
      TaskSplit.run_spec hmost hle
        (by have := TaskSplit.tasks_lt split slab.uCount slab.vCount; omega) horder
    obtain ⟨hget, -⟩ := foldl_addInto_getD into b.bins tasks (fun task bin =>
      ((TaskSplit.run tasks slab.vCount order).foldl (fun partials call =>
        b.binRows slab offset call.first call.last (call.task * b.bins) partials) cleared).getD
          (task * b.bins + bin) 0) hi hn
    refine hget.trans ?_
    by_cases hin : into ≤ i ∧ i < into + b.bins
    · rw [if_pos hin, if_pos hin]
      have hbin : i - into < b.bins := by omega
      have htask : ∀ task ∈ Finset.range tasks,
          ((TaskSplit.run tasks slab.vCount order).foldl (fun partials call =>
            b.binRows slab offset call.first call.last (call.task * b.bins) partials) cleared).getD
              (task * b.bins + (i - into)) 0 =
            ((TaskSplit.run tasks slab.vCount order).map fun call => if call.task = task then
              (slab.rowPixels offset call.first call.last).countP (b.Lands (i - into))
                  else 0).sum % 2 ^ 64 := by
        intro task hmem
        have hlt := Finset.mem_range.1 hmem
        have hmul : (task + 1) * b.bins ≤ tasks * b.bins := Nat.mul_le_mul_right _ hlt
        have hmul' : tasks * b.bins ≤ split.most * b.bins := Nat.mul_le_mul_right _ hle
        rw [Nat.add_mul, one_mul] at hmul
        have hzero : cleared.getD (task * b.bins + (i - into)) 0 = 0 % 2 ^ 64 := by
          rw [hcleared, List.getD_eq_getElem?_getD,
            getElem?_overwrite_of_lt _ (by rw [List.length_replicate]; omega),
            List.getElem?_replicate, if_pos (by omega)]
          rfl
        rw [foldl_binRows_getD hb hbin (by omega) hzero, Nat.zero_add]
      rw [Finset.sum_congr rfl htask, Nat.add_mod, ← Finset.sum_nat_mod, ← Nat.add_mod, sum_tasks,
        sum_countP_calls hcalls]
      intro call hcall
      have := (hcalls.task_lt call hcall).1
      omega
    · rw [if_neg hin, if_neg hin]

/-- **A slab** adds to the counts of each of its channels what the pixels of the channel are. -/
theorem binSlab_spec {length : ℕ} (hfit : length * b.bins < 2 ^ 64)
    (hin : slab.firstChannel + slab.channelCount ≤ length) {h : HistogramCounts}
    (hlength : h.counts.length = length * b.bins) (hprivate : h.Private b split) (w : ω) :
    (binSlab b split workers slab h w).1.counts.length = length * b.bins ∧
      (binSlab b split workers slab h w).1.Private b split ∧
      ∀ z < length, ∀ bin < b.bins, ∀ n, h.counts.getD (z * b.bins + bin) 0 = n % 2 ^ 64 →
        (binSlab b split workers slab h w).1.counts.getD (z * b.bins + bin) 0 =
          (n + if slab.firstChannel ≤ z ∧ z < slab.firstChannel + slab.channelCount then
            (slab.rowPixels (z - slab.firstChannel) 0 slab.vCount).countP (b.Lands bin)
              else 0) % 2 ^ 64 := by
  have hbins := hb.bins_pos
  have hlt : length < 2 ^ 64 := lt_of_le_of_lt (Nat.le_mul_of_pos_right _ hbins) hfit
  unfold binSlab
  generalize hcount : slab.channelCount = count at hin
  clear hcount
  induction count with
  | zero =>
    refine ⟨hlength, hprivate, fun z _ bin _ n hn => ?_⟩
    rw [if_neg (by omega)]
    exact hn
  | succ count ih =>
    obtain ⟨hlength', hprivate', hget⟩ := ih (by omega)
    rw [List.range_succ, List.foldl_concat]
    set s := (List.range count).foldl (fun s offset =>
      binChannel b split workers slab offset s.1 s.2) (h, w)
    obtain ⟨hlength'', hprivate''⟩ :=
      @binChannel_lengths ω b split workers slab count _ hprivate' s.2
    refine ⟨hlength''.trans hlength', hprivate'', fun z hz bin hbin n hn => ?_⟩
    have hi : z * b.bins + bin < s.1.counts.length := by
      have hmul : (z + 1) * b.bins ≤ length * b.bins := Nat.mul_le_mul_right _ hz
      rw [Nat.add_mul, one_mul] at hmul
      omega
    have hchannel : slab.firstChannel + count < length := by omega
    have hinto : mul (add slab.firstChannel count) b.bins =
        (slab.firstChannel + count) * b.bins := by
      rw [add_eq (by omega), mul_eq (lt_of_le_of_lt (Nat.mul_le_mul_right _ hchannel.le) hfit)]
    rw [binChannel_getD hb hmost hslab count hprivate' s.2 hi (hget z hz bin hbin n hn), hinto,
      Nat.add_assoc]
    congr 2
    rcases lt_trichotomy z (slab.firstChannel + count) with hzlt | rfl | hzlt
    · have hmul : (z + 1) * b.bins ≤ (slab.firstChannel + count) * b.bins :=
        Nat.mul_le_mul_right _ hzlt
      rw [Nat.add_mul, one_mul] at hmul
      rw [if_neg (c := (slab.firstChannel + count) * b.bins ≤ z * b.bins + bin ∧
        _) (by omega), Nat.add_zero]
      congr 1
      exact propext (by omega)
    · rw [if_neg (by omega), if_pos ⟨by omega, by omega⟩, if_pos ⟨by omega, by omega⟩, Nat.zero_add,
        Nat.add_sub_cancel_left, Nat.add_sub_cancel_left]
    · have hmul : (slab.firstChannel + count + 1) * b.bins ≤ z * b.bins :=
        Nat.mul_le_mul_right _ hzlt
      rw [Nat.add_mul, one_mul] at hmul
      rw [if_neg (by omega), if_neg (by omega), if_neg (by omega)]

end Slab

/-! ## What is handed over -/

section Report

variable {ω : Type} (b : Binning) (split : TaskSplit) (walk : SlabWalk ω (Option ℚ))

/-- The counts of a block, where they can be numbered, are those of the pixels of some reads of
it. -/
structure HistogramCounts.Holds (first length : ℕ) (reads : List (SlabRead SlabFootprint))
    (h : HistogramCounts) : Prop where
  isPrivate : h.Private b split
  length_eq : length * b.bins < 2 ^ 64 → h.counts.length = length * b.bins
  counts_eq : length * b.bins < 2 ^ 64 →
    ∀ z < length, ∀ bin < b.bins, h.counts.getD (z * b.bins + bin) 0 =
    (walk.pixelsOf (fun _ _ => true) reads (first + z)).countP (b.Lands bin) % 2 ^ 64

/-- A block shows what was handed over: the counts, as words, of the pixels of the block that were
read. -/
structure HistogramBlock.Shows (x : HandOver SlabFootprint) (block : HistogramBlock) : Prop where
  firstChannel_eq : block.firstChannel = x.firstChannel
  channelCount_eq : block.channelCount = x.length
  binCount_eq : block.binCount = b.bins
  complete_eq : block.complete = x.complete
  completeness_eq : block.completeness = x.completeness
  length_held : x.length * b.bins < 2 ^ 64 → block.held.length = block.channelCount * block.binCount
  counts_eq : x.length * b.bins < 2 ^ 64 →
    ∀ z < block.channelCount, ∀ bin < b.bins, block.counts z bin =
    (walk.pixelsOf (fun _ _ => true) x.reads (x.firstChannel + z)).countP (b.Lands bin) % 2 ^ 64

variable {b split walk} (hb : b.Valid) (hmost : 0 < split.most) {workers : TaskPool ω}
  {sink : HistogramBlock → ω → Bool × ω} (hd : walk.plan.descriptor.StoredInOrder)
    (hp : walk.plan.Placed)
  (h : walk.plan.InRange)
include hb hmost hd hp h

/-- A read of the block adds its pixels. -/
theorem HistogramCounts.Holds.visit {first length : ℕ} {reads : List (SlabRead SlabFootprint)}
    {counts : HistogramCounts} (hholds : counts.Holds b split walk first length reads)
    {read : SlabRead SlabFootprint} (hfits : read.Fits walk.plan first length)
    (haccepts : walk.Accepts read) (w : ω) :
    (binSlab b split workers (walk.visited read) counts w).1.Holds b split walk first length
      (reads ++ [read]) := by
  have hvisit := visit_of_fits hd hp h hfits haccepts
  set slab := walk.visited read
  have hblockBegin := hfits.blockBegin_eq
  have hfirst := hfits.first_le
  have hle := hfits.le_end
  have hbegin := hvisit.firstChannel
  have hchannels := hvisit.channelCount
  have hrows : slab.vCount ≤ 2 ^ 63 := by
    have hlast : Strided.coord read.slab.vStart read.slab.vStride (read.slab.vCount - 1) <
        walk.plan.vLength :=
      hfits.within.vLast_lt
    have hstride : 0 < read.slab.vStride := hfits.within.vStride_pos
    have hlength := h.vLength_le
    have hmul : read.slab.vCount - 1 ≤ (read.slab.vCount - 1) * read.slab.vStride :=
      Nat.le_mul_of_pos_right _ hstride
    rw [hvisit.vCount]
    unfold Strided.coord at hlast
    omega
  by_cases hfit : length * b.bins < 2 ^ 64
  · obtain ⟨hlength, hprivate, hcounts⟩ :=
      @binSlab_spec ω b hb split hmost workers slab hrows length hfit
      (by have := hfits.lt; omega) counts (hholds.length_eq hfit) hholds.isPrivate w
    refine ⟨hprivate, fun _ => hlength, fun _ z hz bin hbin => ?_⟩
    rw [hcounts z hz bin hbin _ (hholds.counts_eq hfit z hz bin hbin), pixelsOf_append_singleton,
      Multiset.countP_add]
    congr 2
    split_ifs with hin
    · have hpixels := hvisit.rowPixels hfits.within
        (show z - slab.firstChannel < slab.channelCount by omega)
      rw [show read.slabBegin + (z - slab.firstChannel) = first + z by omega] at hpixels
      rw [← hpixels, Multiset.coe_countP]
    · rw [SlabRead.samplesAt, if_neg (by omega)]
      rfl
  · refine ⟨?_, fun hcontra => absurd hcontra hfit, fun hcontra => absurd hcontra hfit⟩
    unfold binSlab
    have hprivate : ∀ offsets : List ℕ, ((offsets.foldl (fun s offset =>
        binChannel b split workers slab offset s.1 s.2) (counts, w)).1).Private b split := by
      intro offsets
      induction offsets using List.reverseRecOn with
      | nil => exact hholds.isPrivate
      | append_singleton offsets offset ih =>
        rw [List.foldl_concat]
        exact (binChannel_lengths offset ih _).2
    exact hprivate _

/-- **What a plane histogram hands over** is of the reads that were made. -/
theorem planeHistogram_reports :
    (planeHistogram b split workers sink).Reports walk (SlabRead.Fits walk.plan)
    (fun counts => counts.Private b split) (HistogramCounts.Holds b split walk)
    (HistogramBlock.Shows b walk) where
  reset first length counts hprivate := by
    refine ⟨hprivate, fun hfit => ?_, fun hfit z hz bin hbin => ?_⟩
    · exact (List.length_replicate).trans (mul_eq hfit)
    · have hmul : (z + 1) * b.bins ≤ length * b.bins := Nat.mul_le_mul_right _ hz
      rw [Nat.add_mul, one_mul] at hmul
      change (List.replicate (mul length b.bins) 0).getD (z * b.bins + bin) 0 = _
      rw [mul_eq hfit, List.getD_replicate _ (by omega)]
      rfl
  ready _ _ _ _ hholds := hholds.isPrivate
  visit _ _ _ _ _ w hfits haccepts hholds := hholds.visit hb hmost hd hp h hfits haccepts w
  handOver first length complete completeness reads counts hholds := by
    refine ⟨⟨rfl, rfl, rfl, rfl, rfl, hholds.length_eq, fun hfit z hz bin hbin => ?_⟩, hholds⟩
    have hz' : z < length := hz
    change counts.counts.getD (mul z b.bins + bin) 0 = _
    rw [mul_eq (lt_of_le_of_lt (Nat.mul_le_mul_right _ hz'.le) hfit)]
    exact hholds.counts_eq hfit z hz bin hbin

end Report

namespace ReducibleImage

variable {ω : Type} (image : ReducibleImage ω (Option ℚ))

/-- What is refused before anything is read, and else the sink and the plan of the pass. -/
def checkHistogram (request : HistogramRequest) (sink : Option (HistogramBlock → ω → Bool × ω))
    (options : ReadOptions) : Except Error ((HistogramBlock → ω → Bool × ω) × PassPlan) := do
  let node := image.descriptor.id
  let sink ← sink.elim (.error ⟨.invalidArgument, "A histogram needs a sink", node⟩) .ok
  validateBins node request.bins
  validateRange node request
  let plan ← image.plan request.planes 1 options
  pure (sink, plan)

/-- Bin every pixel of each selected plane: how it ends, what the sink was handed, and the world
then. -/
def computeHistogram (fuel : ℕ) (request : HistogramRequest)
    (sink : Option (HistogramBlock → ω → Bool × ω))
    (options : ReadOptions) (control : ReadControl ω) (w : ω) :
    Except (Halt Error) Unit × List HistogramBlock × ω :=
  match image.checkHistogram request sink options with
  | .error e => (.error (.error e), [], w)
  | .ok (sink, plan) =>
    let split := image.split kHistogramPartialBudgetBytes (request.bins * 8)
    let walk : SlabWalk ω (Option ℚ) := ⟨image.source, plan, control⟩
    (planeHistogram request.binning split image.workers sink).inBlocks
      (passOverPlane SlabFootprint (walk.beside HistogramCounts HistogramBlock)
        "The histogram was cancelled by its sink")
      fuel (request.bins * 8) request.emitEveryChannels
      ⟨[], if 1 < split.most then List.replicate (split.most * request.bins) 0 else []⟩ w

variable {image} {request : HistogramRequest} {sink : Option (HistogramBlock → ω → Bool × ω)}
  {options : ReadOptions}

/-- What a request that is not refused asks. -/
theorem checkHistogram_ok {given : HistogramBlock → ω → Bool × ω} {plan : PassPlan}
    (h : image.checkHistogram request sink options = .ok (given, plan)) :
    image.plan request.planes 1 options = .ok plan ∧ request.binning.Valid ∧
    request.bins ≤ kMaxHistogramBins ∧
      request.lower = .finite request.binning.lower ∧
      request.upper = .finite request.binning.upper := by
  obtain ⟨given', -, h⟩ := bind_eq_ok_iff.1 h
  obtain ⟨_, hbins, h⟩ := bind_eq_ok_iff.1 h
  obtain ⟨_, hrange, h⟩ := bind_eq_ok_iff.1 h
  obtain ⟨plan', hplan, h⟩ := bind_eq_ok_iff.1 h
  cases h
  unfold validateBins at hbins
  unfold validateRange at hrange
  split_ifs at hbins with h₁
  split_ifs at hrange with h₂ h₃
  push Not at h₁ h₂
  obtain ⟨hlt, hlower, hupper⟩ := h₂
  have hfinite : ∀ x : Extended, x.isFinite = true → x = .finite (number x) := by
    intro x hx
    cases x with
    | finite q => rfl
    | _ => cases hx
  have hlt' : number request.lower < number request.upper := by
    rw [hfinite _ hlower, hfinite _ hupper] at hlt
    exact Extended.finite_lt.1 hlt
  exact ⟨hplan, ⟨Nat.pos_of_ne_zero h₁.1, hlt'⟩, h₁.2, hfinite _ hlower, hfinite _ hupper⟩

/-- The pass a histogram makes. -/
def histogramPass (image : ReducibleImage ω (Option ℚ)) (plan : PassPlan)
    (control : ReadControl ω) :
    Pass SlabFootprint ω (Option ℚ) :=
  passOverPlane SlabFootprint ⟨image.source, plan,
    control⟩ "The histogram was cancelled by its sink"

/-- What the sink of a histogram is handed. Blocks that are complete tile the selected channels, and
count every pixel of the plane that is in the range, in the bin it lands in; any block counts the
pixels that were read. -/
structure HandsHistograms (image : ReducibleImage ω (Option ℚ)) (request : HistogramRequest)
    (options : ReadOptions)
    (pass : Pass SlabFootprint ω (Option ℚ)) (handed : List HistogramBlock) : Prop where
  shows : List.Forall₂ (HistogramBlock.Shows request.binning pass.toSlabWalk)
    (pass.handOvers (request.bins * 8) request.emitEveryChannels) handed
  tiling : Tiling 0 ((handed.filter HistogramBlock.complete).map fun block =>
    (block.firstChannel, block.firstChannel + block.channelCount)) request.planes.spectral.count
  length_held : ∀ block ∈ handed, block.binCount = request.bins ∧
    (block.channelCount * request.bins < 2 ^ 64 →
      block.held.length = block.channelCount * request.bins)
  counts_eq : ∀ block ∈ handed, block.complete = true →
    block.channelCount * request.bins < 2 ^ 64 →
    ∀ z < block.channelCount, ∀ bin < request.bins,
    block.counts z bin = (image.planePixels request.planes options (block.firstChannel + z)).countP
      (request.binning.Lands bin) % 2 ^ 64

/-- Every selected channel is in a block that is complete. -/
theorem HandsHistograms.exists_block {pass : Pass SlabFootprint ω (Option ℚ)}
    {handed : List HistogramBlock} (h : image.HandsHistograms request options pass handed)
    {channel : ℕ} (hchannel : channel < request.planes.spectral.count) :
    ∃ block ∈ handed, block.complete = true ∧ block.firstChannel ≤ channel ∧
      channel < block.firstChannel + block.channelCount ∧
      block.firstChannel + block.channelCount ≤ request.planes.spectral.count := by
  obtain ⟨span, hspan, hbegin, hend⟩ := (h.tiling.mem_iff channel).2 ⟨Nat.zero_le _, hchannel⟩
  obtain ⟨-, -, hlast⟩ := h.tiling.bounds _ hspan
  obtain ⟨block, hblock, rfl⟩ := List.mem_map.1 hspan
  obtain ⟨hmem, hcomplete⟩ := List.mem_filter.1 hblock
  exact ⟨block, hmem, hcomplete, hbegin, hend, hlast⟩

section Run

variable (hd : image.descriptor.StoredInOrder)
  (hlen : ∀ i < image.descriptor.rank, image.descriptor.length i ≤ 2 ^ 63) {fuel : ℕ}
  (hfuel : request.planes.spectral.count ≤ fuel) {control : ReadControl ω} {w w' : ω}
  {handed : List HistogramBlock}
include hd hlen hfuel

/-- What is handed over when every step of the pass is done. -/
theorem computeHistogram_hands {given : HistogramBlock → ω → Bool × ω} {plan : PassPlan}
    (hcheck : image.checkHistogram request sink options = .ok (given, plan))
    (hrun : image.computeHistogram fuel request sink options control w = (.ok (), handed, w')) :
    image.HandsHistograms request options (image.histogramPass plan control) handed := by
  unfold computeHistogram at hrun
  rw [hcheck] at hrun
  dsimp only at hrun
  obtain ⟨hplan, hvalid, -, -, -⟩ := checkHistogram_ok hcheck
  obtain ⟨hdescriptor, -, hplanes, -, -⟩ := plan_fields hplan
  have hplaced := plan_placed hplan
  have hrange : plan.InRange := plan_inRange hplan (image.descriptor.length_le_of_lt hlen)
  have hcount := hrange.count_le
  set split := image.split kHistogramPartialBudgetBytes (request.bins * 8) with hsplit
  have hmost : 0 < split.most := TaskSplit.most_pos image.workers.size_pos _ _
  set walk : SlabWalk ω (Option ℚ) := ⟨image.source, plan, control⟩ with hwalk
  have hreports := @planeHistogram_reports ω request.binning split walk hvalid
    hmost image.workers given
    (hdescriptor ▸ hd) hplaced hrange
  set pass := passOverPlane SlabFootprint (walk.beside HistogramCounts HistogramBlock)
    "The histogram was cancelled by its sink" with hpassDef
  have hblocks : ∀ block ∈ pass.blocks (request.bins * 8) request.emitEveryChannels,
      block.1 < block.2 ∧ block.2 ≤ plan.planes.spectral.count := fun block hblock =>
    ((hrange.blocks_spec pass.layerChunks
      (request.bins * 8) request.emitEveryChannels).1.bounds block hblock).2
  have hwalks : pass.toSlabWalk = walk.beside HistogramCounts HistogramBlock := rfl
  have hshape : pass.shape = .planeBands := rfl
  obtain ⟨hshows, -⟩ := Reduction.inBlocks_handed hwalks hreports hrange (hplanes ▸ hfuel)
    (fun block hblock read hread => planeReads_fit hshape hrange (hblocks block hblock).1.le
      (hblocks block hblock).2 hread)
    (fun hmost' => by
      rw [if_pos hmost', List.length_replicate]
      rfl) hrun
  have hlengths : ∀ block ∈ pass.blocks (request.bins * 8) request.emitEveryChannels,
      sub block.2 block.1 = block.2 - block.1 := fun block hblock =>
    sub_eq (hblocks block hblock).1.le (by have := (hblocks block hblock).2; omega)
  refine ⟨hshows, ?_, fun block hblock => ?_, fun block hblock hcomplete hfit z hz bin hbin => ?_⟩
  · have hspans : (handed.filter HistogramBlock.complete).map
        (fun block => (block.firstChannel, block.firstChannel + block.channelCount)) =
        pass.blocks (request.bins * 8) request.emitEveryChannels :=
      pass.complete_spans hshows (fun _ _ hshow => hshow.complete_eq)
        (fun _ _ hshow => by rw [hshow.firstChannel_eq, hshow.channelCount_eq])
        (fun block hblock => by
          have hlt := (hblocks block hblock).1
          rw [hlengths block hblock]
          omega)
    rw [hspans, ← hplanes]
    exact (hrange.blocks_spec _ _ _).1
  · obtain ⟨x, -, hshow⟩ := exists_of_forall₂ hshows hblock
    have hbins : block.binCount = request.bins := hshow.binCount_eq
    refine ⟨hbins, fun hfit => ?_⟩
    rw [hshow.length_held (hshow.channelCount_eq ▸ hfit), hbins]
  · obtain ⟨x, hx, hshow⟩ := exists_of_forall₂ hshows hblock
    obtain ⟨channels, hchannels, hfirst, hlength, -, hreads⟩ := pass.mem_handOvers hx
    have hz' : z < channels.2 - channels.1 := by
      rw [← hlengths channels hchannels, ← hlength, ← hshow.channelCount_eq]
      exact hz
    have hend := (hblocks channels hchannels).2
    rw [hshow.counts_eq (hshow.channelCount_eq ▸ hfit) z hz bin hbin, hshow.firstChannel_eq,
      hfirst, hreads (hshow.complete_eq ▸ hcomplete)]
    have hpixels := pixelsOf_plan (φ := SlabFootprint) hplan
      (image.descriptor.length_le_of_lt hlen) control
      "The histogram was cancelled by its sink" (hblocks channels hchannels).1.le (hplanes ▸ hend)
      (Nat.le_add_right channels.1 z) (by omega)
    rw [← hpixels]
    rfl

/-- **A histogram that nothing refuses** succeeds, when no slab of it has `2 ^ 64` pixels. -/
theorem computeHistogram_ends {given : HistogramBlock → ω → Bool × ω} {plan : PassPlan}
    (hcheck : image.checkHistogram request sink options = .ok (given, plan))
    (hother : ∀ i < image.descriptor.rank, i ≠ image.map.x → i ≠ image.map.y →
      0 < image.descriptor.length i)
    {callbacks : Callbacks SlabFootprint ω (Option ℚ)}
    (hwilling : (image.histogramPass plan control).Willing callbacks)
    (hsink : ∀ block w, (given block w).1 = true)
    (hslabs : ∀ read ∈ (image.histogramPass plan control).blockReads (request.bins * 8)
      request.emitEveryChannels, read.request.elements < 2 ^ 64) :
    ∃ handed w', image.computeHistogram fuel request sink options control w =
      (.ok (), handed, w') := by
  obtain ⟨hplan, -, -, -, -⟩ := checkHistogram_ok hcheck
  obtain ⟨hdescriptor, hmap, hplanes, -, -⟩ := plan_fields hplan
  have hplaced := plan_placed hplan
  have hrange : plan.InRange := plan_inRange hplan (image.descriptor.length_le_of_lt hlen)
  set split := image.split kHistogramPartialBudgetBytes (request.bins * 8) with hsplit
  set walk : SlabWalk ω (Option ℚ) := ⟨image.source, plan, control⟩ with hwalk
  set pass := passOverPlane SlabFootprint (walk.beside HistogramCounts HistogramBlock)
    "The histogram was cancelled by its sink" with hpass
  have hwilling' : pass.Willing (planeHistogram request.binning split image.workers
      given).callbacks := Reduction.willing_beside rfl rfl hwilling hsink
  obtain ⟨w', hrun⟩ := hwilling'.planeBlocks rfl hrange (hdescriptor ▸ hd) hplaced
    (hplaced.other_pos (by rw [hdescriptor, hmap]; exact hother)) (hplanes ▸ hfuel) hslabs
    ⟨⟨[], if 1 < split.most then List.replicate (split.most * request.bins) 0 else []⟩, [], w⟩
  unfold computeHistogram
  rw [hcheck]
  dsimp only
  unfold Reduction.inBlocks
  rw [hrun]
  exact ⟨_, _, rfl⟩

/-- **A histogram that succeeds** has counted every pixel in the range once, in the bin it lands
in. -/
theorem computeHistogram_counts
    (hrun : image.computeHistogram fuel request sink options control w = (.ok (), handed, w')) :
    ∃ plan lower upper, image.plan request.planes 1 options = .ok plan ∧
      request.lower = .finite lower ∧ request.upper = .finite upper ∧
      (∀ value, lower ≤ value → value ≤ upper →
        ∃! bin, bin < request.bins ∧ request.binning.Lands bin (some value)) ∧
      image.HandsHistograms request options (image.histogramPass plan control) handed := by
  rcases hcheck : image.checkHistogram request sink options with e | ⟨given, plan⟩
  · unfold computeHistogram at hrun
    rw [hcheck] at hrun
    cases hrun
  · obtain ⟨hplan, hvalid, -, hlower, hupper⟩ := checkHistogram_ok hcheck
    exact ⟨plan, _, _, hplan, hlower, hupper, fun value => Binning.existsUnique_lands hvalid,
      computeHistogram_hands hd hlen hfuel hcheck hrun⟩

end Run

end ReducibleImage

/-- The even channels of the small image in three bins, handed over two channels at a time. -/
def smallHistogram : HistogramRequest := ⟨⟨⟨0, 4, 2⟩, 0, 0⟩, 3, .finite 0, .finite 6, 2⟩

theorem computeHistogram_counts_smallImage :
    ∃ plan handed, handed.length = 8 ∧
      smallImage.HandsHistograms smallHistogram ⟨false, 64⟩
        (smallImage.histogramPass plan freeControl) handed := by
  obtain ⟨plan, -, -, -, -, -, -, hhands⟩ :=
    @ReducibleImage.computeHistogram_counts Unit smallImage smallHistogram
    (some fun _ w => (true, w)) ⟨false, 64⟩ (by decide) (by decide) 4 (by decide) freeControl () ()
    (smallImage.computeHistogram 4 smallHistogram (some fun _ w => (true, w))
      ⟨false, 64⟩ freeControl ()).2.1
    (by decide +kernel)
  exact ⟨plan, _, by decide +kernel, hhands⟩

/-- A plane of `2 ^ 64 - 1` rows, in chunks that end at `2 ^ 63 + 1` and past `2 ^ 64`. -/
def longImage : ReducibleImage Unit (Option ℚ) := constantImage 1 (2 ^ 64 - 1) 1 (2 ^ 63 + 1)

/-- A plane of `2 ^ 32` by `2 ^ 32` pixels, in chunks of `2 ^ 29` rows. -/
def wideImage : ReducibleImage Unit (Option ℚ) :=
  constantImage (2 ^ 32) (2 ^ 32) (2 ^ 32) (2 ^ 29)

/-- The pass over it. -/
def widePlan : PassPlan :=
  planPass wideImage.descriptor wideImage.geometry wideImage.flagGeometry wideImage.map
    ⟨⟨⟨0, 1, 1⟩, 0, 0⟩, rfl⟩ 1 ⟨false, 64⟩

/-- One bin, for every pixel from 0 to 2. -/
def oneBin : HistogramRequest := ⟨⟨⟨0, 1, 1⟩, 0, 0⟩, 1, .finite 0, .finite 2, 1⟩

/-- The histogram succeeds, and its complete block counts `count` pixels of the `total`. -/
def CountsOf (image : ReducibleImage Unit (Option ℚ)) (count total : ℕ) : Prop :=
  (∃ handed block, image.computeHistogram 1 oneBin (some fun _ w => (true, w)) ⟨false, 64⟩
      freeControl () = (.ok (), handed, ()) ∧
    block ∈ handed ∧ block.complete = true ∧ block.firstChannel = 0 ∧ block.counts 0 0 = count) ∧
  (image.planePixels oneBin.planes ⟨false, 64⟩ 0).countP (oneBin.binning.Lands 0) = total

/-- Every pixel of a constant image is in the bin. -/
theorem countP_constantImage (width height chunkWidth chunkHeight : UInt64) :
    ((constantImage width height chunkWidth chunkHeight).planePixels oneBin.planes
      ⟨false, 64⟩ 0).countP (oneBin.binning.Lands 0) = width.toNat * height.toNat := by
  have hlands : oneBin.binning.Lands 0 (some 1) := by decide +kernel
  rw [ReducibleImage.planePixels_of_constant (some 1) fun _ => rfl,
    Multiset.countP_eq_card.2 fun pixel hpixel => Multiset.eq_of_mem_replicate hpixel ▸ hlands,
    Multiset.card_replicate]
  rfl

/-- Nothing refuses the histogram of the wide plane. -/
theorem exists_hands_wideImage : ∃ handed,
    wideImage.computeHistogram 1 oneBin (some fun _ w => (true, w)) ⟨false, 64⟩ freeControl () =
      (.ok (), handed, ()) ∧
    wideImage.HandsHistograms oneBin ⟨false, 64⟩ (wideImage.histogramPass widePlan freeControl)
      handed := by
  have hd : wideImage.descriptor.StoredInOrder := by decide
  have hlen : ∀ i < wideImage.descriptor.rank, wideImage.descriptor.length i ≤ 2 ^ 63 := by decide
  have hplan : wideImage.plan oneBin.planes 1 ⟨false, 64⟩ = .ok widePlan := rfl
  have hcheck : wideImage.checkHistogram oneBin (some fun _ w => (true, w)) ⟨false, 64⟩ =
      .ok (fun _ w => (true, w), widePlan) := by
    unfold ReducibleImage.checkHistogram
    dsimp only
    rw [hplan, show validateBins _ oneBin.bins = .ok () by decide +kernel,
      show validateRange _ oneBin = .ok () by decide +kernel]
    rfl
  have hwilling : (wideImage.histogramPass widePlan freeControl).Willing
      ⟨fun _ w => w, fun _ _ w => w, fun _ _ _ _ w => (true, w), fun _ w => (true, w)⟩ :=
    ⟨fun _ h => (Option.not_mem_none _ h).elim, fun _ => rfl, fun _ _ => rfl, fun _ _ => rfl,
      fun _ _ _ _ _ => rfl, fun _ _ => rfl⟩
  obtain ⟨handed, ⟨⟩, hrun⟩ := ReducibleImage.computeHistogram_ends hd hlen (show _ ≤ 1 by decide)
    (w := ()) hcheck (by decide) hwilling (fun _ _ => rfl) (by decide +kernel)
  exact ⟨handed, hrun, ReducibleImage.computeHistogram_hands hd hlen (show _ ≤ 1 by decide)
    hcheck hrun⟩

/-- The chunks of a band are read up to where their last one wraps to, and `2 ^ 64` pixels are
counted as none. -/
theorem computeHistogram_wraps :
    CountsOf longImage 2 (2 ^ 64 - 1) ∧ CountsOf wideImage 0 (2 ^ 64) := by
  refine ⟨⟨⟨[⟨0, 1, 1, true, 1, [2]⟩], ⟨0, 1, 1, true, 1, [2]⟩, by decide +kernel,
    List.mem_singleton_self _, rfl, rfl, rfl⟩,
    (countP_constantImage 1 (2 ^ 64 - 1) 1 (2 ^ 63 + 1)).trans (by decide +kernel)⟩, ?_⟩
  have hall : (wideImage.planePixels oneBin.planes ⟨false, 64⟩ 0).countP (oneBin.binning.Lands 0) =
      2 ^ 64 := (countP_constantImage _ _ _ _).trans (by decide +kernel)
  obtain ⟨handed, hrun, hhands⟩ := exists_hands_wideImage
  obtain ⟨block, hmem, hcomplete, hbegin, hend, hlast⟩ :=
    hhands.exists_block (show 0 < 1 by decide)
  have hfirst : block.firstChannel = 0 := Nat.le_zero.1 hbegin
  have hone : block.channelCount ≤ 1 := (Nat.le_add_left _ _).trans hlast
  refine ⟨⟨handed, block, hrun, hmem, hcomplete, hfirst, ?_⟩, hall⟩
  rw [hhands.counts_eq block hmem hcomplete
    (lt_of_le_of_lt (Nat.mul_le_mul_right _ hone) (by decide)) 0 (by omega) 0 (by decide),
    hfirst, Nat.add_zero, hall]
  exact Nat.mod_self _

end CartaZarr
