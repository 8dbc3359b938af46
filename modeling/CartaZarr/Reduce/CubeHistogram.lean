import CartaZarr.Reduce.ProvisionalHistograms

/-!
# What a cube histogram counts

An accumulator that has taken some pixels has counted each finite one in its provisional histogram,
and its statistics are those of these pixels (`Accumulator.Took`). A slab's rows, divided among the
tasks in any way, are taken once each (`add_holds`), so whatever is collected is of every pixel
added so far (`Holds.conserves`), and depends on the split and the order of the slabs in nothing
but where the counts of a provisional bin go.
-/

namespace CartaZarr.ProvisionalHistograms

open Extended Word

/-! ## Rows -/

/-- The totals of an accumulator, but for its spread. -/
def Accumulator.totals (a : Accumulator) : RowTotals where
  good := a.numPixels
  bad := a.nanCount
  sum := a.sum
  sumSq := a.sumSq
  smallest := a.minimum
  largest := a.maximum

/-- An accumulator has taken these pixels; its provisional histogram has been given some numbers
before. -/
structure Accumulator.Took (a : Accumulator) (n : ℕ) (earlier : List ℚ) (pixels : List (Option ℚ)) :
    Prop where
  growing : a.growing.Follows n (earlier ++ pixels.filterMap id)
  totals : a.totals.TotalsOf pixels
  spread : a.spread.Describes (finitePixels pixels)

/-- The registers have taken some rows, and of the row that is being walked these pixels. -/
structure Registers.Took (r : Registers) (n : ℕ) (earlier : List ℚ) (shift : ℚ)
    (done row : List (Option ℚ)) : Prop where
  growing : r.growing.Follows n (earlier ++ (done ++ row).filterMap id)
  totals : { r.totals with good := r.numPixels + r.rowCount }.TotalsOf
    (Multiset.ofList (done ++ row))
  spread : r.spread.Describes (finitePixels done)
  rowCount_eq : r.rowCount = (finitePixels row).card
  distanceSum_eq : r.distanceSum = ((finitePixels row).map fun v => v - shift).sum
  distanceSumSq_eq : r.distanceSumSq =
    ((finitePixels row).map fun v => (v - shift) * (v - shift)).sum

/-- The pixels of row `index` of a slab. -/
def rowPixels (slab : Slab (Option ℚ)) (index : ℕ) : List (Option ℚ) :=
  (List.range slab.uCount).map fun u => rowOf slab index (u * slab.strideU)

theorem finitePixels_concat (pixels : List (Option ℚ)) (value : Option ℚ) :
    finitePixels (Multiset.ofList (pixels ++ [value])) =
      finitePixels pixels + finitePixels {value} := by
  rw [← Multiset.coe_add, finitePixels_add]
  rfl

section Rows

variable {n : ℕ} (hn : 2 ≤ n) (heven : Even n) {spacing : ℚ → ℚ} (hspacing : ∀ x, 0 < spacing x)
include hn heven hspacing

/-- One pixel joins its row. -/
theorem takePixel_took {r : Registers} {earlier : List ℚ} {shift : ℚ} {done row : List (Option ℚ)}
    (h : r.Took n earlier shift done row) (value : Option ℚ) :
    Settles (fun fuel => takePixel spacing fuel shift r value)
      fun r' => r'.Took n earlier shift done (row ++ [value]) := by
  cases value with
  | none =>
    have hfinite : finitePixels (Multiset.ofList (row ++ [none])) = finitePixels row := by
      rw [finitePixels_concat, finitePixels_none, add_zero]
    refine Settles.of_some ⟨?_, ?_, h.spread, ?_, ?_, ?_⟩
    · rw [← List.append_assoc, List.filterMap_append]
      simpa using h.growing
    · rw [← List.append_assoc, ← Multiset.coe_add]
      exact h.totals.concat_none
    · rw [hfinite]
      exact h.rowCount_eq
    · rw [hfinite]
      exact h.distanceSum_eq
    · rw [hfinite]
      exact h.distanceSumSq_eq
  | some v =>
    have hfinite : finitePixels (Multiset.ofList (row ++ [some v])) = finitePixels row + {v} :=
      finitePixels_concat row (some v)
    have hadd : Settles (fun fuel => r.growing.add spacing fuel v)
        fun g => g.Follows n (earlier ++ (done ++ row).filterMap id ++ [v]) :=
      h.growing.add hn heven hspacing v
    refine hadd.bind fun growing hgrowing => Settles.of_some ⟨?_, ?_, h.spread, ?_, ?_, ?_⟩
    · rw [← List.append_assoc, List.filterMap_append, ← List.append_assoc]
      exact hgrowing
    · rw [← List.append_assoc, ← Multiset.coe_add]
      exact h.totals.concat_some v
    · rw [hfinite, Multiset.card_add, ← h.rowCount_eq, Multiset.card_singleton]
    · rw [hfinite, Multiset.map_add, Multiset.sum_add, ← h.distanceSum_eq, Multiset.map_singleton,
        Multiset.sum_singleton]
    · rw [hfinite, Multiset.map_add, Multiset.sum_add, ← h.distanceSumSq_eq, Multiset.map_singleton,
        Multiset.sum_singleton]

/-- **A row joins the pixels the registers have taken.** -/
theorem takeRow_took {r : Registers} {earlier : List ℚ} {done : List (Option ℚ)}
    (h : r.toAccumulator.Took n earlier done) (slab : Slab (Option ℚ)) (index : ℕ) :
    Settles (fun fuel => takeRow spacing fuel slab r index)
      fun r' => r'.toAccumulator.Took n earlier (done ++ rowPixels slab index) := by
  unfold takeRow
  simp only
  set shift := deviationShift false (rowOf slab index) slab.strideU slab.uCount (fun _ => 0) 1
  have hstart : Registers.Took { r with rowCount := 0, distanceSum := 0,
                                        distanceSumSq := 0 } n earlier shift
      done [] := by
    refine ⟨?_, ?_, h.spread, rfl, rfl, rfl⟩
    · rw [List.append_nil]
      exact h.growing
    · rw [List.append_nil]
      exact h.totals
  have hrow : Settles (fun fuel => (List.range slab.uCount).foldlM (fun r u =>
        takePixel spacing fuel shift r (rowOf slab index (u * slab.strideU)))
          { r with rowCount := 0, distanceSum := 0, distanceSumSq := 0 })
      fun r => r.Took n earlier shift done (rowPixels slab index) :=
    Settles.foldlM (I := fun before r => Registers.Took r n earlier shift done
      (before.map fun u => rowOf slab index (u * slab.strideU))) hstart
    fun before u _ r hr => by
      rw [List.map_append]
      exact takePixel_took hn heven hspacing hr _
  refine hrow.bind fun r' hr' => Settles.of_some ⟨hr'.growing, hr'.totals, ?_⟩
  rw [← Multiset.coe_add, finitePixels_add]
  have hspan := Spread.ofSpan_describes (finitePixels (rowPixels slab index)) shift
  rw [← hr'.rowCount_eq, ← hr'.distanceSum_eq, ← hr'.distanceSumSq_eq] at hspan
  exact hr'.spread.merge hspan

/-- **Rows join the pixels an accumulator has taken.** -/
theorem takeRows_took {into : Accumulator} {pixels : List (Option ℚ)} (h : into.Took n [] pixels)
    (slab : Slab (Option ℚ)) (first last : ℕ) :
    Settles (fun fuel => takeRows spacing fuel slab first last into) fun a =>
      a.Took n [] (pixels ++ (List.range' first (last - first)).flatMap (rowPixels slab)) := by
  unfold takeRows
  have hstart : Accumulator.Took { growing := into.growing } n (pixels.filterMap id) [] :=
    ⟨by simpa using h.growing, RowTotals.totalsOf_default, Spread.none_describes⟩
  have hrows : Settles (fun fuel =>
    (List.range' first (last - first)).foldlM (takeRow spacing fuel slab)
        { growing := into.growing })
      fun r => r.toAccumulator.Took n (pixels.filterMap id)
        ((List.range' first (last - first)).flatMap (rowPixels slab)) :=
    Settles.foldlM (I := fun before (r : Registers) => r.toAccumulator.Took n (pixels.filterMap id)
      (before.flatMap (rowPixels slab))) hstart
    fun before index _ r hr => by
      rw [List.flatMap_append, List.flatMap_singleton]
      exact takeRow_took hn heven hspacing hr slab index
  refine hrows.bind fun r hr => Settles.of_some ⟨?_, ?_, ?_⟩
  · rw [List.filterMap_append]
    exact hr.growing
  · rw [← Multiset.coe_add]
    have hjoined := h.totals.combine hr.totals
    exact ⟨hjoined.good_eq, hjoined.bad_eq, hjoined.sum_eq, hjoined.sumSq_eq, hjoined.smallest_eq,
      hjoined.largest_eq⟩
  · rw [← Multiset.coe_add, finitePixels_add]
    exact h.spread.merge hr.spread

end Rows

/-! ## Slabs -/

/-- The pixels of a slab. -/
def slabPixels (slab : Slab (Option ℚ)) : Multiset (Option ℚ) :=
  (List.range (slab.channelCount * slab.vCount)).flatMap (rowPixels slab)

/-- The pixels of the rows of one call. -/
def callPixels (slab : Slab (Option ℚ)) (call : BodyCall) : List (Option ℚ) :=
  (List.range' call.first (call.last - call.first)).flatMap (rowPixels slab)

theorem card_slabPixels (slab : Slab (Option ℚ)) :
    (slabPixels slab).card = slab.channelCount * slab.vCount * slab.uCount := by
  simp [slabPixels, rowPixels, List.length_flatMap]

/-- The accumulators have, among them, taken these pixels. -/
def Holds (h : ProvisionalHistograms) (n : ℕ) (pixels : Multiset (Option ℚ)) : Prop :=
  ∃ taken : ℕ → List (Option ℚ),
    (∀ i < h.split.most, (h.accumulators.getD i { growing := .ofBins 0 }).Took n [] (taken i)) ∧
      ∑ i ∈ Finset.range h.split.most, Multiset.ofList (taken i) = pixels

theorem new_holds (split : TaskSplit) (bins : ℕ) (sampled : Bool) (n : ℕ) :
    (new split bins sampled n).Holds n 0 := by
  refine ⟨fun _ => [], fun i hi => ?_, by simp⟩
  have hlt : i < (List.replicate split.most ({ growing := .ofBins n } : Accumulator)).length :=
    List.length_replicate.ge.trans_lt' hi
  have hget : (new split bins sampled n).accumulators.getD i
      { growing := .ofBins 0 } = { growing := .ofBins n } :=
    (List.getD_eq_getElem _ _ hlt).trans (List.getElem_replicate _)
  rw [hget]
  exact ⟨GrowingHistogram.follows_ofBins n, RowTotals.totalsOf_default, Spread.none_describes⟩

/-- `h'` is what has become of `h`, with these pixels taken. -/
structure Becomes (h : ProvisionalHistograms) (n : ℕ) (pixels : Multiset (Option ℚ))
    (h' : ProvisionalHistograms) :
    Prop where
  split_eq : h'.split = h.split
  bins_eq : h'.bins = h.bins
  sampled_eq : h'.sampled = h.sampled
  holds : h'.Holds n pixels

theorem Becomes.trans {h h' h'' : ProvisionalHistograms} {n : ℕ}
    {pixels pixels' : Multiset (Option ℚ)}
    (h₁ : h.Becomes n pixels h') (h₂ : h'.Becomes n pixels' h'') : h.Becomes n pixels' h'' :=
  ⟨h₂.split_eq.trans h₁.split_eq, h₂.bins_eq.trans h₁.bins_eq,
    h₂.sampled_eq.trans h₁.sampled_eq, h₂.holds⟩

section Slabs

variable {n : ℕ} (hn : 2 ≤ n) (heven : Even n) {spacing : ℚ → ℚ} (hspacing : ∀ x, 0 < spacing x)
include hn heven hspacing

/-- A call's rows join the pixels taken. -/
theorem takeCall_holds {h : ProvisionalHistograms} {pixels : Multiset (Option ℚ)}
    (hh : h.Holds n pixels)
    (slab : Slab (Option ℚ)) {call : BodyCall} (hcall : call.task < h.split.most) :
    Settles (fun fuel => takeCall spacing fuel slab h call)
      (h.Becomes n (pixels + callPixels slab call)) := by
  obtain ⟨taken, htaken, rfl⟩ := hh
  have hrows := takeRows_took hn heven hspacing (htaken call.task hcall) slab call.first call.last
  refine hrows.bind fun a ha => Settles.of_some ⟨rfl, rfl, rfl, ?_⟩
  refine ⟨Function.update taken call.task (taken call.task ++ callPixels slab call),
    fun i hi => ?_, ?_⟩
  · have hlt : ∀ j < h.split.most, j < h.accumulators.length :=
      fun j hj => h.length_eq.ge.trans_lt' hj
    rw [List.getD_eq_getElem _ _ (by simpa using hlt i hi), List.getElem_set]
    split
    · rename_i heq
      subst heq
      rw [Function.update_self]
      exact ha
    · rename_i hne
      rw [Function.update_of_ne (Ne.symm hne), ← List.getD_eq_getElem _
        { growing := .ofBins 0 } (hlt i hi)]
      exact htaken i hi
  · have hmem : call.task ∈ Finset.range h.split.most := Finset.mem_range.2 hcall
    rw [← Finset.add_sum_erase _ _ hmem,
      ← Finset.add_sum_erase _ (fun i => Multiset.ofList (taken i)) hmem,
      Function.update_self, ← Multiset.coe_add]
    have hrest : ∀ i ∈ (Finset.range h.split.most).erase call.task,
        Multiset.ofList (Function.update taken call.task
            (taken call.task ++ callPixels slab call) i) = taken i :=
      fun i hi => by
      rw [Function.update_of_ne (Finset.ne_of_mem_erase hi)]
    rw [Finset.sum_congr rfl hrest]
    exact add_right_comm _ _ _

/-- **Every pixel of a slab is taken once**, whatever order the pool runs the tasks in. -/
theorem add_holds {h : ProvisionalHistograms} {pixels : Multiset (Option ℚ)} (hh : h.Holds n pixels)
    (hmost : 0 < h.split.most) (slab : Slab (Option ℚ))
    (hfit : slab.channelCount * slab.vCount + h.split.most < 2 ^ 64) {order : List ℕ}
    (horder : order.Perm (List.range
    (h.split.tasks slab.uCount (slab.channelCount * slab.vCount)))) :
    Settles (fun fuel => add spacing fuel slab order h)
      (h.Becomes n (pixels + slabPixels slab)) := by
  have hrows : mul slab.channelCount slab.vCount = slab.channelCount * slab.vCount :=
    mul_eq (by omega)
  unfold add
  simp only [hrows]
  set rows := slab.channelCount * slab.vCount
  obtain ⟨hle, -⟩ := h.split.tasks_le hmost slab.uCount rows
  have hcalls := TaskSplit.run_spec hmost hle (by omega : rows + _ < 2 ^ 64) horder
  set calls := TaskSplit.run (h.split.tasks slab.uCount rows) rows order
  have hunits : Multiset.ofList (calls.flatMap (callPixels slab)) = slabPixels slab := by
    unfold callPixels
    rw [← List.flatMap_assoc]
    exact Multiset.coe_eq_coe.2 (hcalls.units_perm.flatMap_right _)
  rw [← hunits]
  refine Settles.foldlM (I := fun before => h.Becomes n (pixels + before.flatMap (callPixels slab)))
    ⟨rfl, rfl, rfl, ?_⟩ ?_
  · rwa [List.flatMap_nil, Multiset.coe_nil, add_zero]
  · intro before call hpre h' hh'
    have hmem : call ∈ calls := hpre.subset (by simp)
    have htask : call.task < h'.split.most := hh'.split_eq ▸ (hcalls.task_lt call hmem).2
    refine (takeCall_holds hn heven hspacing hh'.holds slab htask).imp fun h'' hh'' => ?_
    rw [List.flatMap_append, List.flatMap_singleton, ← Multiset.coe_add, ← add_assoc]
    exact hh'.trans hh''

end Slabs

/-! ## What is collected -/

/-- What has been gathered is of these pixels. -/
structure Gathered.Took (g : Gathered) (pixels : Multiset (Option ℚ)) : Prop where
  numPixels_eq : g.totals.numPixels = .finite (finitePixels pixels).card
  nanCount_eq : g.totals.nanCount = .finite (pixels.count none)
  sum_eq : g.totals.sum = .finite (finitePixels pixels).sum
  sumSq_eq : g.totals.sumSq = .finite ((finitePixels pixels).map fun v => v * v).sum
  smallest_eq : g.smallest = least (finitePixels pixels)
  largest_eq : g.largest = greatest (finitePixels pixels)
  spread : g.spread.Describes (finitePixels pixels)
  untouched : g.totals.min = .nan ∧ g.totals.max = .nan

theorem Gathered.took_default : Gathered.Took {} 0 :=
  ⟨rfl, rfl, rfl, rfl, rfl, rfl, Spread.none_describes, rfl, rfl⟩

theorem Gathered.Took.take {g : Gathered} {pixels : Multiset (Option ℚ)} (hg : g.Took pixels)
    {a : Accumulator} {n : ℕ} {earlier : List ℚ} {more : List (Option ℚ)}
    (ha : a.Took n earlier more) :
    (g.take a).Took (pixels + more) where
  numPixels_eq := by
    rw [finitePixels_add, Multiset.card_add, Nat.cast_add, ← finite_add, ← hg.numPixels_eq,
      ← ha.totals.good_eq]
    rfl
  nanCount_eq := by
    rw [Multiset.count_add, Nat.cast_add, ← finite_add, ← hg.nanCount_eq, ← ha.totals.bad_eq]
    rfl
  sum_eq := by
    rw [finitePixels_add, Multiset.sum_add, ← finite_add, ← hg.sum_eq, ← ha.totals.sum_eq]
    rfl
  sumSq_eq := by
    rw [finitePixels_add, Multiset.map_add, Multiset.sum_add, ← finite_add, ← hg.sumSq_eq,
      ← ha.totals.sumSq_eq]
    rfl
  smallest_eq := by
    rw [finitePixels_add, least_add, ← hg.smallest_eq, ← ha.totals.smallest_eq]
    rfl
  largest_eq := by
    rw [finitePixels_add, greatest_add, ← hg.largest_eq, ← ha.totals.largest_eq]
    rfl
  spread := by
    rw [finitePixels_add]
    exact hg.spread.merge ha.spread
  untouched := hg.untouched

/-- What a cube histogram's answer is to say of some pixels. -/
structure Conserves (bins : ℕ) (sampled : Bool) (result : CubeHistogramResult)
    (pixels : Multiset (Option ℚ)) :
    Prop where
  totals : result.totals.Describes pixels
  card_eq : result.totals.numPixels + result.totals.nanCount = .finite pixels.card
  length_eq : result.counts.length = bins
  sum_eq : result.totals.numPixels = .finite result.counts.sum
  sampled_eq : result.sampled = sampled

section Collect

variable {h : ProvisionalHistograms} {n : ℕ} {taken : ℕ → List (Option ℚ)}
  (htaken : ∀ i < h.split.most, (h.accumulators.getD i
    { growing := .ofBins 0 }).Took n [] (taken i))
include htaken

/-- The accumulators are gathered one after another. -/
theorem gathered_took : (h.accumulators.foldl Gathered.take {}).Took
    (∑ i ∈ Finset.range h.split.most, Multiset.ofList (taken i)) := by
  have hfirst : ∀ k ≤ h.split.most, ((List.range k).foldl (fun g i =>
      Gathered.take g (h.accumulators.getD i { growing := .ofBins 0 })) {}).Took
      (∑ i ∈ Finset.range k, Multiset.ofList (taken i)) := by
    intro k hk
    induction k with
    | zero => exact Gathered.took_default
    | succ k ih =>
      rw [List.range_succ, List.foldl_concat, Finset.sum_range_succ]
      exact (ih (by omega)).take (htaken k (by omega))
  rw [← map_getD_range h.accumulators { growing := .ofBins 0 }, List.foldl_map, h.length_eq]
  exact hfirst _ le_rfl

/-- The counts of all accumulators, over one range. -/
theorem counts_total (hbins : 1 ≤ h.bins) (lower upper : ℚ) :
    (h.accumulators.foldl (fun counts a =>
      List.zipWith (· + ·) counts (a.growing.aggregate h.bins lower upper))
        (List.replicate h.bins 0)).length = h.bins ∧
    (h.accumulators.foldl (fun counts a =>
      List.zipWith (· + ·) counts (a.growing.aggregate h.bins lower upper))
        (List.replicate h.bins 0)).sum =
      (finitePixels (∑ i ∈ Finset.range h.split.most, Multiset.ofList (taken i))).card := by
  have hfirst : ∀ k ≤ h.split.most,
    ((List.range k).foldl (fun counts i => List.zipWith (· + ·) counts
      ((h.accumulators.getD i { growing := .ofBins 0 }).growing.aggregate h.bins lower upper))
        (List.replicate h.bins 0)).length = h.bins ∧
      ((List.range k).foldl (fun counts i => List.zipWith (· + ·) counts
      ((h.accumulators.getD i { growing := .ofBins 0 }).growing.aggregate h.bins lower upper))
        (List.replicate h.bins 0)).sum =
        (finitePixels (∑ i ∈ Finset.range k, Multiset.ofList (taken i))).card := by
    intro k hk
    induction k with
    | zero => simp
    | succ k ih =>
      obtain ⟨hlength, hsum⟩ := ih (by omega)
      obtain ⟨hlength', hsum'⟩ := (htaken k
        (by omega)).growing.places.aggregate_total hbins lower upper
      rw [List.range_succ, List.foldl_concat, Finset.sum_range_succ, finitePixels_add,
        Multiset.card_add, ← hsum]
      refine ⟨?_, ?_⟩
      · rw [List.length_zipWith, hlength, hlength', min_self]
      · rw [← List.sum_add_sum_eq_sum_zipWith_of_length_eq _ _ (hlength.trans hlength'.symm), hsum']
        rfl
  rw [← map_getD_range h.accumulators { growing := .ofBins 0 }, List.foldl_map, h.length_eq]
  exact hfirst _ le_rfl

end Collect

/-- **What is collected is of every pixel taken.** -/
theorem Holds.conserves {h : ProvisionalHistograms} {n : ℕ} {pixels : Multiset (Option ℚ)}
    (hh : h.Holds n pixels)
    (hbins : 1 ≤ h.bins) : Conserves h.bins h.sampled h.collect pixels := by
  obtain ⟨taken, htaken, rfl⟩ := hh
  have hg := gathered_took htaken
  set pixels := ∑ i ∈ Finset.range h.split.most, Multiset.ofList (taken i)
  have hdev := congrArg Extended.finite hg.spread.sumSqDev_eq
  have hcard : (h.accumulators.foldl Gathered.take {}).totals.numPixels +
      (h.accumulators.foldl Gathered.take {}).totals.nanCount = .finite pixels.card := by
    rw [hg.numPixels_eq, hg.nanCount_eq, finite_add, ← Nat.cast_add, card_finitePixels]
  unfold collect
  simp only
  rcases eq_or_ne (finitePixels pixels) 0 with hnone | hsome
  · have hzero : (h.accumulators.foldl Gathered.take {}).totals.numPixels = 0 := by
      rw [hg.numPixels_eq, hnone]
      rfl
    rw [if_pos hzero]
    refine ⟨⟨hg.numPixels_eq, hg.nanCount_eq, hg.sum_eq, hg.sumSq_eq, fun _ => hg.untouched.1, ?_,
      fun _ => hg.untouched.2, ?_, hdev⟩, hcard, List.length_replicate, ?_, rfl⟩
    · intro m hm
      rw [hnone] at hm
      exact absurd hm.1 (Multiset.notMem_zero m)
    · intro m hm
      rw [hnone] at hm
      exact absurd hm.1 (Multiset.notMem_zero m)
    · rw [hzero, List.sum_replicate, smul_zero]
      rfl
  · have hne : ¬ (h.accumulators.foldl Gathered.take {}).totals.numPixels = 0 := by
      rw [hg.numPixels_eq, zero_def, Extended.finite.injEq, Nat.cast_eq_zero, Multiset.card_eq_zero]
      exact hsome
    rw [if_neg hne]
    obtain ⟨hlength, hsum⟩ := counts_total htaken hbins
      (number (h.accumulators.foldl Gathered.take {}).smallest)
      (number (h.accumulators.foldl Gathered.take {}).largest)
    refine ⟨⟨hg.numPixels_eq, hg.nanCount_eq, hg.sum_eq, hg.sumSq_eq, fun h =>
      absurd h hsome, fun m hm => ?_,
      fun h => absurd h hsome, fun m hm => ?_, hdev⟩, hcard, hlength, ?_, rfl⟩
    · exact hg.smallest_eq.trans (least_of_isLeast hm)
    · exact hg.largest_eq.trans (greatest_of_isGreatest hm)
    · rw [hsum]
      exact hg.numPixels_eq

/-! ## Runs -/

/-- What provisional histograms are asked: to add a slab, whose tasks the pool runs in this order,
or to answer over everything added so far. -/
inductive CubeCall
  | add (slab : Slab (Option ℚ)) (order : List ℕ)
  | collect

/-- The slab of a call that adds one. -/
def CubeCall.slab? : CubeCall → Option (Slab (Option ℚ))
  | .add slab _ => some slab
  | .collect => none

/-- A slab whose rows and tasks can be counted, and an order of its tasks. -/
def CubeCall.Allowed (split : TaskSplit) : CubeCall → Prop
  | .add slab order => slab.channelCount * slab.vCount + split.most < 2 ^ 64 ∧
      order.Perm (List.range (split.tasks slab.uCount (slab.channelCount * slab.vCount)))
  | .collect => True

/-- One call, and the answers so far. -/
def answer (spacing : ℚ → ℚ) (fuel : ℕ) (s : ProvisionalHistograms × List CubeHistogramResult) :
    CubeCall → Option (ProvisionalHistograms × List CubeHistogramResult)
  | .add slab order => (s.1.add spacing fuel slab order).map fun h => (h, s.2)
  | .collect => some (s.1, s.2 ++ [s.1.collect])

/-- The calls of one cube histogram, from its request on. -/
def answers (spacing : ℚ → ℚ) (bins provisionalBins : ℕ) (split : TaskSplit) (sampled : Bool)
    (calls : List CubeCall) (fuel : ℕ) :
    Option (ProvisionalHistograms × List CubeHistogramResult) := do
  let provisional ← resolution bins provisionalBins
  calls.foldlM (answer spacing fuel) (.new split bins sampled provisional, [])

/-- What the calls are about: the pixels added so far, and those that each answer is to be of. -/
def CubeCall.tell (s : Multiset (Option ℚ) × List (Multiset (Option ℚ))) :
    CubeCall → Multiset (Option ℚ) × List (Multiset (Option ℚ))
  | .add slab _ => (s.1 + slabPixels slab, s.2)
  | .collect => (s.1, s.2 ++ [s.1])

def told (calls : List CubeCall) : Multiset (Option ℚ) × List (Multiset (Option ℚ)) :=
  calls.foldl CubeCall.tell (0, [])

/-- The pixels told of are those of the slabs. -/
theorem told_fst (calls : List CubeCall) :
    (told calls).1 = ((calls.filterMap CubeCall.slab?).map slabPixels).sum := by
  induction calls using List.reverseRecOn with
  | nil => rfl
  | append_singleton calls call ih =>
    rw [told, List.foldl_concat, ← told, List.filterMap_append, List.map_append,
      List.sum_append, ← ih]
    cases call with
    | add slab order => simp [CubeCall.tell, CubeCall.slab?]
    | collect => exact (add_zero _).symm

theorem resolution_even (bins provisionalBins : ℕ) :
    ∃ n, resolution bins provisionalBins = some n ∧ 2 ≤ n ∧ Even n := by
  unfold resolution
  set provisional := if provisionalBins = 0 then
      max kLeastProvisionalBins (min (bins * kProvisionalBinsPerBin) kMostProvisionalBins)
        else provisionalBins
  simp only
  obtain ⟨n, ⟨htwo, heven⟩, -, hrun⟩ :=
    @whileLoop_ends ℕ (fun r => r < min provisional kMaxHistogramBins) _
    (fun r => r * 2) (fun r => 2 ≤ r ∧ Even r) (fun r => min provisional kMaxHistogramBins - r)
    (fun r hr hlt => ⟨⟨by omega, hr.2.mul_right 2⟩, by omega⟩) 2 ⟨le_rfl, by decide⟩
  exact ⟨n, hrun _ (Nat.sub_le _ _), htwo, heven⟩

section Runs

variable {spacing : ℚ → ℚ} (hspacing : ∀ x, 0 < spacing x)

/-- Collecting changes nothing that is collected later. -/
theorem answers_of_adds (bins provisionalBins : ℕ) (split : TaskSplit) (sampled : Bool)
    (calls : List CubeCall)
    (fuel : ℕ) :
    (answers spacing bins provisionalBins split sampled calls fuel).map Prod.fst =
      (answers spacing bins provisionalBins split sampled
        (calls.filter fun call => call.slab?.isSome) fuel).map Prod.fst := by
  unfold answers
  cases resolution bins provisionalBins with
  | none => rfl
  | some n =>
    have hcalls : ∀ (calls : List CubeCall)
      (s t : ProvisionalHistograms × List CubeHistogramResult), s.1 = t.1 →
        (calls.foldlM (answer spacing fuel) s).map Prod.fst =
          ((calls.filter fun call => call.slab?.isSome).foldlM
              (answer spacing fuel) t).map Prod.fst := by
      intro calls
      induction calls with
      | nil => exact fun s t h => congrArg some h
      | cons call calls ih =>
        intro s t h
        cases call with
        | collect => exact ih _ t h
        | add slab order =>
          have hadds : ((CubeCall.add slab order :: calls).filter fun call => call.slab?.isSome) =
              .add slab order :: calls.filter fun call => call.slab?.isSome :=
                List.filter_cons_of_pos rfl
          rw [hadds, List.foldlM_cons, List.foldlM_cons, answer, answer, ← h]
          cases s.1.add spacing fuel slab order with
          | none => rfl
          | some h' => exact ih _ _ rfl
    exact hcalls calls _ _ rfl

include hspacing

/-- **Every answer is of the pixels added before it.** -/
theorem answers_conserve {bins : ℕ} (hbins : 1 ≤ bins) (provisionalBins : ℕ) {split : TaskSplit}
    (hsplit : 0 < split.most) (sampled : Bool) {calls : List CubeCall}
    (hcalls : ∀ call ∈ calls, call.Allowed split) :
    Settles (answers spacing bins provisionalBins split sampled calls) fun s =>
      List.Forall₂ (Conserves bins sampled) s.2 (told calls).2 ∧
        Conserves bins sampled s.1.collect (told calls).1 := by
  obtain ⟨n, hres, hn, heven⟩ := resolution_even bins provisionalBins
  set start := new split bins sampled n
  have hrun : Settles (fun fuel => calls.foldlM (answer spacing fuel) (start, [])) fun s =>
      start.Becomes n (told calls).1 s.1 ∧
          List.Forall₂ (Conserves bins sampled) s.2 (told calls).2 :=
    Settles.foldlM (I := fun before (s : ProvisionalHistograms × List CubeHistogramResult) =>
      start.Becomes n (told before).1 s.1 ∧
        List.Forall₂ (Conserves bins sampled) s.2 (told before).2)
    ⟨⟨rfl, rfl, rfl, new_holds split bins sampled n⟩, .nil⟩ fun before call hpre s hs => by
      obtain ⟨hbecomes, hanswers⟩ := hs
      have htold : told (before ++ [call]) = CubeCall.tell (told before) call :=
        List.foldl_concat _ _ _ _
      rw [htold]
      cases call with
      | collect =>
        refine Settles.of_some ⟨hbecomes, List.rel_append hanswers (.cons ?_ .nil)⟩
        rw [← (show s.1.bins = bins from hbecomes.bins_eq),
          ← (show s.1.sampled = sampled from hbecomes.sampled_eq)]
        exact hbecomes.holds.conserves (hbecomes.bins_eq.ge.trans' hbins)
      | add slab order =>
        obtain ⟨hfit, horder⟩ : CubeCall.Allowed split (.add slab order) :=
          hcalls _ (hpre.subset (by simp))
        have hs : s.1.split = split := hbecomes.split_eq
        rw [← hs] at hfit horder hsplit
        have hadd := add_holds hn heven hspacing hbecomes.holds hsplit slab hfit horder
        have hnext : Settles (fun fuel => (add spacing fuel slab order s.1).bind fun h =>
            some (h, s.2)) fun s' =>
            start.Becomes n ((told before).1 + slabPixels slab) s'.1 ∧
              List.Forall₂ (Conserves bins sampled) s'.2 (told before).2 :=
          hadd.bind fun h hh => Settles.of_some ⟨hbecomes.trans hh, hanswers⟩
        refine hnext.congr fun fuel => ?_
        rw [answer]
        cases add spacing fuel slab order s.1 <;> rfl
  refine (hrun.imp fun s hs => ⟨hs.2, ?_⟩).congr fun fuel => ?_
  · rw [answers, hres]
    rfl
  · have hconserves := hs.1.holds.conserves (hs.1.bins_eq.ge.trans' hbins)
    rwa [show s.1.bins = bins from hs.1.bins_eq,
      show s.1.sampled = sampled from hs.1.sampled_eq] at hconserves

/-- **Nothing is lost or counted twice.** With enough fuel the calls are answered; an answer has the
bins asked for, which hold each finite pixel added before it once, and its totals are exactly those
of these pixels. Answering changes no later answer. And the totals at the end are the same for every
run that adds the same slabs, in any order, among any number of accumulators, at any resolution. -/
theorem cubeHistogram_conserves {bins : ℕ} (hbins : 1 ≤ bins)
    (provisionalBins : ℕ) {split : TaskSplit}
    (hsplit : 0 < split.most) (sampled : Bool) {calls : List CubeCall}
    (hcalls : ∀ call ∈ calls, call.Allowed split) :
    Settles (answers spacing bins provisionalBins split sampled calls) (fun s =>
      List.Forall₂ (Conserves bins sampled) s.2 (told calls).2 ∧
        Conserves bins sampled s.1.collect (told calls).1) ∧
    (∀ fuel, (answers spacing bins provisionalBins split sampled calls fuel).map Prod.fst =
      (answers spacing bins provisionalBins split sampled
        (calls.filter fun call => call.slab?.isSome) fuel).map Prod.fst) ∧
    ∃ totals, ∀ (bins' provisionalBins' : ℕ) (split' : TaskSplit) (sampled' : Bool)
      (calls' : List CubeCall),
      1 ≤ bins' → 0 < split'.most → (∀ call ∈ calls', call.Allowed split') →
      (calls'.filterMap CubeCall.slab?).Perm (calls.filterMap CubeCall.slab?) →
      Settles (answers spacing bins' provisionalBins' split' sampled' calls') fun s =>
        s.1.collect.totals = totals := by
  have hrun := answers_conserve hspacing hbins provisionalBins hsplit sampled hcalls
  refine ⟨hrun, answers_of_adds bins provisionalBins split sampled calls, ?_⟩
  obtain ⟨s, ⟨-, hs⟩, -⟩ := hrun
  refine ⟨s.1.collect.totals,
    fun bins' provisionalBins' split' sampled' calls' hbins' hsplit' hcalls' hperm => ?_⟩
  have hpixels : (told calls').1 = (told calls).1 := by
    rw [told_fst, told_fst]
    exact (hperm.map slabPixels).sum_eq
  refine (answers_conserve hspacing hbins' provisionalBins' hsplit' sampled'
    hcalls').imp fun s' hs' => ?_
  have htotals := hs'.2.totals
  rw [hpixels] at htotals
  exact htotals.unique hs.totals

end Runs

/-- A row of three pixels, one of which is not finite. -/
def threePixels : Slab (Option ℚ) := ⟨0, 1, [some 2, none, some 5], 1, 3, 3, 3, 1⟩

theorem cubeHistogram_conserves_threePixels :
    Settles (answers (fun _ => 1) 2 4 ⟨2⟩ false [.add threePixels [0], .collect]) fun s =>
      List.Forall₂ (Conserves 2 false) s.2 [slabPixels threePixels] ∧
        Conserves 2 false s.1.collect (slabPixels threePixels) := by
  have hallowed : ∀ call ∈ [CubeCall.add threePixels [0], .collect], call.Allowed ⟨2⟩ := by
    intro call hcall
    rcases List.mem_cons.1 hcall with rfl | hcall
    · exact ⟨by decide, by decide⟩
    · rw [List.mem_singleton.1 hcall]
      trivial
  have hrun := (cubeHistogram_conserves (fun _ => one_pos) (by decide : 1 ≤ 2) 4
    (by decide : 0 < 2) false
    hallowed).1
  have htold : told [CubeCall.add threePixels [0], .collect] =
      (slabPixels threePixels, [slabPixels threePixels]) := by
    simp [told, CubeCall.tell]
  rwa [htold] at hrun

/-- A slab of `2 ^ 64` rows of the one pixel it has. -/
def manyRows : Slab (Option ℚ) := ⟨0, 2 ^ 32, [some 1], 0, 0, 0, 1, 2 ^ 32⟩

/-- A slab of `2 ^ 64 - 1` rows of the one pixel it has. -/
def lastRows : Slab (Option ℚ) := ⟨0, 2 ^ 32 - 1, [some 1], 0, 0, 0, 1, 2 ^ 32 + 1⟩

theorem card_slabPixels_told (slab : Slab (Option ℚ)) (order : List ℕ) :
    (told [.add slab order, .collect]).1.card =
      slab.channelCount * slab.vCount * slab.uCount := by
  rw [told_fst]
  simp only [List.filterMap_cons, CubeCall.slab?, List.filterMap_nil, List.map_cons, List.map_nil,
    List.sum_cons, List.sum_nil, add_zero, card_slabPixels]

/-- The number of the rows of a slab is a word, and where it wraps they are not counted. Nor are
they where it does not, but its sum with the tasks they are divided among does. -/
theorem cubeHistogram_manyRows :
    ((answers (fun _ => 1) 1 2 ⟨1⟩ false [.add manyRows [], .collect] 2).map (fun s =>
        s.2.map fun result => result.totals.numPixels + result.totals.nanCount) = some [0] ∧
      ([] : List ℕ).Perm (List.range (TaskSplit.tasks ⟨1⟩ 1 (mul (2 ^ 32) (2 ^ 32)))) ∧
      (told [.add manyRows [], .collect]).1.card = 2 ^ 64) ∧
    (answers (fun _ => 1) 1 2 ⟨2⟩ false [.add lastRows [0, 1], .collect] 2).map (fun s =>
      s.2.map fun result => result.totals.numPixels + result.totals.nanCount) = some [0] ∧
    [0, 1].Perm (List.range (TaskSplit.tasks ⟨2⟩ 1 (mul (2 ^ 32 - 1) (2 ^ 32 + 1)))) ∧
    (told [.add lastRows [0, 1], .collect]).1.card = 2 ^ 64 - 1 :=
  ⟨⟨by decide +kernel, by decide +kernel, card_slabPixels_told manyRows []⟩, by decide +kernel,
    by decide +kernel, card_slabPixels_told lastRows [0, 1]⟩

end CartaZarr.ProvisionalHistograms
