import CartaZarr.Foundations.ForRange
import CartaZarr.Reduce.Deviations

/-!
# The totals of a row

One row of one region inside one chunk is accumulated in a `RowTotals`, a span at a time
(`accumulateSpan`). A pixel is a number, or not finite (`none`). With deviations asked for, a span's
pixels join those that the totals' spread describes (`accumulateSpan_describes`), and the totals of
spans are put together like those of rows, by `RowTotals.combine`.
-/

namespace CartaZarr

/-- What one row of a region comes to. The last three are the good pixels' mean, as a base and an
offset, and their squared deviations from it. -/
structure RowTotals where
  good : ℕ := 0
  bad : ℕ := 0
  sum : ℚ := 0
  sumSq : ℚ := 0
  smallest : Extended := .posInf
  largest : Extended := .negInf
  base : ℚ := 0
  offset : ℚ := 0
  sumSqDev : ℚ := 0

namespace RowTotals

/-- The spread of a row's good pixels. -/
def spread (totals : RowTotals) : Spread ℚ :=
  ⟨totals.good, totals.base, totals.offset, totals.sumSqDev⟩

/-- The totals of two sets of pixels, put together. -/
def combine (totals other : RowTotals) : RowTotals :=
  let spread := totals.spread.merge other.spread
  { good := totals.good + other.good
    bad := totals.bad + other.bad
    sum := totals.sum + other.sum
    sumSq := totals.sumSq + other.sumSq
    smallest := Extended.min totals.smallest other.smallest
    largest := Extended.max totals.largest other.largest
    base := spread.base
    offset := spread.offset
    sumSqDev := spread.sumSqDev }

/-- The extrema are numbers, or the identities of nothing. -/
structure Bounded (totals : RowTotals) : Prop where
  smallest : totals.smallest.IsLower
  largest : totals.largest.IsUpper

theorem bounded_default : Bounded {} := ⟨.inl rfl, .inl rfl⟩

variable {a b c : RowTotals}

theorem Bounded.combine (ha : Bounded a) (hb : Bounded b) : Bounded (a.combine b) :=
  ⟨ha.smallest.closed hb.smallest, ha.largest.closed hb.largest⟩

theorem spread_combine (a b : RowTotals) : (a.combine b).spread = a.spread.merge b.spread := by
  have hcount : (a.spread.merge b.spread).count = a.good + b.good :=
    Spread.count_merge (Nat.cast_nonneg _) (Nat.cast_nonneg _)
  simp only [combine, spread, Nat.cast_add]
  rw [← hcount]
  rfl

theorem combine_default (ha : Bounded a) : a.combine {} = a := by
  have hspread : a.spread.merge (spread {}) = a.spread := if_pos le_rfl
  simp only [combine, hspread, ha.smallest.min_posInf, ha.largest.max_negInf, add_zero]
  rfl

/-- **Putting totals together is associative.** -/
theorem combine_assoc (ha : Bounded a) (hb : Bounded b) (hc : Bounded c) :
    (a.combine b).combine c = a.combine (b.combine c) := by
  have hspread : (a.combine b).spread.merge c.spread = a.spread.merge (b.combine c).spread := by
    rw [spread_combine, spread_combine, Spread.merge_assoc]
  unfold combine at hspread ⊢
  simp only at hspread ⊢
  rw [hspread, ha.smallest.assoc hb.smallest hc.smallest, ha.largest.assoc hb.largest hc.largest]
  simp only [add_assoc]

/-- The totals of some rows, one after another. -/
def foldRows (rows : List RowTotals) : RowTotals := rows.foldl combine {}

theorem foldRows_append_singleton (rows : List RowTotals) (row : RowTotals) :
    foldRows (rows ++ [row]) = (foldRows rows).combine row := List.foldl_concat _ _ _ _

theorem foldRows_bounded {rows : List RowTotals} (h : ∀ row ∈ rows, Bounded row) :
    Bounded (foldRows rows) := by
  induction rows using List.reverseRecOn with
  | nil => exact bounded_default
  | append_singleton rows row ih =>
    rw [foldRows_append_singleton]
    exact (ih fun r hr => h r (by simp [hr])).combine (h row (by simp))

/-- **Rows folded in two parts**, and the parts put together, are the rows folded. -/
theorem foldRows_append {rows others : List RowTotals} (h : ∀ row ∈ rows, Bounded row)
    (h' : ∀ row ∈ others, Bounded row) :
    foldRows (rows ++ others) = (foldRows rows).combine (foldRows others) := by
  induction others using List.reverseRecOn with
  | nil =>
    rw [List.append_nil]
    exact (combine_default (foldRows_bounded h)).symm
  | append_singleton others row ih =>
    have hothers : ∀ r ∈ others, Bounded r := fun r hr => h' r (by simp [hr])
    rw [← List.append_assoc, foldRows_append_singleton, foldRows_append_singleton, ih hothers,
      combine_assoc (foldRows_bounded h) (foldRows_bounded hothers) (h' row (by simp))]

/-- Rows whose spreads describe some numbers describe them all when they are folded. -/
theorem foldRows_describes {rows : List (RowTotals × Multiset ℚ)}
    (h : ∀ row ∈ rows, row.1.spread.Describes row.2) :
    (foldRows (rows.map Prod.fst)).spread.Describes (rows.map Prod.snd).sum := by
  induction rows using List.reverseRecOn with
  | nil => exact Spread.none_describes
  | append_singleton rows row ih =>
    rw [List.map_append, List.map_append, List.sum_append, List.map_singleton, List.map_singleton,
      List.sum_singleton, foldRows_append_singleton, spread_combine]
    exact (ih fun r hr => h r (by simp [hr])).merge (h row (by simp))

end RowTotals

/-! ## The per-pixel loop -/

section Accumulate

/-- Whether the loop passes over a pixel: the mask, when there is one, does not select it. -/
def skipped (masked : Bool) (selected : ℕ → UInt8) (maskStride i : ℕ) : Prop :=
  masked = true ∧ selected (i * maskStride) = 0

instance (masked : Bool) (selected : ℕ → UInt8) (maskStride i : ℕ) :
    Decidable (skipped masked selected maskStride i) := inferInstanceAs (Decidable (_ ∧ _))

/-- The good pixels of a span, in its order. -/
def goodPixels (masked : Bool) (row : ℕ → Option ℚ) (stride count : ℕ) (selected : ℕ → UInt8)
    (maskStride : ℕ) : List ℚ :=
  (List.range count).filterMap fun i =>
    if skipped masked selected maskStride i then none else row (i * stride)

/-- The value a span's distances are taken from: its first finite pixel, or zero. -/
def deviationShift (masked : Bool) (row : ℕ → Option ℚ) (stride count : ℕ) (selected : ℕ → UInt8)
    (maskStride : ℕ) : ℚ :=
  (goodPixels masked row stride count selected maskStride).headD 0

/-- What the loop over a span's pixels counts. -/
structure SpanTotals where
  good : ℕ := 0
  selectedCount : ℕ := 0
  sum : ℚ := 0
  sumSq : ℚ := 0
  smallest : Extended := .posInf
  largest : Extended := .negInf
  distanceSum : ℚ := 0
  distanceSumSq : ℚ := 0

/-- One selected pixel into a span's totals. What is not finite counts zero to the sums, and the
identities to the extrema. -/
def SpanTotals.take (shift : ℚ) (totals : SpanTotals) (value : Option ℚ) : SpanTotals :=
  let clean := value.getD 0
  let distance := if value.isSome then clean - shift else 0
  { good := totals.good + if value.isSome then 1 else 0
    selectedCount := totals.selectedCount + 1
    sum := totals.sum + clean
    sumSq := totals.sumSq + clean * clean
    smallest := Extended.min totals.smallest (if value.isSome then .finite clean else .posInf)
    largest := Extended.max totals.largest (if value.isSome then .finite clean else .negInf)
    distanceSum := totals.distanceSum + distance
    distanceSumSq := totals.distanceSumSq + distance * distance }

/-- The loop over a span's pixels. Without deviations their distances are left out. -/
def spanTotals (masked : Bool) (row : ℕ → Option ℚ) (stride count : ℕ) (selected : ℕ → UInt8)
    (maskStride : ℕ) (shift : ℚ) : SpanTotals :=
  (List.range count).foldl (fun totals i =>
    if skipped masked selected maskStride i then totals
      else totals.take shift (row (i * stride))) {}

/-- A span of a row into its totals. -/
def accumulateRow (masked deviations : Bool) (row : ℕ → Option ℚ) (stride count : ℕ)
    (selected : ℕ → UInt8) (maskStride : ℕ) (totals : RowTotals) : RowTotals :=
  let shift := if deviations then deviationShift masked row stride count selected maskStride else 0
  let span := spanTotals masked row stride count selected maskStride shift
  -- before the count takes the span in: the spread so far is of what came before it
  let spread := if deviations then
      totals.spread.merge (.ofSpan span.good shift span.distanceSum span.distanceSumSq)
    else totals.spread
  { good := totals.good + span.good
    bad := totals.bad + (span.selectedCount - span.good)
    sum := totals.sum + span.sum
    sumSq := totals.sumSq + span.sumSq
    smallest := Extended.min totals.smallest span.smallest
    largest := Extended.max totals.largest span.largest
    base := spread.base
    offset := spread.offset
    sumSqDev := spread.sumSqDev }

/-- One span into a row's totals, by the loop that its stride and its mask call for. -/
def accumulateSpan (deviations : Bool) (pixels : ℕ → Option ℚ) (stride count : ℕ)
    (selected : Option (ℕ → UInt8)) (maskStep : ℕ) (totals : RowTotals) : RowTotals :=
  match selected with
  | none => accumulateRow false deviations pixels stride count (fun _ => 0) 1 totals
  | some selected => accumulateRow true deviations pixels stride count selected maskStep totals

/-- The good pixels of a span, by the mask it has. -/
def spanPixels (pixels : ℕ → Option ℚ) (stride count : ℕ) (selected : Option (ℕ → UInt8))
    (maskStep : ℕ) : List ℚ :=
  match selected with
  | none => goodPixels false pixels stride count (fun _ => 0) 1
  | some selected => goodPixels true pixels stride count selected maskStep

/-- What the loop has counted of the good pixels it has come past. -/
structure SpanTotals.Counts (shift : ℚ) (totals : SpanTotals) (good : List ℚ) : Prop where
  good_eq : totals.good = good.length
  good_le : totals.good ≤ totals.selectedCount
  sum_eq : totals.sum = good.sum
  sumSq_eq : totals.sumSq = (good.map fun v => v * v).sum
  smallest : totals.smallest.IsLower
  largest : totals.largest.IsUpper
  distanceSum_eq : totals.distanceSum = (good.map fun v => v - shift).sum
  distanceSumSq_eq : totals.distanceSumSq = (good.map fun v => (v - shift) * (v - shift)).sum

theorem SpanTotals.Counts.take {shift : ℚ} {totals : SpanTotals} {good : List ℚ}
    (h : totals.Counts shift good) : ∀ value : Option ℚ,
      (totals.take shift value).Counts shift (good ++ value.toList)
  | none => by
    rw [Option.toList_none, List.append_nil]
    refine ⟨h.good_eq, h.good_le.trans (Nat.le_succ _), ?_, ?_, h.smallest.closed (.inl rfl),
      h.largest.closed (.inl rfl), ?_, ?_⟩
    · simp [SpanTotals.take, h.sum_eq]
    · simp [SpanTotals.take, h.sumSq_eq]
    · simp [SpanTotals.take, h.distanceSum_eq]
    · simp [SpanTotals.take, h.distanceSumSq_eq]
  | some v => by
    refine ⟨?_, Nat.succ_le_succ h.good_le, ?_, ?_, h.smallest.closed (.inr ⟨v, rfl⟩),
      h.largest.closed (.inr ⟨v, rfl⟩), ?_, ?_⟩
    · simp [SpanTotals.take, h.good_eq]
    · simp [SpanTotals.take, h.sum_eq]
    · simp [SpanTotals.take, h.sumSq_eq]
    · simp [SpanTotals.take, h.distanceSum_eq]
    · simp [SpanTotals.take, h.distanceSumSq_eq]

variable (masked : Bool) (row : ℕ → Option ℚ) (stride count : ℕ) (selected : ℕ →
  UInt8) (maskStride : ℕ)

/-- The loop counts the good pixels of its span. -/
theorem spanTotals_counts (shift : ℚ) :
    (spanTotals masked row stride count selected maskStride shift).Counts shift
      (goodPixels masked row stride count selected maskStride) := by
  unfold spanTotals goodPixels
  induction count with
  | zero => exact ⟨rfl, le_rfl, rfl, rfl, .inl rfl, .inl rfl, rfl, rfl⟩
  | succ count ih =>
    rw [List.range_succ, List.foldl_concat, List.filterMap_append]
    by_cases hskip : skipped masked selected maskStride count
    · simpa [hskip] using ih
    · rw [if_neg hskip]
      cases hvalue : row (count * stride) with
      | none => simpa [hskip, hvalue] using ih.take none
      | some v => simpa [hskip, hvalue] using ih.take (some v)

theorem accumulateRow_bounded (deviations : Bool) {totals : RowTotals} (h : totals.Bounded) :
    (accumulateRow masked deviations row stride count selected maskStride totals).Bounded :=
  have hspan := spanTotals_counts masked row stride count selected maskStride
    (if deviations then deviationShift masked row stride count selected maskStride else 0)
  ⟨h.smallest.closed hspan.smallest, h.largest.closed hspan.largest⟩

/-- **A span's good pixels join those its row's spread describes.** -/
theorem accumulateRow_describes {totals : RowTotals} {values : Multiset ℚ}
    (h : totals.spread.Describes values) :
    (accumulateRow masked true row stride count selected maskStride totals).spread.Describes
      (values + goodPixels masked row stride count selected maskStride) := by
  have hspan := spanTotals_counts masked row stride count selected maskStride
    (deviationShift masked row stride count selected maskStride)
  set shift := deviationShift masked row stride count selected maskStride
  set span := spanTotals masked row stride count selected maskStride shift
  have hof : Spread.Describes (.ofSpan span.good shift span.distanceSum span.distanceSumSq)
      (goodPixels masked row stride count selected maskStride) := by
    have hdescribes := Spread.ofSpan_describes
      (goodPixels masked row stride count selected maskStride) shift
    rw [Multiset.coe_card, Multiset.map_coe, Multiset.sum_coe, Multiset.map_coe, Multiset.sum_coe,
      ← hspan.good_eq, ← hspan.distanceSum_eq, ← hspan.distanceSumSq_eq] at hdescribes
    exact hdescribes
  have hmerged := h.merge hof
  refine ⟨?_, hmerged.mean_eq, hmerged.sumSqDev_eq⟩
  change ((totals.good + span.good : ℕ) : ℚ) = _
  rw [Multiset.card_add, Nat.cast_add, Nat.cast_add, ← h.count_eq, hspan.good_eq]
  rfl

theorem accumulateSpan_describes (pixels : ℕ → Option ℚ)
    (selected : Option (ℕ → UInt8)) (maskStep : ℕ)
    {totals : RowTotals} {values : Multiset ℚ} (h : totals.spread.Describes values) :
    (accumulateSpan true pixels stride count selected maskStep totals).spread.Describes
      (values + spanPixels pixels stride count selected maskStep) := by
  cases selected with
  | none => exact accumulateRow_describes false pixels stride count (fun _ => 0) 1 h
  | some selected => exact accumulateRow_describes true pixels stride count selected maskStep h

/-- A span leaves the extrema of a row numbers, or those of nothing. -/
theorem accumulateSpan_bounded (deviations : Bool) (pixels : ℕ → Option ℚ)
    (selected : Option (ℕ → UInt8)) (maskStep : ℕ) {totals : RowTotals} (h : totals.Bounded) :
    (accumulateSpan deviations pixels stride count selected maskStep totals).Bounded := by
  cases selected with
  | none => exact accumulateRow_bounded false pixels stride count (fun _ => 0) 1 deviations h
  | some selected =>
    exact accumulateRow_bounded true pixels stride count selected maskStep deviations h

end Accumulate

namespace RowTotals

/-- The totals of a row of pixels. -/
def pixelRow (pixels : List (Option ℚ)) : RowTotals :=
  accumulateSpan true (fun i => pixels.getD i none) 1 pixels.length none 1 {}

theorem pixelRow_bounded (pixels : List (Option ℚ)) : (pixelRow pixels).Bounded :=
  accumulateSpan_bounded 1 _ true _ none 1 bounded_default

theorem pixelRow_describes (pixels : List (Option ℚ)) :
    (pixelRow pixels).spread.Describes (pixels.filterMap id : List ℚ) := by
  have h : (pixelRow pixels).spread.Describes _ :=
    accumulateSpan_describes 1 pixels.length
      (fun i => pixels.getD i none) none 1 Spread.none_describes
  have hpixels : spanPixels (fun i => pixels.getD i none) 1 pixels.length none 1 =
      pixels.filterMap id := by
    conv_rhs => rw [← map_getD_range pixels none, List.filterMap_map]
    simp [spanPixels, goodPixels, skipped]
  rwa [hpixels, zero_add] at h

end RowTotals

end CartaZarr
