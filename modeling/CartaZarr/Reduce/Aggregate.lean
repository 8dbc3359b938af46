import CartaZarr.Reduce.GrowingHistogram
import Mathlib.Algebra.Order.BigOperators.Group.Finset

/-!
# Re-aggregating a histogram that grew

`aggregate` puts the counts of a histogram into the bins a caller wants, splitting each bin between
those it overlaps. Nothing is lost, and below an edge of the caller's the counts are off by no more
than the one bin that the edge cuts (`Places.aggregate`).
-/

namespace CartaZarr

/-- `std::clamp` between zero and the last bin. -/
def clampBin (bin last : ℤ) : ℤ := if bin < 0 then 0 else if last < bin then last else bin

namespace GrowingHistogram

/-- What of `[start, stop)` a target bin covers. -/
def piece (lower targetWidth start stop : ℚ) (bin : ℤ) : ℚ :=
  let low := max start (lower + targetWidth * bin)
  let high := min stop (lower + targetWidth * (bin + 1))
  if low < high then high - low else 0

/-- Split one provisional bin between the target bins it overlaps. -/
def spread (h : GrowingHistogram) (bins : ℕ) (lower targetWidth : ℚ) (i : ℕ) (out : List ℕ) :
    List ℕ :=
  let lastBin : ℤ := bins - 1
  let count := h.counts.getD i 0
  if count = 0 then out
  else
    let start := h.lower + h.width * i
    let stop := start + h.width
    let first := clampBin ⌊(start - lower) / targetWidth⌋ lastBin
    let last := clampBin ⌊(stop - lower) / targetWidth⌋ lastBin
    if first = last then out.modify first.toNat (· + count)
    else
      let shares := (List.range (last - first + 1).toNat).map fun (offset : ℕ) =>
        piece lower targetWidth start stop (first + offset)
      if ¬ 0 < shares.sum then out.modify first.toNat (· + count)
      else addFrom first.toNat (apportion count shares) out

/-- `Aggregate`. -/
def aggregate (h : GrowingHistogram) (bins : ℕ) (lower upper : ℚ) : List ℕ :=
  let out := List.replicate bins 0
  if ¬ lower < upper then out.set 0 h.counts.sum
  else
    let targetWidth := (upper - lower) / bins
    forRange h.counts.length (h.spread bins lower targetWidth) out

/-- What a count that lies in `[start, stop)` gives below an edge. -/
structure Below (edge start stop : ℚ) (count below : ℕ) : Prop where
  le : below ≤ count
  all : stop ≤ edge → below = count
  none : edge ≤ start → below = 0

variable {h : GrowingHistogram} {n bins : ℕ} {lower targetWidth start stop : ℚ}

theorem clampBin_bounds {bin last : ℤ} (hlast : 0 ≤ last) :
    0 ≤ clampBin bin last ∧ clampBin bin last ≤ last := by
  rw [clampBin]
  split
  · omega
  · split <;> omega

/-! ## Pieces -/

theorem piece_nonneg (lower targetWidth start stop : ℚ) (bin : ℤ) :
    0 ≤ piece lower targetWidth start stop bin := by
  rw [piece]
  split
  · linarith
  · exact le_rfl

/-- A target bin that begins where the bin ends covers none of it. -/
theorem piece_of_stop_le {bin : ℤ} (hstop : stop ≤ lower + targetWidth * bin) :
    piece lower targetWidth start stop bin = 0 := by
  rw [piece]
  exact if_neg (not_lt.2 ((min_le_left _ _).trans (hstop.trans (le_max_right _ _))))

/-- The first of several target bins a bin overlaps covers some of it. -/
theorem piece_first_pos {last : ℤ} (htarget : 0 < targetWidth) (hlast : 0 ≤ last)
    (hlt : clampBin ⌊(start - lower) / targetWidth⌋ last <
      clampBin ⌊(stop - lower) / targetWidth⌋ last) :
    0 < piece lower targetWidth start stop (clampBin ⌊(start - lower) / targetWidth⌋ last) := by
  change clampBin (Grid.cell lower targetWidth start) last <
    clampBin (Grid.cell lower targetWidth stop) last at hlt
  change 0 < piece lower targetWidth start stop (clampBin (Grid.cell lower targetWidth start) last)
  generalize hfirst : clampBin (Grid.cell lower targetWidth start) last = first at hlt ⊢
  have hstart : start < lower + targetWidth * ((first + 1 : ℤ) : ℚ) := by
    rw [← Grid.cell_lt_iff htarget]
    rw [clampBin] at hfirst hlt
    have := @clampBin_bounds (Grid.cell lower targetWidth stop) last hlast
    rw [clampBin] at this
    split_ifs at * <;> omega
  have hstop : lower + targetWidth * ((first + 1 : ℤ) : ℚ) ≤ stop := by
    rw [← Grid.le_cell_iff htarget]
    have := @clampBin_bounds (Grid.cell lower targetWidth start) last hlast
    rw [clampBin] at hfirst hlt this
    split_ifs at * <;> omega
  push_cast at hstart hstop
  have hwidth : lower + targetWidth * first < lower + targetWidth * (first + 1) := by linarith
  rw [piece]
  rw [min_eq_right hstop, if_pos (max_lt hstart hwidth)]
  exact sub_pos.2 (max_lt hstart hwidth)

theorem clampBin_mono {bin bin' last : ℤ} (hlast : 0 ≤ last) (h : bin ≤ bin') :
    clampBin bin last ≤ clampBin bin' last := by
  rw [clampBin, clampBin]
  split_ifs <;> omega

/-! ## One bin -/

/-- The parts of a bin's count, from the target bin `first` on: none is put beyond an edge that the
bin does not reach. -/
structure Split (bins : ℕ) (edge : ℕ → ℚ) (start stop : ℚ) (count first : ℕ)
    (parts : List ℕ) : Prop where
  fits : first + parts.length ≤ bins
  sum_eq : parts.sum = count
  above : ∀ k, 0 < k → k < bins → stop ≤ edge k → ∀ j, k ≤ first + j → parts.getD j 0 = 0
  below : ∀ k, 0 < k → k < bins → edge k ≤ start → ∀ j, first + j < k → parts.getD j 0 = 0

theorem addFrom_singleton (first count : ℕ) (out : List ℕ) :
    addFrom first [count] out = out.modify first (· + count) := rfl

/-- The target bin a bin begins in, of those there are. -/
theorem clampBin_cell_bounds {k : ℕ} (htarget : 0 < targetWidth) (hk : 0 < k)
    (hbins : k < bins) {v : ℚ} :
    (k : ℤ) ≤ clampBin ⌊(v - lower) / targetWidth⌋ (bins - 1) ↔ lower + targetWidth * k ≤ v := by
  have h := @Grid.le_cell_iff ℚ _ _ _ _ lower targetWidth v k htarget
  rw [Int.cast_natCast] at h
  rw [← h, Grid.cell, clampBin]
  split_ifs <;> omega

/-- **A bin is split** between the target bins it overlaps. -/
theorem exists_split (hw : 0 < h.width) (htarget : 0 < targetWidth) (hbins : 1 ≤ bins) (i : ℕ) :
    ∃ first parts, (∀ out, h.spread bins lower targetWidth i out = addFrom first parts out) ∧
      Split bins (fun k => lower + targetWidth * k) (h.lower + h.width * i)
        (h.lower + h.width * i + h.width) (h.counts.getD i 0) first parts := by
  by_cases hcount : h.counts.getD i 0 = 0
  · refine ⟨0, [], fun out => ?_, ?_⟩
    · rw [spread]
      exact if_pos hcount
    · exact ⟨by simp, hcount.symm, by simp, by simp⟩
  have hlt : h.lower + h.width * i < h.lower + h.width * i + h.width := by linarith
  generalize hstart : h.lower + h.width * i = start at hlt ⊢
  generalize hstop : start + h.width = stop at hlt ⊢
  have hlast : (0 : ℤ) ≤ (bins : ℤ) - 1 := by omega
  have hfirstb := @clampBin_bounds ⌊(start - lower) / targetWidth⌋ (bins - 1) hlast
  have hlastb := @clampBin_bounds ⌊(stop - lower) / targetWidth⌋ (bins - 1) hlast
  have hstartk := fun k (hk : 0 < k) (hkb : k < bins) =>
    @clampBin_cell_bounds bins lower targetWidth k htarget hk hkb start
  have hpiece := @piece_first_pos lower targetWidth start stop (bins - 1) htarget hlast
  have hle : clampBin ⌊(start - lower) / targetWidth⌋ (bins - 1) ≤
      clampBin ⌊(stop - lower) / targetWidth⌋ (bins - 1) :=
    clampBin_mono hlast (Int.floor_le_floor (div_le_div_of_nonneg_right (by linarith) htarget.le))
  generalize hfirst : clampBin ⌊(start - lower) / targetWidth⌋ (bins - 1) = first at *
  generalize hlastv : clampBin ⌊(stop - lower) / targetWidth⌋ (bins - 1) = last at *
  by_cases hsame : first = last
  · refine ⟨first.toNat, [h.counts.getD i 0], fun out => ?_, ?_⟩
    · rw [spread]
      simp only [if_neg hcount, hstart, hstop, hfirst, hlastv, if_pos hsame, addFrom_singleton]
    · refine ⟨by simp; omega, by simp, fun k hk hkb hedge j hj => ?_, fun k hk hkb hedge j hj => ?_⟩
      · have := (not_congr (hstartk k hk hkb)).2 (by linarith)
        rw [List.getD_eq_default _ _ (by simp; omega)]
      · have := (hstartk k hk hkb).2 hedge
        omega
  · -- the first of the target bins overlapped covers some of it, and none that begins at its end
    -- does
    set shares := (List.range (last - first + 1).toNat).map fun (offset : ℕ) =>
      piece lower targetWidth start stop (first + offset) with hshares
    have hnonneg : ∀ share ∈ shares, 0 ≤ share := fun share hshare => by
      obtain ⟨offset, -, rfl⟩ := List.mem_map.1 hshare
      exact piece_nonneg _ _ _ _ _
    have hmem : piece lower targetWidth start stop first ∈ shares :=
      List.mem_map.2 ⟨0, List.mem_range.2 (by omega), by simp⟩
    have hcovered : 0 < shares.sum :=
      lt_of_lt_of_le (hpiece (by omega)) (List.single_le_sum hnonneg _ hmem)
    have hlen : (apportion (h.counts.getD i 0) shares).length = (last - first + 1).toNat := by
      rw [apportion_length, hshares, List.length_map, List.length_range]
    refine ⟨first.toNat, apportion (h.counts.getD i 0) shares, fun out => ?_, ?_⟩
    · rw [spread]
      simp only [if_neg hcount, hstart, hstop, hfirst, hlastv, if_neg hsame, ← hshares,
        if_neg (not_not.2 hcovered)]
    · refine ⟨by rw [hlen]; omega, apportion_sum hnonneg hcovered, fun k hk hkb hedge j hj => ?_,
        fun k hk hkb hedge j hj => ?_⟩
      · by_cases hin : j < (last - first + 1).toNat
        · refine apportion_getD_of_zero hnonneg hcovered ?_
          rw [hshares, List.getD_eq_getElem _ _ (by simpa using hin),
            List.getElem_map, List.getElem_range]
          refine piece_of_stop_le (hedge.trans ?_)
          have hkj : (k : ℚ) ≤ ((first + (j : ℤ) : ℤ) : ℚ) := by
            have : (k : ℤ) ≤ first + j := by omega
            exact_mod_cast this
          have := mul_le_mul_of_nonneg_left hkj htarget.le
          linarith
        · exact List.getD_eq_default _ _ (by rw [hlen]; omega)
      · have := (hstartk k hk hkb).2 hedge
        omega

/-! ## All bins -/

theorem Split.counts_below {edge : ℕ → ℚ} {count first k : ℕ} {parts : List ℕ}
    (hs : Split bins edge start stop count first parts) (hk : 0 < k) (hkb : k < bins) :
    Below (edge k) start stop count (parts.take (k - first)).sum := by
  have hsum : (parts.take (k - first)).sum + (parts.drop (k - first)).sum = count := by
    rw [← List.sum_append, List.take_append_drop, hs.sum_eq]
  refine ⟨by omega, fun hedge => ?_, fun hedge => ?_⟩
  · have hrest : (parts.drop (k - first)).sum = 0 := List.sum_eq_zero fun x hx => by
      obtain ⟨j, hj, rfl⟩ := List.mem_iff_getElem.1 hx
      rw [List.getElem_drop, ← List.getD_eq_getElem _ 0]
      exact hs.above k hk hkb hedge _ (by omega)
    omega
  · refine List.sum_eq_zero fun x hx => ?_
    obtain ⟨j, hj, rfl⟩ := List.mem_iff_getElem.1 hx
    rw [List.length_take] at hj
    rw [List.getElem_take, ← List.getD_eq_getElem _ 0]
    exact hs.below k hk hkb hedge _ (by omega)

/-- What the first `m` bins give below an edge of the target bins. -/
theorem spread_passes (hw : 0 < h.width) (htarget : 0 < targetWidth) (hbins : 1 ≤ bins) (m : ℕ) :
    (forRange m (h.spread bins lower targetWidth) (List.replicate bins 0)).length = bins ∧
    (forRange m (h.spread bins lower targetWidth) (List.replicate bins 0)).sum =
      ∑ i ∈ Finset.range m, h.counts.getD i 0 ∧
    ∀ k, 0 < k → k < bins → ∃ below : ℕ → ℕ,
      ((forRange m (h.spread bins lower targetWidth) (List.replicate bins 0)).take k).sum =
        ∑ i ∈ Finset.range m, below i ∧
      ∀ i < m, Below (lower + targetWidth * k) (h.lower + h.width * i)
        (h.lower + h.width * i + h.width) (h.counts.getD i 0) (below i) := by
  induction m with
  | zero =>
    refine ⟨List.length_replicate, by simp, fun k _ _ => ⟨fun _ => 0, ?_, by simp⟩⟩
    rw [forRange_zero, List.take_replicate]
    simp
  | succ m ih =>
    obtain ⟨hlen, hsum, hbelow⟩ := ih
    obtain ⟨first, parts, hspread, hs⟩ := @exists_split h bins lower targetWidth hw htarget hbins m
    have hfits := hs.fits
    rw [forRange_succ, hspread]
    refine ⟨by rw [addFrom_length, hlen], ?_, fun k hk hkb => ?_⟩
    · have h := @addFrom_sum_take bins first parts _ (by rw [hlen]; exact hfits)
      rw [List.take_of_length_le (by rw [addFrom_length, hlen]), List.take_of_length_le hlen.le,
        List.take_of_length_le (by omega)] at h
      rw [h, hsum, hs.sum_eq, Finset.sum_range_succ]
    · obtain ⟨below, hbelow, hall⟩ := hbelow k hk hkb
      refine ⟨fun i => if i = m then (parts.take (k - first)).sum else below i, ?_, fun i hi => ?_⟩
      · rw [addFrom_sum_take (by rw [hlen]; exact hfits), hbelow, Finset.sum_range_succ, if_pos rfl]
        congr 1
        exact Finset.sum_congr rfl fun i hi => (if_neg (Finset.mem_range.1 hi).ne).symm
      · by_cases him : i = m
        · subst him
          simpa only [if_true] using hs.counts_below hk hkb
        · simpa only [if_neg him] using hall i (by omega)

/-! ## What the answer says -/

/-- An edge cuts a bin. -/
def Straddles (h : GrowingHistogram) (i : ℕ) (edge : ℚ) : Prop :=
  h.lower + i * h.width < edge ∧ edge < h.lower + (i + 1) * h.width

/-- What is known below an edge that cuts no bin. -/
theorem Below.unique {edge : ℚ} {count a b : ℕ} (ha : Below edge start stop count a)
    (hb : Below edge start stop count b) (hcut : ¬ (start < edge ∧ edge < stop)) : a = b := by
  rcases le_or_gt edge start with hle | hlt
  · rw [ha.none hle, hb.none hle]
  · have hstop : stop ≤ edge := not_lt.1 fun h => hcut ⟨hlt, h⟩
    rw [ha.all hstop, hb.all hstop]

/-- Of the bins of a range, an edge cuts one. -/
theorem Straddles.unique (hw : 0 < h.width) {i j : ℕ} {edge : ℚ} (hi : h.Straddles i edge)
    (hj : h.Straddles j edge) : i = j := by
  -- the later of two bins begins where the other has ended
  have hlt : ∀ a b : ℕ, a < b → h.Straddles a edge → h.Straddles b edge → False := by
    intro a b hab ha hb
    have hle : ((a : ℚ) + 1) * h.width ≤ b * h.width :=
      mul_le_mul_of_nonneg_right (by exact_mod_cast hab) hw.le
    linarith [ha.2, hb.1]
  rcases Nat.lt_trichotomy i j with h' | h' | h'
  · exact (hlt i j h' hi hj).elim
  · exact h'
  · exact (hlt j i h' hj hi).elim

variable {values : List ℚ} {edge : ℚ}

/-- The values of a bin that are below an edge. -/
theorem Places.below (hp : h.Places n values) {i : ℕ} (hi : i < n) :
    Below edge (h.lower + h.width * i) (h.lower + h.width * i + h.width) (h.counts.getD i 0)
      (values.countP fun v => decide (h.cell v = i) && decide (v < edge)) := by
  have hin : ∀ v : ℚ, h.cell v = i →
      h.lower + h.width * i ≤ v ∧ v < h.lower + h.width * i + h.width := fun v hv => by
    have := (Grid.cell_eq_iff hp.width_pos).1 hv
    rw [Int.cast_natCast, mul_add, mul_one, ← add_assoc] at this
    exact this
  rw [hp.getD_eq i hi]
  refine ⟨List.countP_mono_left fun v _ hv => ?_, fun hstop => ?_, fun hstart => ?_⟩
  · rw [Bool.and_eq_true] at hv
    exact hv.1
  · refine List.countP_congr fun v _ => ?_
    rw [Bool.and_eq_true, and_iff_left_iff_imp, decide_eq_true_eq, decide_eq_true_eq]
    exact fun hv => (hin v hv).2.trans_le hstop
  · rw [List.countP_eq_zero]
    intro v _ hv
    rw [Bool.and_eq_true, decide_eq_true_eq, decide_eq_true_eq] at hv
    exact absurd (hstart.trans (hin v hv.1).1) (not_le.2 hv.2)

/-- What the bins hold is as many as there are values. -/
theorem Places.sum_counts (hp : h.Places n values) :
    ∑ i ∈ Finset.range n, h.counts.getD i 0 = values.length := by
  have hall := Grid.sum_countP_cell h.cell (fun _ => true) hp.cell_mem
  rw [List.countP_true] at hall
  rw [← hall]
  exact Finset.sum_congr rfl fun i hi => by
    rw [hp.getD_eq i (Finset.mem_range.1 hi)]
    simp only [Bool.and_true]

/-- The bins asked for are as many as asked for, and hold as many as there are values, over a range
of no width too. -/
theorem Places.aggregate_total (hp : h.Places n values) (hbins : 1 ≤ bins) (lower upper : ℚ) :
    (h.aggregate bins lower upper).length = bins ∧
    (h.aggregate bins lower upper).sum = values.length := by
  rw [← hp.sum_counts, GrowingHistogram.aggregate]
  by_cases hlt : lower < upper
  · have htarget : 0 < (upper - lower) / bins := div_pos (by linarith) (by exact_mod_cast hbins)
    obtain ⟨hlen, hsum, -⟩ := @spread_passes h bins lower _ hp.width_pos htarget hbins n
    simp only
    rw [if_neg (not_not.2 hlt), hp.length_eq]
    exact ⟨hlen, hsum⟩
  · obtain ⟨b, rfl⟩ : ∃ b, bins = b + 1 := ⟨bins - 1, by omega⟩
    have hcounts : h.counts.sum = ∑ i ∈ Finset.range n, h.counts.getD i 0 := by
      rw [← hp.length_eq]
      conv_lhs => rw [← map_getD_range h.counts 0]
      exact (Multiset.sum_coe _).symm
    simp only
    rw [if_pos hlt, ← hcounts]
    exact ⟨by simp, by simp [List.replicate_succ]⟩

/-- **Aggregating loses nothing**, and below an edge of the target bins it is off by at most the one
bin that the edge cuts. -/
theorem Places.aggregate (hp : h.Places n values) (hbins : 1 ≤ bins) {upper : ℚ}
    (hlt : lower < upper) :
    (h.aggregate bins lower upper).sum = values.length ∧
    ∀ k, 0 < k → k < bins →
      ((∀ i < n, ¬ h.Straddles i (lower + (upper - lower) / bins * k)) →
        ((h.aggregate bins lower upper).take k).sum =
          values.countP fun v => v < lower + (upper - lower) / bins * k) ∧
      ∀ i < n, h.Straddles i (lower + (upper - lower) / bins * k) →
        ((h.aggregate bins lower upper).take k).sum ≤
          (values.countP fun v => v < lower + (upper - lower) / bins * k) + h.counts.getD i 0 ∧
        (values.countP fun v => v < lower + (upper - lower) / bins * k) ≤
          ((h.aggregate bins lower upper).take k).sum + h.counts.getD i 0 := by
  have htarget : 0 < (upper - lower) / bins :=
    div_pos (by linarith) (by exact_mod_cast hbins)
  have haggregate : h.aggregate bins lower upper =
      forRange n (h.spread bins lower ((upper - lower) / bins)) (List.replicate bins 0) := by
    rw [GrowingHistogram.aggregate, ← hp.length_eq]
    exact if_neg (not_not.2 hlt)
  obtain ⟨-, -, hbelow⟩ := @spread_passes h bins lower _ hp.width_pos htarget hbins n
  refine ⟨(hp.aggregate_total hbins lower upper).2, ?_⟩
  rw [haggregate]
  intro k hk hkb
  obtain ⟨below, hgot, hbins'⟩ := hbelow k hk hkb
  generalize lower + (upper - lower) / bins * k = edge at *
  have htrue := Grid.sum_countP_cell h.cell (fun v => decide (v < edge)) hp.cell_mem
  have hcut : ∀ i, h.Straddles i edge ↔
      h.lower + h.width * i < edge ∧ edge < h.lower + h.width * i + h.width := fun i => by
    rw [Straddles, mul_comm (i : ℚ), add_mul, one_mul, mul_comm (i : ℚ), ← add_assoc]
  have hagree : ∀ i < n, ¬ h.Straddles i edge →
      below i = values.countP fun v => decide (h.cell v = i) && decide (v < edge) := fun i hi hno =>
    (hbins' i hi).unique (hp.below hi) (by rwa [← hcut])
  rw [hgot, ← htrue]
  refine ⟨fun hno => ?_, fun i hi hyes => ?_⟩
  · exact Finset.sum_congr rfl fun i hi =>
      hagree i (Finset.mem_range.1 hi) (hno i (Finset.mem_range.1 hi))
  · -- the other bins agree, and each side has of this one at most what it holds
    have hi' := Finset.mem_range.2 hi
    have hrest : ∑ j ∈ (Finset.range n).erase i, below j = ∑ j ∈ (Finset.range n).erase i,
        values.countP fun v => decide (h.cell v = j) && decide (v < edge) :=
      Finset.sum_congr rfl fun j hj => by
        obtain ⟨hne, hj⟩ := Finset.mem_erase.1 hj
        exact hagree j (Finset.mem_range.1 hj) fun hyes' => hne (hyes'.unique hp.width_pos hyes)
    have h1 := (hbins' i hi).le
    have h2 := (@Places.below h n values edge hp i hi).le
    rw [← Finset.add_sum_erase _ _ hi', ← Finset.add_sum_erase _ _ hi', hrest]
    omega

end GrowingHistogram

/-- **What a histogram that grows holds, and what re-aggregating it gives.** For values of any kind,
in any order, `Add` ends; every value is in a bin and each bin holds the number of values in it.
Over any range the counts asked for add up to the number of values, and below an edge between them
they are off by at most the bin that the edge cuts, and not at all where it cuts none. -/
theorem growingHistogram_exact {n : ℕ} (hn : 2 ≤ n) (heven : Even n) (spacing : ℚ → ℚ)
    (hspacing : ∀ x, 0 < spacing x) (values : List ℚ) :
    ∃ h : GrowingHistogram,
      (∃ enough, ∀ fuel ≥ enough, (GrowingHistogram.ofBins n).addAll spacing fuel values = some h) ∧
      h.Counts n values ∧
      ∀ bins ≥ 1, ∀ lower upper : ℚ, lower < upper →
        (h.aggregate bins lower upper).sum = values.length ∧
        ∀ k, 0 < k → k < bins →
          ((∀ i < n, ¬ h.Straddles i (lower + (upper - lower) / bins * k)) →
            ((h.aggregate bins lower upper).take k).sum =
              values.countP fun v => v < lower + (upper - lower) / bins * k) ∧
          ∀ i < n, h.Straddles i (lower + (upper - lower) / bins * k) →
            ((h.aggregate bins lower upper).take k).sum ≤
              (values.countP fun v => v < lower + (upper - lower) / bins * k) + h.counts.getD i 0 ∧
            (values.countP fun v => v < lower + (upper - lower) / bins * k) ≤
              ((h.aggregate bins lower upper).take k).sum + h.counts.getD i 0 := by
  obtain ⟨h, hf, hrun⟩ := (GrowingHistogram.follows_ofBins n).addAll hn heven hspacing values
  rw [List.nil_append] at hf
  exact ⟨h, hrun, GrowingHistogram.places_iff.1 hf.places,
    fun bins hbins lower upper hlt => hf.places.aggregate hbins hlt⟩

/-- A range of four bins grows downward and upward, and its three values are put in four others. -/
theorem growingHistogram_exact_bothWays :
    ∃ h : GrowingHistogram,
      (∃ enough, ∀ fuel ≥ enough, (GrowingHistogram.ofBins 4).addAll (fun _ => 2) fuel
        [16777216, 16777211, 16777226] = some h) ∧
      h.Counts 4 [16777216, 16777211, 16777226] ∧
      (h.aggregate 4 16777211 16777226).sum = 3 := by
  obtain ⟨h, hrun, hcounts, haggregate⟩ := growingHistogram_exact (by decide : 2 ≤ 4) (by decide)
    (fun _ => 2) (fun _ => by norm_num) [16777216, 16777211, 16777226]
  exact ⟨h, hrun, hcounts, (haggregate 4 (by decide) 16777211 16777226 (by norm_num)).1⟩

example : ((GrowingHistogram.ofBins 4).addAll (fun _ => 2) 2 [16777216, 16777211, 16777226]).map
    (GrowingHistogram.aggregate · 4 16777204 16777236) = some [1, 1, 1, 0] := by decide +kernel

example : ((GrowingHistogram.ofBins 4).addAll (fun _ => 2) 0 [16777220, 16777220, 16777220]).map
    (GrowingHistogram.aggregate · 2 16777219 16777223) = some [2, 1] := by decide +kernel

end CartaZarr
