import CartaZarr.Foundations.Apportion
import CartaZarr.Foundations.Grid
import CartaZarr.Foundations.WhileLoop
import Mathlib.Algebra.Group.Nat.Even
import Mathlib.Algebra.Order.Floor.Semifield
import Mathlib.Data.Rat.Floor

/-!
# A histogram whose range grows

The histogram of a walk begins around the first value it is given, as narrow as values there can be,
and doubles its range to either side until each value is in it. A doubling merges the bins in pairs,
and what is counted so far is in one half of the new range. The arithmetic here is exact, over the
rationals.

Every value added is in a bin, and each bin holds the number of values in it (`Places.count`).
-/

namespace CartaZarr

/-- `GrowingHistogram`: its bins, the range they divide, and whether a value has placed it. -/
structure GrowingHistogram where
  counts : List ℕ
  lower : ℚ
  width : ℚ
  seeded : Bool
  deriving DecidableEq

namespace GrowingHistogram

/-- A histogram that has seen nothing. -/
def ofBins (bins : ℕ) : GrowingHistogram := ⟨List.replicate bins 0, 0, 1, false⟩

/-- Double the range to one side. Bins `2m` and `2m + 1` become bin `m` of the half they are now. -/
def grow (upward : Bool) (h : GrowingHistogram) : GrowingHistogram :=
  let half := h.counts.length / 2
  { h with
    counts := forRange half
      (fun m merged => merged.set (if upward then m else half + m)
        (h.counts.getD (2 * m) 0 + h.counts.getD (2 * m + 1) 0))
      (List.replicate h.counts.length 0)
    lower := if upward then h.lower else h.lower - h.width * h.counts.length
    width := h.width * 2 }

/-- A first range around the first value, in bins as wide as values are apart there. -/
def seed (spacing : ℚ) (v : ℚ) (h : GrowingHistogram) : GrowingHistogram :=
  { h with width := spacing, lower := v - spacing * (h.counts.length / 2 : ℕ), seeded := true }

/-- Count a value in the bin it is in. -/
def count (v : ℚ) (h : GrowingHistogram) : GrowingHistogram :=
  let bin := ⌊(v - h.lower) / h.width⌋₊
  let bin := if h.counts.length ≤ bin then h.counts.length - 1 else bin
  { h with counts := h.counts.modify bin (· + 1) }

/-- `Add`. What values are apart around one of them is `spacing` of its magnitude. -/
def add (spacing : ℚ → ℚ) (fuel : ℕ) (h : GrowingHistogram) (v : ℚ) : Option GrowingHistogram := do
  let h := if h.seeded then h else h.seed (spacing |v|) v
  let h ← whileLoop (fun h => v < h.lower) (grow false) fuel h
  let h ← whileLoop (fun h => h.lower + h.width * h.counts.length ≤ v) (grow true) fuel h
  pure (h.count v)

/-- Add values one after another. -/
def addAll (spacing : ℚ → ℚ) (fuel : ℕ) (h : GrowingHistogram) (values : List ℚ) :
    Option GrowingHistogram := values.foldlM (add spacing fuel) h

/-- A value is in a bin. -/
def InBin (h : GrowingHistogram) (i : ℕ) (v : ℚ) : Prop :=
  h.lower + i * h.width ≤ v ∧ v < h.lower + (i + 1) * h.width

instance (h : GrowingHistogram) (i : ℕ) (v : ℚ) : Decidable (h.InBin i v) :=
  inferInstanceAs (Decidable (_ ∧ _))

/-- Every value is in a bin, and each of the `n` bins holds the number of values in it. -/
structure Counts (h : GrowingHistogram) (n : ℕ) (values : List ℚ) : Prop where
  length_eq : h.counts.length = n
  width_pos : 0 < h.width
  in_bin : ∀ v ∈ values, ∃ i < n, h.InBin i v
  counts_eq : ∀ i < n, h.counts.getD i 0 = values.countP fun v => h.InBin i v

/-- The number of the bin a value is in, or would be. -/
def cell (h : GrowingHistogram) (v : ℚ) : ℤ := Grid.cell h.lower h.width v

variable {h : GrowingHistogram} {n : ℕ} {values : List ℚ} {v : ℚ}

theorem inBin_iff (hw : 0 < h.width) {i : ℕ} : h.InBin i v ↔ h.cell v = i := by
  rw [cell, Grid.cell_eq_iff hw, InBin, mul_comm (i : ℚ), mul_comm ((i : ℚ) + 1), Int.cast_natCast]

/-- The values by their cells. -/
structure Places (h : GrowingHistogram) (n : ℕ) (values : List ℚ) : Prop where
  length_eq : h.counts.length = n
  width_pos : 0 < h.width
  cell_mem : ∀ v ∈ values, 0 ≤ h.cell v ∧ h.cell v < n
  getD_eq : ∀ i < n, h.counts.getD i 0 = values.countP fun v => h.cell v = i

theorem places_iff : h.Places n values ↔ h.Counts n values := by
  constructor
  · rintro ⟨hlen, hw, hmem, hcounts⟩
    refine ⟨hlen, hw, fun v hv => ?_, fun i hi => ?_⟩
    · obtain ⟨h0, hn⟩ := hmem v hv
      exact ⟨(h.cell v).toNat, by omega, (inBin_iff hw).2 (by omega)⟩
    · rw [hcounts i hi]
      simp only [inBin_iff hw]
  · rintro ⟨hlen, hw, hmem, hcounts⟩
    refine ⟨hlen, hw, fun v hv => ?_, fun i hi => ?_⟩
    · obtain ⟨i, hi, hin⟩ := hmem v hv
      have := (inBin_iff hw).1 hin
      omega
    · rw [hcounts i hi]
      simp only [inBin_iff hw]

/-! ## Growing -/

@[simp] theorem grow_length (upward : Bool) (h : GrowingHistogram) :
    (h.grow upward).counts.length = h.counts.length := by
  rw [grow]
  refine (forRange_frame List.length (fun _ _ _ => by rw [List.length_set]) _).trans ?_
  rw [List.length_replicate]

@[simp] theorem grow_width (upward : Bool) (h : GrowingHistogram) :
    (h.grow upward).width = h.width * 2 := rfl

/-- A bin of the grown range holds two of before, in the half that was the range. -/
theorem grow_getD (upward : Bool) {half base : ℕ} (hlen : h.counts.length = half + half)
    (hbase : base = if upward then 0 else half) (i : ℕ) :
    (h.grow upward).counts.getD i 0 =
      if base ≤ i ∧ i < base + half then
        h.counts.getD (2 * (i - base)) 0 + h.counts.getD (2 * (i - base) + 1) 0
      else 0 := by
  have hhalf : h.counts.length / 2 = half := by omega
  have hplace : ∀ m, (if upward then m else h.counts.length / 2 + m) = base + m := fun m => by
    subst hbase
    cases upward <;> simp [hhalf]
  have hfit : base + h.counts.length / 2 ≤ (List.replicate h.counts.length 0).length := by
    subst hbase
    rw [List.length_replicate]
    cases upward <;> simp <;> omega
  rw [grow, List.getD_eq_getElem?_getD]
  simp only
  rw [forRange_set_getElem? _ _ hplace hfit, hhalf]
  by_cases hi : base ≤ i ∧ i < base + half
  · rw [if_pos hi, if_pos hi, Option.getD_some]
  · rw [if_neg hi, if_neg hi, List.getElem?_replicate]
    split <;> rfl

/-- Where the cell of a value is after a range grows. -/
theorem grow_cell (upward : Bool) {half base : ℕ} (hw : 0 < h.width)
    (hlen : h.counts.length = half + half) (hbase : base = if upward then 0 else half) (v : ℚ) :
    (h.grow upward).cell v = base + h.cell v / 2 := by
  cases upward with
  | true =>
    have hlower : (h.grow true).lower = h.lower := rfl
    rw [cell, cell, hlower, grow_width, Grid.cell_double, hbase]
    simp
  | false =>
    have hlower : (h.grow false).lower = h.lower - h.width * h.counts.length := rfl
    rw [cell, cell, hlower, grow_width, Grid.cell_double, Grid.cell_shift hw, hlen, hbase]
    simp only [Bool.false_eq_true, if_false]
    omega

/-- **A range that grows keeps every value counted.** -/
theorem Places.grow (hp : h.Places n values) (heven : Even n) (upward : Bool) :
    (h.grow upward).Places n values := by
  obtain ⟨half, rfl⟩ := heven
  have hcell := grow_cell upward hp.width_pos hp.length_eq rfl
  refine ⟨by rw [grow_length, hp.length_eq], by rw [grow_width]; have := hp.width_pos; positivity,
    fun v hv => ?_, fun i hi => ?_⟩
  · obtain ⟨h0, hlt⟩ := hp.cell_mem v hv
    rw [hcell]
    split <;> omega
  · rw [grow_getD upward hp.length_eq rfl]
    generalize hbase : (if upward then 0 else half) = base at hcell ⊢
    simp only [hcell]
    by_cases hi' : base ≤ i ∧ i < base + half
    · -- the two bins of before are those the bin is made of
      have hpair := Grid.countP_cell_pair h.cell ((i - base : ℕ) : ℤ) values
      rw [if_pos hi', hp.getD_eq _ (by omega), hp.getD_eq _ (by omega)]
      push_cast at hpair ⊢
      rw [hpair]
      exact List.countP_congr fun v _ => by
        simp only [decide_eq_true_eq]
        omega
    · rw [if_neg hi', eq_comm, List.countP_eq_zero]
      intro v hv
      obtain ⟨h0, hlt⟩ := hp.cell_mem v hv
      simp only [decide_eq_true_eq]
      omega

/-- A range grows downward until a value is not below it. -/
theorem growsDown (hn : 0 < n) (heven : Even n) (hp : h.Places n values) (v : ℚ) :
    ∃ h' : GrowingHistogram, h'.Places n values ∧ h'.seeded = h.seeded ∧ ¬ v < h'.lower ∧
      ∃ enough, ∀ fuel ≥ enough,
        whileLoop (fun h => v < h.lower) (GrowingHistogram.grow false) fuel h = some h' := by
  -- how many ranges wide the way to the value is
  let size : GrowingHistogram → ℕ := fun h => ⌈(h.lower - v) / (h.width * n)⌉₊
  let inv : GrowingHistogram → Prop := fun g => g.Places n values ∧ g.seeded = h.seeded
  have step : ∀ g : GrowingHistogram, inv g → v < g.lower →
      inv (g.grow false) ∧ size (g.grow false) < size g := by
    rintro g ⟨hp, hseeded⟩ hlt
    refine ⟨⟨hp.grow heven false, hseeded⟩, ?_⟩
    have hrange : 0 < g.width * n := mul_pos hp.width_pos (by exact_mod_cast hn)
    have hlower : (g.grow false).lower = g.lower - g.width * n := by rw [← hp.length_eq]; rfl
    set x := (g.lower - v) / (g.width * n) with hx
    have hw : g.width ≠ 0 := hp.width_pos.ne'
    have hn' : (n : ℚ) ≠ 0 := by exact_mod_cast hn.ne'
    have hgrown : ((g.grow false).lower - v) / ((g.grow false).width * n) = (x - 1) / 2 := by
      rw [hlower, grow_width, hx]
      field_simp
      ring
    have hpos : 0 < x := div_pos (by linarith) hrange
    have hceil : 1 ≤ ⌈x⌉₊ := Nat.one_le_iff_ne_zero.2 (Nat.ceil_pos.2 hpos).ne'
    have hle : ⌈(x - 1) / 2⌉₊ ≤ ⌈x⌉₊ - 1 := by
      have h1 := Nat.le_ceil x
      have h2 : (1 : ℚ) ≤ ⌈x⌉₊ := by exact_mod_cast hceil
      rw [Nat.ceil_le, Nat.cast_sub hceil, Nat.cast_one]
      linarith
    change ⌈((g.grow false).lower - v) / ((g.grow false).width * n)⌉₊ < ⌈x⌉₊
    rw [hgrown]
    omega
  obtain ⟨h', ⟨hp', hseeded⟩, hend, hrun⟩ :=
    @whileLoop_ends _ (fun g => v < g.lower) _ _ inv size step h ⟨hp, rfl⟩
  exact ⟨h', hp', hseeded, hend, size h, hrun⟩

/-- A range grows upward until a value is below its end. -/
theorem growsUp (hn : 0 < n) (heven : Even n) (hp : h.Places n values) (hv : h.lower ≤ v) :
    ∃ h' : GrowingHistogram, h'.Places n values ∧ h'.seeded = h.seeded ∧ h'.lower ≤ v ∧
      v < h'.lower + h'.width * h'.counts.length ∧
      ∃ enough, ∀ fuel ≥ enough,
        whileLoop (fun h => h.lower + h.width * h.counts.length ≤ v) (GrowingHistogram.grow true)
          fuel h = some h' := by
  -- how many ranges the value is away from the beginning
  let size : GrowingHistogram → ℕ := fun h => ⌊(v - h.lower) / (h.width * n)⌋₊
  let inv : GrowingHistogram → Prop := fun g =>
    g.Places n values ∧ g.seeded = h.seeded ∧ g.lower ≤ v
  have step : ∀ g : GrowingHistogram, inv g → g.lower + g.width * g.counts.length ≤ v →
      inv (g.grow true) ∧ size (g.grow true) < size g := by
    rintro g ⟨hp, hseeded, hv⟩ hle
    refine ⟨⟨hp.grow heven true, hseeded, hv⟩, ?_⟩
    rw [hp.length_eq] at hle
    have hrange : 0 < g.width * n := mul_pos hp.width_pos (by exact_mod_cast hn)
    have hlower : (g.grow true).lower = g.lower := rfl
    set y := (v - g.lower) / (g.width * n) with hy
    have hgrown : (v - (g.grow true).lower) / ((g.grow true).width * n) = y / 2 := by
      rw [hlower, grow_width, hy]
      field_simp
    have hone : 1 ≤ y := by
      rw [hy, le_div_iff₀ hrange]
      linarith
    have hfloor : 1 ≤ ⌊y⌋₊ := by rwa [Nat.one_le_floor_iff]
    have hhalf := Nat.floor_div_ofNat y 2
    change ⌊(v - (g.grow true).lower) / ((g.grow true).width * n)⌋₊ < ⌊y⌋₊
    rw [hgrown, hhalf]
    exact Nat.div_lt_self (by omega) (by decide)
  obtain ⟨h', ⟨hp', hseeded, hv'⟩, hend, hrun⟩ :=
    @whileLoop_ends _ (fun g => g.lower + g.width * g.counts.length ≤
      v) _ _ inv size step h ⟨hp, rfl, hv⟩
  exact ⟨h', hp', hseeded, hv', not_le.1 hend, size h, hrun⟩

/-! ## Adding -/

/-- A value that is in the range is counted in the bin it is in. -/
theorem Places.count (hp : h.Places n values) (hlow : h.lower ≤ v)
    (hhigh : v < h.lower + h.width * h.counts.length) : (h.count v).Places n (values ++ [v]) := by
  have h0 : 0 ≤ h.cell v := by
    rw [cell, Grid.le_cell_iff hp.width_pos]
    simpa using hlow
  have hn : h.cell v < n := by
    rw [cell, Grid.cell_lt_iff hp.width_pos, ← hp.length_eq]
    exact_mod_cast hhigh
  have hbin : (⌊(v - h.lower) / h.width⌋₊ : ℤ) = h.cell v := by
    rw [← Int.floor_toNat]
    exact Int.toNat_of_nonneg h0
  have hlt : ¬ h.counts.length ≤ ⌊(v - h.lower) / h.width⌋₊ := by
    have := hp.length_eq
    omega
  have hcount : h.count v =
      { h with counts := h.counts.modify ⌊(v - h.lower) / h.width⌋₊ (· + 1) } := by
    rw [GrowingHistogram.count]
    simp only [if_neg hlt]
  rw [hcount]
  refine ⟨by rw [List.length_modify, hp.length_eq], hp.width_pos, fun w hw => ?_, fun i hi => ?_⟩
  · rcases List.mem_append.1 hw with hw | hw
    · exact hp.cell_mem w hw
    · rw [List.mem_singleton.1 hw]
      exact ⟨h0, hn⟩
  · have hlen := hp.length_eq
    have hbefore := hp.getD_eq i hi
    rw [List.getD_eq_getElem _ _ (by omega)] at hbefore
    rw [List.getD_eq_getElem _ _ (by simpa [hlen] using hi), List.getElem_modify, hbefore,
      List.countP_append, List.countP_singleton]
    change _ = _ + if decide (h.cell v = i) = true then 1 else 0
    simp only [decide_eq_true_eq]
    split <;> split <;> first | rfl | omega

/-- What is known of a histogram that was given values; before the first, its range is anywhere. -/
structure Follows (h : GrowingHistogram) (n : ℕ) (values : List ℚ) : Prop where
  places : h.Places n values
  seeded : h.seeded = false → values = []

theorem follows_ofBins (n : ℕ) : (ofBins n).Follows n [] :=
  ⟨⟨List.length_replicate, one_pos, by simp, fun i hi => by
    rw [ofBins, List.getD_eq_getElem _ _ (by simpa using hi),
      List.getElem_replicate, List.countP_nil]⟩,
    fun _ => rfl⟩

/-- A range placed around a value still holds what was counted, which is nothing. -/
theorem Places.seed (hp : h.Places n []) {spacing : ℚ} (hspacing : 0 < spacing) (v : ℚ) :
    (h.seed spacing v).Places n [] :=
  ⟨hp.length_eq, hspacing, by simp, hp.getD_eq⟩

/-- **`Add` ends, and counts the value.** -/
theorem Follows.add (hn : 2 ≤ n) (heven : Even n) {spacing : ℚ → ℚ} (hspacing : ∀ x, 0 < spacing x)
    (hf : h.Follows n values) (v : ℚ) :
    ∃ h' : GrowingHistogram, h'.Follows n (values ++ [v]) ∧
      ∃ enough, ∀ fuel ≥ enough, h.add spacing fuel v = some h' := by
  obtain ⟨s, hs, hp, hseeded⟩ : ∃ s, (if h.seeded then h else h.seed (spacing |v|) v) = s ∧
      s.Places n values ∧ s.seeded = true := by
    cases hseeded : h.seeded with
    | true => exact ⟨h, rfl, hf.places, hseeded⟩
    | false =>
      obtain rfl := hf.seeded hseeded
      exact ⟨_, rfl, hf.places.seed (hspacing _) v, rfl⟩
  obtain ⟨down, hpdown, hdown, hlow, enough₁, hrun₁⟩ := growsDown (by omega) heven hp v
  obtain ⟨up, hpup, hup, hlow', hhigh, enough₂, hrun₂⟩ :=
    growsUp (by omega) heven hpdown (not_lt.1 hlow)
  refine ⟨up.count v, ⟨hpup.count hlow' hhigh, fun h => ?_⟩, max enough₁ enough₂,
    fun fuel hfuel => ?_⟩
  · have hcount : (up.count v).seeded = true := hup.trans (hdown.trans hseeded)
    rw [hcount] at h
    exact absurd h (by decide)
  · rw [GrowingHistogram.add, hs, hrun₁ fuel (le_trans (le_max_left _ _) hfuel)]
    change (whileLoop _ _ fuel down).bind _ = _
    rw [hrun₂ fuel (le_trans (le_max_right _ _) hfuel)]
    rfl

/-- **Every value added is counted in its bin**, through growth of any kind. -/
theorem Follows.addAll (hn : 2 ≤ n) (heven : Even n) {spacing : ℚ → ℚ}
    (hspacing : ∀ x, 0 < spacing x) (hf : h.Follows n values) (more : List ℚ) :
    ∃ h' : GrowingHistogram, h'.Follows n (values ++ more) ∧
      ∃ enough, ∀ fuel ≥ enough, h.addAll spacing fuel more = some h' := by
  induction more generalizing h values with
  | nil => exact ⟨h, by rwa [List.append_nil], 0, fun _ _ => rfl⟩
  | cons v more ih =>
    obtain ⟨h₁, hf₁, enough₁, hrun₁⟩ := hf.add hn heven hspacing v
    obtain ⟨h₂, hf₂, enough₂, hrun₂⟩ := ih hf₁
    refine ⟨h₂, by simpa using hf₂, max enough₁ enough₂, fun fuel hfuel => ?_⟩
    rw [GrowingHistogram.addAll, List.foldlM_cons, hrun₁ fuel (le_trans (le_max_left _ _) hfuel)]
    exact hrun₂ fuel (le_trans (le_max_right _ _) hfuel)

end GrowingHistogram

end CartaZarr
