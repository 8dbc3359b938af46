import Mathlib.Order.Interval.Finset.Nat
import Mathlib.Data.Finset.Prod
import CartaZarr.Reduce.OccupiedCells

/-!
# The occupancy index

What `Occupancy.of` makes of regions it accepts. The grid over their box numbers its cells without
repetition while the plane's pixels can be counted (`ChunkGrid.Around.cell_eq`). The regions of a
cell lie between its offset and the next, in region order (`regionsTouching_eq`), because the
incidences are found region by region and a counting sort keeps their order.

`occupancy_index` puts this together: the index says of every chunk of the grid which regions select
a pixel in it.
-/

namespace CartaZarr

open Word

/-! ## The box around the regions -/

section Fold

variable {α : Type} (f : α → ℕ)

theorem foldl_min_spec (l : List α) (a : ℕ) :
    (∀ x ∈ l, l.foldl (fun least x => min least (f x)) a ≤ f x) ∧
      l.foldl (fun least x => min least (f x)) a ≤ a ∧
      (l.foldl (fun least x => min least (f x)) a = a ∨
        ∃ x ∈ l, l.foldl (fun least x => min least (f x)) a = f x) := by
  induction l generalizing a with
  | nil => exact ⟨by simp, le_refl a, Or.inl rfl⟩
  | cons y l ih =>
    obtain ⟨h₁, h₂, h₃⟩ := ih (min a (f y))
    refine ⟨fun x hx => ?_, h₂.trans (min_le_left _ _), ?_⟩
    · rcases List.mem_cons.1 hx with rfl | hx
      · exact h₂.trans (min_le_right _ _)
      · exact h₁ x hx
    · rcases h₃ with h₃ | ⟨x, hx, h₃⟩
      · rcases min_choice a (f y) with h | h
        · exact Or.inl (h₃.trans h)
        · exact Or.inr ⟨y, List.mem_cons_self, h₃.trans h⟩
      · exact Or.inr ⟨x, List.mem_cons_of_mem _ hx, h₃⟩

theorem foldl_max_spec (l : List α) (a : ℕ) :
    (∀ x ∈ l, f x ≤ l.foldl (fun most x => max most (f x)) a) ∧
      a ≤ l.foldl (fun most x => max most (f x)) a ∧
      (l.foldl (fun most x => max most (f x)) a = a ∨
        ∃ x ∈ l, l.foldl (fun most x => max most (f x)) a = f x) := by
  induction l generalizing a with
  | nil => exact ⟨by simp, le_refl a, Or.inl rfl⟩
  | cons y l ih =>
    obtain ⟨h₁, h₂, h₃⟩ := ih (max a (f y))
    refine ⟨fun x hx => ?_, (le_max_left _ _).trans h₂, ?_⟩
    · rcases List.mem_cons.1 hx with rfl | hx
      · exact (le_max_right _ _).trans h₂
      · exact h₁ x hx
    · rcases h₃ with h₃ | ⟨x, hx, h₃⟩
      · rcases max_choice a (f y) with h | h
        · exact Or.inl (h₃.trans h)
        · exact Or.inr ⟨y, List.mem_cons_self, h₃.trans h⟩
      · exact Or.inr ⟨x, List.mem_cons_of_mem _ hx, h₃⟩

end Fold

/-- The grid is over the smallest box around the regions. -/
structure ChunkGrid.Around (grid : ChunkGrid) (placed : List PlacedRegion) : Prop where
  chunkU_pos : 0 < grid.chunkU
  chunkV_pos : 0 < grid.chunkV
  u0_le : ∀ region ∈ placed, grid.u0 ≤ region.uStart
  u0_mem : ∃ region ∈ placed, grid.u0 = region.uStart
  v0_le : ∀ region ∈ placed, grid.v0 ≤ region.vStart
  v0_mem : ∃ region ∈ placed, grid.v0 = region.vStart
  le_u1 : ∀ region ∈ placed, region.uStart + region.uSize ≤ grid.u1
  u1_mem : ∃ region ∈ placed, grid.u1 = region.uStart + region.uSize
  le_v1 : ∀ region ∈ placed, region.vStart + region.vSize ≤ grid.v1
  v1_mem : ∃ region ∈ placed, grid.v1 = region.vStart + region.vSize
  chunkCu0_eq : grid.chunkCu0 = grid.u0 / grid.chunkU
  chunkCv0_eq : grid.chunkCv0 = grid.v0 / grid.chunkV
  columns_eq : grid.columns = (grid.u1 - 1) / grid.chunkU - grid.chunkCu0 + 1

theorem ChunkGrid.over_around {chunkU chunkV : ℕ} {placed : List PlacedRegion} (hne : placed ≠ [])
    (hu : 0 < chunkU) (hv : 0 < chunkV)
    (hsize : ∀ region ∈ placed, 0 < region.uSize ∧ 0 < region.vSize ∧
      region.uStart + region.uSize < 2 ^ 64 ∧ region.vStart + region.vSize < 2 ^ 64) :
    (ChunkGrid.over chunkU chunkV placed).Around placed := by
  obtain ⟨first, hfirst⟩ := List.exists_mem_of_ne_nil placed hne
  have huEnd : ∀ region ∈ placed, region.uEnd = region.uStart + region.uSize := fun r hr =>
    add_eq (hsize r hr).2.2.1
  have hvEnd : ∀ region ∈ placed, region.vEnd = region.vStart + region.vSize := fun r hr =>
    add_eq (hsize r hr).2.2.2
  obtain ⟨hu0, hu0', hu0m⟩ := foldl_min_spec PlacedRegion.uStart placed (2 ^ 64 - 1)
  obtain ⟨hv0, hv0', hv0m⟩ := foldl_min_spec PlacedRegion.vStart placed (2 ^ 64 - 1)
  obtain ⟨hu1, -, hu1m⟩ := foldl_max_spec PlacedRegion.uEnd placed 0
  obtain ⟨hv1, -, hv1m⟩ := foldl_max_spec PlacedRegion.vEnd placed 0
  have hsize₁ := hsize first hfirst
  have hu1' := hu1 first hfirst
  have hv1' := hv1 first hfirst
  rw [huEnd first hfirst] at hu1'
  rw [hvEnd first hfirst] at hv1'
  have hu0₁ := hu0 first hfirst
  have hv0₁ := hv0 first hfirst
  have hu1mem : ∃ region ∈ placed, (ChunkGrid.over chunkU chunkV placed).u1 =
      region.uStart + region.uSize := by
    rcases hu1m with h | ⟨region, hr, h⟩
    · omega
    · exact ⟨region, hr, h.trans (huEnd region hr)⟩
  have hu1lt : (ChunkGrid.over chunkU chunkV placed).u1 < 2 ^ 64 := by
    obtain ⟨region, hr, h⟩ := hu1mem
    have := (hsize region hr).2.2.1
    omega
  refine
    { chunkU_pos := hu, chunkV_pos := hv, u0_le := hu0, v0_le := hv0, u1_mem := hu1mem
      chunkCu0_eq := rfl, chunkCv0_eq := rfl
      u0_mem := ?_, v0_mem := ?_, le_u1 := ?_, le_v1 := ?_, v1_mem := ?_, columns_eq := ?_ }
  · rcases hu0m with h | h
    · exact ⟨first, hfirst, by change List.foldl _ _ _ = _; omega⟩
    · exact h
  · rcases hv0m with h | h
    · exact ⟨first, hfirst, by change List.foldl _ _ _ = _; omega⟩
    · exact h
  · exact fun region hr => huEnd region hr ▸ hu1 region hr
  · exact fun region hr => hvEnd region hr ▸ hv1 region hr
  · rcases hv1m with h | ⟨region, hr, h⟩
    · omega
    · exact ⟨region, hr, h.trans (hvEnd region hr)⟩
  · have hle : (ChunkGrid.over chunkU chunkV placed).u0 / chunkU ≤
        ((ChunkGrid.over chunkU chunkV placed).u1 - 1) / chunkU :=
      Nat.div_le_div_right (by change List.foldl _ _ _ ≤ List.foldl _ _ _ - 1; omega)
    have hdiv := Nat.div_le_self ((ChunkGrid.over chunkU chunkV placed).u1 - 1) chunkU
    have hpos : 1 ≤ (ChunkGrid.over chunkU chunkV placed).u1 := by
      change 1 ≤ List.foldl _ _ _
      omega
    change add (sub (sub (ChunkGrid.over chunkU chunkV placed).u1 1 / chunkU)
      ((ChunkGrid.over chunkU chunkV placed).u0 / chunkU)) 1 = _
    have hcolumns := Nat.sub_le (((ChunkGrid.over chunkU chunkV placed).u1 - 1) / chunkU)
      ((ChunkGrid.over chunkU chunkV placed).u0 / chunkU)
    rw [sub_eq hpos hu1lt, sub_eq hle (by omega),
      add_eq (lt_of_le_of_lt (Nat.succ_le_succ hcolumns) (by omega))]
    rfl

/-- A chunk of the grid. -/
def ChunkGrid.Has (grid : ChunkGrid) (cu cv : ℕ) : Prop :=
  grid.chunkCu0 ≤ cu ∧ cu ≤ (grid.u1 - 1) / grid.chunkU ∧
    grid.chunkCv0 ≤ cv ∧ cv ≤ (grid.v1 - 1) / grid.chunkV

instance (grid : ChunkGrid) (cu cv : ℕ) : Decidable (grid.Has cu cv) :=
  inferInstanceAs (Decidable (_ ∧ _))

namespace ChunkGrid.Around

variable {grid : ChunkGrid} {placed : List PlacedRegion}

/-- An interval has no more chunks than pixels. -/
theorem chunks_le {a b c : ℕ} (hc : 0 < c) (hab : a < b) : (b - 1) / c - a / c + 1 ≤ b - a := by
  have h : (b - 1) / c ≤ a / c + (b - 1 - a) := by
    calc (b - 1) / c = (a + (b - 1 - a)) / c := by rw [Nat.add_sub_cancel' (by omega)]
      _ ≤ (a + (b - 1 - a) * c) / c :=
        Nat.div_le_div_right (Nat.add_le_add_left (Nat.le_mul_of_pos_right _ hc) _)
      _ = a / c + (b - 1 - a) := Nat.add_mul_div_right _ _ hc
  omega

theorem u0_lt_u1 (h : grid.Around placed) (hsize : ∀ region ∈ placed, 0 < region.uSize) :
    grid.u0 < grid.u1 := by
  obtain ⟨region, hr, heq⟩ := h.u0_mem
  have := h.le_u1 region hr
  have := hsize region hr
  omega

theorem v0_lt_v1 (h : grid.Around placed) (hsize : ∀ region ∈ placed, 0 < region.vSize) :
    grid.v0 < grid.v1 := by
  obtain ⟨region, hr, heq⟩ := h.v0_mem
  have := h.le_v1 region hr
  have := hsize region hr
  omega

variable (hsize : ∀ region ∈ placed, 0 < region.uSize ∧ 0 < region.vSize)
  (hpixels : (grid.u1 - grid.u0) * (grid.v1 - grid.v0) < 2 ^ 64)
  (hu1 : grid.u1 < 2 ^ 64) (hv1 : grid.v1 < 2 ^ 64)

include hsize hpixels hu1 hv1 in
/-- **The cells of the grid are numbered row by row.** -/
theorem cell_eq (h : grid.Around placed) {cu cv : ℕ} (hhas : grid.Has cu cv) :
    grid.cell cu cv = (cv - grid.chunkCv0) * grid.columns + (cu - grid.chunkCu0) ∧
      cu - grid.chunkCu0 < grid.columns := by
  obtain ⟨hcu, hcu', hcv, hcv'⟩ := hhas
  have hu := h.u0_lt_u1 fun r hr => (hsize r hr).1
  have hv := h.v0_lt_v1 fun r hr => (hsize r hr).2
  have hcolumns := chunks_le h.chunkU_pos hu
  have hrows := chunks_le h.chunkV_pos hv
  rw [← h.chunkCu0_eq, ← h.columns_eq] at hcolumns
  rw [← h.chunkCv0_eq] at hrows
  have hcolumn : cu - grid.chunkCu0 < grid.columns := by
    rw [h.columns_eq]
    omega
  have hnumber : (cv - grid.chunkCv0) * grid.columns + (cu - grid.chunkCu0) < 2 ^ 64 := by
    refine lt_of_lt_of_le ?_ hpixels.le
    calc (cv - grid.chunkCv0) * grid.columns + (cu - grid.chunkCu0)
        < (cv - grid.chunkCv0) * grid.columns + grid.columns := by omega
      _ = (cv - grid.chunkCv0 + 1) * grid.columns := (Nat.succ_mul _ _).symm
      _ ≤ (grid.v1 - grid.v0) * (grid.u1 - grid.u0) := Nat.mul_le_mul (by omega) hcolumns
      _ = (grid.u1 - grid.u0) * (grid.v1 - grid.v0) := Nat.mul_comm _ _
  have hcu2 := Nat.div_le_self (grid.u1 - 1) grid.chunkU
  have hcv2 := Nat.div_le_self (grid.v1 - 1) grid.chunkV
  refine ⟨?_, hcolumn⟩
  rw [ChunkGrid.cell, sub_eq hcu (by omega), sub_eq hcv (by omega),
    mul_eq (by omega), add_eq hnumber]

include hsize hpixels hu1 hv1 in
theorem cell_injective (h : grid.Around placed) {cu cv cu' cv' : ℕ} (hhas : grid.Has cu cv)
    (hhas' : grid.Has cu' cv') (heq : grid.cell cu cv = grid.cell cu' cv') :
    cu = cu' ∧ cv = cv' := by
  obtain ⟨hcell, hcolumn⟩ := h.cell_eq hsize hpixels hu1 hv1 hhas
  obtain ⟨hcell', hcolumn'⟩ := h.cell_eq hsize hpixels hu1 hv1 hhas'
  rw [hcell, hcell'] at heq
  have hmod := congrArg (· % grid.columns) heq
  have hdiv := congrArg (· / grid.columns) heq
  have hpos : 0 < grid.columns := by omega
  simp only [Nat.mul_add_mod', Nat.mod_eq_of_lt hcolumn, Nat.mod_eq_of_lt hcolumn'] at hmod
  simp only [Nat.add_comm (_ * grid.columns), Nat.add_mul_div_right _ _ hpos,
    Nat.div_eq_of_lt hcolumn,
    Nat.div_eq_of_lt hcolumn', Nat.zero_add] at hdiv
  have h₁ := hhas.1
  have h₂ := hhas.2.2.1
  have h₃ := hhas'.1
  have h₄ := hhas'.2.2.1
  omega

end ChunkGrid.Around

/-! ## Slices -/

/-- The elements of one of some lists, read off where it lies among all of them. -/
theorem map_getD_flatten {α : Type} (lists : List (List α)) {i : ℕ}
    (hi : i < lists.length) (d : α) :
    ((List.range' (lists.take i).flatten.length
      ((lists.take (i + 1)).flatten.length - (lists.take i).flatten.length)).map
        fun k => lists.flatten.getD k d) = lists.get ⟨i, hi⟩ := by
  have hsplit : lists.flatten = (lists.take i).flatten ++
      (lists.get ⟨i, hi⟩ ++ (lists.drop (i + 1)).flatten) := by
    conv_lhs => rw [← List.take_append_drop i lists, List.drop_eq_getElem_cons hi]
    rw [List.flatten_append, List.flatten_cons]
    rfl
  have hnext : (lists.take (i + 1)).flatten.length =
      (lists.take i).flatten.length + (lists.get ⟨i, hi⟩).length := by
    rw [← List.take_concat_get' lists i hi, List.flatten_append, List.length_append]
    simp
  rw [hnext, Nat.add_sub_cancel_left]
  refine List.ext_getElem (by simp) fun k hk hk' => ?_
  rw [List.getElem_map, List.getElem_range', hsplit, List.getD_eq_getElem?_getD, Nat.one_mul,
    List.getElem?_append_right (Nat.le_add_right _ _), Nat.add_sub_cancel_left,
    List.getElem?_append_left hk', List.getElem?_eq_getElem hk']
  rfl

theorem flatten_eq_flatMap_getD {α : Type} (lists : List (List α)) :
    lists.flatten = (List.range lists.length).flatMap fun i => lists.getD i [] := by
  induction lists with
  | nil => rfl
  | cons l lists ih =>
    rw [List.flatten_cons, List.length_cons, List.range_succ_eq_map, List.flatMap_cons,
      List.flatMap_map, ih]
    rfl

/-- The one element a list without repetition has equal to another. -/
theorem filter_eq_of_nodup {l : List ℕ} (h : l.Nodup) (a : ℕ) :
    l.filter (· = a) = if a ∈ l then [a] else [] := by
  rw [List.filter_eq]
  split_ifs with ha
  · rw [List.count_eq_one_of_mem h ha]
    rfl
  · rw [List.count_eq_zero_of_not_mem ha]
    rfl

/-- The items of a slot, when the items are those of one list of cells after another: the lists that
have the slot's cell. -/
theorem ofKey_lowerBound {cells : List ℕ} (hcells : cells.Pairwise (· < ·)) {numbers : ℕ → List ℕ}
    {n : ℕ} (hnodup : ∀ i < n, (numbers i).Nodup)
    (hmem : ∀ i < n, ∀ c ∈ numbers i, c ∈ cells) {key : ℕ}
    (hkey : key ∈ cells) :
    ofKey ((List.range n).flatMap fun i => (numbers i).map fun c => (lowerBound cells c, i))
      (lowerBound cells key) = (List.range n).filter fun i => key ∈ numbers i := by
  induction n with
  | zero => rfl
  | succ n ih =>
    rw [List.range_succ, List.flatMap_append, ofKey_append, List.filter_append,
      ih (fun i hi => hnodup i (by omega)) (fun i hi => hmem i (by omega))]
    congr 1
    rw [List.flatMap_singleton, ofKey, List.filter_map, List.map_map]
    have hfilter : (numbers n).filter
      ((fun item : ℕ × ℕ => decide (item.1 = lowerBound cells key)) ∘
        fun c => (lowerBound cells c, n)) = (numbers n).filter (· = key) := by
      refine List.filter_congr fun c hc => ?_
      rw [Function.comp_apply, decide_eq_decide]
      exact ⟨lowerBound_injective hcells (hmem n (by omega) c hc) hkey, fun h => by rw [h]⟩
    rw [hfilter, filter_eq_of_nodup (hnodup n (by omega))]
    by_cases h : key ∈ numbers n <;> simp [h]

/-! ## What `Occupancy.of` makes -/

/-- The cells of each region, by number. -/
def cellNumbers (grid : ChunkGrid) (placed : List PlacedRegion) : List (List ℕ) :=
  placed.map fun region => (region.cells grid).map fun cell => grid.cell cell.1 cell.2

/-- What `Occupancy.of` makes of regions it accepts. -/
structure Occupancy.Made (occupancy : Occupancy) (given : List RegionMask) (swapSpatial : Bool)
    (plane : PlaneExtent) (chunkU chunkV : ℕ) : Prop where
  given_ne : given ≠ []
  length_le : given.length ≤ kMaxSpectralRegions
  fits : ∀ region ∈ given, region.Fits plane
  incidences_le : (cellNumbers (ChunkGrid.over chunkU chunkV
    (given.map (RegionMask.place swapSpatial)))
    (given.map (RegionMask.place swapSpatial))).flatten.length ≤ kMaxChunkIncidences
  eq_index : occupancy = Occupancy.index
    (ChunkGrid.over chunkU chunkV (given.map (RegionMask.place swapSpatial)))
    (given.map (RegionMask.place swapSpatial))
    (cellNumbers (ChunkGrid.over chunkU chunkV (given.map (RegionMask.place swapSpatial)))
      (given.map (RegionMask.place swapSpatial))).flatten
    ((List.range (given.length + 1)).map fun i =>
      ((cellNumbers (ChunkGrid.over chunkU chunkV (given.map (RegionMask.place swapSpatial)))
        (given.map (RegionMask.place swapSpatial))).take i).flatten.length)

/-- Regions that can all be placed can each be placed. -/
theorem placeable_of_placeableAll {plane : PlaneExtent} {node : String}
    {given : List RegionMask} {i : ℕ}
    (h : placeableAll plane node given i = .ok ()) :
    ∀ region ∈ given, ∃ j, placeable region j plane node = .ok () := by
  induction given generalizing i with
  | nil => simp
  | cons region given ih =>
    rw [placeableAll] at h
    split at h
    · cases h
    · rename_i hplaceable
      intro r hr
      rcases List.mem_cons.1 hr with rfl | hr
      · exact ⟨i, hplaceable⟩
      · exact ih h r hr

theorem placeableAll_fits {plane : PlaneExtent} {node : String} (hplane : plane.Counted)
    {given : List RegionMask} {i : ℕ} (h : placeableAll plane node given i = .ok ()) :
    ∀ region ∈ given, region.Fits plane := by
  intro region hregion
  obtain ⟨j, hj⟩ := placeable_of_placeableAll h region hregion
  exact placeable_fits hplane hj

/-- The chunks have pixels, and the regions reach no chunk row that ends at `2 ^ 64` or beyond. -/
def RowsEndBelow (given : List RegionMask) (swapSpatial : Bool) (chunkU chunkV : ℕ) : Prop :=
  ∀ region ∈ given, (region.place swapSpatial).RowsEndBelow chunkU chunkV

/-- The chunks have pixels, and no scan of the regions takes a chunk boundary of `2 ^ 64` or
beyond. -/
def ScansEndBelow (given : List RegionMask) (swapSpatial : Bool) (chunkU chunkV : ℕ) : Prop :=
  ∀ region ∈ given, (region.place swapSpatial).ScanEndsBelow chunkU chunkV

theorem cellNumbers_take_length (grid : ChunkGrid) (placed : List PlacedRegion) (i : ℕ) :
    ((cellNumbers grid placed).take i).flatten.length =
      ((placed.take i).flatMap fun region => region.cells grid).length := by
  rw [cellNumbers, ← List.map_take, List.length_flatten, List.length_flatMap, List.map_map]
  simp only [Function.comp_def, List.length_map]

theorem Occupancy.of_made {regions : BufferView RegionMask} {given : List RegionMask}
    (hgiven : regions.data = some given) {plane : PlaneExtent}
    (hplane : plane.Counted) {chunkU chunkV : ℕ}
    {axis : AxisRole} {node : String} {occupancy : Occupancy}
    (hends : ScansEndBelow given (axis = .spatialY) chunkU chunkV)
    (h : Occupancy.of regions plane chunkU chunkV axis node = some (.ok occupancy)) :
    occupancy.Made given (axis = .spatialY) plane chunkU chunkV := by
  rw [Occupancy.of, hgiven] at h
  have hlength := regions.size_eq given hgiven
  dsimp only at h
  split at h
  · cases h
  split at h
  · cases h
  rename_i hempty hmany
  split at h
  · cases h
  rename_i hplaceable
  have hfits := placeableAll_fits hplane hplaceable
  generalize hswap : decide (axis = AxisRole.spatialY) = swap at h hends ⊢
  obtain ⟨⟨after, regionFirst⟩, hafter, hmade⟩ := Option.map_eq_some_iff.1 h
  generalize hgrid : ChunkGrid.over chunkU chunkV (given.map (RegionMask.place swap)) =
    grid at hafter hmade
  have hchunks : grid.chunkU = chunkU ∧ grid.chunkV = chunkV := by
    rw [← hgrid]
    exact ⟨rfl, rfl⟩
  have hshows : ∀ region ∈ given.map (RegionMask.place swap), ∃ sel, region.Shows sel := by
    intro region hregion
    obtain ⟨r, hr, rfl⟩ := List.mem_map.1 hregion
    exact ⟨_, (hfits r hr).shows hplane⟩
  have hends' : ∀ region ∈ given.map (RegionMask.place swap),
      region.ScanEndsBelow grid.chunkU grid.chunkV := by
    intro region hregion
    obtain ⟨r, hr, rfl⟩ := List.mem_map.1 hregion
    rw [hchunks.1, hchunks.2]
    exact hends r hr
  obtain ⟨after', regionFirst', hafter', hare, hfirst⟩ :=
    incidencesOf_spec hshows hends' ⟨[], false⟩ [0]
  rw [hafter] at hafter'
  obtain ⟨rfl, rfl⟩ := Prod.mk.inj (Option.some.inj hafter')
  by_cases hmany : after.tooMany = true
  · rw [if_pos hmany] at hmade
    cases hmade
  rw [if_neg hmany] at hmade
  rw [Bool.not_eq_true] at hmany
  have hcells : after.cells = (cellNumbers grid (given.map (RegionMask.place swap))).flatten :=
    (hare.cells_eq hmany).2
  have hfirst' : regionFirst = (List.range (given.length + 1)).map fun i =>
      ((cellNumbers grid (given.map (RegionMask.place swap))).take i).flatten.length := by
    rw [hfirst hmany, List.range_succ_eq_map, List.map_cons, List.map_map, List.length_map]
    simp only [cellNumbers_take_length, Function.comp_def, Nat.succ_eq_add_one, List.length_nil,
      Nat.zero_add, List.take_zero, List.singleton_append]
    rfl
  refine ⟨?_, by omega, hfits, ?_, ?_⟩
  · rintro rfl
    exact hempty hlength.symm
  · rw [hgrid, ← hcells]
    exact hare.length_le (Nat.zero_le _)
  · rw [hgrid, ← hcells, ← hfirst']
    exact (Except.ok.inj hmade).symm

/-- Regions that are accepted were scanned to their ends, where their chunk rows end below
`2 ^ 64`. -/
theorem Occupancy.scansEndBelow {regions : BufferView RegionMask} {given : List RegionMask}
    (hgiven : regions.data = some given) {plane : PlaneExtent}
    (hplane : plane.Counted) {chunkU chunkV : ℕ}
    (hchunk : chunkU < 2 ^ 64) {axis : AxisRole} {node : String} {occupancy : Occupancy}
    (hrows : RowsEndBelow given (axis = .spatialY) chunkU chunkV)
    (h : Occupancy.of regions plane chunkU chunkV axis node = some (.ok occupancy)) :
    ScansEndBelow given (axis = .spatialY) chunkU chunkV := by
  rw [Occupancy.of, hgiven] at h
  dsimp only at h
  split at h
  · cases h
  split at h
  · cases h
  split at h
  · cases h
  rename_i hplaceable
  have hfits := placeableAll_fits hplane hplaceable
  generalize hswap : decide (axis = AxisRole.spatialY) = swap at h hrows ⊢
  obtain ⟨⟨after, regionFirst⟩, hafter, hmade⟩ := Option.map_eq_some_iff.1 h
  have hfew : after.tooMany = false := by
    by_contra hmany
    rw [if_pos (by simpa using hmany)] at hmade
    cases hmade
  have hshows : ∀ region ∈ given.map (RegionMask.place swap), ∃ sel, region.Shows sel := by
    intro region hregion
    obtain ⟨r, hr, rfl⟩ := List.mem_map.1 hregion
    exact ⟨_, (hfits r hr).shows hplane⟩
  have hends : ∀ region ∈ given.map (RegionMask.place swap), region.RowsEndBelow chunkU chunkV := by
    intro region hregion
    obtain ⟨r, hr, rfl⟩ := List.mem_map.1 hregion
    exact hrows r hr
  have hscan := scanEndsBelow_of_incidencesOf hshows hends hchunk hafter hfew
  exact fun region hregion => hscan _ (List.mem_map_of_mem hregion)

namespace Occupancy.Made

variable {occupancy : Occupancy} {given : List RegionMask} {swapSpatial : Bool}
  {plane : PlaneExtent}
  {chunkU chunkV : ℕ}

theorem regions_eq (h : occupancy.Made given swapSpatial plane chunkU chunkV) :
    occupancy.regions = given.map (RegionMask.place swapSpatial) := by
  rw [h.eq_index]
  rfl

theorem grid_eq (h : occupancy.Made given swapSpatial plane chunkU chunkV) :
    occupancy.grid = ChunkGrid.over chunkU chunkV (given.map (RegionMask.place swapSpatial)) := by
  rw [h.eq_index]
  rfl

theorem chunkU_eq (h : occupancy.Made given swapSpatial plane chunkU chunkV) :
    occupancy.grid.chunkU = chunkU := by
  rw [h.grid_eq]
  rfl

theorem chunkV_eq (h : occupancy.Made given swapSpatial plane chunkU chunkV) :
    occupancy.grid.chunkV = chunkV := by
  rw [h.grid_eq]
  rfl

/-- The numbers of the cells of each region. -/
theorem cells_eq (h : occupancy.Made given swapSpatial plane chunkU chunkV) :
    occupancy.cells = unique
      ((cellNumbers occupancy.grid occupancy.regions).flatten.insertionSort (· ≤ ·)) := by
  rw [h.eq_index]
  rfl

theorem cells_pairwise (h : occupancy.Made given swapSpatial plane chunkU chunkV) :
    occupancy.cells.Pairwise (· < ·) := by
  rw [h.cells_eq]
  exact unique_insertionSort_pairwise _

theorem layerChunks_eq (h : occupancy.Made given swapSpatial plane chunkU chunkV) :
    occupancy.layerChunks = occupancy.cells.length := by
  rw [h.eq_index]
  rfl

theorem occupiedRows_eq (h : occupancy.Made given swapSpatial plane chunkU chunkV) :
    occupancy.occupiedRows = occupancy.cells.foldl (addCell occupancy.grid.columns) [] := by
  rw [h.eq_index]
  rfl

theorem regions_length (h : occupancy.Made given swapSpatial plane chunkU chunkV) :
    occupancy.regions.length = given.length := by
  rw [h.regions_eq, List.length_map]

/-- The cells of one region. -/
def numbers (occupancy : Occupancy) (i : ℕ) : List ℕ :=
  (cellNumbers occupancy.grid occupancy.regions).getD i []

theorem mem_cells_iff (h : occupancy.Made given swapSpatial plane chunkU chunkV) {key : ℕ} :
    key ∈ occupancy.cells ↔ ∃ i < given.length, key ∈ numbers occupancy i := by
  have hlen : (cellNumbers occupancy.grid occupancy.regions).length = given.length := by
    rw [cellNumbers, List.length_map, h.regions_length]
  rw [h.cells_eq, mem_unique_insertionSort, List.mem_flatten]
  constructor
  · rintro ⟨l, hl, hkey⟩
    obtain ⟨i, hi, rfl⟩ := List.mem_iff_getElem.1 hl
    exact ⟨i, by omega, by rwa [numbers, List.getD_eq_getElem _ _ hi]⟩
  · rintro ⟨i, hi, hkey⟩
    rw [numbers, List.getD_eq_getElem _ _ (by omega)] at hkey
    exact ⟨_, List.getElem_mem _, hkey⟩

/-- The incidences, each with the slot of its cell. -/
def items (occupancy : Occupancy) : List (ℕ × ℕ) :=
  (List.range occupancy.regions.length).flatMap fun i =>
    (numbers occupancy i).map fun c => (lowerBound occupancy.cells c, i)

theorem map_fst_items (occupancy : Occupancy) : (items occupancy).map Prod.fst =
    (cellNumbers occupancy.grid occupancy.regions).flatten.map (lowerBound occupancy.cells) := by
  rw [flatten_eq_flatMap_getD, items, List.map_flatMap, List.map_flatMap,
    cellNumbers, List.length_map]
  simp only [List.map_map, Function.comp_def]
  rfl

/-- What the index sorts. -/
theorem index_eq (h : occupancy.Made given swapSpatial plane chunkU chunkV) :
    occupancy.offsets = keyOffsets occupancy.cells.length ((items occupancy).map Prod.fst) ∧
      occupancy.entries = placeByKey 0 occupancy.cells.length
        (keyOffsets occupancy.cells.length ((items occupancy).map Prod.fst)) (items occupancy) := by
  -- a slot is numbered in 32 bits, and so is a region
  have hslot : ∀ c ∈ (cellNumbers occupancy.grid occupancy.regions).flatten,
      lowerBound occupancy.cells c % 2 ^ 32 = lowerBound occupancy.cells c := by
    intro c hc
    refine Nat.mod_eq_of_lt ?_
    have hlt := lowerBound_lt h.cells_pairwise (by rwa [h.cells_eq, mem_unique_insertionSort])
    have hle : occupancy.cells.length ≤ kMaxChunkIncidences := by
      rw [h.cells_eq, h.grid_eq, h.regions_eq]
      exact (unique_insertionSort_length_le _).trans h.incidences_le
    rw [kMaxChunkIncidences] at hle
    omega
  have hslots : (cellNumbers occupancy.grid occupancy.regions).flatten.map
      (fun c => lowerBound occupancy.cells c % 2 ^ 32) = (items occupancy).map Prod.fst := by
    rw [map_fst_items]
    exact List.map_congr_left hslot
  have hoffsets : occupancy.offsets = keyOffsets occupancy.cells.length
      ((cellNumbers occupancy.grid occupancy.regions).flatten.map fun c =>
        lowerBound occupancy.cells c % 2 ^ 32) := by
    rw [h.eq_index]
    rfl
  have hentries : occupancy.entries = placeByKey 0 occupancy.cells.length occupancy.offsets
      ((List.range occupancy.regions.length).flatMap fun i =>
        (List.range' (((List.range (given.length + 1)).map fun i =>
            ((cellNumbers occupancy.grid occupancy.regions).take i).flatten.length).getD i 0)
          (((List.range (given.length + 1)).map fun i =>
              ((cellNumbers occupancy.grid occupancy.regions).take i).flatten.length).getD
                (i + 1) 0 -
            ((List.range (given.length + 1)).map fun i =>
              ((cellNumbers occupancy.grid occupancy.regions).take i).flatten.length).getD i
                  0)).map fun k =>
          (((cellNumbers occupancy.grid occupancy.regions).flatten.map fun c =>
            lowerBound occupancy.cells c % 2 ^ 32).getD k 0, i % 2 ^ 32)) := by
    rw [h.eq_index]
    rfl
  rw [hslots] at hoffsets hentries
  refine ⟨hoffsets, ?_⟩
  rw [hentries, hoffsets]
  congr 1
  refine List.flatMap_congr fun i hi => ?_
  rw [List.mem_range] at hi
  have hi' : i < given.length := h.regions_length ▸ hi
  have hregion : i % 2 ^ 32 = i := by
    have := h.length_le
    rw [kMaxSpectralRegions] at this
    exact Nat.mod_eq_of_lt (by omega)
  have hfirst : ∀ j ≤ given.length, ((List.range (given.length + 1)).map fun i =>
      ((cellNumbers occupancy.grid occupancy.regions).take i).flatten.length).getD j 0 =
      (((cellNumbers occupancy.grid occupancy.regions).map
        (List.map (lowerBound occupancy.cells))).take
        j).flatten.length := by
    intro j hj
    rw [List.getD_eq_getElem _ _ (by simp; omega), List.getElem_map,
      List.getElem_range, ← List.map_take,
      ← List.map_flatten, List.length_map]
  have hlen : i < ((cellNumbers occupancy.grid occupancy.regions).map
      (List.map (lowerBound occupancy.cells))).length := by
    rw [List.length_map, cellNumbers, List.length_map]
    exact hi
  have hslice := congrArg (List.map fun slot => (slot, i)) (map_getD_flatten _ hlen 0)
  rw [List.map_map, List.get_eq_getElem, List.getElem_map, List.map_map] at hslice
  rw [hfirst i hi'.le, hfirst (i + 1) hi', hregion, map_fst_items, List.map_flatten, numbers,
    List.getD_eq_getElem _ _ (by rwa [List.length_map] at hlen)]
  exact hslice

/-- **The incidences are sorted into the cells, those of a cell in region order.** -/
theorem entries_spec (h : occupancy.Made given swapSpatial plane chunkU chunkV)
    (hnodup : ∀ i < given.length, (numbers occupancy i).Nodup) :
    occupancy.offsets.length = occupancy.cells.length + 1 ∧
      occupancy.offsets.getD 0 0 = 0 ∧
      occupancy.offsets.getD occupancy.cells.length 0 = occupancy.entries.length ∧
      (∀ slot slot', slot ≤ slot' → slot' ≤ occupancy.cells.length →
        occupancy.offsets.getD slot 0 ≤ occupancy.offsets.getD slot' 0) ∧
      ∀ key ∈ occupancy.cells,
        (occupancy.entries.drop (occupancy.offsets.getD (lowerBound occupancy.cells key) 0)).take
          (occupancy.offsets.getD (lowerBound occupancy.cells key + 1) 0 -
            occupancy.offsets.getD (lowerBound occupancy.cells key) 0) =
          (List.range given.length).filter fun i => key ∈ numbers occupancy i := by
  obtain ⟨hoffsets, hentries⟩ := h.index_eq
  have hmem : ∀ i < given.length, ∀ c ∈ numbers occupancy i, c ∈ occupancy.cells := fun i hi c hc =>
    h.mem_cells_iff.2 ⟨i, hi, hc⟩
  have hkeys : ∀ item ∈ items occupancy, item.1 < occupancy.cells.length := by
    intro item hitem
    obtain ⟨i, hi, hitem⟩ := List.mem_flatMap.1 hitem
    obtain ⟨c, hc, rfl⟩ := List.mem_map.1 hitem
    rw [List.mem_range, h.regions_length] at hi
    exact lowerBound_lt h.cells_pairwise (hmem i hi c hc)
  have hkeys' : ∀ key ∈ (items occupancy).map Prod.fst, key < occupancy.cells.length := by
    intro key hkey
    obtain ⟨item, hitem, rfl⟩ := List.mem_map.1 hkey
    exact hkeys item hitem
  have hget : ∀ slot ≤ occupancy.cells.length, occupancy.offsets.getD slot 0 =
      below ((items occupancy).map Prod.fst) slot := fun slot hslot => by
    rw [hoffsets, keyOffsets_getD hkeys' hslot]
  have hlength : occupancy.entries.length = (items occupancy).length := by
    rw [hentries, placeByKey_length]
  refine ⟨by rw [hoffsets, keyOffsets_length], by rw [hget 0 (Nat.zero_le _), below_zero],
    ?_, ?_, ?_⟩
  · rw [hget _ (Nat.le_refl _), below_eq_length hkeys', List.length_map, hlength]
  · intro slot slot' hle hle'
    rw [hget slot (hle.trans hle'), hget slot' hle']
    exact below_mono _ hle
  · intro key hkey
    have hslice := placeByKey_slice 0 hkeys (lowerBound_lt h.cells_pairwise hkey)
    rw [← hentries, ← hoffsets] at hslice
    rw [hslice, items, h.regions_length]
    exact ofKey_lowerBound h.cells_pairwise hnodup hmem hkey

/-! ### Cells and pixels -/

theorem regions_get (h : occupancy.Made given swapSpatial plane chunkU chunkV) {i : ℕ}
    {region : RegionMask}
    (hi : given[i]? = some region) : occupancy.regions[i]? = some (region.place swapSpatial) := by
  rw [h.regions_eq, List.getElem?_map, hi]
  rfl

theorem sizes (h : occupancy.Made given swapSpatial plane chunkU chunkV) (hplane : plane.Counted) :
    ∀ region ∈ occupancy.regions, 0 < region.uSize ∧ 0 < region.vSize ∧
      region.uStart + region.uSize < 2 ^ 64 ∧ region.vStart + region.vSize < 2 ^ 64 := by
  intro region hregion
  rw [h.regions_eq] at hregion
  obtain ⟨r, hr, rfl⟩ := List.mem_map.1 hregion
  have hshows : (r.place swapSpatial).Shows _ := (h.fits r hr).shows hplane
  exact ⟨hshows.uSize_pos, hshows.vSize_pos, hshows.uEnd_lt, hshows.vEnd_lt⟩

theorem sizes_pos (h : occupancy.Made given swapSpatial plane chunkU chunkV)
    (hplane : plane.Counted) :
    ∀ region ∈ occupancy.regions, 0 < region.uSize ∧ 0 < region.vSize := fun region hregion =>
  ⟨(h.sizes hplane region hregion).1, (h.sizes hplane region hregion).2.1⟩

theorem chunks_pos (h : occupancy.Made given swapSpatial plane chunkU chunkV)
    (hends : ScansEndBelow given swapSpatial chunkU chunkV) : 0 < chunkU ∧ 0 < chunkV := by
  obtain ⟨region, hregion⟩ := List.exists_mem_of_ne_nil given h.given_ne
  exact ⟨(hends region hregion).chunkU_pos, (hends region hregion).chunkV_pos⟩

theorem around (h : occupancy.Made given swapSpatial plane chunkU chunkV) (hplane : plane.Counted)
    (hends : ScansEndBelow given swapSpatial chunkU chunkV) :
    occupancy.grid.Around occupancy.regions := by
  obtain ⟨hu, hv⟩ := h.chunks_pos hends
  have hsizes := h.sizes hplane
  rw [h.grid_eq, h.regions_eq]
  rw [h.regions_eq] at hsizes
  exact ChunkGrid.over_around (by simpa using h.given_ne) hu hv hsizes

/-- The box lies on the plane. -/
theorem box_le (h : occupancy.Made given swapSpatial plane chunkU chunkV) (hplane : plane.Counted)
    (hends : ScansEndBelow given swapSpatial chunkU chunkV) :
    occupancy.grid.u1 ≤ (if swapSpatial then plane.height else plane.width) ∧
      occupancy.grid.v1 ≤ if swapSpatial then plane.width else plane.height := by
  have haround := h.around hplane hends
  constructor
  · obtain ⟨region, hregion, heq⟩ := haround.u1_mem
    rw [h.regions_eq] at hregion
    obtain ⟨r, hr, rfl⟩ := List.mem_map.1 hregion
    rw [heq]
    cases swapSpatial
    · exact (h.fits r hr).width_le
    · exact (h.fits r hr).height_le
  · obtain ⟨region, hregion, heq⟩ := haround.v1_mem
    rw [h.regions_eq] at hregion
    obtain ⟨r, hr, rfl⟩ := List.mem_map.1 hregion
    rw [heq]
    cases swapSpatial
    · exact (h.fits r hr).height_le
    · exact (h.fits r hr).width_le

theorem box_lt (h : occupancy.Made given swapSpatial plane chunkU chunkV) (hplane : plane.Counted)
    (hends : ScansEndBelow given swapSpatial chunkU chunkV) :
    (occupancy.grid.u1 - occupancy.grid.u0) * (occupancy.grid.v1 - occupancy.grid.v0) < 2 ^ 64 ∧
      occupancy.grid.u1 < 2 ^ 64 ∧ occupancy.grid.v1 < 2 ^ 64 := by
  obtain ⟨hu, hv⟩ := h.box_le hplane hends
  have hw := hplane.width_lt
  have hh := hplane.height_lt
  have hmul : (occupancy.grid.u1 - occupancy.grid.u0) * (occupancy.grid.v1 - occupancy.grid.v0) ≤
      (if swapSpatial then plane.height else plane.width) *
        if swapSpatial then plane.width else plane.height :=
    Nat.mul_le_mul (by omega) (by omega)
  cases swapSpatial
  · exact ⟨hmul.trans_lt hplane.pixels_lt, by simp at hu; omega, by simp at hv; omega⟩
  · simp only [if_true] at hu hv hmul
    rw [Nat.mul_comm plane.height] at hmul
    exact ⟨hmul.trans_lt hplane.pixels_lt, by omega, by omega⟩

theorem cell_eq (h : occupancy.Made given swapSpatial plane chunkU chunkV) (hplane : plane.Counted)
    (hends : ScansEndBelow given swapSpatial chunkU chunkV) {cu cv : ℕ}
    (hhas : occupancy.grid.Has cu cv) :
    occupancy.grid.cell cu cv =
      (cv - occupancy.grid.chunkCv0) * occupancy.grid.columns + (cu - occupancy.grid.chunkCu0) ∧
      cu - occupancy.grid.chunkCu0 < occupancy.grid.columns := by
  obtain ⟨hpixels, hu1, hv1⟩ := h.box_lt hplane hends
  exact (h.around hplane hends).cell_eq (h.sizes_pos hplane) hpixels hu1 hv1 hhas

theorem cell_injective (h : occupancy.Made given swapSpatial plane chunkU chunkV)
    (hplane : plane.Counted)
    (hends : ScansEndBelow given swapSpatial chunkU chunkV) {cu cv cu' cv' : ℕ}
    (hhas : occupancy.grid.Has cu cv) (hhas' : occupancy.grid.Has cu' cv')
    (heq : occupancy.grid.cell cu cv = occupancy.grid.cell cu' cv') : cu = cu' ∧ cv = cv' := by
  obtain ⟨hpixels, hu1, hv1⟩ := h.box_lt hplane hends
  exact (h.around hplane hends).cell_injective (h.sizes_pos hplane) hpixels hu1 hv1 hhas hhas' heq

/-- A chunk some region occupies is one of the grid. -/
theorem has_of_occupies (h : occupancy.Made given swapSpatial plane chunkU chunkV)
    (hplane : plane.Counted)
    (hends : ScansEndBelow given swapSpatial chunkU chunkV) {region : RegionMask}
    (hregion : region ∈ given)
    {cu cv : ℕ} (hocc : Occupies (region.selectsAt swapSpatial) chunkU chunkV cu cv) :
    occupancy.grid.Has cu cv := by
  obtain ⟨u, v, hsel, rfl, rfl⟩ := hocc
  have hshows : (region.place swapSpatial).Shows _ := (h.fits region hregion).shows hplane
  obtain ⟨hu, hu', hv, hv'⟩ := hshows.inside u v hsel
  have hmem : region.place swapSpatial ∈ occupancy.regions := by
    rw [h.regions_eq]
    exact List.mem_map_of_mem hregion
  have haround := h.around hplane hends
  have h₁ := haround.u0_le _ hmem
  have h₂ := haround.v0_le _ hmem
  have h₃ := haround.le_u1 _ hmem
  have h₄ := haround.le_v1 _ hmem
  rw [ChunkGrid.Has, haround.chunkCu0_eq, haround.chunkCv0_eq, h.chunkU_eq, h.chunkV_eq]
  exact ⟨Nat.div_le_div_right (by omega), Nat.div_le_div_right (by omega),
    Nat.div_le_div_right (by omega), Nat.div_le_div_right (by omega)⟩

theorem numbers_eq (h : occupancy.Made given swapSpatial plane chunkU chunkV) {i : ℕ}
    {region : RegionMask}
    (hi : given[i]? = some region) : numbers occupancy i =
      ((region.place swapSpatial).cells occupancy.grid).map fun cell =>
        occupancy.grid.cell cell.1 cell.2 := by
  rw [numbers, cellNumbers, List.getD_eq_getElem?_getD, List.getElem?_map, h.regions_get hi,
    Option.map_some, Option.getD_some]

theorem numbers_facts (h : occupancy.Made given swapSpatial plane chunkU chunkV)
    (hplane : plane.Counted)
    (hends : ScansEndBelow given swapSpatial chunkU chunkV) {i : ℕ} {region : RegionMask}
    (hi : given[i]? = some region) :
    (numbers occupancy i).Nodup ∧ ∀ cu cv, occupancy.grid.Has cu cv →
      (occupancy.grid.cell cu cv ∈ numbers occupancy i ↔
        Occupies (region.selectsAt swapSpatial) chunkU chunkV cu cv) := by
  have hregion := List.mem_of_getElem? hi
  have hshows : (region.place swapSpatial).Shows _ := (h.fits region hregion).shows hplane
  have hends' : (region.place swapSpatial).ScanEndsBelow occupancy.grid.chunkU
      occupancy.grid.chunkV := by
    rw [h.chunkU_eq, h.chunkV_eq]
    exact hends region hregion
  have hmem : ∀ cu cv, (cu, cv) ∈ (region.place swapSpatial).cells occupancy.grid ↔
      Occupies (region.selectsAt swapSpatial) chunkU chunkV cu cv := fun cu cv => by
    rw [hshows.mem_cells hends', h.chunkU_eq, h.chunkV_eq]
  have hhas : ∀ cell ∈ (region.place swapSpatial).cells occupancy.grid,
      occupancy.grid.Has cell.1 cell.2 := fun cell hcell =>
    h.has_of_occupies hplane hends hregion ((hmem cell.1 cell.2).1 hcell)
  rw [h.numbers_eq hi]
  refine ⟨List.Nodup.map_on (fun a ha b hb heq => ?_) (hshows.nodup_cells hends'),
    fun cu cv hcell => ?_⟩
  · obtain ⟨h₁, h₂⟩ := h.cell_injective hplane hends (hhas a ha) (hhas b hb) heq
    exact Prod.ext h₁ h₂
  · rw [← hmem, List.mem_map]
    constructor
    · rintro ⟨cell, hc, heq⟩
      obtain ⟨rfl, rfl⟩ := h.cell_injective hplane hends (hhas cell hc) hcell heq
      exact hc
    · exact fun hc => ⟨(cu, cv), hc, rfl⟩

/-- **The regions touching a chunk of the grid, in order.** -/
theorem regionsTouching_eq (h : occupancy.Made given swapSpatial plane chunkU chunkV)
    (hplane : plane.Counted) (hends : ScansEndBelow given swapSpatial chunkU chunkV) (cu cv : ℕ) :
    occupancy.regionsTouching cu cv =
      (List.range given.length).filter fun i =>
        occupancy.grid.cell cu cv ∈ numbers occupancy i := by
  rw [Occupancy.regionsTouching]
  have hnodup : ∀ i < given.length, (numbers occupancy i).Nodup := fun i hi =>
    (h.numbers_facts hplane hends (List.getElem?_eq_getElem hi)).1
  by_cases hkey : occupancy.grid.cell cu cv ∈ occupancy.cells
  · simp only [lowerBound_getElem? h.cells_pairwise hkey, if_true]
    exact (h.entries_spec hnodup).2.2.2.2 _ hkey
  · simp only [if_neg (lowerBound_ne hkey _)]
    refine (List.filter_eq_nil_iff.2 fun i hi => ?_).symm
    rw [List.mem_range] at hi
    rw [decide_eq_true_eq]
    exact fun hmem => hkey (h.mem_cells_iff.2 ⟨i, hi, hmem⟩)

theorem mem_regionsTouching (h : occupancy.Made given swapSpatial plane chunkU chunkV)
    (hplane : plane.Counted) (hends : ScansEndBelow given swapSpatial chunkU chunkV) {cu cv : ℕ}
    (hhas : occupancy.grid.Has cu cv) (i : ℕ) :
    i ∈ occupancy.regionsTouching cu cv ↔ ∃ region, given[i]? = some region ∧
      Occupies (region.selectsAt swapSpatial) chunkU chunkV cu cv := by
  rw [h.regionsTouching_eq hplane hends, List.mem_filter, List.mem_range, decide_eq_true_eq]
  constructor
  · rintro ⟨hi, hmem⟩
    have hget := List.getElem?_eq_getElem hi
    exact ⟨_, hget, ((h.numbers_facts hplane hends hget).2 cu cv hhas).1 hmem⟩
  · rintro ⟨region, hget, hocc⟩
    exact ⟨(List.getElem?_eq_some_iff.1 hget).1,
      ((h.numbers_facts hplane hends hget).2 cu cv hhas).2 hocc⟩

/-- The chunk of a cell's number. -/
def chunkOf (grid : ChunkGrid) (key : ℕ) : ℕ × ℕ :=
  (grid.chunkCu0 + key % grid.columns, grid.chunkCv0 + key / grid.columns)

theorem chunkOf_cell (h : occupancy.Made given swapSpatial plane chunkU chunkV)
    (hplane : plane.Counted)
    (hends : ScansEndBelow given swapSpatial chunkU chunkV) {cu cv : ℕ}
    (hhas : occupancy.grid.Has cu cv) :
    chunkOf occupancy.grid (occupancy.grid.cell cu cv) = (cu, cv) := by
  obtain ⟨hcell, hcolumn⟩ := h.cell_eq hplane hends hhas
  have hpos : 0 < occupancy.grid.columns := by omega
  obtain ⟨hcu, -, hcv, -⟩ := hhas
  rw [chunkOf, hcell, Nat.mul_add_mod', Nat.mod_eq_of_lt hcolumn,
    Nat.add_comm (_ * occupancy.grid.columns), Nat.add_mul_div_right _ _ hpos,
    Nat.div_eq_of_lt hcolumn]
  exact Prod.ext (by omega) (by omega)

/-- A number among the cells is that of a chunk some region occupies. -/
theorem exists_of_mem_cells (h : occupancy.Made given swapSpatial plane chunkU chunkV)
    (hplane : plane.Counted) (hends : ScansEndBelow given swapSpatial chunkU chunkV) {key : ℕ}
    (hkey : key ∈ occupancy.cells) :
    ∃ cu cv, occupancy.grid.Has cu cv ∧ occupancy.grid.cell cu cv = key ∧
      ∃ region ∈ given, Occupies (region.selectsAt swapSpatial) chunkU chunkV cu cv := by
  obtain ⟨i, hi, hmem⟩ := h.mem_cells_iff.1 hkey
  have hget := List.getElem?_eq_getElem hi
  have hregion := List.mem_of_getElem? hget
  rw [h.numbers_eq hget] at hmem
  obtain ⟨⟨cu, cv⟩, hcell, rfl⟩ := List.mem_map.1 hmem
  have hshows : (RegionMask.place swapSpatial _).Shows _ := (h.fits _ hregion).shows hplane
  have hends' : (RegionMask.place swapSpatial (given.get ⟨i, hi⟩)).ScanEndsBelow
    occupancy.grid.chunkU
      occupancy.grid.chunkV := by
    rw [h.chunkU_eq, h.chunkV_eq]
    exact hends _ hregion
  have hocc := (hshows.mem_cells hends').1 hcell
  rw [h.chunkU_eq, h.chunkV_eq] at hocc
  exact ⟨cu, cv, h.has_of_occupies hplane hends hregion hocc, rfl, _, hregion, hocc⟩

theorem cell_mem_cells_iff (h : occupancy.Made given swapSpatial plane chunkU chunkV)
    (hplane : plane.Counted) (hends : ScansEndBelow given swapSpatial chunkU chunkV) {cu cv : ℕ}
    (hhas : occupancy.grid.Has cu cv) :
    occupancy.grid.cell cu cv ∈ occupancy.cells ↔
      ∃ region ∈ given, Occupies (region.selectsAt swapSpatial) chunkU chunkV cu cv := by
  constructor
  · intro hmem
    obtain ⟨cu', cv', hhas', heq, hregion⟩ := h.exists_of_mem_cells hplane hends hmem
    obtain ⟨rfl, rfl⟩ := h.cell_injective hplane hends hhas' hhas heq
    exact hregion
  · rintro ⟨region, hregion, hocc⟩
    obtain ⟨i, hi⟩ := List.mem_iff_getElem?.1 hregion
    exact h.mem_cells_iff.2 ⟨i, (List.getElem?_eq_some_iff.1 hi).1,
      ((h.numbers_facts hplane hends hi).2 cu cv hhas).2 hocc⟩

theorem regionsTouching_ne_nil_iff (h : occupancy.Made given swapSpatial plane chunkU chunkV)
    (hplane : plane.Counted) (hends : ScansEndBelow given swapSpatial chunkU chunkV) {cu cv : ℕ}
    (hhas : occupancy.grid.Has cu cv) :
    occupancy.regionsTouching cu cv ≠ [] ↔ occupancy.grid.cell cu cv ∈ occupancy.cells := by
  rw [h.cell_mem_cells_iff hplane hends hhas]
  constructor
  · intro hne
    obtain ⟨i, hi⟩ := List.exists_mem_of_ne_nil _ hne
    obtain ⟨region, hget, hocc⟩ := (h.mem_regionsTouching hplane hends hhas i).1 hi
    exact ⟨region, List.mem_of_getElem? hget, hocc⟩
  · rintro ⟨region, hregion, hocc⟩
    obtain ⟨i, hi⟩ := List.mem_iff_getElem?.1 hregion
    exact List.ne_nil_of_mem ((h.mem_regionsTouching hplane hends hhas i).2 ⟨region, hi, hocc⟩)

/-- The occupied chunks, in the order of their numbers. -/
theorem mem_map_chunkOf (h : occupancy.Made given swapSpatial plane chunkU chunkV)
    (hplane : plane.Counted) (hends : ScansEndBelow given swapSpatial chunkU chunkV) {cu cv : ℕ} :
    (cu, cv) ∈ occupancy.cells.map (chunkOf occupancy.grid) ↔
      occupancy.grid.Has cu cv ∧ occupancy.grid.cell cu cv ∈ occupancy.cells := by
  rw [List.mem_map]
  constructor
  · rintro ⟨key, hkey, heq⟩
    obtain ⟨cu', cv', hhas, rfl, -⟩ := h.exists_of_mem_cells hplane hends hkey
    rw [h.chunkOf_cell hplane hends hhas, Prod.mk.injEq] at heq
    obtain ⟨rfl, rfl⟩ := heq
    exact ⟨hhas, hkey⟩
  · rintro ⟨hhas, hmem⟩
    exact ⟨_, hmem, h.chunkOf_cell hplane hends hhas⟩

theorem nodup_map_chunkOf (h : occupancy.Made given swapSpatial plane chunkU chunkV)
    (hplane : plane.Counted) (hends : ScansEndBelow given swapSpatial chunkU chunkV) :
    (occupancy.cells.map (chunkOf occupancy.grid)).Nodup := by
  refine List.Nodup.map_on (fun a ha b hb heq => ?_) (h.cells_pairwise.imp fun h => Nat.ne_of_lt h)
  obtain ⟨cu, cv, hhas, rfl, -⟩ := h.exists_of_mem_cells hplane hends ha
  obtain ⟨cu', cv', hhas', rfl, -⟩ := h.exists_of_mem_cells hplane hends hb
  rw [h.chunkOf_cell hplane hends hhas, h.chunkOf_cell hplane hends hhas', Prod.mk.injEq] at heq
  rw [heq.1, heq.2]

end Occupancy.Made

/-! ## The index -/

/-- The chunks of the grid. -/
def ChunkGrid.chunks (grid : ChunkGrid) : Finset (ℕ × ℕ) :=
  Finset.Icc grid.chunkCu0 ((grid.u1 - 1) / grid.chunkU) ×ˢ
    Finset.Icc grid.chunkCv0 ((grid.v1 - 1) / grid.chunkV)

theorem ChunkGrid.mem_chunks {grid : ChunkGrid} {cu cv : ℕ} :
    (cu, cv) ∈ grid.chunks ↔ grid.Has cu cv := by
  rw [ChunkGrid.chunks, Finset.mem_product, Finset.mem_Icc, Finset.mem_Icc,
    ChunkGrid.Has, and_assoc]

/-- An occupancy says of every chunk of the grid over the regions which of them select a pixel in
it, and of every row of a region which of its pixels. -/
structure Occupancy.IsIndex (occupancy : Occupancy) (given : List RegionMask) (swapSpatial : Bool)
    (chunkU chunkV : ℕ) : Prop where
  chunkU_eq : occupancy.grid.chunkU = chunkU
  chunkV_eq : occupancy.grid.chunkV = chunkV
  around : occupancy.grid.Around (given.map (RegionMask.place swapSpatial))
  ascending : ∀ cu cv, occupancy.grid.Has cu cv → (occupancy.regionsTouching cu cv).Pairwise (· < ·)
  touching_iff : ∀ cu cv, occupancy.grid.Has cu cv → ∀ i, i ∈ occupancy.regionsTouching cu cv ↔
    ∃ region, given[i]? = some region ∧ Occupies (region.selectsAt swapSpatial) chunkU chunkV cu cv
  layerChunks_eq : occupancy.layerChunks =
    (occupancy.grid.chunks.filter fun cell => occupancy.regionsTouching cell.1 cell.2 ≠ []).card
  offsets_length : occupancy.offsets.length = occupancy.layerChunks + 1
  offsets_zero : occupancy.offsets.head? = some 0
  offsets_last : occupancy.offsets.getLast? = some occupancy.entries.length
  offsets_mono : occupancy.offsets.Pairwise (· ≤ ·)
  /-- One slice for each occupied cell, that of the regions touching it. -/
  slices : ∃ cells : List (ℕ × ℕ), cells.Nodup ∧ cells.length = occupancy.layerChunks ∧
    (∀ cu cv, (cu, cv) ∈ cells ↔
      occupancy.grid.Has cu cv ∧ occupancy.regionsTouching cu cv ≠ []) ∧
    ∀ slot cu cv, cells[slot]? = some (cu, cv) →
      (occupancy.entries.drop (occupancy.offsets.getD slot 0)).take
        (occupancy.offsets.getD (slot + 1) 0 - occupancy.offsets.getD slot 0) =
          occupancy.regionsTouching cu cv
  /-- The rows of a region within a box are all those where it may select a pixel there, and the
  spans of a row visit the pixels selected in a window, each once and in order. -/
  spans : ∀ (i : ℕ) (region : RegionMask), given[i]? = some region →
    ∃ placed : PlacedRegion, occupancy.regions[i]? = some placed ∧
      (∀ u0 u1 v0 v1 v, (placed.rowsWithin u0 u1 v0 v1).1 ≤ v ∧
        v < (placed.rowsWithin u0 u1 v0 v1).2 ↔
        max u0 placed.uStart < min u1 (placed.uStart + placed.uSize) ∧ v0 ≤ v ∧ v < v1 ∧
          placed.vStart ≤ v ∧ v < placed.vStart + placed.vSize) ∧
      ∀ v, placed.vStart ≤ v → v < placed.vStart + placed.vSize → ∀ u0 u1,
        (placed.forEachSpan v u0 u1).flatMap PlacedRegion.Span.pixels =
          (List.range' u0 (u1 - u0)).filter (region.selectsAt swapSpatial · v)

theorem pairwise_of_getD {l : List ℕ}
    (h : ∀ i j, i ≤ j → j + 1 ≤ l.length → l.getD i 0 ≤ l.getD j 0) :
    l.Pairwise (· ≤ ·) := by
  refine List.pairwise_iff_getElem.2 fun i j hi hj hij => ?_
  have := h i j hij.le hj
  rwa [List.getD_eq_getElem _ _ hi, List.getD_eq_getElem _ _ hj] at this

/-- What was made of regions that were scanned to their ends indexes them. -/
theorem Occupancy.Made.isIndex {occupancy : Occupancy} {given : List RegionMask}
    {swapSpatial : Bool}
    {plane : PlaneExtent} {chunkU chunkV : ℕ}
    (hmade : occupancy.Made given swapSpatial plane chunkU chunkV) (hplane : plane.Counted)
    (hends : ScansEndBelow given swapSpatial chunkU chunkV) :
    occupancy.IsIndex given swapSpatial chunkU chunkV := by
  have hnodup : ∀ i < given.length, (Occupancy.Made.numbers occupancy i).Nodup := fun i hi =>
    (hmade.numbers_facts hplane hends (List.getElem?_eq_getElem hi)).1
  obtain ⟨hlength, hzero, hlast, hmono, hslices⟩ := hmade.entries_spec hnodup
  have hlisted : ∀ cu cv, (cu, cv) ∈ occupancy.cells.map (Occupancy.Made.chunkOf occupancy.grid) ↔
      occupancy.grid.Has cu cv ∧ occupancy.regionsTouching cu cv ≠ [] := fun cu cv => by
    rw [hmade.mem_map_chunkOf hplane hends]
    exact and_congr_right fun hhas => (hmade.regionsTouching_ne_nil_iff hplane hends hhas).symm
  have hnodup' := hmade.nodup_map_chunkOf hplane hends
  refine
    { chunkU_eq := hmade.chunkU_eq
      chunkV_eq := hmade.chunkV_eq
      around := hmade.regions_eq ▸ hmade.around hplane hends
      ascending := fun cu cv _ => ?_
      touching_iff := fun cu cv hhas => hmade.mem_regionsTouching hplane hends hhas
      layerChunks_eq := ?_
      offsets_length := by rw [hlength, hmade.layerChunks_eq]
      offsets_zero := ?_
      offsets_last := ?_
      offsets_mono := pairwise_of_getD fun i j hij hj => hmono i j hij (by omega)
      slices := ⟨occupancy.cells.map (Occupancy.Made.chunkOf occupancy.grid), hnodup',
        by rw [List.length_map, hmade.layerChunks_eq], hlisted, fun slot cu cv hslot => ?_⟩
      spans := fun i region hi => ?_ }
  · rw [hmade.regionsTouching_eq hplane hends]
    exact List.Pairwise.filter _ List.pairwise_lt_range
  · have hset : (occupancy.grid.chunks.filter fun cell =>
        occupancy.regionsTouching cell.1 cell.2 ≠ []) =
        (occupancy.cells.map (Occupancy.Made.chunkOf occupancy.grid)).toFinset := by
      ext ⟨cu, cv⟩
      rw [Finset.mem_filter, ChunkGrid.mem_chunks, List.mem_toFinset, hlisted]
    rw [hset, List.toFinset_card_of_nodup hnodup', List.length_map, hmade.layerChunks_eq]
  · have hpos : 0 < occupancy.offsets.length := by omega
    rw [List.getD_eq_getElem _ _ hpos] at hzero
    rw [List.head?_eq_getElem?, List.getElem?_eq_getElem hpos, hzero]
  · have hlt : occupancy.cells.length < occupancy.offsets.length := by omega
    rw [List.getD_eq_getElem _ _ hlt] at hlast
    rw [List.getLast?_eq_getElem?, hlength, Nat.add_sub_cancel, List.getElem?_eq_getElem hlt, hlast]
  · rw [List.getElem?_map, Option.map_eq_some_iff] at hslot
    obtain ⟨key, hkey, heq⟩ := hslot
    have hmem := List.mem_of_getElem? hkey
    obtain ⟨cu', cv', hhas, rfl, -⟩ := hmade.exists_of_mem_cells hplane hends hmem
    rw [hmade.chunkOf_cell hplane hends hhas, Prod.mk.injEq] at heq
    obtain ⟨rfl, rfl⟩ := heq
    have hslot' : lowerBound occupancy.cells (occupancy.grid.cell cu' cv') = slot := by
      have hfound := lowerBound_getElem? hmade.cells_pairwise hmem
      have hnodup := hmade.cells_pairwise.imp fun {a b} (h : a < b) => Nat.ne_of_lt h
      exact (List.getElem?_inj (lowerBound_lt hmade.cells_pairwise hmem) hnodup).1
        (hfound.trans hkey.symm)
    rw [hmade.regionsTouching_eq hplane hends, ← hslices _ hmem, hslot']
  · have hfits := hmade.fits region (List.mem_of_getElem? hi)
    refine ⟨_, hmade.regions_get hi, fun u0 u1 v0 v1 v => ?_, fun v hv hv' u0 u1 =>
      hfits.forEachSpan_pixels hplane hv hv'⟩
    rw [PlacedRegion.rowsWithin_iff, hfits.uEnd_eq hplane, hfits.vEnd_eq hplane]

/-- **The occupancy index.** Over a plane whose pixels can be counted, and regions none of whose
chunk rows ends at `2 ^ 64` or beyond, what `Occupancy.of` accepts it indexes. -/
theorem occupancy_index {regions : BufferView RegionMask} {given : List RegionMask}
    (hgiven : regions.data = some given) {plane : PlaneExtent}
    (hplane : plane.Counted) {chunkU chunkV : ℕ}
    (hchunk : chunkU < 2 ^ 64) {axis : AxisRole} {node : String} {occupancy : Occupancy}
    (hrows : RowsEndBelow given (axis = .spatialY) chunkU chunkV)
    (h : Occupancy.of regions plane chunkU chunkV axis node = some (.ok occupancy)) :
    occupancy.IsIndex given (axis = .spatialY) chunkU chunkV := by
  have hends := Occupancy.scansEndBelow hgiven hplane hchunk hrows h
  exact (Occupancy.of_made hgiven hplane hends h).isIndex hplane hends

/-- Regions a caller lends. -/
def BufferView.of {α : Type} (elements : List α) : BufferView α :=
  ⟨some elements, elements.length, fun _ h => by rw [← Option.some.inj h]⟩

def boxRegion (xStart yStart width height : ℕ) : RegionMask :=
  ⟨xStart, yStart, width, height, ⟨none, 0, fun _ h => by cases h⟩⟩

/-- A raster of two rows: two pixels on a diagonal. -/
def diagonalRegion : RegionMask := ⟨1, 1, 2, 2, BufferView.of [1, 0, 0, 7]⟩

/-- What two regions that overlap occupy, of chunks a pixel wide and two pixels high. -/
def smallOccupancy : Occupancy where
  grid := ⟨1, 2, 0, 0, 3, 3, 0, 0, 3⟩
  regions := [⟨0, 0, 3, 2, none, 1, 3, none⟩,
    ⟨1, 1, 2, 2, some [1, 0, 0, 7], 1, 2, some ⟨[0, 1, 1, 2], [0, 1, 2]⟩⟩]
  cells := [0, 1, 2, 5]
  offsets := [0, 1, 3, 4, 5]
  entries := [0, 0, 1, 0, 1]
  occupiedRows := [⟨0, [⟨0, 2⟩]⟩, ⟨1, [⟨2, 2⟩]⟩]
  layerChunks := 4

theorem rowsEndBelow_smallRegions : RowsEndBelow [boxRegion 0 0 3 2, diagonalRegion] false 1 2 := by
  intro region hregion
  rcases List.mem_cons.1 hregion with rfl | hregion
  · exact ⟨by decide, by decide, by decide⟩
  · obtain rfl := List.mem_singleton.1 hregion
    exact ⟨by decide, by decide, by decide⟩

theorem occupancy_index_smallRegions :
    Occupancy.of (BufferView.of [boxRegion 0 0 3 2, diagonalRegion]) ⟨5, 4⟩ 1 2 .spatialX "sky" =
      some (.ok smallOccupancy) ∧
    smallOccupancy.IsIndex [boxRegion 0 0 3 2, diagonalRegion] false 1 2 := by
  have hof : Occupancy.of (BufferView.of [boxRegion 0 0 3 2, diagonalRegion])
    ⟨5, 4⟩ 1 2 .spatialX "sky" =
      some (.ok smallOccupancy) := by decide +kernel
  exact ⟨hof, occupancy_index rfl ⟨by decide, by decide, by decide⟩
    (by decide) rowsEndBelow_smallRegions hof⟩

/-- The chunk row that ends at `2 ^ 64` is found empty: its end is taken for zero. -/
theorem occupancy_lastRow_lost : (⟨1, 2 ^ 63 + 1⟩ : PlaneExtent).Counted ∧
    ∃ occupancy,
      Occupancy.of (BufferView.of [boxRegion 0 (2 ^ 63) 1 1]) ⟨1, 2 ^ 63 + 1⟩ 1
        (2 ^ 63) .spatialX "sky" =
        some (.ok occupancy) ∧
      occupancy.grid.Has 0 1 ∧ occupancy.regionsTouching 0 1 = [] ∧
      Occupies ((boxRegion 0 (2 ^ 63) 1 1).selectsAt false) 1 (2 ^ 63) 0 1 :=
  ⟨⟨by decide, by decide, by decide⟩,
    { grid := ⟨1, 2 ^ 63, 0, 2 ^ 63, 1, 2 ^ 63 + 1, 0, 1, 1⟩
      regions := [⟨0, 2 ^ 63, 1, 1, none, 1, 1, none⟩]
      cells := [], offsets := [0], entries := [], occupiedRows := [], layerChunks := 0 },
    by decide +kernel, by decide +kernel, by decide +kernel,
    0, 2 ^ 63, by decide +kernel, by decide +kernel, by decide +kernel⟩

end CartaZarr
