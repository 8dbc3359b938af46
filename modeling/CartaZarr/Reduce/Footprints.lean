import Mathlib.Data.List.Perm.Basic
import Mathlib.Data.Multiset.Bind
import CartaZarr.Foundations.Fallible
import CartaZarr.Reduce.OccupancyIndex

/-!
# Footprints of the occupied chunks

The occupied cells are in row order, so their rows and the runs of each are read off them one cell
at a time (`rows_flatMap_cells`). `footprints` reads a row together with those below that repeat it,
and cuts each run into pieces a read can hold; what the pieces cover is what the rows hold, in
another order (`footprintsFrom_spec`). Disjointness, coverage and the count of chunks all follow
from that, since the cells have no repetition (`footprints_partition`).
-/

namespace CartaZarr

open Word

/-! ## Rows -/

/-- The columns of some runs. -/
def runColumns (runs : List ColumnRun) : List ℕ :=
  runs.flatMap fun run => List.range' run.first (run.last + 1 - run.first)

/-- The numbers of the cells of a row. -/
def OccupiedRow.cells (columns : ℕ) (row : OccupiedRow) : List ℕ :=
  (runColumns row.runs).map (row.row * columns + ·)

/-- The runs of a row are nonempty, and lie in the grid. -/
def RunsIn (columns : ℕ) (runs : List ColumnRun) : Prop :=
  ∀ run ∈ runs, run.first ≤ run.last ∧ run.last < columns

theorem RunsIn.append {columns : ℕ} {runs runs' : List ColumnRun} (h : RunsIn columns runs)
    (h' : RunsIn columns runs') : RunsIn columns (runs ++ runs') := fun run hrun =>
  (List.mem_append.1 hrun).elim (h run) (h' run)

theorem RunsIn.singleton {columns first last : ℕ} (h : first ≤ last) (h' : last < columns) :
    RunsIn columns [⟨first, last⟩] := fun run hrun => by
  rw [List.mem_singleton.1 hrun]
  exact ⟨h, h'⟩

theorem addColumn_spec {columns column : ℕ} {runs : List ColumnRun} (hcolumns : columns < 2 ^ 64)
    (hruns : RunsIn columns runs) (hcolumn : column < columns) :
    (addColumn runs column ≠ [] ∧ RunsIn columns (addColumn runs column)) ∧
      runColumns (addColumn runs column) = runColumns runs ++ [column] := by
  have hnew : RunsIn columns (runs ++ [⟨column, column⟩]) :=
    hruns.append (.singleton (le_refl _) hcolumn)
  have hnewColumns : runColumns (runs ++ [⟨column, column⟩]) = runColumns runs ++ [column] := by
    simp [runColumns]
  rw [addColumn]
  rcases List.eq_nil_or_concat' runs with rfl | ⟨before, run, rfl⟩
  · exact ⟨⟨List.cons_ne_nil _ _, hnew⟩, hnewColumns⟩
  · rw [List.getLast?_concat]
    dsimp only
    have hrun := hruns run (by simp)
    rw [add_eq (by omega)]
    split_ifs with hnext
    · subst hnext
      have hbefore : RunsIn columns before := fun r hr => hruns r (by simp [hr])
      rw [List.dropLast_concat]
      refine ⟨⟨by simp, hbefore.append (.singleton (by omega) hcolumn)⟩, ?_⟩
      simp only [runColumns, List.flatMap_append, List.flatMap_singleton, List.append_assoc]
      rw [show run.last + 1 + 1 - run.first =
        run.last + 1 - run.first + 1 by omega, List.range'_concat,
        Nat.one_mul, show run.first + (run.last + 1 - run.first) = run.last + 1 by omega]
    · exact ⟨⟨by simp, hnew⟩, hnewColumns⟩

/-- Rows that have runs, each nonempty and in the grid. -/
def RowsIn (columns : ℕ) (rows : List OccupiedRow) : Prop :=
  ∀ row ∈ rows, row.runs ≠ [] ∧ RunsIn columns row.runs

theorem addCell_spec {columns : ℕ} {rows : List OccupiedRow} (cell : ℕ)
    (hcolumns : columns < 2 ^ 64)
    (hpos : 0 < columns) (hrows : RowsIn columns rows) :
    RowsIn columns (addCell columns rows cell) ∧ (addCell columns rows cell).flatMap
      (OccupiedRow.cells columns) = rows.flatMap (OccupiedRow.cells columns) ++ [cell] := by
  have hcell : cell / columns * columns + cell % columns = cell := Nat.div_add_mod' cell columns
  have hmod := Nat.mod_lt cell hpos
  have hnil : RunsIn columns [] := fun _ h => by cases h
  obtain ⟨hone, honeColumns⟩ := addColumn_spec hcolumns hnil hmod
  have hnew : RowsIn columns (rows ++ [⟨cell / columns, addColumn [] (cell % columns)⟩]) := by
    intro row hrow
    rcases List.mem_append.1 hrow with hrow | hrow
    · exact hrows row hrow
    · rw [List.mem_singleton.1 hrow]
      exact hone
  have hnewCells : (rows ++ [(⟨cell / columns, addColumn [] (cell % columns)⟩ :
    OccupiedRow)]).flatMap
      (OccupiedRow.cells columns) = rows.flatMap (OccupiedRow.cells columns) ++ [cell] := by
    rw [List.flatMap_append, List.flatMap_singleton, OccupiedRow.cells, honeColumns]
    simp [runColumns, hcell]
  rw [addCell]
  rcases List.eq_nil_or_concat' rows with rfl | ⟨before, last, rfl⟩
  · exact ⟨hnew, hnewCells⟩
  · rw [List.getLast?_concat]
    dsimp only
    split_ifs with hsame
    · obtain ⟨hin, hcells⟩ := addColumn_spec hcolumns (hrows last (by simp)).2 hmod
      rw [List.dropLast_concat]
      constructor
      · intro row hrow
        rcases List.mem_append.1 hrow with hrow | hrow
        · exact hrows row (by simp [hrow])
        · rw [List.mem_singleton.1 hrow]
          exact hin
      · rw [List.flatMap_append, List.flatMap_singleton, OccupiedRow.cells, hcells, List.map_append,
          List.map_singleton, hcell, List.flatMap_append, List.flatMap_singleton, ← hsame,
          List.append_assoc]
        rfl
    · exact ⟨hnew, hnewCells⟩

/-- **The rows read off the cells hold the cells.** -/
theorem rows_flatMap_cells {columns : ℕ} (hcolumns : columns < 2 ^ 64) (hpos : 0 < columns)
    (cells : List ℕ) : RowsIn columns (cells.foldl (addCell columns) []) ∧
      (cells.foldl (addCell columns) []).flatMap (OccupiedRow.cells columns) = cells := by
  induction cells using List.reverseRecOn with
  | nil => exact ⟨(fun _ h => by cases h), rfl⟩
  | append_singleton cells cell ih =>
    obtain ⟨hin, hcells⟩ := addCell_spec cell hcolumns hpos ih.1
    rw [List.foldl_append]
    exact ⟨hin, hcells.trans (by rw [ih.2])⟩

/-! ## Bands -/

namespace Occupancy

/-- A band is its first row and rows after it that repeat it, no more than it may have. -/
theorem bandRows_spec (first : OccupiedRow) (bandLimit : ℕ) {count : ℕ} {rest : List OccupiedRow}
    (hrow : ∀ row ∈ rest, row.row + 1 < 2 ^ 64) (hfirst : first.row + count < 2 ^ 64) :
    ∃ n, bandRows first bandLimit count rest = count + n ∧ n ≤ rest.length ∧
      (0 < n → count + n ≤ bandLimit) ∧
      ∀ j < n, ∃ row, rest[j]? = some row ∧ row.row = first.row + count + j ∧
      row.runs = first.runs := by
  induction rest generalizing count with
  | nil => exact ⟨0, rfl, le_refl 0, by simp, fun j hj => by omega⟩
  | cons next rest ih =>
    rw [bandRows]
    split_ifs with hjoins
    · obtain ⟨hnext, hlimit, hruns⟩ := hjoins
      have hnext' := hrow next List.mem_cons_self
      rw [add_eq hfirst] at hnext
      obtain ⟨n, hn, hle, hlim, hrows⟩ := ih (fun row h => hrow row (List.mem_cons_of_mem _ h))
        (by omega : first.row + (count + 1) < 2 ^ 64)
      refine ⟨n + 1, by rw [hn]; omega, by simpa using hle, fun _ => ?_, fun j hj => ?_⟩
      · rcases Nat.eq_zero_or_pos n with rfl | hpos
        · omega
        · have := hlim hpos
          omega
      · cases j with
        | zero => exact ⟨next, rfl, by omega, hruns⟩
        | succ j =>
          obtain ⟨row, hget, hrow', hruns'⟩ := hrows j (by omega)
          exact ⟨row, by simpa using hget, by omega, hruns'⟩
    · exact ⟨0, rfl, Nat.zero_le _, by simp, fun j hj => by omega⟩

/-- Cutting a run into pieces ends, and tiles it. -/
theorem pieces_spec {grid : ChunkGrid} {row rows segmentLimit : ℕ} (hlimit : 0 < segmentLimit)
    {whole : ColumnRun} (hwhole : whole.first ≤ whole.last) (hlast : whole.last + 1 < 2 ^ 64) :
    ∃ blocks, Tiling whole.first blocks (whole.last + 1) ∧
      (∀ block ∈ blocks, block.2 - block.1 ≤ segmentLimit) ∧
      pieces grid row rows segmentLimit whole =
        some (blocks.map fun block => piece grid row rows block.1 (block.2 - block.1)) := by
  have hnext : ∀ first, first < whole.last + 1 →
      add first (min segmentLimit (add (sub whole.last first) 1)) =
        first + min segmentLimit (whole.last + 1 - first) := by
    intro first hfirst
    rw [sub_eq (by omega) (by omega),
      add_eq (a := whole.last - first) (by omega), add_eq (by omega)]
    omega
  have hforward : ∀ first, first < whole.last + 1 → True →
      first < add first (min segmentLimit (add (sub whole.last first) 1)) ∧
        add first (min segmentLimit (add (sub whole.last first) 1)) ≤ whole.last + 1 ∧
        (add first (min segmentLimit (add (sub whole.last first) 1)) < whole.last + 1 → True) := by
    intro first hfirst _
    rw [hnext first hfirst]
    exact ⟨by omega, by omega, fun _ => trivial⟩
  obtain ⟨blocks, hwalk, htiling⟩ :=
    walk_tiling (P := fun _ => True) trivial (Nat.le_succ_of_le hwhole)
    hforward (Nat.sub_le (whole.last + 1) whole.first)
  have hblock : ∀ block ∈ blocks, block.2 - block.1 = min segmentLimit (whole.last + 1 - block.1) ∧
      block.1 < whole.last + 1 := by
    intro block hmem
    obtain ⟨hlt, heq⟩ := (walk_linked hwalk).2 block hmem
    rw [hnext _ hlt] at heq
    exact ⟨by omega, hlt⟩
  refine ⟨blocks, htiling, fun block hmem => by have := (hblock block hmem).1; omega, ?_⟩
  rw [pieces, hwalk, Option.map_some]
  congr 1
  refine List.map_congr_left fun block hmem => ?_
  obtain ⟨heq, hlt⟩ := hblock block hmem
  rw [heq, sub_eq (by omega) (by omega), add_eq (by omega), show whole.last - block.1 + 1 =
    whole.last + 1 - block.1 by omega]

/-- The cells of a band of rows cut into pieces fit a read, or are a single chunk. -/
theorem piece_chunks_le {chunksPerRead width rows n : ℕ}
    (hwidth : width ≤ unitsAffordable chunksPerRead rows) (hrows : rows = 1 ∨
      rows ≤ unitsAffordable chunksPerRead n) : width * rows ≤ max 1 chunksPerRead := by
  have hmul : width * rows ≤ max rows chunksPerRead :=
    (Nat.mul_le_mul_right rows hwidth).trans (unitsAffordable_mul_le chunksPerRead rows)
  have hle : unitsAffordable chunksPerRead n ≤ max 1 chunksPerRead :=
    max_le_max (le_refl 1) (Nat.div_le_self _ _)
  omega

end Occupancy

/-! ## What footprints cover -/

/-- The chunks of a row. -/
def OccupiedRow.chunks (grid : ChunkGrid) (row : OccupiedRow) : List (ℕ × ℕ) :=
  (runColumns row.runs).map fun column => (grid.chunkCu0 + column, grid.chunkCv0 + row.row)

/-- The chunks of a footprint. -/
def OccupiedFootprint.cells (footprint : OccupiedFootprint) : List (ℕ × ℕ) :=
  (List.range' footprint.chunkCuBegin
      (footprint.chunkCuEnd - footprint.chunkCuBegin)).flatMap fun cu =>
    (List.range' footprint.chunkCvBegin
      (footprint.chunkCvEnd - footprint.chunkCvBegin)).map fun cv => (cu, cv)

/-- A grid whose chunks end below `2 ^ 64`. -/
structure ChunkGrid.Bounded (grid : ChunkGrid) : Prop where
  chunkU_pos : 0 < grid.chunkU
  chunkV_pos : 0 < grid.chunkV
  columns_eq : grid.chunkCu0 + grid.columns = (grid.u1 - 1) / grid.chunkU + 1
  u_lt : ((grid.u1 - 1) / grid.chunkU + 1) * grid.chunkU < 2 ^ 64
  v_lt : ((grid.v1 - 1) / grid.chunkV + 1) * grid.chunkV < 2 ^ 64

/-- A footprint is a rectangle of the grid, clamped to its box, that a read can hold. -/
structure OccupiedFootprint.Sound (footprint : OccupiedFootprint) (grid : ChunkGrid)
    (chunksPerRead : ℕ) : Prop where
  cu_lt : footprint.chunkCuBegin < footprint.chunkCuEnd
  cv_lt : footprint.chunkCvBegin < footprint.chunkCvEnd
  cu_le : footprint.chunkCuEnd ≤ (grid.u1 - 1) / grid.chunkU + 1
  cv_le : footprint.chunkCvEnd ≤ (grid.v1 - 1) / grid.chunkV + 1
  uStart_eq : footprint.slab.uStart = max grid.u0 (footprint.chunkCuBegin * grid.chunkU)
  uCount_eq : footprint.slab.uCount =
    sub (min grid.u1 (footprint.chunkCuEnd * grid.chunkU)) footprint.slab.uStart
  uStride_eq : footprint.slab.uStride = 1
  vStart_eq : footprint.slab.vStart = max grid.v0 (footprint.chunkCvBegin * grid.chunkV)
  vCount_eq : footprint.slab.vCount =
    sub (min grid.v1 (footprint.chunkCvEnd * grid.chunkV)) footprint.slab.vStart
  vStride_eq : footprint.slab.vStride = 1
  chunks_eq : footprint.slab.chunks = (footprint.chunkCuEnd - footprint.chunkCuBegin) *
    (footprint.chunkCvEnd - footprint.chunkCvBegin)
  chunks_le : footprint.slab.chunks ≤ max 1 chunksPerRead

section Cover

variable {grid : ChunkGrid} {chunksPerRead : ℕ}

theorem ChunkGrid.Bounded.cu_lt (h : grid.Bounded) : (grid.u1 - 1) / grid.chunkU + 1 < 2 ^ 64 :=
  lt_of_le_of_lt (Nat.le_mul_of_pos_right _ h.chunkU_pos) h.u_lt

theorem ChunkGrid.Bounded.cv_lt (h : grid.Bounded) : (grid.v1 - 1) / grid.chunkV + 1 < 2 ^ 64 :=
  lt_of_le_of_lt (Nat.le_mul_of_pos_right _ h.chunkV_pos) h.v_lt

/-- A piece of a run is the rectangle of its columns and the band's rows. -/
theorem piece_spec (hgrid : grid.Bounded) (hread : chunksPerRead < 2 ^ 64)
    {row rows first width : ℕ}
    (hrows : 0 < rows) (hwidth : 0 < width) (hcolumns : first + width ≤ grid.columns)
    (hrow : grid.chunkCv0 + row + rows ≤ (grid.v1 - 1) / grid.chunkV + 1)
    (hchunks : width * rows ≤ max 1 chunksPerRead) :
    (Occupancy.piece grid row rows first width).Sound grid chunksPerRead ∧
      (Occupancy.piece grid row rows first width).chunkCuBegin = grid.chunkCu0 + first ∧
      (Occupancy.piece grid row rows first width).chunkCuEnd = grid.chunkCu0 + first + width ∧
      (Occupancy.piece grid row rows first width).chunkCvBegin = grid.chunkCv0 + row ∧
      (Occupancy.piece grid row rows first width).chunkCvEnd = grid.chunkCv0 + row + rows := by
  have hcu := hgrid.cu_lt
  have hcv := hgrid.cv_lt
  have hcolumns' := hgrid.columns_eq
  have hcuB : (Occupancy.piece grid row rows first width).chunkCuBegin = grid.chunkCu0 + first :=
    add_eq (by omega)
  have hcuE : (Occupancy.piece grid row rows first width).chunkCuEnd =
      grid.chunkCu0 + first + width := by
    change add (Occupancy.piece grid row rows first width).chunkCuBegin width = _
    rw [hcuB, add_eq (by omega)]
  have hcvB : (Occupancy.piece grid row rows first width).chunkCvBegin = grid.chunkCv0 + row :=
    add_eq (by omega)
  have hcvE : (Occupancy.piece grid row rows first width).chunkCvEnd =
      grid.chunkCv0 + row + rows := by
    change add grid.chunkCv0 (add row rows) = _
    rw [add_eq (a := row) (by omega), add_eq (by omega)]
    omega
  have hu : ∀ c ≤ grid.chunkCu0 + first + width, mul c grid.chunkU = c * grid.chunkU := fun c hc =>
    mul_eq (lt_of_le_of_lt (Nat.mul_le_mul_right _ (by omega)) hgrid.u_lt)
  have hv : ∀ c ≤ grid.chunkCv0 + row + rows, mul c grid.chunkV = c * grid.chunkV := fun c hc =>
    mul_eq (lt_of_le_of_lt (Nat.mul_le_mul_right _ (by omega)) hgrid.v_lt)
  have hmul : (Occupancy.piece grid row rows first width).slab.chunks =
    width * rows := mul_eq (by omega)
  refine ⟨?_, hcuB, hcuE, hcvB, hcvE⟩
  refine
    { cu_lt := by omega, cv_lt := by omega, cu_le := by omega, cv_le := by omega
      uStride_eq := rfl, vStride_eq := rfl
      chunks_le := hmul.trans_le hchunks
      uStart_eq := ?_, uCount_eq := ?_, vStart_eq := ?_, vCount_eq := ?_, chunks_eq := ?_ }
  · rw [← hu _ (by omega)]
    rfl
  · rw [← hu _ (by omega)]
    rfl
  · rw [← hv _ (by omega)]
    rfl
  · rw [← hv _ (by omega)]
    rfl
  · rw [hmul, hcuB, hcuE, hcvB, hcvE, Nat.add_sub_cancel_left, Nat.add_sub_cancel_left]

/-- Two ways through a table. -/
theorem flatMap_map_perm {α β γ : Type} (l : List α) (m : List β) (f : α → β → γ) :
    (l.flatMap fun a => m.map (f a)).Perm (m.flatMap fun b => l.map fun a => f a b) := by
  have h := Multiset.bind_map_comm (l : Multiset α) (m : Multiset β) (f := f)
  simp only [Multiset.map_coe, Multiset.coe_bind] at h
  exact Multiset.coe_eq_coe.1 h

/-- The pieces of a band cover what its rows hold. -/
theorem band_spec (hgrid : grid.Bounded) (hread : chunksPerRead < 2 ^ 64)
    {first : OccupiedRow} {rows n : ℕ}
    (hrows : 0 < rows) (hruns : RunsIn grid.columns first.runs)
    (hrow : grid.chunkCv0 + first.row + rows ≤ (grid.v1 - 1) / grid.chunkV + 1)
    (hlimit : rows = 1 ∨ rows ≤ unitsAffordable chunksPerRead n) :
    ∃ band, first.runs.mapM (Occupancy.pieces grid first.row rows
      (unitsAffordable chunksPerRead rows)) =
        some band ∧
      (∀ footprint ∈ band.flatten, footprint.Sound grid chunksPerRead) ∧
      (band.flatten.flatMap OccupiedFootprint.cells).Perm
        ((List.range rows).flatMap fun j =>
          OccupiedRow.chunks grid ⟨first.row + j, first.runs⟩) := by
  have hcu := hgrid.cu_lt
  have hcolumns := hgrid.columns_eq
  have hpieces : ∀ run ∈ first.runs, ∃ blocks, Tiling run.first blocks (run.last + 1) ∧
      (∀ block ∈ blocks, block.2 - block.1 ≤ unitsAffordable chunksPerRead rows) ∧
      Occupancy.pieces grid first.row rows (unitsAffordable chunksPerRead rows) run =
        some (blocks.map fun block => Occupancy.piece grid first.row rows block.1
            (block.2 - block.1)) :=
    fun run hrun => Occupancy.pieces_spec (unitsAffordable_pos _ _) (hruns run hrun).1
      (by have := (hruns run hrun).2; omega)
  choose! blocks htiling hwidth heq using hpieces
  -- each piece, and what it covers
  have hpiece : ∀ run ∈ first.runs, ∀ block ∈ blocks run,
      (Occupancy.piece grid first.row rows block.1 (block.2 - block.1)).Sound grid chunksPerRead ∧
      (Occupancy.piece grid first.row rows block.1 (block.2 - block.1)).cells =
        (List.range' block.1 (block.2 - block.1)).flatMap fun column =>
            (List.range rows).map fun j =>
          (grid.chunkCu0 + column, grid.chunkCv0 + (first.row + j)) := by
    intro run hrun block hblock
    obtain ⟨-, hlt, hle⟩ := (htiling run hrun).bounds block hblock
    have hlast := (hruns run hrun).2
    obtain ⟨hsound, hcuB, hcuE, hcvB, hcvE⟩ := piece_spec hgrid hread hrows
      (by omega : 0 < block.2 - block.1)
        (by omega : block.1 + (block.2 - block.1) ≤ grid.columns) hrow
      (Occupancy.piece_chunks_le (hwidth run hrun block hblock) hlimit)
    refine ⟨hsound, ?_⟩
    rw [OccupiedFootprint.cells, hcuB, hcuE, hcvB, hcvE, Nat.add_sub_cancel_left,
      Nat.add_sub_cancel_left,
      ← List.map_add_range' (a := grid.chunkCu0), List.flatMap_map]
    refine List.flatMap_congr fun column _ => ?_
    rw [List.range_eq_range', ← Nat.add_zero (grid.chunkCv0 + first.row),
      ← List.map_add_range', List.map_map]
    exact List.map_congr_left fun j _ => by simp [Nat.add_assoc]
  refine ⟨_, mapM_eq_some heq, ?_, ?_⟩
  · intro footprint hmem
    obtain ⟨pieces, hpieces, hfootprint⟩ := List.mem_flatten.1 hmem
    obtain ⟨run, hrun, rfl⟩ := List.mem_map.1 hpieces
    obtain ⟨block, hblock, rfl⟩ := List.mem_map.1 hfootprint
    exact (hpiece run hrun block hblock).1
  · have hcells : (first.runs.map fun run => (blocks run).map fun block =>
        Occupancy.piece grid first.row rows block.1 (block.2 - block.1)).flatten.flatMap
        OccupiedFootprint.cells = (runColumns first.runs).flatMap fun column =>
            (List.range rows).map fun j =>
          (grid.chunkCu0 + column, grid.chunkCv0 + (first.row + j)) := by
      rw [← List.flatMap_def, List.flatMap_assoc, runColumns, List.flatMap_assoc]
      refine List.flatMap_congr fun run hrun => ?_
      rw [← (htiling run hrun).flatMap_range', List.flatMap_assoc, List.flatMap_map]
      exact List.flatMap_congr fun block hblock => (hpiece run hrun block hblock).2
    rw [hcells]
    exact flatMap_map_perm (runColumns first.runs) (List.range rows) fun column j =>
      (grid.chunkCu0 + column, grid.chunkCv0 + (first.row + j))

/-- **Footprints are formed for all rows, and cover what the rows hold.** -/
theorem footprintsFrom_spec (hgrid : grid.Bounded) (hread : chunksPerRead < 2 ^ 64) {fuel : ℕ}
    {rows : List OccupiedRow} (hfuel : rows.length ≤ fuel) (hin : RowsIn grid.columns rows)
    (hrow : ∀ row ∈ rows, grid.chunkCv0 + row.row + 1 ≤ (grid.v1 - 1) / grid.chunkV + 1) :
    ∃ footprints, Occupancy.footprintsFrom grid chunksPerRead fuel rows = some footprints ∧
      (∀ footprint ∈ footprints, footprint.Sound grid chunksPerRead) ∧
      (footprints.flatMap OccupiedFootprint.cells).Perm
        (rows.flatMap (OccupiedRow.chunks grid)) := by
  induction fuel generalizing rows with
  | zero =>
    obtain rfl := List.length_eq_zero_iff.1 (Nat.le_zero.1 hfuel)
    exact ⟨[], rfl, by simp, .refl _⟩
  | succ fuel ih =>
    cases rows with
    | nil => exact ⟨[], rfl, by simp, .refl _⟩
    | cons first rest =>
      have hcv := hgrid.cv_lt
      have hfirst := hrow first List.mem_cons_self
      obtain ⟨n, hn, hle, hlimit, hband⟩ := Occupancy.bandRows_spec first
        (unitsAffordable chunksPerRead (Occupancy.widest first.runs))
        (fun row hmem => by have := hrow row (List.mem_cons_of_mem _ hmem); omega)
        (by omega : first.row + 1 < 2 ^ 64)
      -- the rows of the band are its first, over and over
      have hrows : first :: rest.take n =
          (List.range (1 + n)).map fun j => (⟨first.row + j, first.runs⟩ : OccupiedRow) := by
        rw [Nat.add_comm 1 n, List.range_succ_eq_map, List.map_cons, List.map_map]
        congr 1
        refine List.ext_getElem (by simp [hle]) fun j hj hj' => ?_
        rw [List.length_take, min_eq_left hle] at hj
        obtain ⟨row, hget, hrow', hruns⟩ := hband j hj
        obtain ⟨hlt, hget⟩ := List.getElem?_eq_some_iff.1 hget
        rw [List.getElem_take, List.getElem_map, List.getElem_range, hget]
        cases row
        simp only [Function.comp_apply, OccupiedRow.mk.injEq] at *
        exact ⟨by omega, hruns⟩
      have hlast : grid.chunkCv0 + first.row + (1 + n) ≤ (grid.v1 - 1) / grid.chunkV + 1 := by
        rcases Nat.eq_zero_or_pos n with rfl | hpos
        · exact hfirst
        · obtain ⟨row, hget, hrow', -⟩ := hband (n - 1) (by omega)
          have := hrow row (List.mem_cons_of_mem _ (List.mem_of_getElem? hget))
          omega
      have hlimit' : 1 + n = 1 ∨
          1 + n ≤ unitsAffordable chunksPerRead (Occupancy.widest first.runs) := by
        rcases Nat.eq_zero_or_pos n with rfl | hpos
        · exact Or.inl rfl
        · exact Or.inr (hlimit hpos)
      obtain ⟨band, hbandEq, hsound, hperm⟩ := band_spec hgrid hread (by omega : 0 < 1 + n)
        (hin first List.mem_cons_self).2 hlast hlimit'
      have hfuel' : (rest.drop n).length ≤ fuel := by
        rw [List.length_drop]
        rw [List.length_cons] at hfuel
        omega
      obtain ⟨below, hbelow, hsound', hperm'⟩ := ih hfuel'
        (fun row hmem => hin row (List.mem_cons_of_mem _ (List.mem_of_mem_drop hmem)))
        (fun row hmem => hrow row (List.mem_cons_of_mem _ (List.mem_of_mem_drop hmem)))
      refine ⟨band.flatten ++ below, ?_, ?_, ?_⟩
      · rw [Occupancy.footprintsFrom]
        simp only [hn, hbandEq, Nat.add_sub_cancel_left, hbelow]
        rfl
      · intro footprint hmem
        exact (List.mem_append.1 hmem).elim (hsound footprint) (hsound' footprint)
      · have hsplit : first :: rest = (first :: rest.take n) ++ rest.drop n := by
          rw [List.cons_append, List.take_append_drop]
        rw [hsplit, List.flatMap_append, List.flatMap_append, hrows, List.flatMap_map]
        exact hperm.append hperm'

end Cover

/-! ## The partition -/

/-- The chunks of a footprint, as a set. -/
def OccupiedFootprint.chunkCells (footprint : OccupiedFootprint) : Finset (ℕ × ℕ) :=
  Finset.Ico footprint.chunkCuBegin footprint.chunkCuEnd ×ˢ
    Finset.Ico footprint.chunkCvBegin footprint.chunkCvEnd

namespace OccupiedFootprint

variable {footprint : OccupiedFootprint}

theorem mem_chunkCells {cu cv : ℕ} : (cu, cv) ∈ footprint.chunkCells ↔
    footprint.chunkCuBegin ≤ cu ∧ cu < footprint.chunkCuEnd ∧
      footprint.chunkCvBegin ≤ cv ∧ cv < footprint.chunkCvEnd := by
  rw [chunkCells, Finset.mem_product, Finset.mem_Ico, Finset.mem_Ico, and_assoc]

theorem mem_cells {cell : ℕ × ℕ} : cell ∈ footprint.cells ↔ cell ∈ footprint.chunkCells := by
  obtain ⟨cu, cv⟩ := cell
  simp only [mem_chunkCells, cells, List.mem_flatMap, List.mem_map,
    List.mem_range'_1, Prod.mk.injEq]
  constructor
  · rintro ⟨cu', hcu, cv', hcv, rfl, rfl⟩
    omega
  · exact fun h => ⟨cu, by omega, cv, by omega, rfl, rfl⟩

theorem length_cells : footprint.cells.length = (footprint.chunkCuEnd - footprint.chunkCuBegin) *
    (footprint.chunkCvEnd - footprint.chunkCvBegin) := by
  simp [cells, List.length_flatMap]

end OccupiedFootprint

/-- The footprints partition the chunks the regions occupy, and read every pixel selected in
them. -/
structure Occupancy.Partitioned (occupancy : Occupancy) (given : List RegionMask)
    (swapSpatial : Bool)
    (chunkU chunkV chunksPerRead : ℕ) (footprints : List OccupiedFootprint) : Prop where
  disjoint : footprints.Pairwise fun a b => Disjoint a.chunkCells b.chunkCells
  occupied_iff : ∀ cu cv, (∃ footprint ∈ footprints, (cu, cv) ∈ footprint.chunkCells) ↔
    ∃ region ∈ given, Occupies (region.selectsAt swapSpatial) chunkU chunkV cu cv
  chunks : ∀ footprint ∈ footprints, footprint.slab.chunks = footprint.chunkCells.card ∧
    1 ≤ footprint.slab.chunks ∧ footprint.slab.chunks ≤ max 1 chunksPerRead
  sum_chunks : (footprints.map fun footprint => footprint.slab.chunks).sum = occupancy.layerChunks
  nonempty : ∀ footprint ∈ footprints, 0 < footprint.slab.uCount ∧ 0 < footprint.slab.vCount
  strides : ∀ footprint ∈ footprints, footprint.slab.uStride = 1 ∧ footprint.slab.vStride = 1
  /-- The slab lies in the box around the regions. -/
  in_box : occupancy.grid.Around (given.map (RegionMask.place swapSpatial)) ∧
    ∀ footprint ∈ footprints, occupancy.grid.u0 ≤ footprint.slab.uStart ∧
      footprint.slab.uStart + footprint.slab.uCount ≤ occupancy.grid.u1 ∧
      occupancy.grid.v0 ≤ footprint.slab.vStart ∧
      footprint.slab.vStart + footprint.slab.vCount ≤ occupancy.grid.v1
  in_chunks : ∀ footprint ∈ footprints, footprint.chunkCuBegin * chunkU ≤ footprint.slab.uStart ∧
    footprint.slab.uStart + footprint.slab.uCount ≤ footprint.chunkCuEnd * chunkU ∧
    footprint.chunkCvBegin * chunkV ≤ footprint.slab.vStart ∧
    footprint.slab.vStart + footprint.slab.vCount ≤ footprint.chunkCvEnd * chunkV
  reads : ∀ footprint ∈ footprints, ∀ region ∈ given, ∀ u v,
    region.selectsAt swapSpatial u v = true →
    (u / chunkU, v / chunkV) ∈ footprint.chunkCells →
      footprint.slab.uStart ≤ u ∧ u < footprint.slab.uStart + footprint.slab.uCount ∧
      footprint.slab.vStart ≤ v ∧ v < footprint.slab.vStart + footprint.slab.vCount

/-- The last chunks of a region end below `2 ^ 64`. -/
structure PlacedRegion.EndsBelow (region : PlacedRegion) (chunkU chunkV : ℕ) : Prop where
  chunkU_pos : 0 < chunkU
  chunkV_pos : 0 < chunkV
  u_lt : ((region.uStart + region.uSize - 1) / chunkU + 1) * chunkU < 2 ^ 64
  v_lt : ((region.vStart + region.vSize - 1) / chunkV + 1) * chunkV < 2 ^ 64

/-- The chunks have pixels, and the regions reach none that ends at `2 ^ 64` or beyond. -/
def EndBelow (given : List RegionMask) (swapSpatial : Bool) (chunkU chunkV : ℕ) : Prop :=
  ∀ region ∈ given, (region.place swapSpatial).EndsBelow chunkU chunkV

theorem EndBelow.scansEndBelow {given : List RegionMask} {swapSpatial : Bool} {chunkU chunkV : ℕ}
    (h : EndBelow given swapSpatial chunkU chunkV) :
    ScansEndBelow given swapSpatial chunkU chunkV :=
  fun region hregion => ⟨(h region hregion).chunkU_pos, (h region hregion).chunkV_pos,
    fun _ => (h region hregion).u_lt, (h region hregion).v_lt⟩

namespace Occupancy.Made

variable {occupancy : Occupancy} {given : List RegionMask} {swapSpatial : Bool}
  {plane : PlaneExtent}
  {chunkU chunkV : ℕ}

theorem bounded (h : occupancy.Made given swapSpatial plane chunkU chunkV) (hplane : plane.Counted)
    (hends : EndBelow given swapSpatial chunkU chunkV) : occupancy.grid.Bounded := by
  have haround := h.around hplane hends.scansEndBelow
  have hu := haround.u0_lt_u1 fun r hr => (h.sizes_pos hplane r hr).1
  have hle : occupancy.grid.chunkCu0 ≤ (occupancy.grid.u1 - 1) / occupancy.grid.chunkU := by
    rw [haround.chunkCu0_eq]
    exact Nat.div_le_div_right (by omega)
  refine ⟨haround.chunkU_pos, haround.chunkV_pos, by rw [haround.columns_eq]; omega, ?_, ?_⟩
  · obtain ⟨region, hregion, heq⟩ := haround.u1_mem
    rw [h.regions_eq] at hregion
    obtain ⟨r, hr, rfl⟩ := List.mem_map.1 hregion
    rw [heq, h.chunkU_eq]
    exact (hends r hr).u_lt
  · obtain ⟨region, hregion, heq⟩ := haround.v1_mem
    rw [h.regions_eq] at hregion
    obtain ⟨r, hr, rfl⟩ := List.mem_map.1 hregion
    rw [heq, h.chunkV_eq]
    exact (hends r hr).v_lt

/-- The rows of the occupied cells. -/
theorem occupiedRows_spec (h : occupancy.Made given swapSpatial plane chunkU chunkV)
    (hplane : plane.Counted)
    (hends : EndBelow given swapSpatial chunkU chunkV) :
    RowsIn occupancy.grid.columns occupancy.occupiedRows ∧
      (∀ row ∈ occupancy.occupiedRows, occupancy.grid.chunkCv0 + row.row + 1 ≤
        (occupancy.grid.v1 - 1) / occupancy.grid.chunkV + 1) ∧
      occupancy.occupiedRows.flatMap (OccupiedRow.chunks occupancy.grid) =
        occupancy.cells.map (chunkOf occupancy.grid) := by
  have haround := h.around hplane hends.scansEndBelow
  have hbounded := h.bounded hplane hends
  have hcolumns := hbounded.columns_eq
  have hlt := hbounded.cu_lt
  have hpos : 0 < occupancy.grid.columns := by
    rw [haround.columns_eq]
    omega
  obtain ⟨hin, hcells⟩ := rows_flatMap_cells (by omega) hpos occupancy.cells
  rw [← h.occupiedRows_eq] at hin hcells
  refine ⟨hin, fun row hrow => ?_, ?_⟩
  · -- the row's first cell is one of the grid's
    obtain ⟨hne, hruns⟩ := hin row hrow
    obtain ⟨run, hrun⟩ := List.exists_mem_of_ne_nil _ hne
    obtain ⟨hle, hlast⟩ := hruns run hrun
    have hmem : row.row * occupancy.grid.columns + run.first ∈ occupancy.cells := by
      rw [← hcells, List.mem_flatMap]
      refine ⟨row, hrow, List.mem_map_of_mem (List.mem_flatMap.2 ⟨run, hrun, ?_⟩)⟩
      exact List.mem_range'_1.2 ⟨le_refl _, by omega⟩
    obtain ⟨cu, cv, hhas, hcell, -⟩ := h.exists_of_mem_cells hplane hends.scansEndBelow hmem
    obtain ⟨hcell', hcolumn⟩ := h.cell_eq hplane hends.scansEndBelow hhas
    have hdiv := congrArg (· / occupancy.grid.columns) (hcell.symm.trans hcell')
    simp only [Nat.add_comm (_ * occupancy.grid.columns), Nat.add_mul_div_right _ _ hpos,
      Nat.div_eq_of_lt hcolumn, Nat.div_eq_of_lt
        (show run.first < occupancy.grid.columns by omega)] at hdiv
    have h₁ := hhas.2.2.1
    have h₂ := hhas.2.2.2
    omega
  · rw [← hcells, List.map_flatMap]
    refine List.flatMap_congr fun row hrow => ?_
    rw [OccupiedRow.chunks, OccupiedRow.cells, List.map_map]
    refine List.map_congr_left fun column hcolumn => ?_
    obtain ⟨run, hrun, hcolumn⟩ := List.mem_flatMap.1 hcolumn
    rw [List.mem_range'_1] at hcolumn
    have hlast := ((hin row hrow).2 run hrun).2
    have hcol : column < occupancy.grid.columns := by omega
    rw [Function.comp_apply, chunkOf, Nat.mul_add_mod', Nat.mod_eq_of_lt hcol,
      Nat.add_comm (_ * occupancy.grid.columns), Nat.add_mul_div_right _ _ hpos,
      Nat.div_eq_of_lt hcol,
      Nat.zero_add]

end Occupancy.Made

/-- What a footprint reads along one axis: from the first of its chunks' pixels in the box to the
last. -/
theorem clamp_spec {a b c lo hi x : ℕ} (hlo : lo * c ≤ x) (hhi : x < hi * c)
    (ha : a ≤ x) (hb : x < b)
    (hlt : hi * c < 2 ^ 64) : 0 < sub (min b (hi * c)) (max a (lo * c)) ∧
      max a (lo * c) + sub (min b (hi * c)) (max a (lo * c)) = min b (hi * c) := by
  rw [sub_eq (by omega) (by omega)]
  omega

/-- The footprints of what was made of regions partition the occupied chunks. -/
theorem Occupancy.Made.partitioned {occupancy : Occupancy} {given : List RegionMask}
    {swapSpatial : Bool}
    {plane : PlaneExtent} {chunkU chunkV : ℕ}
    (hmade : occupancy.Made given swapSpatial plane chunkU chunkV) (hplane : plane.Counted)
    (hends : EndBelow given swapSpatial chunkU chunkV) {chunksPerRead : ℕ}
    (hread : chunksPerRead < 2 ^ 64) :
    ∃ footprints, occupancy.footprints chunksPerRead = some footprints ∧
      occupancy.Partitioned given swapSpatial chunkU chunkV chunksPerRead footprints := by
  have haround := hmade.around hplane hends.scansEndBelow
  have hbounded := hmade.bounded hplane hends
  obtain ⟨hin, hrow, hchunks⟩ := hmade.occupiedRows_spec hplane hends
  obtain ⟨footprints, hfootprints, hsound, hperm⟩ :=
    footprintsFrom_spec hbounded hread (le_refl _) hin hrow
  rw [hchunks] at hperm
  have hnodup := List.nodup_flatMap.1
    (hperm.nodup_iff.2 (hmade.nodup_map_chunkOf hplane hends.scansEndBelow))
  have hoccupied : ∀ cu cv, (∃ footprint ∈ footprints, (cu, cv) ∈ footprint.chunkCells) ↔
      ∃ region ∈ given, Occupies (region.selectsAt swapSpatial) chunkU chunkV cu cv := by
    intro cu cv
    have hmem : (∃ footprint ∈ footprints, (cu, cv) ∈ footprint.chunkCells) ↔
        (cu, cv) ∈ occupancy.cells.map (Occupancy.Made.chunkOf occupancy.grid) := by
      rw [← hperm.mem_iff, List.mem_flatMap]
      simp only [OccupiedFootprint.mem_cells]
    rw [hmem, hmade.mem_map_chunkOf hplane hends.scansEndBelow]
    constructor
    · rintro ⟨hhas, hcell⟩
      exact (hmade.cell_mem_cells_iff hplane hends.scansEndBelow hhas).1 hcell
    · rintro ⟨region, hregion, hocc⟩
      have hhas := hmade.has_of_occupies hplane hends.scansEndBelow hregion hocc
      exact ⟨hhas, (hmade.cell_mem_cells_iff hplane hends.scansEndBelow hhas).2
        ⟨region, hregion, hocc⟩⟩
  -- a pixel selected in one of a footprint's chunks is in its slab
  have hreads : ∀ footprint ∈ footprints, ∀ region ∈ given, ∀ u v,
      region.selectsAt swapSpatial u v = true →
      (u / chunkU, v / chunkV) ∈ footprint.chunkCells →
      (0 < footprint.slab.uCount ∧ footprint.slab.uStart + footprint.slab.uCount =
        min occupancy.grid.u1 (footprint.chunkCuEnd * chunkU) ∧ footprint.slab.uStart ≤ u ∧
        u < footprint.slab.uStart + footprint.slab.uCount) ∧
      (0 < footprint.slab.vCount ∧ footprint.slab.vStart + footprint.slab.vCount =
        min occupancy.grid.v1 (footprint.chunkCvEnd * chunkV) ∧ footprint.slab.vStart ≤ v ∧
        v < footprint.slab.vStart + footprint.slab.vCount) := by
    intro footprint hfootprint region hregion u v hsel hcell
    have hs := hsound footprint hfootprint
    obtain ⟨hcu, hcu', hcv, hcv'⟩ := OccupiedFootprint.mem_chunkCells.1 hcell
    have hshows : (region.place swapSpatial).Shows _ := (hmade.fits region hregion).shows hplane
    obtain ⟨hu, hu', hv, hv'⟩ := hshows.inside u v hsel
    have hmem : region.place swapSpatial ∈ occupancy.regions := by
      rw [hmade.regions_eq]
      exact List.mem_map_of_mem hregion
    have hu0 := haround.u0_le _ hmem
    have hv0 := haround.v0_le _ hmem
    have hu1 := haround.le_u1 _ hmem
    have hv1 := haround.le_v1 _ hmem
    obtain ⟨hpu, hpv⟩ := hmade.chunks_pos hends.scansEndBelow
    have hub := hs.uCount_eq
    have hvb := hs.vCount_eq
    rw [hs.uStart_eq, hmade.chunkU_eq] at hub
    rw [hs.vStart_eq, hmade.chunkV_eq] at hvb
    have hulo : footprint.chunkCuBegin * chunkU ≤ u := (Nat.le_div_iff_mul_le hpu).1 hcu
    have huhi : u < footprint.chunkCuEnd * chunkU := (Nat.div_lt_iff_lt_mul hpu).1 hcu'
    have hvlo : footprint.chunkCvBegin * chunkV ≤ v := (Nat.le_div_iff_mul_le hpv).1 hcv
    have hvhi : v < footprint.chunkCvEnd * chunkV := (Nat.div_lt_iff_lt_mul hpv).1 hcv'
    have hult : footprint.chunkCuEnd * chunkU < 2 ^ 64 := by
      have := hbounded.u_lt
      rw [hmade.chunkU_eq] at this
      exact lt_of_le_of_lt (Nat.mul_le_mul_right _ (hmade.chunkU_eq ▸ hs.cu_le)) this
    have hvlt : footprint.chunkCvEnd * chunkV < 2 ^ 64 := by
      have := hbounded.v_lt
      rw [hmade.chunkV_eq] at this
      exact lt_of_le_of_lt (Nat.mul_le_mul_right _ (hmade.chunkV_eq ▸ hs.cv_le)) this
    obtain ⟨hupos, huend⟩ := clamp_spec hulo huhi (hu0.trans hu)
      (by omega : u < occupancy.grid.u1) hult
    obtain ⟨hvpos, hvend⟩ := clamp_spec hvlo hvhi (hv0.trans hv)
      (by omega : v < occupancy.grid.v1) hvlt
    rw [hs.uStart_eq, hs.vStart_eq, hub, hvb, hmade.chunkU_eq, hmade.chunkV_eq]
    exact ⟨⟨hupos, huend, by omega, by omega⟩, ⟨hvpos, hvend, by omega, by omega⟩⟩
  -- and every footprint has such a pixel
  have hspan : ∀ footprint ∈ footprints,
      (0 < footprint.slab.uCount ∧ footprint.slab.uStart + footprint.slab.uCount =
        min occupancy.grid.u1 (footprint.chunkCuEnd * chunkU)) ∧
      (0 < footprint.slab.vCount ∧ footprint.slab.vStart + footprint.slab.vCount =
        min occupancy.grid.v1 (footprint.chunkCvEnd * chunkV)) := by
    intro footprint hfootprint
    have hs := hsound footprint hfootprint
    have hcell : (footprint.chunkCuBegin, footprint.chunkCvBegin) ∈ footprint.chunkCells :=
      OccupiedFootprint.mem_chunkCells.2 ⟨le_refl _, hs.cu_lt, le_refl _, hs.cv_lt⟩
    obtain ⟨region, hregion, u, v, hsel, hu, hv⟩ := (hoccupied _ _).1 ⟨footprint, hfootprint, hcell⟩
    rw [← hu, ← hv] at hcell
    obtain ⟨⟨h₁, h₂, -⟩, h₃, h₄, -⟩ := hreads footprint hfootprint region hregion u v hsel hcell
    exact ⟨⟨h₁, h₂⟩, h₃, h₄⟩
  refine ⟨footprints, hfootprints, ?_⟩
  refine
    { disjoint := ?_, occupied_iff := hoccupied, chunks := fun footprint hf => ?_, sum_chunks := ?_
      nonempty := fun footprint hf => ⟨(hspan footprint hf).1.1, (hspan footprint hf).2.1⟩
      strides := fun footprint hf =>
        ⟨(hsound footprint hf).uStride_eq, (hsound footprint hf).vStride_eq⟩
      in_box := ⟨hmade.regions_eq ▸ haround, fun footprint hf => ?_⟩
      in_chunks := fun footprint hf => ?_
      reads := fun footprint hf region hregion u v hsel hcell => ?_ }
  · refine hnodup.2.imp fun {a b} hdisjoint => Finset.disjoint_left.2 fun cell ha hb => ?_
    exact hdisjoint (OccupiedFootprint.mem_cells.2 ha) (OccupiedFootprint.mem_cells.2 hb)
  · have hs := hsound footprint hf
    have hcu := hs.cu_lt
    have hcv := hs.cv_lt
    refine ⟨?_, ?_, hs.chunks_le⟩
    · rw [hs.chunks_eq, OccupiedFootprint.chunkCells, Finset.card_product,
        Nat.card_Ico, Nat.card_Ico]
    · rw [hs.chunks_eq]
      exact Nat.mul_pos (by omega) (by omega)
  · have hlength := hperm.length_eq
    rw [List.length_flatMap, List.length_map, ← hmade.layerChunks_eq] at hlength
    rw [← hlength]
    congr 1
    refine List.map_congr_left fun footprint hf => ?_
    rw [(hsound footprint hf).chunks_eq, OccupiedFootprint.length_cells]
  · obtain ⟨⟨-, hu⟩, -, hv⟩ := hspan footprint hf
    rw [hu, hv, (hsound footprint hf).uStart_eq, (hsound footprint hf).vStart_eq]
    exact ⟨le_max_left _ _, min_le_left _ _, le_max_left _ _, min_le_left _ _⟩
  · obtain ⟨⟨-, hu⟩, -, hv⟩ := hspan footprint hf
    rw [hu, hv, (hsound footprint hf).uStart_eq, (hsound footprint hf).vStart_eq, hmade.chunkU_eq,
      hmade.chunkV_eq]
    exact ⟨le_max_right _ _, min_le_right _ _, le_max_right _ _, min_le_right _ _⟩
  · obtain ⟨⟨-, -, h₁, h₂⟩, -, -, h₃, h₄⟩ := hreads footprint hf region hregion u v hsel hcell
    exact ⟨h₁, h₂, h₃, h₄⟩

/-- **Footprints partition the occupied chunks.** -/
theorem footprints_partition {regions : BufferView RegionMask} {given : List RegionMask}
    (hgiven : regions.data = some given) {plane : PlaneExtent}
    (hplane : plane.Counted) {chunkU chunkV : ℕ}
    {axis : AxisRole} {node : String} {occupancy : Occupancy}
    (hends : EndBelow given (axis = .spatialY) chunkU chunkV)
    (h : Occupancy.of regions plane chunkU chunkV axis node = some (.ok occupancy))
    {chunksPerRead : ℕ}
    (hread : chunksPerRead < 2 ^ 64) :
    ∃ footprints, occupancy.footprints chunksPerRead = some footprints ∧
      occupancy.Partitioned given (axis = .spatialY) chunkU chunkV chunksPerRead footprints :=
  (Occupancy.of_made hgiven hplane hends.scansEndBelow h).partitioned hplane hends hread

theorem endBelow_smallRegions : EndBelow [boxRegion 0 0 3 2, diagonalRegion] false 1 2 := by
  intro region hregion
  rcases List.mem_cons.1 hregion with rfl | hregion
  · exact ⟨by decide, by decide, by decide, by decide⟩
  · obtain rfl := List.mem_singleton.1 hregion
    exact ⟨by decide, by decide, by decide, by decide⟩

theorem footprints_partition_smallRegions :
    ∃ footprints, smallOccupancy.footprints 2 = some footprints ∧
      smallOccupancy.Partitioned [boxRegion 0 0 3 2, diagonalRegion] false 1 2 2 footprints := by
  have hof : Occupancy.of (BufferView.of [boxRegion 0 0 3 2, diagonalRegion])
    ⟨5, 4⟩ 1 2 .spatialX "sky" =
      some (.ok smallOccupancy) := by decide +kernel
  exact footprints_partition rfl
    ⟨by decide, by decide, by decide⟩ endBelow_smallRegions hof (by decide)

/-- A box in the chunk that ends at `2 ^ 64`. -/
def lastColumnOccupancy : Occupancy where
  grid := ⟨2 ^ 63, 1, 2 ^ 63, 0, 2 ^ 63 + 1, 1, 1, 0, 1⟩
  regions := [⟨2 ^ 63, 0, 1, 1, none, 1, 1, none⟩]
  cells := [0]
  offsets := [0, 1]
  entries := [0]
  occupiedRows := [⟨0, [⟨0, 0⟩]⟩]
  layerChunks := 1

/-- Three boxes, the last in the cell whose number is `2 ^ 64`. -/
def farRowOccupancy : Occupancy where
  grid := ⟨1, 1, 0, 0, 2 ^ 33, 2 ^ 31 + 1, 0, 0, 2 ^ 33⟩
  regions := [⟨0, 0, 1, 1, none, 1, 1, none⟩, ⟨2 ^ 33 - 1, 0, 1, 1, none, 1, 1, none⟩,
    ⟨0, 2 ^ 31, 1, 1, none, 1, 1, none⟩]
  cells := [0, 2 ^ 33 - 1]
  offsets := [0, 2, 3]
  entries := [0, 2, 1]
  occupiedRows := [⟨0, [⟨0, 0⟩, ⟨2 ^ 33 - 1, 2 ^ 33 - 1⟩]⟩]
  layerChunks := 2

/-- A chunk that ends at `2 ^ 64` is read past the box, and a cell whose number does not fit a word
is taken for another. -/
theorem footprints_wrap :
    (Occupancy.of (BufferView.of [boxRegion (2 ^ 63) 0 1 1]) ⟨2 ^ 63 + 1, 1⟩
    (2 ^ 63) 1 .spatialX "sky" =
        some (.ok lastColumnOccupancy) ∧
      ∃ footprint, lastColumnOccupancy.footprints 1 = some [footprint] ∧
        lastColumnOccupancy.grid.u1 < footprint.slab.uStart + footprint.slab.uCount) ∧
    (Occupancy.of (BufferView.of [boxRegion 0 0 1 1, boxRegion (2 ^ 33 - 1) 0 1 1,
      boxRegion 0 (2 ^ 31) 1 1])
        ⟨2 ^ 33, 2 ^ 32⟩ 1 1 .spatialX "sky" = some (.ok farRowOccupancy) ∧
      Occupies ((boxRegion 0 (2 ^ 31) 1 1).selectsAt false) 1 1 0 (2 ^ 31) ∧
      ∃ footprints, farRowOccupancy.footprints 1 = some footprints ∧
        ∀ footprint ∈ footprints, footprint.chunkCvEnd ≤ 2 ^ 31) :=
  ⟨⟨by decide +kernel, ⟨⟨2 ^ 63, 2 ^ 63, 1, 0, 1, 1, 1⟩, 1, 2, 0,
    1⟩, by decide +kernel, by decide +kernel⟩,
    by decide +kernel, ⟨0, 2 ^ 31, by decide +kernel, by decide +kernel, by decide +kernel⟩,
    [⟨⟨0, 1, 1, 0, 1, 1, 1⟩, 0, 1, 0, 1⟩,
      ⟨⟨2 ^ 33 - 1, 1, 1, 0, 1, 1, 1⟩, 2 ^ 33 - 1, 2 ^ 33, 0, 1⟩],
    by decide +kernel, by decide +kernel⟩

end CartaZarr
