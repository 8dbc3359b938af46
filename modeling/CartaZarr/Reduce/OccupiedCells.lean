import CartaZarr.Reduce.Occupancy

/-!
# The cells a region occupies

The columns of a chunk row are marked row by row, through spans that are whole and spans read
through the raster, and with columns skipped that are marked already. However they are marked, what
is marked in the end are the columns that hold a selected pixel (`occupiedColumns_spec`): a step
adds what its pixels occupy to what was marked (`Marks.Are`), and a row that stops early has nothing
left to mark.

The incidences are then the cells of one region after another (`incidencesOf_spec`).
-/

namespace CartaZarr

open Word

/-! ## Marks -/

/-- The columns marked, of the `columns` from `cx0` on, are those that satisfy `P`. -/
structure Marks.Are (marks : Marks) (cx0 columns : ℕ) (P : ℕ → Prop) : Prop where
  length_eq : marks.occupied.length = columns
  found_eq : marks.found = marks.occupied.count true
  occupied_iff : ∀ cx, cx0 ≤ cx → cx < cx0 + columns →
    (marks.occupied[cx - cx0]? = some true ↔ P cx)

namespace Marks

variable {marks : Marks} {cx0 columns : ℕ} {P Q : ℕ → Prop}

theorem Are.congr (h : marks.Are cx0 columns P)
    (hPQ : ∀ cx, cx0 ≤ cx → cx < cx0 + columns → (P cx ↔ Q cx)) : marks.Are cx0 columns Q :=
  ⟨h.length_eq, h.found_eq, fun cx h₁ h₂ => (h.occupied_iff cx h₁ h₂).trans (hPQ cx h₁ h₂)⟩

theorem Are.none (cx0 columns : ℕ) :
    (⟨List.replicate columns false, 0⟩ : Marks).Are cx0 columns fun _ => False := by
  refine ⟨List.length_replicate, (List.count_eq_zero.2 (by simp)).symm, fun cx _ _ => ?_⟩
  simp [List.getElem?_replicate]

/-- Once as many are found as there are, all of them are marked. -/
theorem Are.of_found (h : marks.Are cx0 columns P) (hfound : columns ≤ marks.found) (cx : ℕ)
    (hcx : cx0 ≤ cx) (hcx' : cx < cx0 + columns) : P cx := by
  rw [h.found_eq, ← h.length_eq] at hfound
  have hall := List.count_eq_length.1 (Nat.le_antisymm List.count_le_length hfound)
  have hlt : cx - cx0 < marks.occupied.length := by
    rw [h.length_eq]
    omega
  refine (h.occupied_iff cx hcx hcx').1 ?_
  rw [List.getElem?_eq_getElem hlt, ← hall _ (List.getElem_mem hlt)]

theorem Are.marked_eq (h : marks.Are cx0 columns P) (hlt : cx0 + columns < 2 ^ 64) {cx : ℕ}
    (hcx : cx0 ≤ cx) (hcx' : cx < cx0 + columns) :
    ∃ seen, marks.marked cx0 cx = some seen ∧ (seen = true ↔ P cx) := by
  have hlen : cx - cx0 < marks.occupied.length := by
    rw [h.length_eq]
    omega
  refine ⟨marks.occupied.get ⟨cx - cx0, hlen⟩, ?_, ?_⟩
  · rw [marked, sub_eq hcx (by omega), List.getElem?_eq_getElem hlen]
    rfl
  · rw [← h.occupied_iff cx hcx hcx', List.getElem?_eq_getElem hlen, Option.some.injEq]
    rfl

/-- A column marked is one more, unless it was marked before. -/
theorem Are.mark (h : marks.Are cx0 columns P) (hlt : cx0 + columns < 2 ^ 64) {column : ℕ}
    (hc : cx0 ≤ column) (hc' : column < cx0 + columns) :
    ∃ marks', marks.mark cx0 column = some marks' ∧
      marks'.Are cx0 columns fun cx => P cx ∨ cx = column := by
  obtain ⟨seen, hseen, hiff⟩ := h.marked_eq hlt hc hc'
  rw [Marks.mark, hseen, Option.map_some]
  refine ⟨_, rfl, ?_⟩
  cases seen with
  | true =>
    rw [if_pos rfl]
    refine h.congr fun cx _ _ => ⟨Or.inl, ?_⟩
    rintro (hP | rfl)
    · exact hP
    · exact hiff.1 rfl
  | false =>
    rw [if_neg (by decide), sub_eq hc (by omega)]
    rw [marked, sub_eq hc (by omega)] at hseen
    obtain ⟨hlen, hoff⟩ := List.getElem?_eq_some_iff.1 hseen
    have hcount : (marks.occupied.set (column - cx0) true).count true =
        marks.occupied.count true + 1 := by
      rw [List.count_set hlen, hoff]
      simp
    refine ⟨by rw [List.length_set, h.length_eq], ?_, fun cx hcx hcx' => ?_⟩
    · have hle : marks.occupied.count true + 1 ≤ columns := by
        rw [← hcount, ← h.length_eq, ← List.length_set]
        exact List.count_le_length
      rw [h.found_eq, hcount, add_eq (by omega)]
    · rw [List.getElem?_set]
      by_cases heq : cx = column
      · subst heq
        rw [if_pos rfl, if_pos hlen]
        simp
      · rw [if_neg (by omega), h.occupied_iff cx hcx hcx']
        simp [heq]

theorem Are.foldlM_mark (hlt : cx0 + columns < 2 ^ 64) {l : List ℕ}
    (hl : ∀ column ∈ l, cx0 ≤ column ∧ column < cx0 + columns) {marks : Marks} {P : ℕ → Prop}
    (h : marks.Are cx0 columns P) :
    ∃ marks', l.foldlM (fun marks column => Marks.mark marks cx0 column) marks = some marks' ∧
      marks'.Are cx0 columns fun cx => P cx ∨ cx ∈ l := by
  induction l generalizing marks P with
  | nil => exact ⟨marks, rfl, h.congr fun cx _ _ => by simp⟩
  | cons column l ih =>
    obtain ⟨hc, hc'⟩ := hl column List.mem_cons_self
    obtain ⟨marks₁, hmark, h₁⟩ := h.mark hlt hc hc'
    obtain ⟨marks₂, hrest, h₂⟩ := ih (fun c hcl => hl c (List.mem_cons_of_mem _ hcl)) h₁
    refine ⟨marks₂, ?_, h₂.congr fun cx _ _ => by rw [List.mem_cons, or_assoc]⟩
    rw [List.foldlM_cons, hmark]
    exact hrest

end Marks

/-! ## Spans -/

section Spans

variable {chunkU cx0 columns : ℕ} {P : ℕ → Prop} {marks : Marks}

theorem lt_block_end (hchunk : 0 < chunkU) (x : ℕ) : x < (x / chunkU + 1) * chunkU := by
  rw [Nat.mul_comm]
  exact Nat.lt_mul_div_succ x hchunk

/-- The pixels up to the end of a chunk are of the same chunk. -/
theorem div_eq_of_lt_block_end (hchunk : 0 < chunkU) {x k : ℕ} (hx : x ≤ k)
    (hk : k < (x / chunkU + 1) * chunkU) : k / chunkU = x / chunkU :=
  Nat.le_antisymm (Nat.le_of_lt_succ ((Nat.div_lt_iff_lt_mul hchunk).2 hk))
    (Nat.div_le_div_right hx)

/-- A scan of the raster marks the columns of the pixels selected from `x` on. -/
theorem Marks.Are.markRaster (hchunk : 0 < chunkU) (hlt : cx0 + columns < 2 ^ 64)
    {span : PlacedRegion.Span} (hcx0 : ∀ k, span.first ≤ k → cx0 ≤ k / chunkU)
    (hcolumns : ∀ k, k < span.last → k / chunkU < cx0 + columns)
    (hwrap : ∀ k, k < span.last → (k / chunkU + 1) * chunkU < 2 ^ 64) {fuel x : ℕ}
    (hx : span.first ≤ x) (hx' : x ≤ span.last) (hfuel : span.last < x + fuel)
    (h : marks.Are cx0 columns P) :
    ∃ marks', CartaZarr.markRaster chunkU cx0 span fuel x marks = some marks' ∧
      marks'.Are cx0 columns fun cx =>
        P cx ∨ ∃ k, x ≤ k ∧ k < span.last ∧ span.has k = true ∧ k / chunkU = cx := by
  induction fuel generalizing x marks P with
  | zero => omega
  | succ fuel ih =>
    rw [CartaZarr.markRaster]
    by_cases hlast : x < span.last
    · have hcolumn := hcolumns x hlast
      have hblock := hwrap x hlast
      have hboundary : mul (add (x / chunkU) 1) chunkU = (x / chunkU + 1) * chunkU := by
        rw [add_eq (by omega), mul_eq hblock]
      obtain ⟨seen, hseen, hiff⟩ := h.marked_eq hlt (hcx0 x hx) hcolumn
      have hend := lt_block_end hchunk x
      simp only [if_pos hlast, hboundary, hseen, Option.bind_some]
      generalize hb : min span.last ((x / chunkU + 1) * chunkU) = boundary
      have hsame : ∀ k, x ≤ k → k < boundary → k / chunkU = x / chunkU := fun k hk hk' =>
        div_eq_of_lt_block_end hchunk hk (by omega)
      -- what is left to mark, once this column is settled
      have hsplit : ∀ {Q : ℕ → Prop}, (∀ cx, Q cx ↔ P cx ∨
          ∃ k, x ≤ k ∧ k < boundary ∧ span.has k = true ∧ k / chunkU = cx) → ∀ cx,
          (Q cx ∨ ∃ k, boundary ≤ k ∧ k < span.last ∧ span.has k = true ∧ k / chunkU = cx) ↔
            (P cx ∨ ∃ k, x ≤ k ∧ k < span.last ∧ span.has k = true ∧ k / chunkU = cx) := by
        intro Q hQ cx
        rw [hQ, or_assoc]
        refine or_congr_right ⟨?_, ?_⟩
        · rintro (⟨k, h₁, h₂, h₃⟩ | ⟨k, h₁, h₂, h₃⟩)
          · exact ⟨k, h₁, by omega, h₃⟩
          · exact ⟨k, by omega, h₂, h₃⟩
        · rintro ⟨k, h₁, h₂, h₃⟩
          by_cases hk : k < boundary
          · exact Or.inl ⟨k, h₁, hk, h₃⟩
          · exact Or.inr ⟨k, by omega, h₂, h₃⟩
      by_cases hmark : (!seen && (List.range' x (boundary - x)).any span.has) = true
      · rw [if_pos hmark]
        obtain ⟨marks₁, hmarks₁, h₁⟩ := h.mark hlt (hcx0 x hx) hcolumn
        obtain ⟨marks₂, hmarks₂, h₂⟩ := ih (x := boundary) (by omega) (by omega) (by omega) h₁
        refine ⟨marks₂, by rw [hmarks₁, Option.bind_some, hmarks₂], h₂.congr fun cx _ _ => ?_⟩
        refine hsplit (Q := fun cx => P cx ∨ cx = x / chunkU) (fun cx => or_congr_right ⟨?_, ?_⟩) cx
        · rintro rfl
          rw [Bool.and_eq_true, List.any_eq_true] at hmark
          obtain ⟨k, hk, hhas⟩ := hmark.2
          rw [List.mem_range'_1] at hk
          exact ⟨k, hk.1, by omega, hhas, hsame k hk.1 (by omega)⟩
        · rintro ⟨k, hk, hk', -, rfl⟩
          exact hsame k hk hk'
      · rw [if_neg hmark]
        obtain ⟨marks₂, hmarks₂, h₂⟩ := ih (x := boundary) (by omega) (by omega) (by omega) h
        refine ⟨marks₂, hmarks₂, h₂.congr fun cx _ _ => ?_⟩
        refine hsplit (Q := P) (fun cx => ⟨Or.inl, ?_⟩) cx
        rintro (hP | ⟨k, hk, hk', hhas, rfl⟩)
        · exact hP
        · -- marked before, or without a selected pixel
          rw [hsame k hk hk', ← hiff]
          by_contra hunseen
          refine hmark ?_
          rw [Bool.not_eq_true] at hunseen
          rw [hunseen, Bool.not_false, Bool.true_and, List.any_eq_true]
          exact ⟨k, List.mem_range'_1.2 ⟨hk, by omega⟩, hhas⟩
    · rw [if_neg hlast]
      refine ⟨marks, rfl, h.congr fun cx _ _ => ⟨Or.inl, ?_⟩⟩
      rintro (hP | ⟨k, hk, hk', -⟩)
      · exact hP
      · omega

/-- A span marks the columns of the pixels it selects. -/
theorem Marks.Are.markSpan (hchunk : 0 < chunkU) (hlt : cx0 + columns < 2 ^ 64)
    {span : PlacedRegion.Span} (hspan : span.first < span.last) (hlast : span.last < 2 ^ 64)
    (hcx0 : ∀ k, span.first ≤ k → cx0 ≤ k / chunkU)
    (hcolumns : ∀ k, k < span.last → k / chunkU < cx0 + columns)
    (hwrap : span.selected.isSome = true → ∀ k, k < span.last → (k / chunkU + 1) * chunkU < 2 ^ 64)
    (h : marks.Are cx0 columns P) :
    ∃ marks', CartaZarr.markSpan chunkU cx0 marks span = some marks' ∧
      marks'.Are cx0 columns fun cx => P cx ∨ ∃ k ∈ span.pixels, k / chunkU = cx := by
  have hmem : ∀ k, k ∈ span.pixels ↔ span.first ≤ k ∧ k < span.last ∧
      span.has k = true := fun k => by
    rw [PlacedRegion.Span.pixels, List.mem_filter, List.mem_range'_1, and_assoc]
    exact ⟨fun h => ⟨h.1, by omega, h.2.2⟩, fun h => ⟨h.1, by omega, h.2.2⟩⟩
  rw [CartaZarr.markSpan]
  cases hsel : span.selected with
  | none =>
    rw [sub_eq (by omega) hlast]
    have hcols : ∀ c, c ∈ List.range' (span.first / chunkU)
        ((span.last - 1) / chunkU + 1 - span.first / chunkU) ↔
        span.first / chunkU ≤ c ∧ c ≤ (span.last - 1) / chunkU := fun c => by
      have : span.first / chunkU ≤ (span.last - 1) / chunkU := Nat.div_le_div_right (by omega)
      rw [List.mem_range'_1]
      omega
    obtain ⟨marks', hmarks', h'⟩ := Marks.Are.foldlM_mark hlt (fun c hc => by
      have h₁ := hcx0 span.first (Nat.le_refl _)
      have h₂ := hcolumns (span.last - 1) (by omega)
      have := (hcols c).1 hc
      omega) h
    refine ⟨marks', hmarks', h'.congr fun cx _ _ => or_congr_right ?_⟩
    rw [hcols]
    constructor
    · rintro ⟨h₁, h₂⟩
      -- the column's first pixel of the span
      have hdiv : max span.first (cx * chunkU) / chunkU = cx := by
        rcases Nat.le_total span.first (cx * chunkU) with hle | hle
        · rw [max_eq_right hle, Nat.mul_div_cancel _ hchunk]
        · rw [max_eq_left hle]
          exact Nat.le_antisymm h₁ ((Nat.le_div_iff_mul_le hchunk).2 hle)
      have hle : cx * chunkU ≤ span.last - 1 := (Nat.le_div_iff_mul_le hchunk).1 h₂
      refine ⟨max span.first (cx * chunkU), (hmem _).2 ⟨by omega, by omega, ?_⟩, hdiv⟩
      rw [PlacedRegion.Span.has, hsel]
    · rintro ⟨k, hk, rfl⟩
      obtain ⟨h₁, h₂, -⟩ := (hmem k).1 hk
      exact ⟨Nat.div_le_div_right h₁, Nat.div_le_div_right (by omega)⟩
  | some bytes =>
    have hfuel : span.last < span.first + (span.last + 1) := by omega
    obtain ⟨marks', hmarks', h'⟩ :=
      h.markRaster hchunk hlt hcx0 hcolumns (hwrap (by rw [hsel]; rfl))
      (Nat.le_refl span.first) hspan.le hfuel
    refine ⟨marks', hmarks', h'.congr fun cx _ _ => or_congr_right ?_⟩
    simp only [hmem, and_assoc]

end Spans

/-! ## Chunk rows -/

/-- Whether some pixels have one in a chunk. -/
def Occupies (sel : ℕ → ℕ → Bool) (chunkU chunkV cx cy : ℕ) : Prop :=
  ∃ u v, sel u v = true ∧ u / chunkU = cx ∧ v / chunkV = cy

/-- The chunks have pixels, and the last chunk row of a region ends below `2 ^ 64`. -/
structure PlacedRegion.RowsEndBelow (region : PlacedRegion) (chunkU chunkV : ℕ) : Prop where
  chunkU_pos : 0 < chunkU
  chunkV_pos : 0 < chunkV
  v_lt : ((region.vStart + region.vSize - 1) / chunkV + 1) * chunkV < 2 ^ 64

/-- The chunk boundaries that a scan of a region takes are below `2 ^ 64`: the ends of its chunk
rows, and those of its chunk columns where the scan reads a raster. -/
structure PlacedRegion.ScanEndsBelow (region : PlacedRegion) (chunkU chunkV : ℕ) : Prop where
  chunkU_pos : 0 < chunkU
  chunkV_pos : 0 < chunkV
  u_lt : region.ReadsRaster →
    ((region.uStart + region.uSize - 1) / chunkU + 1) * chunkU < 2 ^ 64
  v_lt : ((region.vStart + region.vSize - 1) / chunkV + 1) * chunkV < 2 ^ 64

section Rows

variable {region : PlacedRegion} {sel : ℕ → ℕ → Bool} {grid : ChunkGrid}

/-- The columns of the chunks of a region. -/
def PlacedRegion.columnsOf (region : PlacedRegion) (chunkU : ℕ) : ℕ :=
  (region.uStart + region.uSize - 1) / chunkU - region.uStart / chunkU + 1

/-- The columns of a region are words, for its pixels are. -/
theorem PlacedRegion.Shows.columns_lt (hshows : region.Shows sel) (chunkU : ℕ) :
    region.uStart / chunkU + region.columnsOf chunkU =
      (region.uStart + region.uSize - 1) / chunkU + 1 ∧
    region.uStart / chunkU + region.columnsOf chunkU < 2 ^ 64 := by
  have hsize := hshows.uSize_pos
  have hend := hshows.uEnd_lt
  have hle : region.uStart / chunkU ≤ (region.uStart + region.uSize - 1) / chunkU :=
    Nat.div_le_div_right (by omega)
  have hdiv := Nat.div_le_self (region.uStart + region.uSize - 1) chunkU
  rw [PlacedRegion.columnsOf]
  omega

/-- The columns of a region, as the code counts them. -/
theorem PlacedRegion.Shows.columns_eq (hshows : region.Shows sel) (chunkU : ℕ) :
    add (sub (sub region.uEnd 1 / chunkU) (region.uStart / chunkU)) 1 =
      region.columnsOf chunkU := by
  have hsize := hshows.uSize_pos
  have huEnd : region.uEnd = region.uStart + region.uSize := add_eq hshows.uEnd_lt
  obtain ⟨hcolumns, hlt⟩ := hshows.columns_lt chunkU
  have hle : region.uStart / chunkU ≤ (region.uStart + region.uSize - 1) / chunkU :=
    Nat.div_le_div_right (by omega)
  rw [huEnd, sub_eq (by omega) hshows.uEnd_lt, sub_eq hle (by omega), add_eq]
  · rfl
  · exact lt_of_le_of_lt (Nat.le_add_left _ _) hlt

/-- One row marks the columns of the pixels it selects. -/
theorem markRow_spec {chunkU chunkV : ℕ} (hshows : region.Shows sel)
    (hends : region.ScanEndsBelow chunkU chunkV) {y : ℕ} (hy : region.vStart ≤ y)
    (hy' : y < region.vStart + region.vSize) {marks : Marks} {P : ℕ → Prop}
    (h : marks.Are (region.uStart / chunkU) (region.columnsOf chunkU) P) :
    ∃ marks', (region.forEachSpan y region.uStart region.uEnd).foldlM
        (markSpan chunkU (region.uStart / chunkU)) marks = some marks' ∧
      marks'.Are (region.uStart / chunkU) (region.columnsOf chunkU) fun cx =>
        P cx ∨ ∃ u, sel u y = true ∧ u / chunkU = cx := by
  obtain ⟨hcolumns, hlt⟩ := hshows.columns_lt chunkU
  have huEnd : region.uEnd = region.uStart + region.uSize := add_eq hshows.uEnd_lt
  have hfold : ∀ (spans : List PlacedRegion.Span),
      (∀ span ∈ spans, (span.first < span.last ∧ region.uStart ≤ span.first ∧
        span.last ≤ region.uStart + region.uSize) ∧
          (span.selected.isSome = true → region.ReadsRaster)) →
      ∀ {marks : Marks} {P : ℕ → Prop},
        marks.Are (region.uStart / chunkU) (region.columnsOf chunkU) P →
        ∃ marks', spans.foldlM (markSpan chunkU (region.uStart / chunkU)) marks = some marks' ∧
          marks'.Are (region.uStart / chunkU) (region.columnsOf chunkU) fun cx =>
            P cx ∨ ∃ k ∈ spans.flatMap PlacedRegion.Span.pixels, k / chunkU = cx := by
    intro spans
    induction spans with
    | nil => exact fun _ marks P h => ⟨marks, rfl, h.congr fun cx _ _ => by simp⟩
    | cons span spans ih =>
      intro hspans marks P h
      obtain ⟨⟨hspan, hfirst, hlast⟩, hraster⟩ := hspans span List.mem_cons_self
      have hdiv : ∀ k, k < span.last → k / chunkU ≤ (region.uStart + region.uSize - 1) / chunkU :=
        fun k hk => Nat.div_le_div_right (by omega)
      obtain ⟨marks₁, hmarks₁, h₁⟩ := h.markSpan hends.chunkU_pos hlt hspan
        (by have := hshows.uEnd_lt; omega) (fun k hk => Nat.div_le_div_right (by omega))
        (fun k hk => by have := hdiv k hk; omega)
        (fun hsel k hk => lt_of_le_of_lt (Nat.mul_le_mul_right _ (Nat.succ_le_succ (hdiv k hk)))
          (hends.u_lt (hraster hsel)))
      obtain ⟨marks₂, hmarks₂, h₂⟩ := ih (fun s hs => hspans s (List.mem_cons_of_mem _ hs)) h₁
      refine ⟨marks₂, ?_, h₂.congr fun cx _ _ => ?_⟩
      · rw [List.foldlM_cons, hmarks₁]
        exact hmarks₂
      · rw [or_assoc, List.flatMap_cons]
        refine or_congr_right ?_
        simp only [List.mem_append, or_and_right, exists_or]
  obtain ⟨marks', hmarks', h'⟩ := hfold (region.forEachSpan y region.uStart region.uEnd)
    (fun span hspan => by
      have := PlacedRegion.forEachSpan_bounds hspan
      exact ⟨by omega, PlacedRegion.readsRaster_of_selected hspan⟩) h
  refine ⟨marks', hmarks', h'.congr fun cx _ _ => or_congr_right ?_⟩
  rw [hshows.spans y hy hy', huEnd]
  constructor
  · rintro ⟨u, hu, hcx⟩
    exact ⟨u, (List.mem_filter.1 hu).2, hcx⟩
  · rintro ⟨u, hu, hcx⟩
    obtain ⟨h₁, h₂, -⟩ := hshows.inside u y hu
    exact ⟨u, List.mem_filter.2 ⟨List.mem_range'_1.2 ⟨h₁, by omega⟩, hu⟩, hcx⟩

/-- Rows mark the columns of the pixels they select; those left out when every column is marked have
nothing to add. -/
theorem markRows_spec {chunkU chunkV : ℕ} (hshows : region.Shows sel)
    (hends : region.ScanEndsBelow chunkU chunkV) {rows : List ℕ}
    (hrows : ∀ y ∈ rows, region.vStart ≤ y ∧ y < region.vStart + region.vSize) {marks : Marks}
    {P : ℕ → Prop} (h : marks.Are (region.uStart / chunkU) (region.columnsOf chunkU) P) :
    ∃ marks', markRows chunkU (region.uStart / chunkU) (region.columnsOf chunkU) region rows marks =
        some marks' ∧
      marks'.Are (region.uStart / chunkU) (region.columnsOf chunkU) fun cx =>
        P cx ∨ ∃ y ∈ rows, ∃ u, sel u y = true ∧ u / chunkU = cx := by
  induction rows generalizing marks P with
  | nil => exact ⟨marks, rfl, h.congr fun cx _ _ => by simp⟩
  | cons y rows ih =>
    rw [markRows]
    by_cases hfound : marks.found < region.columnsOf chunkU
    · obtain ⟨hy, hy'⟩ := hrows y List.mem_cons_self
      obtain ⟨marks₁, hmarks₁, h₁⟩ := markRow_spec hshows hends hy hy' h
      obtain ⟨marks₂, hmarks₂, h₂⟩ := ih (fun y hy => hrows y (List.mem_cons_of_mem _ hy)) h₁
      refine ⟨marks₂, by rw [if_pos hfound, hmarks₁, Option.bind_some, hmarks₂],
        h₂.congr fun cx _ _ => ?_⟩
      simp only [or_assoc, List.mem_cons, exists_eq_or_imp]
    · rw [if_neg hfound]
      exact ⟨marks, rfl, h.congr fun cx hcx hcx' =>
        ⟨Or.inl, fun _ => h.of_found (by omega) cx hcx hcx'⟩⟩

/-- **The columns found in a chunk row are those that hold a selected pixel, in order.** -/
theorem occupiedColumns_spec (hshows : region.Shows sel)
    (hends : region.ScanEndsBelow grid.chunkU grid.chunkV)
    {cy : ℕ} (hcy : cy ≤ (region.vStart + region.vSize - 1) / grid.chunkV) :
    ∃ columns, occupiedColumns grid region cy = some columns ∧ columns.Pairwise (· < ·) ∧
      ∀ cx, cx ∈ columns ↔ Occupies sel grid.chunkU grid.chunkV cx cy := by
  obtain ⟨hcolumns, hlt⟩ := hshows.columns_lt grid.chunkU
  have huEnd : region.uEnd = region.uStart + region.uSize := add_eq hshows.uEnd_lt
  have hvEnd : region.vEnd = region.vStart + region.vSize := add_eq hshows.vEnd_lt
  have hsize := hshows.uSize_pos
  have hrow : (cy + 1) * grid.chunkV < 2 ^ 64 :=
    lt_of_le_of_lt (Nat.mul_le_mul_right _ (Nat.succ_le_succ hcy)) hends.v_lt
  have hcy1 := Nat.le_mul_of_pos_right (cy + 1) hends.chunkV_pos
  have hrow' : cy * grid.chunkV + grid.chunkV = (cy + 1) * grid.chunkV := (Nat.succ_mul cy _).symm
  simp only [occupiedColumns, hshows.columns_eq, hvEnd]
  rw [add_eq (by omega), mul_eq hrow, mul_eq (by omega)]
  have hrows : ∀ y ∈ List.range' (max region.vStart (cy * grid.chunkV))
      (min (region.vStart + region.vSize) ((cy + 1) * grid.chunkV) -
        max region.vStart (cy * grid.chunkV)),
      region.vStart ≤ y ∧ y < region.vStart + region.vSize := fun y hy => by
    rw [List.mem_range'_1] at hy
    omega
  obtain ⟨marks, hmarks, h⟩ := markRows_spec hshows hends hrows
    (Marks.Are.none (region.uStart / grid.chunkU) (region.columnsOf grid.chunkU))
  refine ⟨_, by rw [hmarks, Option.map_some], ?_, fun cx => ?_⟩
  · exact List.Pairwise.filter _ List.pairwise_lt_range'
  · rw [List.mem_filter, List.mem_range'_1, decide_eq_true_eq]
    constructor
    · rintro ⟨⟨hcx, hcx'⟩, hmarked⟩
      rw [Marks.marked, sub_eq hcx (by omega), h.occupied_iff cx hcx hcx', false_or] at hmarked
      obtain ⟨y, hy, u, hu, hucx⟩ := hmarked
      rw [List.mem_range'_1] at hy
      exact ⟨u, y, hu, hucx, Nat.div_eq_of_lt_le (by omega) (by omega)⟩
    · rintro ⟨u, v, hsel, rfl, rfl⟩
      obtain ⟨hu, hu', hv, hv'⟩ := hshows.inside u v hsel
      have hcx : region.uStart / grid.chunkU ≤ u / grid.chunkU := Nat.div_le_div_right hu
      have hcx' : u / grid.chunkU ≤ (region.uStart + region.uSize - 1) / grid.chunkU :=
        Nat.div_le_div_right (by omega)
      refine ⟨⟨hcx, by omega⟩, ?_⟩
      rw [Marks.marked, sub_eq hcx (by omega), h.occupied_iff _ hcx (by omega), false_or]
      have h₁ : v / grid.chunkV * grid.chunkV ≤ v := Nat.div_mul_le_self v _
      have h₂ := lt_block_end hends.chunkV_pos v
      exact ⟨v, List.mem_range'_1.2 ⟨by omega, by omega⟩, u, hsel, rfl⟩

end Rows

/-! ## Incidences -/

/-- The cells a region occupies, in the order they are found. -/
def PlacedRegion.cells (region : PlacedRegion) (grid : ChunkGrid) : List (ℕ × ℕ) :=
  (List.range' (region.vStart / grid.chunkV) (sub region.vEnd 1 / grid.chunkV + 1 -
    region.vStart / grid.chunkV)).flatMap fun cy =>
      ((occupiedColumns grid region cy).getD []).map fun cx => (cx, cy)

/-- What some incidences are when there are not too many: those before, and these cells. -/
structure Incidences.Are (seen before : Incidences) (cells : List ℕ) : Prop where
  length_le : before.cells.length ≤ kMaxChunkIncidences → seen.cells.length ≤ kMaxChunkIncidences
  cells_eq : seen.tooMany = false → before.tooMany = false ∧ seen.cells = before.cells ++ cells

namespace Incidences

variable {grid : ChunkGrid} {before seen : Incidences} {cells : List ℕ}

theorem Are.refl (seen : Incidences) : seen.Are seen [] :=
  ⟨id, fun h => ⟨h, by simp⟩⟩

/-- Once there are too many, nothing more is said. -/
theorem Are.of_tooMany (h : seen.tooMany = true) (cells : List ℕ) : seen.Are seen cells :=
  ⟨id, fun h' => by rw [h] at h'; cases h'⟩

theorem Are.trans {after : Incidences} {cells' : List ℕ} (h : seen.Are before cells)
    (h' : after.Are seen cells') : after.Are before (cells ++ cells') := by
  refine ⟨fun hle => h'.length_le (h.length_le hle), fun hfew => ?_⟩
  obtain ⟨hseen, hafter⟩ := h'.cells_eq hfew
  obtain ⟨hbefore, hcells⟩ := h.cells_eq hseen
  exact ⟨hbefore, by rw [hafter, hcells, List.append_assoc]⟩

theorem visit_are (grid : ChunkGrid) (cy : ℕ) (seen : Incidences) (cx : ℕ) :
    (visit grid cy seen cx).Are seen [grid.cell cx cy] := by
  rw [visit]
  split_ifs with hfull
  · exact ⟨id, fun h => by cases h⟩
  · refine ⟨fun hle => ?_, fun h => ⟨h, rfl⟩⟩
    rw [List.length_append, List.length_singleton]
    exact Nat.succ_le_of_lt (lt_of_le_of_ne hle hfull)

theorem foldl_visit_are (grid : ChunkGrid) (cy : ℕ) (seen : Incidences) (columns : List ℕ) :
    (columns.foldl (visit grid cy) seen).Are seen (columns.map (grid.cell · cy)) := by
  induction columns generalizing seen with
  | nil => exact .refl seen
  | cons cx columns ih => exact (visit_are grid cy seen cx).trans (ih _)

theorem scanRows_are {region : PlacedRegion} {rows : List ℕ}
    (hrows : ∀ cy ∈ rows, ∃ columns, occupiedColumns grid region cy = some columns)
    (seen : Incidences) :
    ∃ after, scanRows grid region rows seen = some after ∧ after.Are seen (rows.flatMap fun cy =>
      ((occupiedColumns grid region cy).getD []).map (grid.cell · cy)) := by
  induction rows generalizing seen with
  | nil => exact ⟨seen, rfl, .refl seen⟩
  | cons cy rows ih =>
    rw [scanRows, List.flatMap_cons]
    by_cases hmany : seen.tooMany = true
    · rw [if_pos hmany]
      exact ⟨seen, rfl, .of_tooMany hmany _⟩
    · obtain ⟨columns, hcolumns⟩ := hrows cy List.mem_cons_self
      obtain ⟨after, hafter, h⟩ := ih (fun cy hcy => hrows cy (List.mem_cons_of_mem _ hcy))
        (columns.foldl (visit grid cy) seen)
      rw [if_neg hmany, hcolumns]
      exact ⟨after, hafter, (foldl_visit_are grid cy seen columns).trans h⟩

end Incidences

section Incidence

variable {grid : ChunkGrid} {region : PlacedRegion} {sel : ℕ → ℕ → Bool}

theorem PlacedRegion.Shows.rows_eq (hshows : region.Shows sel) :
    sub region.vEnd 1 = region.vStart + region.vSize - 1 := by
  have hvEnd : region.vEnd = region.vStart + region.vSize := add_eq hshows.vEnd_lt
  have := hshows.vSize_pos
  have := hshows.vEnd_lt
  rw [hvEnd, sub_eq (by omega) (by omega)]

/-- The rows of a region are all found. -/
theorem PlacedRegion.Shows.row_columns (hshows : region.Shows sel)
    (hends : region.ScanEndsBelow grid.chunkU grid.chunkV) {cy : ℕ}
    (hcy : cy ∈ List.range' (region.vStart / grid.chunkV) (sub region.vEnd 1 / grid.chunkV + 1 -
      region.vStart / grid.chunkV)) :
    ∃ columns, occupiedColumns grid region cy = some columns ∧ columns.Pairwise (· < ·) ∧
      ∀ cx, cx ∈ columns ↔ Occupies sel grid.chunkU grid.chunkV cx cy := by
  rw [List.mem_range'_1, hshows.rows_eq] at hcy
  exact occupiedColumns_spec hshows hends (by omega)

theorem forEachCell_are (hshows : region.Shows sel)
    (hends : region.ScanEndsBelow grid.chunkU grid.chunkV)
    (seen : Incidences) :
    ∃ after, forEachCell grid region seen = some after ∧
      after.Are seen ((region.cells grid).map fun cell => grid.cell cell.1 cell.2) := by
  obtain ⟨after, hafter, h⟩ := Incidences.scanRows_are (fun cy hcy => by
    obtain ⟨columns, hcolumns, -⟩ := hshows.row_columns hends hcy
    exact ⟨columns, hcolumns⟩) seen
  refine ⟨after, hafter, ?_⟩
  rw [PlacedRegion.cells, List.map_flatMap]
  simpa only [List.map_map, Function.comp_def] using h

/-- **The cells found of a region are the chunks that hold a pixel it selects, each once.** -/
theorem PlacedRegion.Shows.mem_cells (hshows : region.Shows sel)
    (hends : region.ScanEndsBelow grid.chunkU grid.chunkV) {cx cy : ℕ} :
    (cx, cy) ∈ region.cells grid ↔ Occupies sel grid.chunkU grid.chunkV cx cy := by
  rw [PlacedRegion.cells, List.mem_flatMap]
  constructor
  · rintro ⟨cy', hcy', hmem⟩
    obtain ⟨columns, hcolumns, -, hiff⟩ := hshows.row_columns hends hcy'
    rw [hcolumns, Option.getD_some, List.mem_map] at hmem
    obtain ⟨cx', hcx', heq⟩ := hmem
    cases heq
    exact (hiff cx).1 hcx'
  · intro hocc
    obtain ⟨u, v, hsel, hu, hv⟩ := id hocc
    obtain ⟨-, -, hv₁, hv₂⟩ := hshows.inside u v hsel
    have hmem : cy ∈ List.range' (region.vStart / grid.chunkV)
      (sub region.vEnd 1 / grid.chunkV + 1 -
        region.vStart / grid.chunkV) := by
      have h₁ : region.vStart / grid.chunkV ≤ v / grid.chunkV := Nat.div_le_div_right hv₁
      have h₂ : v / grid.chunkV ≤ (region.vStart + region.vSize - 1) / grid.chunkV :=
        Nat.div_le_div_right (by omega)
      rw [List.mem_range'_1, hshows.rows_eq]
      omega
    obtain ⟨columns, hcolumns, -, hiff⟩ := hshows.row_columns hends hmem
    refine ⟨cy, hmem, ?_⟩
    rw [hcolumns, Option.getD_some, List.mem_map]
    exact ⟨cx, (hiff cx).2 hocc, rfl⟩

theorem PlacedRegion.Shows.nodup_cells (hshows : region.Shows sel)
    (hends : region.ScanEndsBelow grid.chunkU grid.chunkV) : (region.cells grid).Nodup := by
  rw [PlacedRegion.cells, List.nodup_flatMap]
  constructor
  · intro cy hcy
    obtain ⟨columns, hcolumns, hsorted, -⟩ := hshows.row_columns hends hcy
    rw [hcolumns, Option.getD_some]
    exact List.Nodup.map (fun a b h => (Prod.mk.inj h).1) (hsorted.imp fun h => Nat.ne_of_lt h)
  · refine List.Pairwise.imp (fun hne => ?_) List.nodup_range'
    rintro ⟨cx, cy⟩ h₁ h₂
    obtain ⟨_, _, heq₁⟩ := List.mem_map.1 h₁
    obtain ⟨_, _, heq₂⟩ := List.mem_map.1 h₂
    exact hne ((Prod.mk.inj heq₁).2.trans (Prod.mk.inj heq₂).2.symm)

/-- The incidences are the cells of one region after another, and each region's end where they
say. -/
theorem incidencesOf_spec {placed : List PlacedRegion}
    (hshows : ∀ region ∈ placed, ∃ sel, region.Shows sel)
    (hends : ∀ region ∈ placed, region.ScanEndsBelow grid.chunkU grid.chunkV) (seen : Incidences)
    (firsts : List ℕ) :
    ∃ after, ∃ regionFirst, incidencesOf grid placed seen firsts = some (after, regionFirst) ∧
      after.Are seen (placed.flatMap fun region =>
        (region.cells grid).map fun cell => grid.cell cell.1 cell.2) ∧
      (after.tooMany = false → regionFirst = firsts ++ (List.range placed.length).map fun i =>
        seen.cells.length + ((placed.take (i + 1)).flatMap fun region =>
          region.cells grid).length) := by
  induction placed generalizing seen firsts with
  | nil => exact ⟨seen, firsts, rfl, .refl seen, fun _ => by simp⟩
  | cons region placed ih =>
    rw [incidencesOf, List.flatMap_cons]
    by_cases hmany : seen.tooMany = true
    · rw [if_pos hmany]
      exact ⟨seen, firsts, rfl, .of_tooMany hmany _, fun h => by rw [hmany] at h; cases h⟩
    · obtain ⟨sel, hsel⟩ := hshows region List.mem_cons_self
      obtain ⟨mid, hmid, h⟩ := forEachCell_are hsel (hends region List.mem_cons_self) seen
      obtain ⟨after, regionFirst, hafter, h', hfirst⟩ := ih
        (fun r hr => hshows r (List.mem_cons_of_mem _ hr))
        (fun r hr => hends r (List.mem_cons_of_mem _ hr)) mid (firsts ++ [mid.cells.length])
      rw [if_neg hmany, hmid, Option.bind_some]
      refine ⟨after, regionFirst, hafter, h.trans h', fun hfew => ?_⟩
      have hcells := (h.cells_eq (h'.cells_eq hfew).1).2
      have hlength : mid.cells.length = seen.cells.length + (region.cells grid).length := by
        rw [hcells, List.length_append, List.length_map]
      rw [hfirst hfew, List.length_cons, List.range_succ_eq_map, List.map_cons, List.map_map,
        List.append_assoc, List.singleton_append, hlength]
      simp only [List.take_succ_cons, List.take_zero, List.flatMap_cons,
        List.flatMap_nil, List.append_nil,
        List.length_append, Function.comp_def, Nat.succ_eq_add_one, Nat.add_assoc]

end Incidence

/-! ## Scans past a word -/

section Wraps

variable {chunkU : ℕ} {grid : ChunkGrid} {region : PlacedRegion} {sel : ℕ → ℕ → Bool}

/-- A scan of a raster whose last chunk column ends at `2 ^ 64` or beyond is never over: the end of
that column wraps, to a pixel before it. -/
theorem markRaster_eq_none (hchunk : chunkU < 2 ^ 64) {span : PlacedRegion.Span}
    (hlast : span.last < 2 ^ 64) (hwrap : 2 ^ 64 ≤ ((span.last - 1) / chunkU + 1) * chunkU)
    (cx0 fuel : ℕ)
    {x : ℕ} (hx : x < span.last) (marks : Marks) :
    markRaster chunkU cx0 span fuel x marks = none := by
  induction fuel generalizing x marks with
  | zero => rfl
  | succ fuel ih =>
    rw [markRaster, if_pos hx]
    have hle : x / chunkU ≤ (span.last - 1) / chunkU := Nat.div_le_div_right (by omega)
    have hdiv : (span.last - 1) / chunkU * chunkU ≤ span.last - 1 := Nat.div_mul_le_self _ _
    have hself : (span.last - 1) / chunkU ≤ span.last - 1 := Nat.div_le_self _ _
    have hboundary : min span.last (mul (add (x / chunkU) 1) chunkU) < span.last := by
      refine min_lt_of_right_lt ?_
      rw [add_eq (by omega), mul]
      rcases hle.eq_or_lt with heq | hlt
      · -- the last column: its end is less than a chunk past the last word
        rw [heq]
        rw [Nat.add_mul, one_mul] at hwrap ⊢
        omega
      · have hnext : (x / chunkU + 1) * chunkU ≤ (span.last - 1) / chunkU * chunkU :=
          Nat.mul_le_mul_right _ hlt
        exact lt_of_le_of_lt (Nat.mod_le _ _) (by omega)
    simp only
    cases hmarked : marks.marked cx0 (x / chunkU) with
    | none => rfl
    | some seen =>
      rw [Option.bind_some]
      split
      · cases marks.mark cx0 (x / chunkU) with
        | none => rfl
        | some marks' => exact ih hboundary marks'
      · exact ih hboundary marks

/-- The row of a raster is one span, its whole width. -/
theorem PlacedRegion.ReadsRaster.forEachSpan_eq (h : region.ReadsRaster)
    (hlt : region.uStart < region.uEnd) (y : ℕ) :
    ∃ span : PlacedRegion.Span, region.forEachSpan y region.uStart region.uEnd = [span] ∧
      span.first = region.uStart ∧ span.last = region.uEnd ∧ span.selected.isSome = true := by
  obtain ⟨raster, hraster⟩ := Option.isSome_iff_exists.1 h.2
  simp only [PlacedRegion.forEachSpan, max_self, min_self, ge_iff_le, not_le.2 hlt,
    if_false, h.1, hraster]
  exact ⟨_, rfl, rfl, rfl, rfl⟩

/-- A region that is found to occupy some columns has chunk columns that its scan comes to the end
of. -/
theorem u_lt_of_occupiedColumns (hshows : region.Shows sel)
    (hrows : region.RowsEndBelow grid.chunkU grid.chunkV) (hchunk : grid.chunkU < 2 ^ 64)
    (hraster : region.ReadsRaster) {columns : List ℕ}
    (h : occupiedColumns grid region (region.vStart / grid.chunkV) = some columns) :
    ((region.uStart + region.uSize - 1) / grid.chunkU + 1) * grid.chunkU < 2 ^ 64 := by
  by_contra hwrap
  have huEnd : region.uEnd = region.uStart + region.uSize := add_eq hshows.uEnd_lt
  have hvEnd : region.vEnd = region.vStart + region.vSize := add_eq hshows.vEnd_lt
  have hsize := hshows.uSize_pos
  have hsize' := hshows.vSize_pos
  have hcy : region.vStart / grid.chunkV ≤ (region.vStart + region.vSize - 1) / grid.chunkV :=
    Nat.div_le_div_right (by omega)
  have hrow : (region.vStart / grid.chunkV + 1) * grid.chunkV < 2 ^ 64 :=
    lt_of_le_of_lt (Nat.mul_le_mul_right _ (Nat.succ_le_succ hcy)) hrows.v_lt
  have hcy1 := Nat.le_mul_of_pos_right (region.vStart / grid.chunkV + 1) hrows.chunkV_pos
  have hend := lt_block_end hrows.chunkV_pos region.vStart
  have hbegin := Nat.div_mul_le_self region.vStart grid.chunkV
  obtain ⟨span, hspan, hfirst, hlast, hselected⟩ := hraster.forEachSpan_eq (by omega) region.vStart
  obtain ⟨bytes, hbytes⟩ := Option.isSome_iff_exists.1 hselected
  have hmark : ∀ marks, markSpan grid.chunkU (region.uStart / grid.chunkU) marks span =
      none := fun marks => by
    rw [markSpan, hbytes]
    exact markRaster_eq_none hchunk (by rw [hlast, huEnd]; exact hshows.uEnd_lt)
      (by rw [hlast, huEnd]; exact not_lt.1 hwrap) _ _ (by omega) marks
  -- the first row of the region is scanned, for no column is marked yet
  have hrange : List.range' (max region.vStart (region.vStart / grid.chunkV * grid.chunkV))
      (min (region.vStart + region.vSize) ((region.vStart / grid.chunkV + 1) * grid.chunkV) -
        max region.vStart (region.vStart / grid.chunkV * grid.chunkV)) =
      region.vStart :: List.range' (region.vStart + 1)
        (min (region.vStart + region.vSize) ((region.vStart / grid.chunkV + 1) * grid.chunkV) -
          region.vStart - 1) := by
    rw [max_eq_left hbegin, ← List.range'_succ]
    congr 1
    omega
  simp only [occupiedColumns, hshows.columns_eq, hvEnd] at h
  rw [add_eq (by omega), mul_eq hrow, mul_eq (by omega), hrange, markRows,
    if_pos (show 0 < region.columnsOf grid.chunkU from Nat.succ_pos _), hspan, List.foldlM_cons,
    hmark] at h
  cases h

theorem u_lt_of_forEachCell (hshows : region.Shows sel)
    (hrows : region.RowsEndBelow grid.chunkU grid.chunkV) (hchunk : grid.chunkU < 2 ^ 64)
    (hraster : region.ReadsRaster) {seen after : Incidences} (hseen : seen.tooMany = false)
    (h : forEachCell grid region seen = some after) :
    ((region.uStart + region.uSize - 1) / grid.chunkU + 1) * grid.chunkU < 2 ^ 64 := by
  have hle : region.vStart / grid.chunkV ≤ (region.vStart + region.vSize - 1) / grid.chunkV :=
    Nat.div_le_div_right (by have := hshows.vSize_pos; omega)
  obtain ⟨n, hn⟩ : ∃ n, sub region.vEnd 1 / grid.chunkV + 1 - region.vStart /
      grid.chunkV = n + 1 := by
    rw [hshows.rows_eq]
    exact ⟨_, (Nat.succ_pred_eq_of_pos (by omega)).symm⟩
  rw [forEachCell, hn, List.range'_succ, scanRows,
    if_neg (by rw [hseen]; exact Bool.false_ne_true)] at h
  obtain ⟨columns, hcolumns, -⟩ := Option.bind_eq_some_iff.1 h
  exact u_lt_of_occupiedColumns hshows hrows hchunk hraster hcolumns

/-- **The incidences of regions are all found only where every scan comes to its end.** -/
theorem scanEndsBelow_of_incidencesOf {placed : List PlacedRegion}
    (hshows : ∀ region ∈ placed, ∃ sel, region.Shows sel)
    (hrows : ∀ region ∈ placed, region.RowsEndBelow grid.chunkU grid.chunkV)
    (hchunk : grid.chunkU < 2 ^ 64) {seen after : Incidences} {firsts regionFirst : List ℕ}
    (h : incidencesOf grid placed seen firsts = some (after, regionFirst))
    (hfew : after.tooMany = false) :
    ∀ region ∈ placed, region.ScanEndsBelow grid.chunkU grid.chunkV := by
  induction placed generalizing seen firsts with
  | nil => simp
  | cons region placed ih =>
    have hseen : seen.tooMany = false := by
      by_contra hmany
      rw [incidencesOf, if_pos (by simpa using hmany)] at h
      cases h
      exact hmany hfew
    rw [incidencesOf, if_neg (by rw [hseen]; exact Bool.false_ne_true)] at h
    obtain ⟨mid, hmid, hrest⟩ := Option.bind_eq_some_iff.1 h
    intro r hr
    rcases List.mem_cons.1 hr with rfl | hr
    · obtain ⟨sel, hsel⟩ := hshows r List.mem_cons_self
      have hrow := hrows r List.mem_cons_self
      exact ⟨hrow.chunkU_pos, hrow.chunkV_pos,
        fun hraster => u_lt_of_forEachCell hsel hrow hchunk hraster hseen hmid, hrow.v_lt⟩
    · exact ih (fun r hr => hshows r (List.mem_cons_of_mem _ hr))
        (fun r hr => hrows r (List.mem_cons_of_mem _ hr)) hrest r hr

end Wraps

end CartaZarr
