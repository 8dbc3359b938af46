import CartaZarr.Image.Descriptor
import CartaZarr.Reduce.RegionRuns

/-!
# Regions on the axes of the walk

A region comes in the caller's x and y, as its box or with a raster over it, and is placed on the
axes the walk reads in: u, the spatial axis the store varies fastest, and v, the other. `RowsWithin`
and `ForEachSpan` are all a reduction asks of a placed region.

`forEachSpan_pixels` says what the spans of a row are, whichever of the three a region is: the
pixels the region selects in the window, each once and in order.
-/

namespace CartaZarr

open Word

/-- Elements a caller lends: none, or as many as it says. -/
structure BufferView (α : Type) where
  data : Option (List α)
  size : ℕ
  size_eq : ∀ elements, data = some elements → elements.length = size

/-- A region of a plane: a box, and which of its pixels are selected when that is not all of
them. -/
structure RegionMask where
  xStart : ℕ
  yStart : ℕ
  width : ℕ
  height : ℕ
  mask : BufferView UInt8

structure PlaneExtent where
  width : ℕ
  height : ℕ
  deriving DecidableEq, Repr

/-- Why a region cannot be placed on the plane. -/
def placeable (region : RegionMask) (index : ℕ) (plane : PlaneExtent) (node : String) :
    Except Error Unit :=
  if region.width = 0 ∨ region.height = 0 then
    .error ⟨.invalidArgument, "Region " ++ toString index ++ " is empty", node⟩
  else if region.xStart ≥ plane.width ∨ region.width > sub plane.width region.xStart ∨
      region.yStart ≥ plane.height ∨ region.height > sub plane.height region.yStart then
    .error ⟨.invalidArgument, "Region " ++ toString index ++ " falls outside the image", node⟩
  else
    let box := mul region.width region.height
    if (if region.mask.data.isSome then region.mask.size ≠ box else region.mask.size ≠ 0) then
      .error ⟨.invalidArgument, "Region " ++ toString index ++ " has a mask of " ++
        toString region.mask.size ++ " elements for a box of " ++ toString box, node⟩
    else .ok ()

/-- A region on the axes of the walk. -/
structure PlacedRegion where
  uStart : ℕ
  vStart : ℕ
  uSize : ℕ
  vSize : ℕ
  mask : Option (List UInt8)
  maskUStride : ℕ
  maskVStride : ℕ
  /-- The runs made from the raster, none for a box and for a raster too fragmented. -/
  runs : Option RegionRuns
  deriving DecidableEq, Repr

/-- Where a region lands, u being y when the axes are swapped. -/
def RegionMask.place (swapSpatial : Bool) (given : RegionMask) : PlacedRegion where
  uStart := if swapSpatial then given.yStart else given.xStart
  vStart := if swapSpatial then given.xStart else given.yStart
  uSize := if swapSpatial then given.height else given.width
  vSize := if swapSpatial then given.width else given.height
  mask := given.mask.data
  maskUStride := if swapSpatial then given.width else 1
  maskVStride := if swapSpatial then 1 else given.width
  runs := given.mask.data.bind fun raster => runsAlongU raster given.width given.height !swapSpatial

namespace PlacedRegion

def uEnd (region : PlacedRegion) : ℕ := add region.uStart region.uSize

def vEnd (region : PlacedRegion) : ℕ := add region.vStart region.vSize

/-- The rows of a region inside a box, half-open. -/
def rowsWithin (region : PlacedRegion) (u0 u1 v0 v1 : ℕ) : ℕ × ℕ :=
  let firstU := max u0 region.uStart
  let lastU := min u1 region.uEnd
  let firstV := max v0 region.vStart
  let lastV := min v1 region.vEnd
  if firstU ≥ lastU ∨ firstV ≥ lastV then (0, 0) else (firstV, lastV)

/-- Some pixels of a row, `[first, last)`: all of them, or those whose byte of the raster is not
zero, the bytes lying `step` apart from that of `first` on. -/
structure Span where
  first : ℕ
  last : ℕ
  selected : Option (List UInt8)
  step : ℕ
  deriving DecidableEq, Repr

/-- Whether a span selects one of its pixels. -/
def Span.has (span : Span) (k : ℕ) : Bool :=
  match span.selected with
  | none => true
  | some bytes => selects (bytes.getD (mul (sub k span.first) span.step) 0)

/-- The pixels a span selects, in order. -/
def Span.pixels (span : Span) : List ℕ :=
  (List.range' span.first (span.last - span.first)).filter span.has

@[simp] theorem Span.pixels_whole (first last step : ℕ) :
    (⟨first, last, none, step⟩ : Span).pixels = List.range' first (last - first) :=
  List.filter_eq_self.2 fun _ _ => rfl

/-- The spans of row `y` inside `[u0, u1)`, in order. -/
def forEachSpan (region : PlacedRegion) (y u0 u1 : ℕ) : List Span :=
  let first := max u0 region.uStart
  let last := min u1 region.uEnd
  if first ≥ last then []
  else
    match region.runs with
    | some made =>
      -- runs ascend, so those after the first past the span are past it too
      ((made.line (sub y region.vStart)).takeWhile fun run =>
        add region.uStart run.1 < last).filterMap
        fun run =>
          let from_ := max first (add region.uStart run.1)
          let to_ := min last (add region.uStart run.2)
          if from_ < to_ then some ⟨from_, to_, none, 1⟩ else none
    | none =>
      match region.mask with
      | none => [⟨first, last, none, 1⟩]
      | some raster =>
        [⟨first, last, some (raster.drop (add (mul (sub y region.vStart) region.maskVStride)
          (mul (sub first region.uStart) region.maskUStride))), region.maskUStride⟩]

theorem forEachSpan_bounds {region : PlacedRegion} {y u0 u1 : ℕ} {span : Span}
    (h : span ∈ region.forEachSpan y u0 u1) :
    span.first < span.last ∧ max u0 region.uStart ≤ span.first ∧
    span.last ≤ min u1 region.uEnd := by
  rw [forEachSpan] at h
  split at h
  · cases h
  rename_i hwindow
  rw [not_le] at hwindow
  split at h
  · obtain ⟨run, -, hrun⟩ := List.mem_filterMap.1 h
    dsimp only at hrun
    split at hrun
    · obtain rfl := Option.some.inj hrun
      rename_i hlt
      exact ⟨hlt, le_max_left _ _, min_le_left _ _⟩
    · cases hrun
  · split at h
    · obtain rfl := List.mem_singleton.1 h
      exact ⟨hwindow, le_refl _, le_refl _⟩
    · obtain rfl := List.mem_singleton.1 h
      exact ⟨hwindow, le_refl _, le_refl _⟩

/-- Whether the rows of a region are read from its raster: it has one, and no runs were made of
it. -/
def ReadsRaster (region : PlacedRegion) : Prop := region.runs = none ∧ region.mask.isSome = true

/-- Only a raster that is read gives spans that select some of their pixels. -/
theorem readsRaster_of_selected {region : PlacedRegion} {span : Span} {y u0 u1 : ℕ}
    (h : span ∈ region.forEachSpan y u0 u1) (hselected : span.selected.isSome = true) :
    region.ReadsRaster := by
  rw [forEachSpan] at h
  split at h
  · cases h
  split at h
  · -- the spans of runs are whole
    obtain ⟨run, -, hrun⟩ := List.mem_filterMap.1 h
    dsimp only at hrun
    split at hrun
    · obtain rfl := Option.some.inj hrun
      cases hselected
    · cases hrun
  · rename_i hruns
    split at h
    · obtain rfl := List.mem_singleton.1 h
      cases hselected
    · rename_i raster hmask
      exact ⟨hruns, by rw [hmask]; rfl⟩

/-- The rows within a box are those of the region and of the box, when the two meet along u. -/
theorem rowsWithin_iff (region : PlacedRegion) (u0 u1 v0 v1 v : ℕ) :
    (region.rowsWithin u0 u1 v0 v1).1 ≤ v ∧ v < (region.rowsWithin u0 u1 v0 v1).2 ↔
      max u0 region.uStart < min u1 region.uEnd ∧ v0 ≤ v ∧ v < v1 ∧ region.vStart ≤ v ∧
        v < region.vEnd := by
  rw [rowsWithin]
  by_cases hmiss : max u0 region.uStart ≥ min u1 region.uEnd ∨
    max v0 region.vStart ≥ min v1 region.vEnd
  · rw [if_pos hmiss]
    dsimp only
    omega
  · rw [if_neg hmiss]
    dsimp only
    omega

/-- What a placed region shows: a box of pixels, and a row at a time those selected. -/
structure Shows (region : PlacedRegion) (sel : ℕ → ℕ → Bool) : Prop where
  uSize_pos : 0 < region.uSize
  vSize_pos : 0 < region.vSize
  uEnd_lt : region.uStart + region.uSize < 2 ^ 64
  vEnd_lt : region.vStart + region.vSize < 2 ^ 64
  inside : ∀ u v, sel u v = true → region.uStart ≤ u ∧ u < region.uStart + region.uSize ∧
    region.vStart ≤ v ∧ v < region.vStart + region.vSize
  spans : ∀ v, region.vStart ≤ v → v < region.vStart + region.vSize → ∀ u0 u1,
    (region.forEachSpan v u0 u1).flatMap Span.pixels = (List.range' u0 (u1 - u0)).filter (sel · v)

end PlacedRegion

/-! ## What a region selects -/

/-- Whether a region selects a pixel of its box. -/
def RegionMask.boxSelects (region : RegionMask) (x y : ℕ) : Bool :=
  match region.mask.data with
  | none => true
  | some raster => rasterSelects raster region.width x y

/-- Whether a region selects the pixel at `(x, y)` of the plane. -/
def RegionMask.selects (region : RegionMask) (x y : ℕ) : Bool :=
  decide (region.xStart ≤ x ∧ x < region.xStart + region.width ∧
    region.yStart ≤ y ∧ y < region.yStart + region.height) &&
      region.boxSelects (x - region.xStart) (y - region.yStart)

/-- The same on the axes of the walk. -/
def RegionMask.selectsAt (swapSpatial : Bool) (region : RegionMask) (u v : ℕ) : Bool :=
  if swapSpatial then region.selects v u else region.selects u v

/-- A region that can be placed: a box on the plane, and a raster cut for it. -/
structure RegionMask.Fits (region : RegionMask) (plane : PlaneExtent) : Prop where
  width_pos : 0 < region.width
  height_pos : 0 < region.height
  width_le : region.xStart + region.width ≤ plane.width
  height_le : region.yStart + region.height ≤ plane.height
  raster_length : ∀ raster, region.mask.data = some raster →
    raster.length = region.width * region.height

/-- A plane whose pixels can be counted. -/
structure PlaneExtent.Counted (plane : PlaneExtent) : Prop where
  width_lt : plane.width < 2 ^ 64
  height_lt : plane.height < 2 ^ 64
  pixels_lt : plane.width * plane.height < 2 ^ 64

/-- A region that can be placed has a box, and the box is on the plane. -/
theorem placeable_box {region : RegionMask} {index : ℕ} {plane : PlaneExtent} {node : String}
    (hw : plane.width < 2 ^ 64) (hh : plane.height < 2 ^ 64)
    (h : placeable region index plane node = .ok ()) :
    (0 < region.width ∧ 0 < region.height) ∧
      region.xStart + region.width ≤ plane.width ∧
      region.yStart + region.height ≤ plane.height := by
  rw [placeable] at h
  split at h
  · cases h
  split at h
  · cases h
  rename_i hempty houtside
  simp only [not_or, not_lt, ge_iff_le, gt_iff_lt, not_le] at hempty houtside
  obtain ⟨hx, hwidth, hy, hheight⟩ := houtside
  rw [sub_eq hx.le hw] at hwidth
  rw [sub_eq hy.le hh] at hheight
  omega

theorem placeable_fits {region : RegionMask} {index : ℕ} {plane : PlaneExtent} {node : String}
    (hplane : plane.Counted) (h : placeable region index plane node = .ok ()) :
    region.Fits plane := by
  obtain ⟨hw, hh, hwh⟩ := hplane
  obtain ⟨⟨hwidth, hheight⟩, hx, hy⟩ := placeable_box hw hh h
  have hbox : region.width * region.height < 2 ^ 64 :=
    lt_of_le_of_lt (Nat.mul_le_mul (by omega) (by omega)) hwh
  refine ⟨hwidth, hheight, hx, hy, fun raster hraster => ?_⟩
  rw [placeable] at h
  split at h
  · cases h
  split at h
  · cases h
  simp only [hraster, Option.isSome_some, if_true, mul_eq hbox] at h
  rw [region.mask.size_eq raster hraster]
  by_contra hsize
  rw [if_pos hsize] at h
  cases h

namespace RegionMask

variable {region : RegionMask} {plane : PlaneExtent} {swapSpatial : Bool}

/-- The box of a placed region ends below `2 ^ 64`. -/
theorem Fits.end_lt (hfits : region.Fits plane) (hplane : plane.Counted) :
    (region.place swapSpatial).uStart + (region.place swapSpatial).uSize < 2 ^ 64 ∧
      (region.place swapSpatial).vStart + (region.place swapSpatial).vSize < 2 ^ 64 := by
  have := hfits.width_le
  have := hfits.height_le
  have := hplane.width_lt
  have := hplane.height_lt
  cases swapSpatial <;> simp only [place, Bool.false_eq_true, if_false, if_true] <;> omega

theorem Fits.uEnd_eq (hfits : region.Fits plane) (hplane : plane.Counted) :
    (region.place swapSpatial).uEnd =
      (region.place swapSpatial).uStart + (region.place swapSpatial).uSize :=
  add_eq (hfits.end_lt hplane).1

theorem Fits.vEnd_eq (hfits : region.Fits plane) (hplane : plane.Counted) :
    (region.place swapSpatial).vEnd =
      (region.place swapSpatial).vStart + (region.place swapSpatial).vSize :=
  add_eq (hfits.end_lt hplane).2

/-- Whether a region selects the pixel `k` along u and `l` along v into its box. -/
def lineSelects (swapSpatial : Bool) (region : RegionMask) (k l : ℕ) : Bool :=
  if swapSpatial then region.boxSelects l k else region.boxSelects k l

theorem selectsAt_eq (swapSpatial : Bool) (region : RegionMask) (u v : ℕ) :
    region.selectsAt swapSpatial u v =
      (decide ((region.place swapSpatial).uStart ≤ u ∧
          u < (region.place swapSpatial).uStart + (region.place swapSpatial).uSize ∧
          (region.place swapSpatial).vStart ≤ v ∧
          v < (region.place swapSpatial).vStart + (region.place swapSpatial).vSize) &&
        region.lineSelects swapSpatial (u - (region.place swapSpatial).uStart)
          (v - (region.place swapSpatial).vStart)) := by
  cases swapSpatial
  · rfl
  · simp only [selectsAt, selects, lineSelects, place, if_true]
    congr 1
    exact decide_eq_decide.2 ⟨fun h => by omega, fun h => by omega⟩

/-- The pixels selected in a window of a row are those of the row's part of the box. -/
theorem filter_selectsAt (swapSpatial : Bool) (region : RegionMask) {v u0 u1 : ℕ}
    (hv : (region.place swapSpatial).vStart ≤ v)
    (hv' : v < (region.place swapSpatial).vStart + (region.place swapSpatial).vSize) :
    (List.range' u0 (u1 - u0)).filter (region.selectsAt swapSpatial · v) =
      ((List.range' (max u0 (region.place swapSpatial).uStart - (region.place swapSpatial).uStart)
        (min u1 ((region.place swapSpatial).uStart + (region.place swapSpatial).uSize) -
          max u0 (region.place swapSpatial).uStart)).filter
        (region.lineSelects swapSpatial · (v - (region.place swapSpatial).vStart))).map
          ((region.place swapSpatial).uStart + ·) := by
  have hsel : ∀ u, region.selectsAt swapSpatial u v =
    (decide ((region.place swapSpatial).uStart ≤ u ∧
      u < (region.place swapSpatial).uStart + (region.place swapSpatial).uSize) &&
      region.lineSelects swapSpatial (u - (region.place swapSpatial).uStart)
        (v - (region.place swapSpatial).vStart)) := fun u => by
    rw [selectsAt_eq]
    congr 1
    exact decide_eq_decide.2 ⟨fun h => ⟨h.1, h.2.1⟩, fun h => ⟨h.1, h.2, hv, hv'⟩⟩
  generalize (region.place swapSpatial).uStart = s at *
  generalize (region.place swapSpatial).uSize = n at *
  have hoff : ∀ {a z : ℕ}, (∀ x, a ≤ x → x < z → ¬ (s ≤ x ∧ x < s + n)) →
      (List.range' a (z - a)).filter (region.selectsAt swapSpatial · v) = [] := fun {a z} h =>
    filter_range'_off fun x hx hx' => by rw [hsel, decide_eq_false (h x hx hx'), Bool.false_and]
  by_cases hwindow : max u0 s < min u1 (s + n)
  · rw [range'_split (a := u0) (m := max u0 s) (z := u1) (by omega) (by omega),
      range'_split (a := max u0 s) (m := min u1 (s + n)) (z := u1) (by omega) (by omega),
      List.filter_append, List.filter_append, hoff (a := u0) (z := max u0 s) fun x _ _ => by omega,
      hoff (a := min u1 (s + n)) (z := u1) fun x _ _ => by omega, List.nil_append, List.append_nil]
    have hshift : List.range' (max u0 s) (min u1 (s + n) - max u0 s) =
        (List.range' (max u0 s - s) (min u1 (s + n) - max u0 s)).map (s + ·) := by
      rw [List.map_add_range', show s + (max u0 s - s) = max u0 s by omega]
    rw [hshift, List.filter_map]
    congr 1
    refine List.filter_congr fun k hk => ?_
    rw [List.mem_range'_1] at hk
    rw [Function.comp_apply, hsel, decide_eq_true (by omega), Bool.true_and,
      Nat.add_sub_cancel_left]
  · rw [hoff (a := u0) (z := u1) fun x _ _ => by omega, show min u1 (s + n) - max u0 s = 0 by omega]
    rfl

/-- The runs of a placed region's line are what it selects there. -/
theorem isRuns_line (hfits : region.Fits plane) {made : RegionRuns}
    (hruns : (region.place swapSpatial).runs = some made) {l : ℕ}
    (hl : l < (region.place swapSpatial).vSize) :
    IsRuns (region.lineSelects swapSpatial · l)
      (region.place swapSpatial).uSize 0 (made.line l) := by
  obtain ⟨raster, hraster, hmade⟩ := Option.bind_eq_some_iff.1 hruns
  have hsel : (fun k => region.lineSelects swapSpatial k l) = fun k =>
      if !swapSpatial then rasterSelects raster region.width k l
      else rasterSelects raster region.width l k := by
    funext k
    cases swapSpatial <;> simp [lineSelects, boxSelects, hraster]
  have hsize : (region.place swapSpatial).uSize = if !swapSpatial then region.width
      else region.height := by
    cases swapSpatial <;> rfl
  rw [hsel, hsize, runsAlongU_line (hfits.raster_length raster hraster) hmade
    (by cases swapSpatial <;> exact hl)]
  exact isRuns_edges _ _

/-- The byte of a pixel, found through the steps of the raster. -/
theorem Fits.byte_eq (hfits : region.Fits plane) (hplane : plane.Counted) {raster : List UInt8}
    (hraster : region.mask.data = some raster) {first k l : ℕ}
    (hk : first ≤ k) (hk' : k < (region.place swapSpatial).uSize)
    (hl : l < (region.place swapSpatial).vSize) :
    CartaZarr.selects ((raster.drop (add (mul l (region.place swapSpatial).maskVStride)
      (mul first (region.place swapSpatial).maskUStride))).getD
        (mul (k - first) (region.place swapSpatial).maskUStride) 0) =
      region.lineSelects swapSpatial k l := by
  have hbox : region.width * region.height < 2 ^ 64 :=
    lt_of_le_of_lt (Nat.mul_le_mul (by have := hfits.width_le; omega)
      (by have := hfits.height_le; omega))
      hplane.pixels_lt
  have hwidth := hfits.width_pos
  have hwlt : region.width < 2 ^ 64 := by have := hfits.width_le; have := hplane.width_lt; omega
  cases swapSpatial with
  | false =>
    simp only [place, Bool.false_eq_true, if_false] at hk' hl ⊢
    have hrow : l * region.width + region.width ≤ region.width * region.height := by
      have := Nat.mul_le_mul_right region.width (Nat.succ_le_of_lt hl)
      rw [Nat.succ_mul, Nat.mul_comm region.height] at this
      exact this
    rw [mul_one_right (by omega), mul_one_right (by omega), mul_eq (by omega), add_eq (by omega)]
    simp only [lineSelects, Bool.false_eq_true, if_false, boxSelects, hraster, rasterSelects]
    rw [List.getD_eq_getElem?_getD, List.getD_eq_getElem?_getD, List.getElem?_drop,
      show l * region.width + first + (k - first) = l * region.width + k by omega]
  | true =>
    simp only [place, if_true] at hk' hl ⊢
    have hrow : k * region.width + region.width ≤ region.width * region.height := by
      have := Nat.mul_le_mul_right region.width (Nat.succ_le_of_lt hk')
      rw [Nat.succ_mul, Nat.mul_comm region.height] at this
      exact this
    have hsplit : first * region.width + (k - first) * region.width = k * region.width := by
      rw [← Nat.add_mul, Nat.add_sub_cancel' hk]
    rw [mul_one_right (by omega), mul_eq (by omega), mul_eq (by omega), add_eq (by omega)]
    simp only [lineSelects, if_true, boxSelects, hraster, rasterSelects]
    rw [List.getD_eq_getElem?_getD, List.getD_eq_getElem?_getD, List.getElem?_drop,
      show l + first * region.width + (k - first) * region.width = k * region.width + l by omega]

/-- The spans of runs are what they have in the window. -/
theorem line_pixels {sel : ℕ → Bool} {start size first last : ℕ} {line : List (ℕ × ℕ)}
    (hruns : IsRuns sel size 0 line) (hsize : start + size < 2 ^ 64) (hfirst : start ≤ first)
    (hwindow : first ≤ last) (hlast : last ≤ start + size) :
    (((line.takeWhile fun run => add start run.1 < last).filterMap fun run =>
        let from_ := max first (add start run.1)
        let to_ := min last (add start run.2)
        if from_ < to_ then some (⟨from_, to_, none, 1⟩ : PlacedRegion.Span) else none).flatMap
      PlacedRegion.Span.pixels) =
      ((List.range' (first - start) (last - first)).filter sel).map (start + ·) := by
  have hadd : ∀ run ∈ line, add start run.1 = start + run.1 ∧ add start run.2 = start + run.2 := by
    intro run hrun
    have := hruns.le_of_mem hrun
    exact ⟨add_eq (by omega), add_eq (by omega)⟩
  have hspans : ∀ l : List (ℕ × ℕ), ((l.filterMap fun run =>
      let from_ := max first (add start run.1)
      let to_ := min last (add start run.2)
      if from_ < to_ then some (⟨from_, to_, none, 1⟩ : PlacedRegion.Span) else none).flatMap
        PlacedRegion.Span.pixels) = l.flatMap fun run => List.range' (max first (add start run.1))
          (min last (add start run.2) - max first (add start run.1)) := by
    intro l
    induction l with
    | nil => rfl
    | cons run l ih =>
      rw [List.filterMap_cons, List.flatMap_cons, ← ih]
      by_cases hlt : max first (add start run.1) < min last (add start run.2)
      · simp only [if_pos hlt, List.flatMap_cons, PlacedRegion.Span.pixels_whole]
      · simp only [if_neg hlt, Nat.sub_eq_zero_of_le (Nat.le_of_not_lt hlt), List.range'_zero,
          List.nil_append]
  rw [hspans, hruns.flatMap_takeWhile (z := last - start), show last - first =
    (last - start) - (first - start) by omega, ← hruns.flatMap_range' (Nat.zero_le _) (by omega),
    List.map_flatMap]
  · refine List.flatMap_congr fun run hrun => ?_
    rw [(hadd run hrun).1, (hadd run hrun).2, List.map_add_range']
    congr 1 <;> omega
  · intro run hrun
    rw [(hadd run hrun).1]
    exact decide_eq_decide.2 ⟨fun h => by omega, fun h => by omega⟩
  · intro run hrun hle
    rw [(hadd run hrun).1, show min last (add start run.2) - max first (start + run.1) = 0 by omega]
    rfl

/-- A span read through the raster is what its bytes select. -/
theorem raster_pixels {sel : ℕ → Bool} {bytes : List UInt8} {start first last step : ℕ}
    (hfirst : start ≤ first) (hlast : last < 2 ^ 64)
    (hbytes : ∀ k, first - start ≤ k → k < last - start →
      CartaZarr.selects (bytes.getD (mul (k - (first - start)) step) 0) = sel k) :
    (⟨first, last, some bytes, step⟩ : PlacedRegion.Span).pixels =
      ((List.range' (first - start) (last - first)).filter sel).map (start + ·) := by
  have hshift : List.range' first (last - first) =
      (List.range' (first - start) (last - first)).map (start + ·) := by
    rw [List.map_add_range', show start + (first - start) = first by omega]
  rw [PlacedRegion.Span.pixels]
  simp only [hshift]
  rw [List.filter_map]
  congr 1
  refine List.filter_congr fun k hk => ?_
  rw [List.mem_range'_1] at hk
  have hk' : sub (start + k) first = k - (first - start) := by
    rw [sub_eq (by omega) (by omega)]
    omega
  rw [← hbytes k (by omega) (by omega), ← hk']
  rfl

/-- **The spans of a row are the pixels the region selects in the window, each once and in
order.** -/
theorem Fits.forEachSpan_pixels (hfits : region.Fits plane) (hplane : plane.Counted) {v u0 u1 : ℕ}
    (hv : (region.place swapSpatial).vStart ≤ v)
    (hv' : v < (region.place swapSpatial).vStart + (region.place swapSpatial).vSize) :
    ((region.place swapSpatial).forEachSpan v u0 u1).flatMap PlacedRegion.Span.pixels =
      (List.range' u0 (u1 - u0)).filter (region.selectsAt swapSpatial · v) := by
  have huEnd : (region.place swapSpatial).uEnd = _ := hfits.uEnd_eq hplane
  obtain ⟨hu, hvlt⟩ : _ ∧ (region.place swapSpatial).vStart +
      (region.place swapSpatial).vSize < 2 ^ 64 :=
    hfits.end_lt hplane
  rw [filter_selectsAt swapSpatial region hv hv', PlacedRegion.forEachSpan, huEnd]
  have hrow : sub v (region.place swapSpatial).vStart = v - (region.place swapSpatial).vStart :=
    sub_eq hv (by omega)
  simp only [hrow]
  have hl : v - (region.place swapSpatial).vStart < (region.place swapSpatial).vSize := by omega
  generalize v - (region.place swapSpatial).vStart = l at hl ⊢
  by_cases hwindow : max u0 (region.place swapSpatial).uStart ≥
      min u1 ((region.place swapSpatial).uStart + (region.place swapSpatial).uSize)
  · rw [if_pos hwindow, Nat.sub_eq_zero_of_le hwindow]
    rfl
  rw [if_neg hwindow]
  cases hruns : (region.place swapSpatial).runs with
  | some made =>
    exact line_pixels (isRuns_line hfits hruns hl) hu (by omega) (by omega) (by omega)
  | none =>
    cases hmask : (region.place swapSpatial).mask with
    | none =>
      have hall : ∀ k, region.lineSelects swapSpatial k l = true := fun k => by
        have : region.mask.data = none := hmask
        cases swapSpatial <;> simp [lineSelects, boxSelects, this]
      rw [List.flatMap_singleton, PlacedRegion.Span.pixels_whole,
        List.filter_eq_self.2 fun k _ => hall k,
        List.map_add_range']
      congr 1
      omega
    | some raster =>
      have hfirst : sub (max u0 (region.place swapSpatial).uStart)
        (region.place swapSpatial).uStart =
          max u0 (region.place swapSpatial).uStart - (region.place swapSpatial).uStart :=
        sub_eq (by omega) (by omega)
      simp only [hfirst]
      rw [List.flatMap_singleton]
      exact raster_pixels (by omega) (by omega) fun k hk hk' =>
        hfits.byte_eq hplane hmask hk (by omega) hl

/-- A region that fits shows what it selects. -/
theorem Fits.shows (hfits : region.Fits plane) (hplane : plane.Counted) :
    (region.place swapSpatial).Shows (region.selectsAt swapSpatial) where
  uSize_pos := by
    cases swapSpatial
    · exact hfits.width_pos
    · exact hfits.height_pos
  vSize_pos := by
    cases swapSpatial
    · exact hfits.height_pos
    · exact hfits.width_pos
  uEnd_lt := (hfits.end_lt hplane).1
  vEnd_lt := (hfits.end_lt hplane).2
  inside u v h := by
    rw [selectsAt_eq, Bool.and_eq_true, decide_eq_true_eq] at h
    exact h.1
  spans _ hv hv' _ _ := hfits.forEachSpan_pixels hplane hv hv'

end RegionMask

end CartaZarr
