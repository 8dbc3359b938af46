import Mathlib.Algebra.BigOperators.Intervals
import CartaZarr.Reduce.RegionRuns

/-!
# What the encoders of runs hand over

`runsAlongUInto` is `runsAlongU` with the runs it is given to fill, whatever was in them. It takes a
raster exactly when its sides fit 32 bits and it has no more maximal runs than they are worth, and
then hands over what `naiveEncoder` makes one pixel at a time: of the raster along x, of the
transposed one along y.
-/

namespace CartaZarr

open Word

/-! ## Runs that are filled -/

/-- Empty what runs are put in. -/
def RegionRuns.discard (_ : RegionRuns) : RegionRuns := ⟨[], []⟩

/-- The rows still to come along x, each behind those before. -/
def alongXInto (raster : List UInt8) (width mostRuns : ℕ) : List ℕ → RegionRuns → Bool × RegionRuns
  | [], into => (true, into)
  | y :: rows, into =>
    let runs := alongXRow (raster.drop (y * width)) width (width + 1) 0 false 0 into.runs
    if runs.length / 2 > mostRuns then (false, into.discard)
    else alongXInto raster width mostRuns rows ⟨runs, into.offsets ++ [runs.length / 2]⟩

/-- Fill runs with those of a raster, and say whether it was worth them. -/
def runsAlongUInto (raster : List UInt8) (width height : ℕ) (uIsX : Bool) (into : RegionRuns) :
    Bool × RegionRuns :=
  let into := into.discard
  let lines := if uIsX then height else width
  if max width height > 2 ^ 32 - 1 then (false, into)
  else
    let mostRuns := max lines (mul width height / kLeastPixelsPerRun)
    let result :=
      if uIsX then
        alongXInto raster width mostRuns (List.range height)
          { into with offsets := into.offsets ++ [0] }
      else match alongY raster width height mostRuns with
        | some made => (true, made)
        | none => (false, into)
    if result.1 then result else (false, result.2.discard)

/-! ## One pixel at a time -/

/-- The runs of the `k` pixels from `i` on, `begun` being where the run they are in begins. -/
def naiveRuns (sel : ℕ → Bool) : ℕ → ℕ → Option ℕ → List ℕ
  | 0, _, none => []
  | 0, i, some b => [b, i]
  | k + 1, i, none =>
    if sel i then naiveRuns sel k (i + 1) (some i) else naiveRuns sel k (i + 1) none
  | k + 1, i, some b =>
    if sel i then naiveRuns sel k (i + 1) (some b) else b :: i :: naiveRuns sel k (i + 1) none

/-- The runs of the rows of a raster, row by row. -/
def naiveEncoder (raster : List UInt8) (width height : ℕ) : RegionRuns :=
  (List.range height).foldl (fun out y =>
    let runs := out.runs ++ naiveRuns (rasterSelects raster width · y) width 0 none
    ⟨runs, out.offsets ++ [runs.length / 2]⟩) ⟨[], [0]⟩

theorem naiveRuns_eq (sel : ℕ → Bool) (k i : ℕ) (begun : Option ℕ) :
    naiveRuns sel k i begun = begun.toList ++ edges sel k i begun.isSome := by
  induction k generalizing i begun with
  | zero => cases begun <;> rfl
  | succ k ih =>
    cases begun with
    | none =>
      rw [naiveRuns, ih, ih]
      cases hsel : sel i <;> simp [edges, hsel]
    | some b =>
      rw [naiveRuns, ih, ih]
      cases hsel : sel i <;> simp [edges, hsel]

theorem naiveEncoder_eq (raster : List UInt8) (width height : ℕ) :
    naiveEncoder raster width height = rowRuns raster width height := by
  induction height with
  | zero => simp [naiveEncoder, rowRuns, rowEdges]
  | succ m ih =>
    rw [naiveEncoder] at ih ⊢
    rw [List.range_succ, List.foldl_append, ih, List.foldl_cons, List.foldl_nil]
    dsimp only
    rw [naiveRuns_eq]
    have hruns : (rowRuns raster width m).runs ++ ((none : Option ℕ).toList ++
        edges (rasterSelects raster width · m) width 0 (none : Option ℕ).isSome) =
        rowEdges raster width (m + 1) := by
      rw [rowEdges_succ]
      rfl
    rw [hruns, rowRuns, rowRuns, List.range_succ (n := m + 1), List.map_append]
    rfl

/-! ## The encoders -/

theorem alongXInto_eq (raster : List UInt8) (width mostRuns : ℕ) (rows : List ℕ)
    (into : RegionRuns) :
    alongXInto raster width mostRuns rows into =
      match rows.foldlM (fun (into : RegionRuns) y =>
        let runs := alongXRow (raster.drop (y * width)) width (width + 1) 0 false 0 into.runs
        if runs.length / 2 > mostRuns then none
        else some ⟨runs, into.offsets ++ [runs.length / 2]⟩) into with
      | some made => (true, made)
      | none => (false, ⟨[], []⟩) := by
  induction rows generalizing into with
  | nil => rfl
  | cons y rows ih =>
    rw [alongXInto, List.foldlM_cons]
    dsimp only
    split
    · rfl
    · rw [ih]
      rfl

/-- What was in the runs does not matter, and those of a raster that is not taken are empty. -/
theorem runsAlongUInto_eq (raster : List UInt8) (width height : ℕ) (uIsX : Bool)
    (into : RegionRuns) :
    runsAlongUInto raster width height uIsX into =
      match runsAlongU raster width height uIsX with
      | some made => (true, made)
      | none => (false, ⟨[], []⟩) := by
  unfold runsAlongUInto runsAlongU
  dsimp only
  split
  · rfl
  · cases uIsX
    · cases h : alongY raster width height (max width (mul width height / kLeastPixelsPerRun)) with
      | none => simp [h, RegionRuns.discard]
      | some made => simp [h]
    · have hx := alongXInto_eq raster width (max height (mul width height / kLeastPixelsPerRun))
        (List.range height) ⟨[], [0]⟩
      rw [← alongX] at hx
      cases h : alongX raster width height (max height (mul width height / kLeastPixelsPerRun)) with
      | none =>
        rw [h] at hx
        simp [hx, h, RegionRuns.discard]
      | some made =>
        rw [h] at hx
        simp [hx, h, RegionRuns.discard]

/-- Whether the pixel `k` of line `l` is selected. -/
def lineSelects (raster : List UInt8) (width : ℕ) (uIsX : Bool) (l k : ℕ) : Bool :=
  if uIsX then rasterSelects raster width k l else rasterSelects raster width l k

/-- How many maximal runs the lines of a raster have. -/
def countRuns (raster : List UInt8) (width height : ℕ) (uIsX : Bool) : ℕ :=
  ∑ l ∈ Finset.range (if uIsX then height else width),
    (maximalRuns (lineSelects raster width uIsX l) (if uIsX then width else height)).card

/-- The raster whose rows the runs are of. -/
def runRaster (raster : List UInt8) (width height : ℕ) (uIsX : Bool) : List UInt8 :=
  if uIsX then raster else transpose raster width height

theorem rowEdges_length (raster : List UInt8) (width m : ℕ) :
    (rowEdges raster width m).length = 2 * ∑ l ∈ Finset.range m,
      (maximalRuns (rasterSelects raster width · l) width).card := by
  induction m with
  | zero => rfl
  | succ m ih =>
    have heven := edges_length_even (rasterSelects raster width · m) width 0 false
    rw [if_neg (by decide)] at heven
    rw [rowEdges_succ, List.length_append, ih, Finset.sum_range_succ, card_maximalRuns]
    omega

theorem maximalRuns_congr {sel sel' : ℕ → Bool} {n : ℕ} (h : ∀ x < n, sel x = sel' x) :
    (maximalRuns sel n).card = (maximalRuns sel' n).card := by
  rw [card_maximalRuns, card_maximalRuns, edges_congr false fun x _ hx => h x (by omega)]

/-- The rows the runs are of have a number for each end of a maximal run. -/
theorem runRaster_edges_length (raster : List UInt8) (width height : ℕ) (uIsX : Bool) :
    (rowEdges (runRaster raster width height uIsX) (if uIsX then width else height)
      (if uIsX then height else width)).length = 2 * countRuns raster width height uIsX := by
  rw [rowEdges_length, countRuns]
  congr 1
  refine Finset.sum_congr rfl fun l hl => maximalRuns_congr fun k hk => ?_
  cases uIsX
  · exact rasterSelects_transpose raster (Finset.mem_range.1 hl) hk
  · rfl

theorem runsAlongU_eq_naiveEncoder {raster : List UInt8} {width height : ℕ} (uIsX : Bool)
    (hlen : raster.length = width * height) (hbig : max width height ≤ 2 ^ 32 - 1) :
    runsAlongU raster width height uIsX =
      if countRuns raster width height uIsX >
        max (if uIsX then height else width) (width * height / kLeastPixelsPerRun) then none
      else some (naiveEncoder (runRaster raster width height uIsX) (if uIsX then width else height)
        (if uIsX then height else width)) := by
  have hcount := runRaster_edges_length raster width height uIsX
  rw [runsAlongU_eq uIsX hlen hbig, naiveEncoder_eq]
  cases uIsX
  · have hhalf : (rowRuns (transpose raster width height) height width).runs.length / 2 =
        countRuns raster width height false := by
      rw [show (rowRuns (transpose raster width height) height width).runs.length = _ from hcount]
      omega
    dsimp only
    rw [if_neg Bool.false_ne_true, hhalf]
    rfl
  · have hhalf : (rowRuns raster width height).runs.length / 2 =
        countRuns raster width height true := by
      rw [show (rowRuns raster width height).runs.length = _ from hcount]
      omega
    dsimp only
    rw [if_pos rfl, hhalf]
    rfl

/-- **The encoders hand over the maximal runs of every line, or nothing.** A raster is taken exactly
when its sides fit 32 bits and it has at most one run a line or one per sixteen pixels, whichever is
more. -/
theorem runsAlongUInto_encodes {raster : List UInt8} {width height : ℕ}
    (uIsX : Bool) (into : RegionRuns)
    (hlen : raster.length = width * height) :
    let result := runsAlongUInto raster width height uIsX into
    let lines := if uIsX then height else width
    let extent := if uIsX then width else height
    let count := countRuns raster width height uIsX
    (result.1 = true ↔ width ≤ 2 ^ 32 - 1 ∧ height ≤ 2 ^ 32 - 1 ∧
      count ≤ max lines (width * height / 16)) ∧
    (result.1 = true →
      result.2.offsets.length = lines + 1 ∧ result.2.offsets.getD 0 0 = 0 ∧
      result.2.offsets.getD lines 0 = count ∧ result.2.runs.length = 2 * count ∧
      (∀ l < lines, (result.2.line l).Pairwise (fun run run' => run.2 < run'.1) ∧
        ∀ run, run ∈ result.2.line l ↔
          IsMaximalRun (lineSelects raster width uIsX l) 0 extent run) ∧
      result.2 = naiveEncoder (runRaster raster width height uIsX) extent lines) ∧
    (result.1 = false → result.2.runs = [] ∧ result.2.offsets = []) := by
  dsimp only
  by_cases hbig : max width height ≤ 2 ^ 32 - 1
  · have hmade := runsAlongU_eq_naiveEncoder uIsX hlen hbig
    by_cases hmany : countRuns raster width height uIsX >
        max (if uIsX then height else width) (width * height / kLeastPixelsPerRun)
    · rw [if_pos hmany] at hmade
      rw [runsAlongUInto_eq, hmade]
      refine ⟨iff_of_false Bool.false_ne_true fun h => ?_, fun h => absurd h Bool.false_ne_true,
        fun _ => ⟨rfl, rfl⟩⟩
      exact absurd h.2.2 (not_le.2 hmany)
    · rw [if_neg hmany] at hmade
      rw [runsAlongUInto_eq, hmade]
      refine ⟨iff_of_true rfl ⟨by omega, by omega, not_lt.1 hmany⟩, fun _ => ?_,
        fun h => absurd h.symm Bool.false_ne_true⟩
      have hcount := runRaster_edges_length raster width height uIsX
      refine ⟨?_, ?_, ?_, ?_, fun l hl => ?_, rfl⟩
      · simp [naiveEncoder_eq, rowRuns]
      · simp [naiveEncoder_eq, rowRuns, rowEdges]
      · rw [naiveEncoder_eq, rowRuns, List.getD_eq_getElem _ _ (by simp), List.getElem_map,
          List.getElem_range, hcount]
        omega
      · rw [naiveEncoder_eq]
        exact hcount
      · have hline := runsAlongU_line hlen hmade hl
        have hsel : (fun k => if uIsX then rasterSelects raster width k l
            else rasterSelects raster width l k) = lineSelects raster width uIsX l := rfl
        rw [hline, hsel]
        refine ⟨pairs_edges_pairwise _ _ 0, fun run => ?_⟩
        rw [mem_pairs_edges, Nat.zero_add]
  · have hmade : runsAlongU raster width height uIsX = none := by
      rw [runsAlongU, if_pos (by omega)]
    rw [runsAlongUInto_eq, hmade]
    refine ⟨iff_of_false Bool.false_ne_true fun h => hbig (max_le h.1 h.2.1),
      fun h => absurd h Bool.false_ne_true, fun _ => ⟨rfl, rfl⟩⟩

/-- A raster of three columns and two rows. -/
def lShape : List UInt8 := [1, 0, 0, 2, 255, 0]

/-- Twenty columns and two rows: more than two words of a row, and not a whole number of them. -/
def wideRaster : List UInt8 :=
  List.replicate 9 0 ++ [1, 2, 255, 1, 1, 1, 1, 1, 1, 1, 0] ++ List.replicate 20 3

/-- One along its columns, the other along its rows. -/
theorem runsAlongUInto_encodes_wideRaster :
    lShape.length = 3 * 2 ∧ runsAlongUInto lShape 3 2 false ⟨[7], []⟩ =
      (true, ⟨[0, 2, 1, 2], [0, 1, 2, 2]⟩) ∧
      (runsAlongUInto lShape 3 2 false ⟨[7], []⟩).2 = naiveEncoder (transpose lShape 3 2) 2 3 ∧
      wideRaster.length = 20 * 2 ∧
      runsAlongUInto wideRaster 20 2 true ⟨[7], []⟩ = (true, ⟨[9, 19, 0, 20], [0, 1, 2]⟩) ∧
      (runsAlongUInto wideRaster 20 2 true ⟨[7], []⟩).2 = naiveEncoder wideRaster 20 2 := by
  have htaken : runsAlongUInto lShape 3 2 false ⟨[7], []⟩ =
      (true, ⟨[0, 2, 1, 2], [0, 1, 2, 2]⟩) := by
    decide +kernel
  have hwide : runsAlongUInto wideRaster 20 2 true ⟨[7], []⟩ =
      (true, ⟨[9, 19, 0, 20], [0, 1, 2]⟩) := by
    decide +kernel
  have hlen : lShape.length = 3 * 2 := rfl
  have hlen' : wideRaster.length = 20 * 2 := rfl
  have hspec := (runsAlongUInto_encodes false ⟨[7], []⟩ hlen).2.1 (by rw [htaken])
  have hspec' := (runsAlongUInto_encodes true ⟨[7], []⟩ hlen').2.1 (by rw [hwide])
  exact ⟨rfl, htaken, hspec.2.2.2.2.2, rfl, hwide, hspec'.2.2.2.2.2⟩

end CartaZarr
