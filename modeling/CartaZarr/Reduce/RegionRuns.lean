import Mathlib.Data.Nat.Bitwise
import CartaZarr.Foundations.CountingSort
import CartaZarr.Foundations.Edges
import CartaZarr.Foundations.Word

/-!
# A raster as runs

`runsAlongU` turns the raster of a region into the runs of each of its lines: its rows when the runs
lie along x, its columns when they lie along y. Neither reads the raster otherwise than a row at a
time, eight bytes at once where nothing changes. Along y every place where a row differs from the
row above is an edge of its column, and a counting sort by column puts the edges together.

Either way the numbers of a line are the edges of what it selects (`runsAlongU_line`). A raster that
breaks into more runs than they are worth is left a raster.
-/

namespace CartaZarr

open Word

/-! ## Eight bytes at once -/

/-- Whether a byte selects its pixel. -/
def selects (byte : UInt8) : Bool := byte ≠ 0

def kLowBits : ℕ := 0x0101010101010101

def kHighBits : ℕ := 0x8080808080808080

/-- The number some bytes are, the first the lowest. -/
def wordOf (bytes : List UInt8) : ℕ := bytes.foldr (fun byte word => byte.toNat + 256 * word) 0

/-- The eight bytes at `x`, as a number. -/
def wordAt (row : List UInt8) (x : ℕ) : ℕ := wordOf ((row.drop x).take 8)

/-- Whether no byte of a word is zero. -/
def noZeroByte (word : ℕ) : Bool :=
  (sub word kLowBits &&& (2 ^ 64 - 1 - word) &&& kHighBits) = 0

/-! ## The encoders -/

/-- One region's runs. Line `l` owns the runs `offsets[l]` to `offsets[l + 1]`, and run `k` is
`[runs[2 * k], runs[2 * k + 1])`. -/
structure RegionRuns where
  runs : List ℕ
  offsets : List ℕ
  deriving DecidableEq, Repr

/-- The runs of a row from `x` on, behind those before. -/
def alongXRow (row : List UInt8) (width : ℕ) : ℕ → ℕ → Bool → ℕ → List ℕ → List ℕ
  | 0, _, _, _, runs => runs
  | fuel + 1, x, inside, begin_, runs =>
    if x < width then
      if x + 8 ≤ width ∧ (if inside then noZeroByte (wordAt row x) else wordAt row x = 0) then
        alongXRow row width fuel (x + 8) inside begin_ runs
      else
        let selected := selects (row.getD x 0)
        if selected ≠ inside then
          if selected then alongXRow row width fuel (x + 1) selected x runs
          else
            alongXRow row width fuel (x + 1) selected begin_
              (runs ++ [begin_ % 2 ^ 32, x % 2 ^ 32])
        else alongXRow row width fuel (x + 1) inside begin_ runs
    else if inside then runs ++ [begin_ % 2 ^ 32, width % 2 ^ 32]
    else runs

/-- Along x: each row is a line, read in order. -/
def alongX (raster : List UInt8) (width height mostRuns : ℕ) : Option RegionRuns :=
  (List.range height).foldlM (fun (into : RegionRuns) y =>
    let runs := alongXRow (raster.drop (y * width)) width (width + 1) 0 false 0 into.runs
    if runs.length / 2 > mostRuns then none
    else some ⟨runs, into.offsets ++ [runs.length / 2]⟩) ⟨[], [0]⟩

/-- The edges of row `y` from `x` on, behind those before: each with its column. -/
def alongYRow (row above : List UInt8) (width y : ℕ) : ℕ → ℕ → List (ℕ × ℕ) → List (ℕ × ℕ)
  | 0, _, edges => edges
  | fuel + 1, x, edges =>
    if x < width then
      if x + 8 ≤ width ∧ wordAt row x = wordAt above x then
        alongYRow row above width y fuel (x + 8) edges
      else if selects (row.getD x 0) ≠ selects (above.getD x 0) then
        alongYRow row above width y fuel (x + 1) (edges ++ [(x % 2 ^ 32, y % 2 ^ 32)])
      else alongYRow row above width y fuel (x + 1) edges
    else edges

/-- The row `y` of a raster; the row past the last has nothing in it, and neither has the one above
the first. -/
def rasterRow (raster : List UInt8) (width height y : ℕ) : List UInt8 :=
  if y < height then raster.drop (y * width) else List.replicate width 0

/-- Along y: each column is a line, put together from the edges of the rows. -/
def alongY (raster : List UInt8) (width height mostRuns : ℕ) : Option RegionRuns :=
  let found := (List.range (height + 1)).foldlM (fun edges y =>
    let above := if y = 0 then List.replicate width 0 else rasterRow raster width height (y - 1)
    let edges := alongYRow (rasterRow raster width height y) above width y (width + 1) 0 edges
    if edges.length > 2 * mostRuns then none else some edges) []
  found.map fun edges =>
    let offsets := keyOffsets width (edges.map Prod.fst)
    ⟨placeByKey 0 width offsets edges, offsets.map (· / 2)⟩

def kLeastPixelsPerRun : ℕ := 16

/-- The runs of a raster of `width` by `height` bytes, along x or along y; none when it is not worth
them. -/
def runsAlongU (raster : List UInt8) (width height : ℕ) (uIsX : Bool) : Option RegionRuns :=
  let lines := if uIsX then height else width
  -- a run is stored in 32 bits, and so is a column while its edges are sorted
  if max width height > 2 ^ 32 - 1 then none
  else
    let mostRuns := max lines (mul width height / kLeastPixelsPerRun)
    if uIsX then alongX raster width height mostRuns else alongY raster width height mostRuns

/-- The runs of one line. -/
def RegionRuns.line (made : RegionRuns) (l : ℕ) : List (ℕ × ℕ) :=
  (List.range' (made.offsets.getD l 0)
      (made.offsets.getD (l + 1) 0 - made.offsets.getD l 0)).map fun k =>
    (made.runs.getD (2 * k) 0, made.runs.getD (2 * k + 1) 0)

/-! ## Words and their bytes -/

theorem wordOf_cons (byte : UInt8) (bytes : List UInt8) :
    wordOf (byte :: bytes) = byte.toNat + 256 * wordOf bytes := rfl

theorem wordOf_lt (bytes : List UInt8) : wordOf bytes < 256 ^ bytes.length := by
  induction bytes with
  | nil => exact Nat.one_pos
  | cons byte bytes ih =>
    have := byte.toNat_lt
    rw [wordOf_cons, List.length_cons, pow_succ]
    omega

theorem wordOf_injective {bytes bytes' : List UInt8} (hlen : bytes.length = bytes'.length)
    (h : wordOf bytes = wordOf bytes') : bytes = bytes' := by
  induction bytes generalizing bytes' with
  | nil => exact (List.length_eq_zero_iff.1 hlen.symm).symm
  | cons byte bytes ih =>
    obtain ⟨byte', rest, rfl⟩ := List.exists_cons_of_length_pos (l := bytes') (by
      rw [← hlen]
      exact Nat.succ_pos _)
    rw [wordOf_cons, wordOf_cons] at h
    have := byte.toNat_lt
    have := byte'.toNat_lt
    rw [ih (by simpa using hlen) (by omega),
      UInt8.toNat_inj.1 (by omega : byte.toNat = byte'.toNat)]

theorem wordOf_eq_zero_iff (bytes : List UInt8) : wordOf bytes = 0 ↔ ∀ byte ∈ bytes, byte = 0 := by
  induction bytes with
  | nil => simp [wordOf]
  | cons byte bytes ih =>
    rw [wordOf_cons, List.forall_mem_cons, ← ih, ← UInt8.toNat_inj]
    simp

/-- A one in each of `n` bytes. -/
def lowBits : ℕ → ℕ
  | 0 => 0
  | n + 1 => 1 + 256 * lowBits n

theorem lowBits_lt (n : ℕ) : 255 * lowBits n < 256 ^ n := by
  induction n with
  | zero => exact Nat.one_pos
  | succ n ih =>
    rw [lowBits, pow_succ]
    omega

/-- The test of `noZeroByte`, of `n` bytes. -/
def zeroTest (n word : ℕ) : ℕ :=
  (word + 256 ^ n - lowBits n) % 256 ^ n &&& (256 ^ n - 1 - word) &&& 128 * lowBits n

/-- Numbers are compared a byte at a time. -/
theorem and_byte {x y : ℕ} (hx : x < 256) (hy : y < 256) (a b : ℕ) :
    (x + 256 * a) &&& (y + 256 * b) = (x &&& y) + 256 * (a &&& b) := by
  have hxy : x &&& y < 2 ^ 8 := Nat.and_lt_two_pow _ hy
  refine Nat.eq_of_testBit_eq fun i => ?_
  rw [Nat.testBit_and, Nat.add_comm x, Nat.add_comm y, Nat.add_comm (x &&& y),
    show (256 : ℕ) = 2 ^ 8 from rfl, Nat.testBit_two_pow_mul_add _ hx,
    Nat.testBit_two_pow_mul_add _ hy,
    Nat.testBit_two_pow_mul_add _ hxy]
  split_ifs
  · rw [Nat.testBit_and]
  · rw [Nat.testBit_and]

theorem byte_zeroTest : ∀ b < 256, 0 < b → b - 1 &&& 255 - b &&& 128 = 0 := by
  decide +kernel

/-- A byte that is not zero takes nothing from the bytes above it. -/
theorem zeroTest_succ {n b word : ℕ} (hb : 0 < b) (hb' : b < 256) (hw : word < 256 ^ n) :
    zeroTest (n + 1) (b + 256 * word) = 256 * zeroTest n word := by
  have hlow := lowBits_lt n
  have hdiff : (b + 256 * word + 256 ^ (n + 1) - lowBits (n + 1)) % 256 ^ (n + 1) =
      (b - 1) + 256 * ((word + 256 ^ n - lowBits n) % 256 ^ n) := by
    rw [lowBits, show b + 256 * word + 256 ^ (n + 1) - (1 + 256 * lowBits n) =
      (b - 1) + 256 * (word + 256 ^ n - lowBits n) by rw [pow_succ]; omega]
    generalize word + 256 ^ n - lowBits n = m
    have hmod : (b - 1 + 256 * m) % (256 * 256 ^ n) = (b - 1) + 256 * (m % 256 ^ n) := by
      rw [Nat.mod_mul]
      congr 1
      · omega
      · rw [show (b - 1 + 256 * m) / 256 = m by omega]
    rw [pow_succ, Nat.mul_comm (256 ^ n) 256, hmod]
  have hnot : 256 ^ (n + 1) - 1 - (b + 256 * word) = (255 - b) + 256 * (256 ^ n - 1 - word) := by
    rw [pow_succ]
    omega
  have hhigh : 128 * lowBits (n + 1) = 128 + 256 * (128 * lowBits n) := by
    rw [lowBits]
    omega
  rw [zeroTest, zeroTest, hdiff, hnot, hhigh, and_byte (by omega) (by omega),
    and_byte (Nat.and_lt_two_pow _ (by omega : 255 - b < 2 ^ 8)) (by decide),
    byte_zeroTest b hb' hb, Nat.zero_add]

/-- The lowest zero byte shows. -/
theorem zeroTest_zero {n word : ℕ} (hw : word < 256 ^ n) : zeroTest (n + 1) (256 * word) ≠ 0 := by
  intro h
  have hlow := lowBits_lt n
  have hbyte := congrArg (· % 2 ^ 8) h
  simp only [zeroTest, Nat.and_mod_two_pow, Nat.zero_mod] at hbyte
  have h₁ : (256 * word + 256 ^ (n + 1) - lowBits (n + 1)) % 256 ^ (n + 1) % 2 ^ 8 = 255 := by
    rw [Nat.mod_mod_of_dvd _ ⟨256 ^ n, by rw [pow_succ, Nat.mul_comm]; rfl⟩, lowBits, pow_succ]
    omega
  have h₂ : (256 ^ (n + 1) - 1 - 256 * word) % 2 ^ 8 = 255 := by
    rw [pow_succ]
    omega
  have h₃ : 128 * lowBits (n + 1) % 2 ^ 8 = 128 := by
    rw [lowBits]
    omega
  rw [h₁, h₂, h₃] at hbyte
  exact absurd hbyte (by decide)

theorem zeroTest_eq_zero_iff (bytes : List UInt8) :
    zeroTest bytes.length (wordOf bytes) = 0 ↔ ∀ byte ∈ bytes, byte ≠ 0 := by
  induction bytes with
  | nil => simp [zeroTest, wordOf, lowBits]
  | cons byte bytes ih =>
    rw [wordOf_cons, List.length_cons, List.forall_mem_cons, ← ih]
    by_cases hb : byte = 0
    · subst hb
      simpa using zeroTest_zero (wordOf_lt bytes)
    · have hpos : 0 < byte.toNat := Nat.pos_of_ne_zero fun h => hb (UInt8.toNat_inj.1 h)
      rw [zeroTest_succ hpos byte.toNat_lt (wordOf_lt bytes)]
      simp [hb]

/-- **The test finds a zero byte wherever it is.** -/
theorem noZeroByte_iff {bytes : List UInt8} (hlen : bytes.length = 8) :
    noZeroByte (wordOf bytes) = true ↔ ∀ byte ∈ bytes, byte ≠ 0 := by
  rw [← zeroTest_eq_zero_iff, hlen, noZeroByte, decide_eq_true_eq]
  rfl

/-! ## Rows -/

/-- The eight bytes at `x` are those of the pixels from `x` on. -/
theorem forall_bytesAt (row : List UInt8) {x : ℕ} (hx : x + 8 ≤ row.length) (P : UInt8 → Prop) :
    (∀ byte ∈ (row.drop x).take 8, P byte) ↔ ∀ x', x ≤ x' → x' < x + 8 → P (row.getD x' 0) := by
  constructor
  · intro h x' hxx' hx'
    refine h _ ?_
    rw [List.getD_eq_getElem _ _ (by omega), List.mem_take_iff_getElem]
    exact ⟨x' - x, by simp; omega, by simp [show x + (x' - x) = x' by omega]⟩
  · intro h byte hbyte
    obtain ⟨i, hi, rfl⟩ := List.mem_take_iff_getElem.1 hbyte
    rw [List.length_drop] at hi
    have := h (x + i) (by omega) (by omega)
    rw [List.getElem_drop]
    rwa [List.getD_eq_getElem _ _ (by omega)] at this

theorem wordAt_eq_zero_iff (row : List UInt8) {x : ℕ} (hx : x + 8 ≤ row.length) :
    wordAt row x = 0 ↔ ∀ x', x ≤ x' → x' < x + 8 → selects (row.getD x' 0) = false := by
  rw [wordAt, wordOf_eq_zero_iff, forall_bytesAt row hx]
  simp only [selects, ne_eq, decide_not, Bool.not_eq_false', decide_eq_true_eq]

theorem noZeroByte_wordAt_iff (row : List UInt8) {x : ℕ} (hx : x + 8 ≤ row.length) :
    noZeroByte (wordAt row x) = true ↔
      ∀ x', x ≤ x' → x' < x + 8 → selects (row.getD x' 0) = true := by
  rw [wordAt, noZeroByte_iff (by simp; omega), forall_bytesAt row hx]
  simp only [selects, decide_eq_true_eq]

/-- What is still to come of a row: the edges after `x`, behind the start of the run `x` is in. -/
theorem alongXRow_eq {row : List UInt8} {width : ℕ} (hrow : width ≤ row.length)
    (hwidth : width < 2 ^ 32)
    {fuel x begin_ : ℕ} {inside : Bool} {runs : List ℕ} (hx : x ≤ width) (hfuel : width < x + fuel)
    (hbegin : begin_ ≤ x) :
    alongXRow row width fuel x inside begin_ runs =
      runs ++ (if inside then [begin_] else []) ++
        edges (fun x => selects (row.getD x 0)) (width - x) x inside := by
  induction fuel generalizing x begin_ inside runs with
  | zero => omega
  | succ fuel ih =>
    rw [alongXRow]
    by_cases hlt : x < width
    · rw [if_pos hlt]
      by_cases hskip : x + 8 ≤ width ∧
        (if inside then noZeroByte (wordAt row x) else wordAt row x = 0)
      · -- eight pixels like the one before
        have hsame : ∀ x', x ≤ x' → x' < x + 8 → selects (row.getD x' 0) = inside := by
          obtain ⟨h8, hword⟩ := hskip
          cases inside with
          | false => exact (wordAt_eq_zero_iff row (by omega)).1 (by simpa using hword)
          | true => exact (noZeroByte_wordAt_iff row (by omega)).1 (by simpa using hword)
        rw [if_pos hskip, ih (by omega) (by omega) (by omega),
          show width - x = 8 + (width - (x + 8)) by omega,
          edges_add _ 8 _ x inside hsame]
      · rw [if_neg hskip]
        have hedges : edges (fun x => selects (row.getD x 0)) (width - x) x inside =
            (if selects (row.getD x 0) = inside then [] else [x]) ++
              edges (fun x => selects (row.getD x 0)) (width - (x + 1)) (x + 1)
                (selects (row.getD x 0)) := by
          rw [show width - x = (width - (x + 1)) + 1 by omega, edges]
        rw [hedges]
        cases hsel : selects (row.getD x 0) <;> cases inside
        · simp [ih (x := x + 1) (by omega) (by omega) (by omega : begin_ ≤ x + 1)]
        · simp [ih (x := x + 1) (by omega) (by omega) (by omega : begin_ ≤ x + 1)]
          omega
        · simp [ih (x := x + 1) (by omega) (by omega) (by omega : x ≤ x + 1)]
        · simp [ih (x := x + 1) (by omega) (by omega) (by omega : begin_ ≤ x + 1)]
    · obtain rfl : x = width := by omega
      rw [if_neg hlt, Nat.sub_self]
      cases inside
      · simp [edges]
      · simp [edges]
        omega

/-- The edges of a row are its places that differ from the row above. -/
theorem alongYRow_eq {row above : List UInt8} {width y : ℕ} (hrow : width ≤ row.length)
    (habove : width ≤ above.length) (hwidth : width < 2 ^ 32) (hy : y < 2 ^ 32) {fuel x : ℕ}
    {found : List (ℕ × ℕ)} (hx : x ≤ width) (hfuel : width < x + fuel) :
    alongYRow row above width y fuel x found =
      found ++ ((List.range' x (width - x)).flatMap fun x =>
      if selects (row.getD x 0) = selects (above.getD x 0) then [] else [(x, y)]) := by
  induction fuel generalizing x found with
  | zero => omega
  | succ fuel ih =>
    rw [alongYRow]
    by_cases hlt : x < width
    · rw [if_pos hlt]
      by_cases hskip : x + 8 ≤ width ∧ wordAt row x = wordAt above x
      · have hbytes : (row.drop x).take 8 = (above.drop x).take 8 :=
          wordOf_injective (by simp; omega) hskip.2
        rw [if_pos hskip, ih (by omega) (by omega), show width - x = 8 + (width - (x + 8)) by omega,
          ← List.range'_append_1, List.flatMap_append]
        have hnone : ((List.range' x 8).flatMap fun x =>
            if selects (row.getD x 0) = selects (above.getD x 0) then [] else [(x, y)]) = [] := by
          refine List.flatMap_eq_nil_iff.2 fun x' hx' => if_pos ?_
          rw [List.mem_range'_1] at hx'
          have := congrArg (·[x' - x]?) hbytes
          simp only [List.getElem?_take, List.getElem?_drop, if_pos (show x' - x < 8 by omega),
            show x + (x' - x) = x' by omega] at this
          rw [List.getD_eq_getElem?_getD, List.getD_eq_getElem?_getD, this]
        rw [hnone, List.nil_append]
      · have hx' : x % 2 ^ 32 = x := Nat.mod_eq_of_lt (by omega)
        have hy' : y % 2 ^ 32 = y := Nat.mod_eq_of_lt hy
        rw [if_neg hskip, show width - x = (width - (x + 1)) + 1 by omega, List.range'_succ,
          List.flatMap_cons, hx', hy']
        by_cases hsame : selects (row.getD x 0) = selects (above.getD x 0)
        · rw [if_neg (not_not_intro hsame), if_pos hsame, ih (by omega) (by omega), List.nil_append]
        · rw [if_pos hsame, if_neg hsame, ih (by omega) (by omega), List.append_assoc]
    · obtain rfl : x = width := by omega
      rw [if_neg hlt, Nat.sub_self]
      simp

/-! ## Lines -/

/-- Whether a raster selects a pixel of its box. -/
def rasterSelects (raster : List UInt8)
    (width x y : ℕ) : Bool := selects (raster.getD (y * width + x) 0)

theorem map_pairs (before l after : List ℕ) (hbefore : before.length % 2 = 0)
    (hl : l.length % 2 = 0) :
    ((List.range' (before.length / 2) (l.length / 2)).map fun k =>
      ((before ++ l ++ after).getD (2 * k) 0, (before ++ l ++ after).getD (2 * k + 1) 0)) =
        pairs l := by
  induction l using pairs.induct generalizing before with
  | case1 b e rest ih =>
    have hrest := ih (before ++ [b, e]) (by simp; omega) (by simp at hl; omega)
    have hhalf : 2 * (before.length / 2) = before.length := by omega
    rw [List.length_append, show (before.length + [b, e].length) / 2 =
      before.length / 2 + 1 by simp,
      show before ++ [b, e] ++ rest = before ++ b :: e :: rest by simp] at hrest
    rw [List.length_cons, List.length_cons, show (rest.length + 1 + 1) / 2 =
      rest.length / 2 + 1 by omega,
      List.range'_succ, List.map_cons, hrest, pairs, hhalf, List.getD_eq_getElem?_getD,
      List.getD_eq_getElem?_getD]
    simp
  | case2 l hl' =>
    rcases l with _ | ⟨b, _ | ⟨e, rest⟩⟩
    · rfl
    · cases hl
    · exact absurd rfl (hl' b e rest)

/-- A line is the part of the numbers its offsets cut out. -/
theorem RegionRuns.line_eq {made : RegionRuns} {line : ℕ} {before l after : List ℕ}
    (hruns : made.runs = before ++ l ++ after) (hbefore : before.length % 2 = 0)
    (hl : l.length % 2 = 0)
    (hfirst : made.offsets.getD line 0 = before.length / 2)
    (hlast : made.offsets.getD (line + 1) 0 = (before.length + l.length) / 2) :
    made.line line = pairs l := by
  rw [RegionRuns.line, hruns, hfirst, hlast,
    show (before.length + l.length) / 2 - before.length / 2 = l.length / 2 by omega]
  exact map_pairs before l after hbefore hl

/-- The edges of the rows up to `m`. -/
def rowEdges (raster : List UInt8) (width m : ℕ) : List ℕ :=
  (List.range m).flatMap fun y => edges (rasterSelects raster width · y) width 0 false

theorem rowEdges_succ (raster : List UInt8) (width m : ℕ) :
    rowEdges raster width (m + 1) =
      rowEdges raster width m ++ edges (rasterSelects raster width · m) width 0 false := by
  rw [rowEdges, rowEdges, List.range_succ, List.flatMap_append, List.flatMap_singleton]

theorem rowEdges_even (raster : List UInt8)
    (width m : ℕ) : (rowEdges raster width m).length % 2 = 0 := by
  induction m with
  | zero => rfl
  | succ m ih =>
    have := edges_length_even (rasterSelects raster width · m) width 0 false
    rw [if_neg (by decide)] at this
    rw [rowEdges_succ, List.length_append]
    omega

theorem rowEdges_length_le (raster : List UInt8) (width m : ℕ) :
    (rowEdges raster width m).length ≤ (rowEdges raster width (m + 1)).length := by
  rw [rowEdges_succ, List.length_append]
  exact Nat.le_add_right _ _

/-- The runs of the rows of a raster, and where those of each begin. -/
def rowRuns (raster : List UInt8) (width height : ℕ) : RegionRuns where
  runs := rowEdges raster width height
  offsets := (List.range (height + 1)).map fun m => (rowEdges raster width m).length / 2

theorem rowRuns_line (raster : List UInt8) (width : ℕ) {height y : ℕ} (hy : y < height) :
    (rowRuns raster width height).line y =
      pairs (edges (rasterSelects raster width · y) width 0 false) := by
  have hsplit : rowEdges raster width height = rowEdges raster width y ++
      edges (rasterSelects raster width · y) width 0 false ++
        (List.range' (y + 1) (height - (y + 1))).flatMap fun y =>
          edges (rasterSelects raster width · y) width 0 false := by
    rw [rowEdges, rowEdges, range_split hy, List.flatMap_append,
      List.flatMap_cons, List.append_assoc]
  have hget : ∀ m ≤ height, (rowRuns raster width height).offsets.getD m 0 =
      (rowEdges raster width m).length / 2 := fun m hm => by
    rw [rowRuns, List.getD_eq_getElem _ _ (by simp; omega)]
    simp
  refine RegionRuns.line_eq hsplit (rowEdges_even raster width y) ?_ (hget y hy.le) ?_
  · simpa using edges_length_even (rasterSelects raster width · y) width 0 false
  · rw [hget (y + 1) hy, rowEdges_succ, List.length_append]

/-- Along x the runs of the rows come out, unless they are too many. -/
theorem alongX_eq {raster : List UInt8} {width height : ℕ} (mostRuns : ℕ)
    (hlen : raster.length = width * height) (hwidth : width < 2 ^ 32) :
    alongX raster width height mostRuns =
      if (rowEdges raster width height).length / 2 > mostRuns then none
      else some (rowRuns raster width height) := by
  have hsteps : ∀ m ≤ height,
      (List.range m).foldlM (fun (into : RegionRuns) y =>
        let runs := alongXRow (raster.drop (y * width)) width (width + 1) 0 false 0 into.runs
        if runs.length / 2 > mostRuns then none
        else some ⟨runs, into.offsets ++ [runs.length / 2]⟩) ⟨[], [0]⟩ =
      if (rowEdges raster width m).length / 2 > mostRuns then none
      else some (rowRuns raster width m) := by
    intro m
    induction m with
    | zero => exact fun _ => by simp [rowEdges, rowRuns]
    | succ m ih =>
      intro hm
      rw [List.range_succ, List.foldlM_append, ih (by omega)]
      have hmono := rowEdges_length_le raster width m
      by_cases hmany : (rowEdges raster width m).length / 2 > mostRuns
      · rw [if_pos hmany, if_pos (by omega)]
        rfl
      rw [if_neg hmany]
      have hrow : width ≤ (raster.drop (m * width)).length := by
        have : (m + 1) * width ≤ height * width := Nat.mul_le_mul_right _ hm
        rw [List.length_drop, hlen, Nat.mul_comm width height]
        rw [Nat.add_mul] at this
        omega
      have hsel : (fun x => selects ((raster.drop (m * width)).getD x 0)) =
          (rasterSelects raster width · m) := by
        funext x
        simp [rasterSelects, List.getD_eq_getElem?_getD]
      have hmade : alongXRow (raster.drop (m * width)) width (width + 1) 0 false 0
          (rowRuns raster width m).runs = rowEdges raster width (m + 1) := by
        rw [alongXRow_eq hrow hwidth (Nat.zero_le _) (by omega) (Nat.le_refl 0),
          hsel, rowEdges_succ]
        simp [rowRuns]
      have hoffsets : (rowRuns raster width (m + 1)).offsets =
          (rowRuns raster width m).offsets ++ [(rowEdges raster width (m + 1)).length / 2] := by
        rw [rowRuns, rowRuns, List.range_succ (n := m + 1), List.map_append]
        rfl
      rw [Option.bind_eq_bind, Option.bind_some]
      simp only [List.foldlM_cons, List.foldlM_nil, hmade, bind_pure, ← hoffsets]
      rfl
  exact hsteps height (Nat.le_refl _)

/-- Whether a pixel is selected, the rows past the last having none. -/
def rowSelects (raster : List UInt8) (width height x y : ℕ) : Bool :=
  if y < height then rasterSelects raster width x y else false

theorem selects_rasterRow (raster : List UInt8) (width height x y : ℕ) :
    selects ((rasterRow raster width height y).getD x 0) = rowSelects raster width height x y := by
  rw [rasterRow, rowSelects]
  split_ifs
  · simp [rasterSelects, List.getD_eq_getElem?_getD]
  · have : (List.replicate width (0 : UInt8)).getD x 0 = 0 := by
      rw [List.getD_eq_getElem?_getD, List.getElem?_replicate]
      split_ifs <;> rfl
    rw [this]
    rfl

/-- Whether the pixel above is selected. -/
def aboveSelects (raster : List UInt8) (width x : ℕ) : ℕ → Bool
  | 0 => false
  | y + 1 => rasterSelects raster width x y

/-- The edges of a row, each with its column. -/
def crossings (raster : List UInt8) (width height y : ℕ) : List (ℕ × ℕ) :=
  (List.range width).flatMap fun x =>
    if rowSelects raster width height x y = aboveSelects raster width x y
    then [] else [(x, y)]

theorem alongYRow_eq_crossings {raster : List UInt8} {width height y : ℕ}
    (hlen : raster.length = width * height) (hwidth : width < 2 ^ 32) (hheight : height < 2 ^ 32)
    (hy : y ≤ height) (found : List (ℕ × ℕ)) :
    alongYRow (rasterRow raster width height y)
        (if y = 0 then List.replicate width 0 else rasterRow raster width height (y - 1)) width y
        (width + 1) 0 found = found ++ crossings raster width height y := by
  have hrow : ∀ y, width ≤ (rasterRow raster width height y).length := fun y => by
    rw [rasterRow]
    split_ifs with hy
    · have : (y + 1) * width ≤ height * width := Nat.mul_le_mul_right _ hy
      rw [List.length_drop, hlen, Nat.mul_comm width height]
      rw [Nat.add_mul] at this
      omega
    · rw [List.length_replicate]
  rw [alongYRow_eq (hrow y) (by split_ifs; exacts [by simp, hrow _]) hwidth
    (by omega) (Nat.zero_le _)
    (by omega), crossings, List.range_eq_range', Nat.sub_zero]
  congr 1
  refine List.flatMap_congr fun x _ => ?_
  rw [selects_rasterRow]
  congr 1
  cases y with
  | zero =>
    have := selects_rasterRow raster width 0 x 0
    simp only [rasterRow, Nat.lt_irrefl, if_false] at this
    rw [if_pos rfl, this]
    rfl
  | succ y =>
    have habove : rowSelects raster width height x y = aboveSelects raster width x (y + 1) :=
      if_pos (Nat.lt_of_succ_le hy)
    rw [if_neg (Nat.succ_ne_zero y), Nat.add_sub_cancel, selects_rasterRow, habove]

theorem ofKey_crossings (raster : List UInt8) {width height x y : ℕ} (hx : x < width) :
    ofKey (crossings raster width height y) x =
      if rowSelects raster width height x y = aboveSelects raster width x y
      then [] else [y] := by
  rw [crossings, range_split hx, List.flatMap_append, List.flatMap_cons, ofKey_append, ofKey_append]
  have hother : ∀ l : List ℕ, x ∉ l → ofKey (l.flatMap fun x =>
      if rowSelects raster width height x y = aboveSelects raster width x y
      then [] else [(x, y)]) x = [] := by
    intro l hl
    simp only [ofKey, List.map_eq_nil_iff, List.filter_eq_nil_iff, List.mem_flatMap]
    rintro item ⟨x', hx', hitem⟩
    have : item.1 = x' := by
      split at hitem
      · cases hitem
      · rw [List.mem_singleton.1 hitem]
    have : x' ≠ x := fun h => hl (h ▸ hx')
    simp only [decide_eq_true_eq]
    omega
  rw [hother _ (by simp), hother _ (by simp [List.mem_range'_1]), List.nil_append, List.append_nil]
  split <;> simp [ofKey]

/-- The edges of a column, gathered from the rows. -/
theorem ofKey_rows (raster : List UInt8) {width height x : ℕ} (hx : x < width) :
    ofKey ((List.range (height + 1)).flatMap (crossings raster width height)) x =
      edges (rasterSelects raster width x) height 0 false := by
  have hgather : ∀ l : List ℕ, ofKey (l.flatMap (crossings raster width height)) x =
      l.flatMap fun y => ofKey (crossings raster width height y) x := by
    intro l
    induction l with
    | nil => rfl
    | cons y l ih => rw [List.flatMap_cons, List.flatMap_cons, ofKey_append, ih]
  have hedges := edges_eq_flatMap (rasterSelects raster width x) height 0
    (aboveSelects raster width x)
    fun _ _ _ => rfl
  rw [hgather, List.range_eq_range']
  refine Eq.trans (List.flatMap_congr fun y _ => ?_) hedges.symm
  rw [ofKey_crossings raster hx, rowSelects, Nat.zero_add]

/-- A raster with its rows and columns exchanged. -/
def transpose (raster : List UInt8) (width height : ℕ) : List UInt8 :=
  (List.range (width * height)).map fun k => raster.getD (k % height * width + k / height) 0

theorem rasterSelects_transpose (raster : List UInt8) {width height x y : ℕ} (hx : x < width)
    (hy : y < height) :
    rasterSelects (transpose raster width height) height y x = rasterSelects raster width x y := by
  have hk : x * height + y < width * height := by
    have : (x + 1) * height ≤ width * height := Nat.mul_le_mul_right _ hx
    rw [Nat.add_mul] at this
    omega
  rw [rasterSelects, rasterSelects, transpose, List.getD_eq_getElem _ _ (by simpa using hk),
    List.getElem_map, List.getElem_range, Nat.mul_comm x height, Nat.mul_add_mod,
    Nat.mod_eq_of_lt hy,
    Nat.mul_add_div (by omega), Nat.div_eq_of_lt hy, Nat.add_zero]

/-- The edges of a line depend on its own pixels only. -/
theorem edges_congr {sel sel' : ℕ → Bool} {k y : ℕ} (prev : Bool)
    (h : ∀ x, y ≤ x → x < y + k → sel x = sel' x) : edges sel k y prev = edges sel' k y prev := by
  induction k generalizing y prev with
  | zero => rfl
  | succ k ih =>
    rw [edges, edges, h y le_rfl (by omega), ih _ fun x hx hx' => h x (by omega) (by omega)]

/-- The columns of a raster are the rows of the transposed one. -/
theorem rowEdges_transpose (raster : List UInt8) {width m : ℕ} (height : ℕ) (hm : m ≤ width) :
    rowEdges (transpose raster width height) height m =
      (List.range m).flatMap fun x => edges (rasterSelects raster width x) height 0 false := by
  refine List.flatMap_congr fun x hx => edges_congr _ fun y _ hy => ?_
  exact rasterSelects_transpose raster (by rw [List.mem_range] at hx; omega) (by omega)

/-- Along y the runs of the columns come out, unless they are too many. -/
theorem alongY_eq {raster : List UInt8} {width height : ℕ} (mostRuns : ℕ)
    (hlen : raster.length = width * height) (hwidth : width < 2 ^ 32) (hheight : height < 2 ^ 32) :
    alongY raster width height mostRuns =
      if (rowEdges (transpose raster width height) height width).length / 2 > mostRuns then none
      else some (rowRuns (transpose raster width height) height width) := by
  generalize hitems : (List.range (height + 1)).flatMap (crossings raster width height) = items
  have hsteps : ∀ m ≤ height + 1,
      (List.range m).foldlM (fun edges y =>
        let above := if y = 0 then List.replicate width 0 else rasterRow raster width height (y - 1)
        let edges := alongYRow (rasterRow raster width height y) above width y (width + 1) 0 edges
        if edges.length > 2 * mostRuns then none else some edges) [] =
      if ((List.range m).flatMap (crossings raster width height)).length > 2 * mostRuns then none
      else some ((List.range m).flatMap (crossings raster width height)) := by
    intro m
    induction m with
    | zero => exact fun _ => by simp
    | succ m ih =>
      intro hm
      rw [List.range_succ, List.foldlM_append, ih (by omega), List.flatMap_append,
        List.flatMap_singleton]
      by_cases hmany : ((List.range m).flatMap (crossings raster width height)).length >
        2 * mostRuns
      · rw [if_pos hmany, if_pos (by rw [List.length_append]; omega)]
        rfl
      rw [if_neg hmany]
      rw [Option.bind_eq_bind, Option.bind_some]
      simp only [List.foldlM_cons, List.foldlM_nil, bind_pure,
        alongYRow_eq_crossings hlen hwidth hheight (Nat.le_of_lt_succ hm)]
  have hkeys : ∀ item ∈ items, item.1 < width := by
    rw [← hitems]
    intro item hitem
    obtain ⟨y, -, hitem⟩ := List.mem_flatMap.1 hitem
    obtain ⟨x', hx', hitem⟩ := List.mem_flatMap.1 hitem
    split at hitem
    · cases hitem
    · rw [List.mem_singleton.1 hitem]
      exact List.mem_range.1 hx'
  have hkeys' : ∀ key ∈ items.map Prod.fst, key < width := fun key hkey => by
    obtain ⟨item, hitem, rfl⟩ := List.mem_map.1 hkey
    exact hkeys item hitem
  -- the edges of the columns before one are those sorted before its own
  have hcolumns : ∀ m ≤ width, (List.range m).flatMap (ofKey items) =
      rowEdges (transpose raster width height) height m := fun m hm => by
    rw [rowEdges_transpose raster height hm, ← hitems]
    exact List.flatMap_congr fun x hx => ofKey_rows raster (by rw [List.mem_range] at hx; omega)
  have hbelow : ∀ m ≤ width, below (items.map Prod.fst) m =
      (rowEdges (transpose raster width height) height m).length := fun m hm => by
    rw [← length_flatMap_ofKey, hcolumns m hm]
  have htotal : items.length = (rowEdges (transpose raster width height) height width).length := by
    rw [← hbelow width le_rfl, below_eq_length hkeys', List.length_map]
  have heven := rowEdges_even (transpose raster width height) height width
  rw [alongY, hsteps (height + 1) le_rfl, hitems, htotal]
  by_cases hmany : (rowEdges (transpose raster width height) height width).length / 2 > mostRuns
  · rw [if_pos hmany, if_pos (by omega)]
    rfl
  · rw [if_neg hmany, if_neg (by omega), Option.map_some]
    dsimp only
    rw [placeByKey_eq_flatMap 0 hkeys, hcolumns width le_rfl, keyOffsets_eq_map hkeys',
      List.map_map, rowRuns]
    congr 2
    refine List.map_congr_left fun m hm => ?_
    rw [Function.comp_apply, hbelow m (by rw [List.mem_range] at hm; omega)]

/-- What the encoders make of a raster, as long as its sides fit 32 bits. -/
theorem runsAlongU_eq {raster : List UInt8} {width height : ℕ} (uIsX : Bool)
    (hlen : raster.length = width * height) (hbig : max width height ≤ 2 ^ 32 - 1) :
    runsAlongU raster width height uIsX =
      let made := if uIsX then rowRuns raster width height
        else rowRuns (transpose raster width height) height width
      if made.runs.length / 2 > max (if uIsX then height else width)
        (width * height / kLeastPixelsPerRun)
      then none else some made := by
  have hmul : mul width height = width * height := by
    have : width * height ≤ (2 ^ 32 - 1) * (2 ^ 32 - 1) := Nat.mul_le_mul (by omega) (by omega)
    exact mul_eq (by omega)
  rw [runsAlongU, if_neg (by omega), hmul]
  cases uIsX
  · exact alongY_eq _ hlen (by omega) (by omega)
  · exact alongX_eq _ hlen (by omega)

/-- **The runs of a line are what the raster selects along it.** -/
theorem runsAlongU_line {raster : List UInt8} {width height : ℕ} {uIsX : Bool} {made : RegionRuns}
    (hlen : raster.length = width * height) (h : runsAlongU raster width height uIsX = some made)
    {l : ℕ} (hl : l < if uIsX then height else width) :
    made.line l = pairs (edges
      (fun k => if uIsX then rasterSelects raster width k l else rasterSelects raster width l k)
      (if uIsX then width else height) 0 false) := by
  have hbig : max width height ≤ 2 ^ 32 - 1 := by
    by_contra hbig
    rw [runsAlongU, if_pos (by omega)] at h
    cases h
  rw [runsAlongU_eq uIsX hlen hbig] at h
  dsimp only at h
  generalize hrows : (if uIsX then rowRuns raster width height
    else rowRuns (transpose raster width height) height width) = rows at h
  rw [Option.ite_none_left_eq_some, Option.some.injEq] at h
  rw [← h.2, ← hrows]
  cases uIsX
  · refine (rowRuns_line _ _ hl).trans (congrArg pairs (edges_congr _ fun y _ hy => ?_))
    exact rasterSelects_transpose raster hl (by simpa using hy)
  · exact rowRuns_line raster width hl

end CartaZarr
