import Mathlib.Algebra.Order.BigOperators.GroupWithZero.Finset
import CartaZarr.ChunkBlocks
import CartaZarr.Foundations.Walk
import CartaZarr.Zarr.PixelSelection

/-!
# How a read is cut into pieces

`planPieces` cuts a request along the slowest axis that selects more than one element, into runs
that end on chunk boundaries and decode about what the read's budget affords; `oneElementPerChunk`
is the sample of a request that touches the same chunks with one element each.
-/

namespace CartaZarr

open Word

/-- One part of a read, and where in the destination it begins. -/
structure Piece where
  request : ReadRequest
  firstElement : ℕ
  deriving DecidableEq, Repr

/-- A request with another range along one axis. -/
def ReadRequest.withAxis (r : ReadRequest) (axis : ℕ) (range : Range) : ReadRequest :=
  ⟨r.axes.set axis range⟩

/-- The axis a split read is cut along: the slowest one that selects more than one element. -/
def slowestSelectedAxis (request : ReadRequest) : Option ℕ :=
  (List.range request.axes.length).reverse.find? fun i => 1 < (request.axis i).count

/-- The chunks the axes other than `axis` touch together. -/
def otherChunks (request : ReadRequest) (geometry : ChunkGeometry) (axis : ℕ) : ℕ :=
  (List.range request.axes.length).foldl (fun chunks i =>
    if i = axis then chunks
    else
      let chunk := geometry.chunk i
      let range := request.axis i
      mul chunks (if chunk = 0 then 1
        else max 1 (chunksTouched range.start range.count range.stride chunk))) 1

/-- How many layers of chunks along the cut axis the budget affords. -/
def chunksPerPiece (request : ReadRequest) (geometry : ChunkGeometry) (axis : ℕ)
    (cost : ReadCost) : ℕ :=
  max 1 (cost.budgetBytes / max 1 (mul cost.chunkBytes (otherChunks request geometry axis)))

/-- How many elements of the cut axis one piece should cover. -/
def unitsPerPiece (request : ReadRequest) (geometry : ChunkGeometry) (axis : ℕ)
    (cost : ReadCost) : ℕ :=
  let chunks := chunksPerPiece request geometry axis cost
  let chunk := geometry.chunk axis
  let stride := max 1 (request.axis axis).stride
  if chunk ≠ 0 ∧ chunk ≤ stride then chunks
  else max 1 (mul chunks (max 1 chunk) / stride)

/-- What one unit of the cut axis is worth in the destination. -/
def elementsPerUnit (request : ReadRequest) (axis : ℕ) : ℕ :=
  (List.range axis).foldl (fun elements i => mul elements (request.axis i).count) 1

/-- The piece of the units `[begin, end)` of the cut axis. -/
def cutPiece (request : ReadRequest) (axis : ℕ) (block : ℕ × ℕ) : Piece :=
  let cut := request.axis axis
  { request := request.withAxis axis
      { cut with
        start := add cut.start (mul block.1 cut.stride)
        count := sub block.2 block.1 }
    firstElement := mul block.1 (elementsPerUnit request axis) }

/-- The pieces of a read, or `none` when the loop that cuts them has not ended after `fuel`. -/
def planPieces (fuel : ℕ) (descriptor : ImageDescriptor) (geometry flagGeometry : ChunkGeometry)
    (request : ReadRequest) (options : ReadOptions) (watching : Bool) : Option (List Piece) :=
  match slowestSelectedAxis request with
  | none => some [⟨request, 0⟩]
  | some axis =>
    if !watching ∧ options.readBudgetBytes = 0 then some [⟨request, 0⟩]
    else
      let units := unitsPerPiece request geometry axis
        (ReadCost.of descriptor geometry flagGeometry options)
      let cut := request.axis axis
      let blocks := walk (fun b =>
        alignedBlockEnd b units cut.count cut.start cut.stride
          (geometry.chunk axis)) cut.count fuel 0
      blocks.map fun blocks => blocks.map (cutPiece request axis)

/-- A sample of a request that touches the chunks it does, with one element of each. -/
def oneElementPerChunk (geometry : ChunkGeometry) (request : ReadRequest) : ReadRequest :=
  ⟨request.axes.mapIdx fun axis range =>
    let chunk := geometry.chunk axis
    if chunk = 0 ∨ chunk ≤ range.stride then range
    else
      let first := range.start / chunk
      let last := add range.start (mul (sub range.count 1) range.stride) / chunk
      { start := mul first chunk, count := add (sub last first) 1, stride := chunk }⟩

/-! ## The cut axis -/

theorem slowestSelectedAxis_eq_some {r : ReadRequest} {a : ℕ} (h : slowestSelectedAxis r = some a) :
    a < r.axes.length ∧ 1 < (r.axis a).count ∧
      ∀ i, a < i → i < r.axes.length → (r.axis i).count ≤ 1 := by
  unfold slowestSelectedAxis at h
  obtain ⟨hp, before, after, hl, hbefore⟩ := List.find?_eq_some_iff_append.1 h
  have ha : a ∈ List.range r.axes.length := by
    rw [← List.mem_reverse, hl]
    simp
  refine ⟨List.mem_range.1 ha, by simpa using hp, fun i hi hlt => ?_⟩
  -- a later axis stands before `a` in the reversed list, so it was passed over
  have hmem : i ∈ before := by
    have hi' : i ∈ (List.range r.axes.length).reverse := by simpa using hlt
    have hsorted : (List.range r.axes.length).reverse.Pairwise (· > ·) := by
      rw [List.pairwise_reverse]
      exact List.pairwise_lt_range
    rw [hl] at hi' hsorted
    rcases List.mem_append.1 hi' with h | h
    · exact h
    · rcases List.mem_cons.1 h with rfl | h
      · omega
      · have := (List.pairwise_cons.1 (List.pairwise_append.1 hsorted).2.1).1 i h
        omega
  simpa using hbefore i hmem

/-! ## The pieces fill the destination -/

namespace ReadRequest

variable {r : ReadRequest} {a : ℕ}

theorem axis_withAxis (range : Range) (ha : a < r.axes.length) (i : ℕ) :
    (r.withAxis a range).axis i = if i = a then range else r.axis i := by
  simp only [axis, withAxis, List.getD_eq_getElem?_getD]
  split_ifs with h
  · rw [h, List.getElem?_set_self ha, Option.getD_some]
  · rw [List.getElem?_set_ne (Ne.symm h)]

@[simp] theorem length_withAxis
    (range : Range) : (r.withAxis a range).axes.length = r.axes.length :=
  List.length_set

theorem counts_withAxis (range : Range) :
    (r.withAxis a range).counts = r.counts.set a range.count := by
  simp [counts, withAxis, List.map_set]

end ReadRequest

/-- Pieces that extend a prefix of the destination, from `m` elements on: each begins where the
finished part ends and holds the next elements of the request in its order, to the end of it or to
a piece that no selection can be built from. -/
inductive Fills (d : ImageDescriptor) (r : ReadRequest) : ℕ → List Piece → Prop
  | done : Fills d r r.elements []
  | refused {m : ℕ} {p : Piece} (rest : List Piece) (first : p.firstElement = m)
      (h : ∀ s, buildSelection d p.request .logical ≠ .ok s) : Fills d r m (p :: rest)
  | piece {m : ℕ} {p : Piece} {rest : List Piece} (valid : p.request.Valid d)
      (first : p.firstElement = m) (le : m + p.request.elements ≤ r.elements)
      (same : ∀ k < p.request.elements, p.request.elementIndex k = r.elementIndex (m + k))
      (next : Fills d r (m + p.request.elements) rest) : Fills d r m (p :: rest)

section Fills

variable {d : ImageDescriptor} {g f : ChunkGeometry} {r : ReadRequest} {o : ReadOptions} {a : ℕ}

/-- The counts of a request whose axes after `a` select one element. -/
theorem prod_counts_split (hin : r.Inside d) (ha : a < d.rank)
    (hone : ∀ i, a < i → i < r.axes.length → (r.axis i).count ≤ 1) (c : ℕ) :
    (r.counts.set a c).prod = (r.counts.take a).prod * c := by
  have ha' : a < r.counts.length := by simpa [hin.rank_eq] using ha
  rw [List.set_eq_take_append_cons_drop, if_pos ha', List.prod_append, List.prod_cons]
  have hdrop : (r.counts.drop (a + 1)).prod = 1 := by
    apply List.prod_eq_one
    intro x hx
    obtain ⟨j, hj⟩ := List.mem_iff_getElem?.1 hx
    rw [List.getElem?_drop] at hj
    have hlt : a + 1 + j < r.axes.length := by
      obtain ⟨h, -⟩ := List.getElem?_eq_some_iff.1 hj
      simpa using h
    have hx' : (r.axis (a + 1 + j)).count = x := by
      have := r.counts_getD hlt 0
      rw [List.getD_eq_getElem?_getD, hj, Option.getD_some] at this
      exact this.symm
    have h1 := hone (a + 1 + j) (by omega) hlt
    have h2 := hin.count_pos (a + 1 + j) (hin.rank_eq ▸ hlt)
    omega
  rw [hdrop, mul_one]

theorem elements_split (hin : r.Inside d) (ha : a < d.rank)
    (hone : ∀ i, a < i → i < r.axes.length → (r.axis i).count ≤ 1) :
    r.elements = (r.counts.take a).prod * (r.axis a).count := by
  have ha' : a < r.counts.length := by simpa [hin.rank_eq] using ha
  rw [← prod_counts_split hin ha hone, ReadRequest.elements, ← r.counts_getD (by simpa using ha') 0,
    List.getD_eq_getElem _ _ ha', List.set_getElem_self]

theorem elementsPerUnit_eq (hv : r.Valid d) (ha : a < d.rank)
    (hone : ∀ i, a < i → i < r.axes.length → (r.axis i).count ≤ 1) :
    elementsPerUnit r a = (r.counts.take a).prod := by
  have ha' : a < r.axes.length := hv.rank_eq ▸ ha
  have hmap : (List.range a).map (fun i => (r.axis i).count) = r.counts.take a := by
    apply List.ext_getElem (by simp [ha'.le])
    intro i h1 h2
    have hi : i < a := by simpa using h1
    rw [List.getElem_map, List.getElem_range, List.getElem_take,
      ← r.counts_getD (by omega) 0, List.getD_eq_getElem]
  have hlt : (r.counts.take a).prod < 2 ^ 64 := by
    have := hv.elements_lt
    rw [elements_split hv.toInside ha hone] at this
    exact lt_of_le_of_lt (Nat.le_mul_of_pos_right _ (hv.count_pos a ha)) this
  rw [elementsPerUnit, foldl_mul_eq (fun _ _ _ _ => rfl)
    (fun i hi => hv.count_pos i (by have := List.mem_range.1 hi; omega)) (by rwa [one_mul, hmap]),
    one_mul, hmap]

/-- A block that does not go forward makes a piece no selection can be built from. -/
theorem cutPiece_refused (hin : r.Inside d) (ha : a < d.rank) {b e : ℕ} (hb : b < (r.axis a).count)
    (he : e ≤ b) (order : DestinationOrder) (s : PixelSelection) :
    buildSelection d (cutPiece r a (b, e)).request order ≠ .ok s := by
  intro h
  have ha' : a < r.axes.length := hin.rank_eq ▸ ha
  have hco : Strided.coord (r.axis a).start (r.axis a).stride b < 2 ^ 64 :=
    lt_of_le_of_lt (Strided.coord_mono (by omega)) ((hin.last_lt a ha).trans (d.length_lt a))
  have hb' : b < 2 ^ 64 := hb.trans ((hin.count_le ha).trans_lt (d.length_lt a))
  have hpin := buildSelection_inside h
  have hpos := hpin.count_pos a ha
  have hlast := hpin.last_lt a ha
  have hlen := d.length_lt a
  simp only [cutPiece, ReadRequest.axis_withAxis _ ha', if_true] at hpos hlast
  unfold Strided.coord at hco hlast
  rw [mul_eq (by omega), add_eq hco] at hlast
  rcases he.lt_or_eq with h1 | rfl
  · -- the count wrapped, and its last coordinate is past every word
    rw [sub_wrap hb' h1] at hlast
    have hs := hin.stride_pos a ha
    have : (2 ^ 64 - (b - e) - 1 + b) * 1 ≤ (2 ^ 64 - (b - e) - 1 + b) * (r.axis a).stride :=
      Nat.mul_le_mul_left _ hs
    rw [Nat.add_mul (2 ^ 64 - (b - e) - 1) b (r.axis a).stride] at this
    omega
  · rw [sub_eq le_rfl hb', Nat.sub_self] at hpos
    omega

/-- The request of a piece: that of the read, with a run of the cut axis. -/
theorem cutPiece_request (hin : r.Inside d) (ha : a < d.rank) {b e : ℕ} (hbe : b < e)
    (he : e ≤ (r.axis a).count) :
    (cutPiece r a (b, e)).request = r.withAxis a
      ⟨Strided.coord (r.axis a).start (r.axis a).stride b, e - b, (r.axis a).stride⟩ := by
  have hco : Strided.coord (r.axis a).start (r.axis a).stride b < 2 ^ 64 :=
    lt_of_le_of_lt (Strided.coord_mono (by omega)) ((hin.last_lt a ha).trans (d.length_lt a))
  have hlt : e < 2 ^ 64 := he.trans_lt ((hin.count_le ha).trans_lt (d.length_lt a))
  have hmul : b * (r.axis a).stride < 2 ^ 64 := by
    unfold Strided.coord at hco
    omega
  simp only [cutPiece]
  rw [mul_eq hmul, add_eq hco, sub_eq hbe.le hlt]
  rfl

/-- The numbers of an element of a piece, in the piece and in the whole read. -/
theorem digit_withAxis (hin : r.Inside d) (ha : a < d.rank)
    (hone : ∀ i, a < i → i < r.axes.length → (r.axis i).count ≤ 1) {b e k : ℕ}
    (he : e ≤ (r.axis a).count) (hk : k < (r.counts.take a).prod * (e - b)) (i : ℕ) :
    MixedRadix.digit r.counts (b * (r.counts.take a).prod + k) i =
      (if i = a then b else 0) + MixedRadix.digit (r.counts.set a (e - b)) k i := by
  have hlen : r.counts.length = d.rank := by simpa using hin.rank_eq
  have hone' : ∀ i, a < i → r.counts.getD i 1 = 1 := fun i hi => by
    rcases lt_or_ge i d.rank with h | h
    · have hi' : i < r.axes.length := hin.rank_eq ▸ h
      have h1 := hone i hi hi'
      have h2 := hin.count_pos i h
      rw [r.counts_getD hi']
      omega
    · exact List.getD_eq_default _ _ (by omega)
  have hpos : 0 < (r.counts.take a).prod := by
    by_contra h
    rw [Nat.eq_zero_of_not_pos h, Nat.zero_mul] at hk
    omega
  have htotal : b * (r.counts.take a).prod + k < r.counts.prod := by
    have hsplit : r.counts.prod = (r.counts.take a).prod * (r.axis a).count :=
      elements_split hin ha hone
    calc b * (r.counts.take a).prod + k
        < b * (r.counts.take a).prod + (r.counts.take a).prod * (e - b) := by omega
      _ = (r.counts.take a).prod * (b + (e - b)) := by ring
      _ ≤ (r.counts.take a).prod * (r.axis a).count := Nat.mul_le_mul_left _ (by
          by_contra h
          have : e - b = 0 := by omega
          rw [this, Nat.mul_zero] at hk
          omega)
      _ = r.counts.prod := hsplit.symm
  rw [MixedRadix.digit_cut (hlen ▸ ha) hone' htotal hpos]
  have ha' : a < r.counts.length := hlen ▸ ha
  rcases lt_trichotomy i a with h | rfl | h
  · rw [if_neg h.ne, if_neg h.ne, zero_add, MixedRadix.digit, MixedRadix.digit,
      List.take_set_of_le h.le, List.getD_eq_getElem?_getD, List.getD_eq_getElem?_getD,
      List.getElem?_set_ne h.ne']
  · rw [if_pos rfl, if_pos rfl, MixedRadix.digit, List.take_set_of_le le_rfl,
      List.getD_eq_getElem?_getD, List.getElem?_set_self ha', Option.getD_some,
      Nat.mod_eq_of_lt (Nat.div_lt_of_lt_mul hk)]
  · rw [if_neg h.ne', if_neg h.ne', zero_add, MixedRadix.digit, MixedRadix.digit, hone' i h,
      List.getD_eq_getElem?_getD, List.getElem?_set_ne h.ne, ← List.getD_eq_getElem?_getD,
      hone' i h, Nat.mod_one, Nat.mod_one]

theorem cutPiece_firstElement (hv : r.Valid d) (ha : a < d.rank)
    (hone : ∀ i, a < i → i < r.axes.length → (r.axis i).count ≤ 1) {b : ℕ}
    (hb : b < (r.axis a).count) (e : ℕ) :
    (cutPiece r a (b, e)).firstElement = b * (r.counts.take a).prod := by
  have hlt := hv.elements_lt
  rw [elements_split hv.toInside ha hone] at hlt
  have hfirst : b * (r.counts.take a).prod ≤ (r.axis a).count * (r.counts.take a).prod :=
    Nat.mul_le_mul_right _ hb.le
  rw [Nat.mul_comm (r.axis a).count] at hfirst
  change mul b (elementsPerUnit r a) = _
  rw [elementsPerUnit_eq hv ha hone, mul_eq (by omega)]

/-- **A piece is a run of the read**: it can be selected, begins where the units before it end, and
holds the elements of the read from there on. -/
theorem cutPiece_spec (hv : r.Valid d) (ha : a < d.rank)
    (hone : ∀ i, a < i → i < r.axes.length → (r.axis i).count ≤ 1) {b e : ℕ} (hbe : b < e)
    (he : e ≤ (r.axis a).count) :
    (cutPiece r a (b, e)).request.Valid d ∧
    (cutPiece r a (b, e)).firstElement = b * (r.counts.take a).prod ∧
    (cutPiece r a (b, e)).request.elements = (r.counts.take a).prod * (e - b) ∧
    ∀ k < (r.counts.take a).prod * (e - b), (cutPiece r a (b, e)).request.elementIndex k =
      r.elementIndex (b * (r.counts.take a).prod + k) := by
  have hin := hv.toInside
  have ha' : a < r.axes.length := hv.rank_eq ▸ ha
  have hsplit := elements_split hin ha hone
  have hlt := hv.elements_lt
  rw [hsplit] at hlt
  have hle : (r.counts.take a).prod * (e - b) ≤ (r.counts.take a).prod * (r.axis a).count :=
    Nat.mul_le_mul_left _ (by omega)
  have helements : (cutPiece r a (b, e)).request.elements = (r.counts.take a).prod * (e - b) := by
    rw [cutPiece_request hin ha hbe he, ReadRequest.elements, ReadRequest.counts_withAxis,
      prod_counts_split hin ha hone]
  refine ⟨⟨⟨?_, ?_, ?_, ?_⟩, by omega⟩, ?_, helements, fun k hk => ?_⟩
  · rw [cutPiece_request hin ha hbe he, ReadRequest.length_withAxis, hv.rank_eq]
  · intro i hi
    rw [cutPiece_request hin ha hbe he, ReadRequest.axis_withAxis _ ha']
    split_ifs with h
    · exact h ▸ hv.stride_pos i hi
    · exact hv.stride_pos i hi
  · intro i hi
    rw [cutPiece_request hin ha hbe he, ReadRequest.axis_withAxis _ ha']
    split_ifs with h
    · exact Nat.sub_pos_of_lt hbe
    · exact hv.count_pos i hi
  · intro i hi
    rw [cutPiece_request hin ha hbe he, ReadRequest.axis_withAxis _ ha']
    split_ifs with h
    · subst h
      refine lt_of_le_of_lt ?_ (hv.last_lt i hi)
      change Strided.coord (r.axis i).start (r.axis i).stride b + (e - b - 1) *
        (r.axis i).stride ≤ _
      rw [← Strided.coord_add]
      exact Strided.coord_mono (by omega)
    · exact hv.last_lt i hi
  · exact cutPiece_firstElement hv ha hone (hbe.trans_le he) e
  · rw [cutPiece_request hin ha hbe he, ReadRequest.elementIndex, ReadRequest.elementIndex,
      ReadRequest.indexAt, ReadRequest.indexAt, ReadRequest.length_withAxis]
    refine List.map_congr_left fun i _ => ?_
    rw [digit_withAxis hin ha hone he hk, ReadRequest.axis_withAxis _ ha',
      ReadRequest.counts_withAxis]
    split_ifs with h
    · subst h
      change _ + _ = _
      rw [← Strided.coord_add]
    · rw [zero_add]

/-- The pieces of a walk along the cut axis fill the destination from where it begins. -/
theorem fills_of_walk (hv : r.Valid d) (ha : a < d.rank)
    (hone : ∀ i, a < i → i < r.axes.length → (r.axis i).count ≤ 1) {next : ℕ → ℕ}
    (hnext : ∀ b < (r.axis a).count, next b ≤ (r.axis a).count) {fuel b : ℕ} {blocks : List (ℕ × ℕ)}
    (hb : b ≤ (r.axis a).count) (h : walk next (r.axis a).count fuel b = some blocks) :
    Fills d r (b * (r.counts.take a).prod) (blocks.map (cutPiece r a)) := by
  -- at the end of the axis nothing is left to fill
  have hend : Fills d r ((r.axis a).count * (r.counts.take a).prod) [] := by
    rw [Nat.mul_comm, ← elements_split hv.toInside ha hone]
    exact .done
  induction fuel generalizing b blocks with
  | zero =>
    rcases hb.lt_or_eq with hlt | rfl
    · simp [walk, hlt] at h
    · rw [walk_of_le le_rfl, Option.some.injEq] at h
      exact h ▸ hend
  | succ fuel ih =>
    rcases hb.lt_or_eq with hlt | rfl
    · rw [walk_succ hlt, Option.map_eq_some_iff] at h
      obtain ⟨rest, hrest, rfl⟩ := h
      rw [List.map_cons]
      rcases lt_or_ge b (next b) with hbn | hbn
      · obtain ⟨hvalid, hfirst, helements, hsame⟩ := cutPiece_spec hv ha hone hbn (hnext b hlt)
        have hm : b * (r.counts.take a).prod + (cutPiece r a (b, next b)).request.elements =
            next b * (r.counts.take a).prod := by
          rw [helements, Nat.mul_comm b, ← Nat.mul_add, Nat.mul_comm]
          congr 1
          omega
        refine .piece hvalid hfirst ?_ (fun k hk => hsame k (helements ▸ hk)) ?_
        · rw [hm, elements_split hv.toInside ha hone, Nat.mul_comm]
          exact Nat.mul_le_mul_left _ (hnext b hlt)
        · rw [hm]
          exact ih (hnext b hlt) hrest
      · exact .refused _ (cutPiece_firstElement hv ha hone hlt _)
          (cutPiece_refused hv.toInside ha hlt hbn .logical)
    · rw [walk_of_le le_rfl, Option.some.injEq] at h
      exact h ▸ hend

theorem fills_whole (hv : r.Valid d) : Fills d r 0 [⟨r, 0⟩] := by
  refine .piece hv rfl (by rw [zero_add]) (fun k _ => by rw [zero_add]) ?_
  rw [zero_add]
  exact .done

/-- The plan of a read that is cut: the pieces of the blocks its walk makes. -/
theorem planPieces_of_cut {watching : Bool} (haxis : slowestSelectedAxis r = some a)
    (hcut : watching = true ∨ o.readBudgetBytes ≠ 0) (fuel : ℕ) :
    planPieces fuel d g f r o watching =
      (walk (fun b => alignedBlockEnd b (unitsPerPiece r g a (ReadCost.of d g f o)) (r.axis a).count
        (r.axis a).start (r.axis a).stride (g.chunk a)) (r.axis a).count fuel 0).map
          fun blocks => blocks.map (cutPiece r a) := by
  unfold planPieces
  rw [haxis]
  simp only
  rw [if_neg]
  rintro ⟨h1, h2⟩
  rcases hcut with rfl | h
  · simp at h1
  · exact h h2

/-- The plan of a read that is not cut. -/
theorem planPieces_of_not_cut {watching : Bool}
    (h : slowestSelectedAxis r = none ∨ watching = false ∧ o.readBudgetBytes = 0) (fuel : ℕ) :
    planPieces fuel d g f r o watching = some [⟨r, 0⟩] := by
  unfold planPieces
  rcases h with h | ⟨rfl, h⟩
  · rw [h]
  · cases slowestSelectedAxis r with
    | none => rfl
    | some axis => simp [h]

/-- The two ways a read is planned. -/
theorem planPieces_cases (r : ReadRequest) (o : ReadOptions) (watching : Bool) :
    (slowestSelectedAxis r = none ∨ watching = false ∧ o.readBudgetBytes = 0) ∨
      ∃ axis, slowestSelectedAxis r = some axis ∧ (watching = true ∨ o.readBudgetBytes ≠ 0) := by
  cases slowestSelectedAxis r with
  | none => exact Or.inl (Or.inl rfl)
  | some axis =>
    cases watching with
    | true => exact Or.inr ⟨axis, rfl, Or.inl rfl⟩
    | false =>
      by_cases h : o.readBudgetBytes = 0
      · exact Or.inl (Or.inr ⟨rfl, h⟩)
      · exact Or.inr ⟨axis, rfl, Or.inr h⟩

/-- **The pieces of a plan fill the destination**, whatever the layout, the budget and the length of
the axes. -/
theorem planPieces_fills (hv : r.Valid d) {watching : Bool} {fuel : ℕ} {pieces : List Piece}
    (h : planPieces fuel d g f r o watching = some pieces) : Fills d r 0 pieces := by
  rcases planPieces_cases r o watching with hno | ⟨axis, haxis, hcut⟩
  · rw [planPieces_of_not_cut hno, Option.some.injEq] at h
    exact h ▸ fills_whole hv
  · obtain ⟨ha', -, hone⟩ := slowestSelectedAxis_eq_some haxis
    have ha : axis < d.rank := hv.rank_eq ▸ ha'
    rw [planPieces_of_cut haxis hcut] at h
    obtain ⟨blocks, hw, rfl⟩ := Option.map_eq_some_iff.1 h
    have hfill := fills_of_walk hv ha hone (fun b _ => alignedBlockEnd_le (hv.stride_pos axis ha)
      ((hv.last_lt axis ha).trans (d.length_lt axis))) (Nat.zero_le _) hw
    rwa [Nat.zero_mul] at hfill

theorem unitsPerPiece_lt {cost : ReadCost} (hbudget : cost.budgetBytes < 2 ^ 64) :
    unitsPerPiece r g a cost < 2 ^ 64 := by
  have hchunks : chunksPerPiece r g a cost < 2 ^ 64 := by
    have := Nat.div_le_self cost.budgetBytes (max 1 (mul cost.chunkBytes (otherChunks r g a)))
    unfold chunksPerPiece
    omega
  have hmul := mul_lt (chunksPerPiece r g a cost) (max 1 (g.chunk a))
  have hdiv := Nat.div_le_self (mul (chunksPerPiece r g a cost) (max 1 (g.chunk a)))
    (max 1 (r.axis a).stride)
  unfold unitsPerPiece
  simp only
  split_ifs <;> omega

/-- A read of an image whose axes are shorter than `2 ^ 63` is planned, in pieces that can be
read. -/
theorem planPieces_valid (hv : r.Valid d) (hlen : ∀ i < d.rank, d.length i < 2 ^ 63)
    (hbudget : o.readBudgetBytes < 2 ^ 64) {watching : Bool} {fuel : ℕ}
    (hfuel : r.elements ≤ fuel) :
    ∃ pieces, planPieces fuel d g f r o watching = some pieces ∧
    ∀ p ∈ pieces, p.request.Valid d := by
  rcases planPieces_cases r o watching with hno | ⟨axis, haxis, hcut⟩
  · exact ⟨_, planPieces_of_not_cut hno _, by simpa using hv⟩
  obtain ⟨ha', -, hone⟩ := slowestSelectedAxis_eq_some haxis
  have ha : axis < d.rank := hv.rank_eq ▸ ha'
  have hunits : unitsPerPiece r g axis (ReadCost.of d g f o) < 2 ^ 64 :=
    unitsPerPiece_lt (ReadCost.budgetBytes_lt d g f hbudget)
  have hcount : (r.axis axis).count ≤ fuel := by
    rw [elements_split hv.toInside ha hone] at hfuel
    have hpos : 0 < (r.counts.take axis).prod := List.prod_pos fun c hc =>
      prod_counts_pos hv.count_pos hv.rank_eq c (List.mem_of_mem_take hc)
    exact (Nat.le_mul_of_pos_left _ hpos).trans hfuel
  have hlast := (hv.last_lt axis ha).trans (hlen axis ha)
  obtain ⟨blocks, hw, htile⟩ : ∃ blocks, walk (fun b => alignedBlockEnd b
      (unitsPerPiece r g axis (ReadCost.of d g f o)) (r.axis axis).count (r.axis axis).start
      (r.axis axis).stride (g.chunk axis)) (r.axis axis).count fuel 0 = some blocks ∧
      Tiling 0 blocks (r.axis axis).count := by
    rcases Nat.eq_zero_or_pos (g.chunk axis) with h0 | h0
    · rw [h0]
      exact unalignedWalk_tiling (r.axis axis).start (r.axis axis).stride
        (total_le_of_coord_lt (hv.stride_pos axis ha) hlast) hunits hcount
    · obtain ⟨blocks, hw, htile, -⟩ :=
        alignedWalk_tiling (hv.stride_pos axis ha) h0 (g.chunk_lt axis)
        (Nat.zero_le _) hlast (by rwa [zero_add]) (by omega)
      exact ⟨blocks, hw, htile⟩
  rw [planPieces_of_cut haxis hcut, hw, Option.map_some]
  refine ⟨_, rfl, fun p hp => ?_⟩
  obtain ⟨block, hblock, rfl⟩ := List.mem_map.1 hp
  obtain ⟨-, hlt, hle⟩ := htile.bounds block hblock
  exact (cutPiece_spec hv ha hone hlt hle).1

theorem planPieces_returns (hv : r.Valid d) (hlen : ∀ i < d.rank, d.length i < 2 ^ 63)
    (hbudget : o.readBudgetBytes < 2 ^ 64) {watching : Bool} {fuel : ℕ}
    (hfuel : r.elements ≤ fuel) :
    ∃ pieces, planPieces fuel d g f r o watching = some pieces := by
  obtain ⟨pieces, hpieces, -⟩ := planPieces_valid (g := g) (f := f) hv hlen hbudget hfuel
  exact ⟨pieces, hpieces⟩

end Fills

/-! ## What a piece decodes -/

theorem prod_map_range (n : ℕ) (f : ℕ → ℕ) :
    ((List.range n).map f).prod = ∏ i ∈ Finset.range n, f i := by
  induction n with
  | zero => rfl
  | succ n ih => rw [List.range_succ, List.map_append, List.prod_append, ih, Finset.prod_range_succ,
      List.map_singleton, List.prod_singleton]

/-- The chunks a request touches along the axes other than `axis`, together. -/
def ReadRequest.otherLayers (r : ReadRequest) (g : ChunkGeometry) (axis : ℕ) : ℕ :=
  ∏ i ∈ (Finset.range r.axes.length).erase axis, ((r.axis i).chunks (g.chunk i)).card

/-- The layers of chunks along `axis` that a budget pays for, and one at the least. -/
def layersAffordable (r : ReadRequest) (g : ChunkGeometry) (axis : ℕ) (cost : ReadCost) : ℕ :=
  max 1 (cost.budgetBytes / (cost.chunkBytes * r.otherLayers g axis))

section Budget

variable {d : ImageDescriptor} {g f : ChunkGeometry} {r : ReadRequest} {o : ReadOptions} {a : ℕ}

variable (d g f r o a) in
/-- The axis a plan cuts is shorter than `2 ^ 63`, and so are the products it takes. -/
structure ProductsFit : Prop where
  length_lt : d.length a < 2 ^ 63
  bytes_lt : decodedChunkBytes d g +
    (if appliesPixelMask o d then decodedFlagBytes d g f else 0) < 2 ^ 63
  row_lt : (ReadCost.of d g f o).chunkBytes * r.otherLayers g a < 2 ^ 63
  cut_lt : layersAffordable r g a (ReadCost.of d g f o) * g.chunk a < 2 ^ 63

theorem card_chunks_pos {range : Range} {chunk : ℕ} (h : 0 < range.count) :
    0 < (range.chunks chunk).card :=
  Finset.card_pos.2 ⟨_, Strided.chunkAt_mem le_rfl h⟩

theorem ProductsFit.chunkBytes_pos (h : ProductsFit d g f r o a) :
    0 < (ReadCost.of d g f o).chunkBytes := by
  have h1 := h.bytes_lt
  have h2 : 1 ≤ decodedChunkBytes d g := le_max_left _ _
  simp only [ReadCost.of]
  rw [add_eq (by omega)]
  omega

theorem otherChunks_eq (hin : r.Inside d) (hpos : ∀ i < d.rank, 0 < g.chunk i)
    (hlt : r.otherLayers g a < 2 ^ 64) : otherChunks r g a = r.otherLayers g a := by
  have hrank := hin.rank_eq
  have htouch : ∀ i < r.axes.length, chunksTouched (r.axis i).start (r.axis i).count
      (r.axis i).stride (g.chunk i) = ((r.axis i).chunks (g.chunk i)).card := fun i hi =>
    chunksTouched_eq_card (hin.stride_pos i (hrank ▸ hi)) (hpos i (hrank ▸ hi))
      ((hin.last_lt i (hrank ▸ hi)).trans (d.length_lt i))
  let factor : ℕ → ℕ := fun i => if i = a then 1 else ((r.axis i).chunks (g.chunk i)).card
  have hfactor : ∀ i ∈ List.range r.axes.length, 0 < factor i := by
    intro i hi
    simp only [factor]
    split_ifs
    · exact Nat.one_pos
    · exact card_chunks_pos (hin.count_pos i (hrank ▸ List.mem_range.1 hi))
  have hprod : ((List.range r.axes.length).map factor).prod = r.otherLayers g a := by
    rw [prod_map_range, ReadRequest.otherLayers,
      ← Finset.prod_erase _ (show factor a = 1 by simp [factor])]
    exact Finset.prod_congr rfl fun i hi => if_neg (Finset.ne_of_mem_erase hi)
  have hstep : ∀ i ∈ List.range r.axes.length, ∀ acc < 2 ^ 64,
      (if i = a then acc else mul acc (if g.chunk i = 0 then 1 else max 1 (chunksTouched
        (r.axis i).start (r.axis i).count (r.axis i).stride (g.chunk i)))) =
            mul acc (factor i) := by
    intro i hi acc hacc
    have hi' := List.mem_range.1 hi
    simp only [factor]
    split_ifs with h1 h2
    · rw [mul_one_right hacc]
    · exact absurd h2 (hpos i (hrank ▸ hi')).ne'
    · rw [htouch i hi', max_eq_right (card_chunks_pos (hin.count_pos i (hrank ▸ hi')))]
  unfold otherChunks
  rw [foldl_mul_eq hstep hfactor (by rwa [one_mul, hprod]), one_mul, hprod]

theorem ProductsFit.chunksPerPiece_eq (hfit : ProductsFit d g f r o a) (hin : r.Inside d)
    (hpos : ∀ i < d.rank, 0 < g.chunk i) :
    chunksPerPiece r g a (ReadCost.of d g f o) = layersAffordable r g a (ReadCost.of d g f o) := by
  have hbytes := hfit.chunkBytes_pos
  have hrow := hfit.row_lt
  have hlayers : 0 < r.otherLayers g a := Finset.prod_pos fun i hi =>
    card_chunks_pos (hin.count_pos i
      (hin.rank_eq ▸ Finset.mem_range.1 (Finset.mem_of_mem_erase hi)))
  have hle : r.otherLayers g a ≤ (ReadCost.of d g f o).chunkBytes * r.otherLayers g a :=
    Nat.le_mul_of_pos_left _ hbytes
  have hpos' : 0 < (ReadCost.of d g f o).chunkBytes * r.otherLayers g a :=
    Nat.mul_pos hbytes hlayers
  rw [chunksPerPiece, otherChunks_eq hin hpos (by omega), mul_eq (by omega),
    max_eq_right (show 1 ≤ _ from hpos'), layersAffordable]

/-- The units of a piece: a layer of chunks each, or what fills the layers affordable. -/
theorem ProductsFit.unitsPerPiece_eq (hfit : ProductsFit d g f r o a) (hin : r.Inside d)
    (hpos : ∀ i < d.rank, 0 < g.chunk i) (ha : a < d.rank) :
    unitsPerPiece r g a (ReadCost.of d g f o) =
      if g.chunk a ≤ (r.axis a).stride then layersAffordable r g a (ReadCost.of d g f o)
      else max 1 (layersAffordable r g a (ReadCost.of d g f o) * g.chunk a /
        (r.axis a).stride) := by
  have hchunk := hpos a ha
  have hcut := hfit.cut_lt
  rw [unitsPerPiece, hfit.chunksPerPiece_eq hin hpos,
    max_eq_right (show 1 ≤ (r.axis a).stride from hin.stride_pos a ha),
    max_eq_right (show 1 ≤ g.chunk a from hchunk), mul_eq (by omega)]
  simp only [ne_eq, hchunk.ne', not_false_eq_true, true_and]

end Budget

/-- The channels 3, 4, 5 and 6 of the cube: the end of one chunk and the beginning of the next. -/
def midChunkRequest : ReadRequest := ⟨[⟨0, 4, 1⟩, ⟨0, 4, 1⟩, ⟨3, 4, 1⟩]⟩

end CartaZarr
