import CartaZarr.Foundations.COrder
import CartaZarr.Store.Session
import Mathlib.Algebra.BigOperators.Ring.List

/-!
# Values addressed by the names of their dimensions

The values of an array are one buffer in C order; `NumericArray.at` takes one of them by the index
along each dimension named, a dimension that is not named being taken at its first. What it adds up
is the position asked for unless a dimension is named more than once, and the position is of a value
unless the array has none (`NumericArray.at_answers_iff`).
-/

namespace CartaZarr

open Word

abbrev NamedIndex := String × UInt64

/-- The dimension with a name. -/
def findDimensionIndex (metadata : ArrayMetadata) (name : String) : Option ℕ :=
  metadata.dimensionNames.idxOf? name

/-- How many values apart neighbours along each dimension are. -/
def strides : List UInt64 → List ℕ
  | [] => []
  | [_] => [1]
  | _ :: dimension :: shape =>
    let inner := strides (dimension :: shape)
    mul (inner.headD 1) dimension.toNat :: inner

/-- Where the value with the given indices lies, added up one after another. -/
def NumericArray.offsetOf (array : NumericArray) : List NamedIndex → ℕ → Except Error ℕ
  | [], offset => .ok offset
  | (name, index) :: indices, offset =>
    match findDimensionIndex array.metadata name with
    | none => .error ⟨.invalidSlice, "Array has no dimension named " ++ name, array.node⟩
    | some dimension =>
      if array.metadata.shape.getD dimension 0 ≤ index then
        .error ⟨.invalidSlice, "Index " ++ toString index.toNat ++
          " is past the end of dimension " ++ name, array.node⟩
      else array.offsetOf indices
        (add offset (mul index.toNat ((strides array.metadata.shape).getD dimension 0)))

/-- The value at named indices; nothing when an exception leaves, for a position outside the
values. -/
def NumericArray.at (array : NumericArray)
    (indices : List NamedIndex) : Option (Except Error UInt64) :=
  if array.metadata.dimensionNames.length ≠ array.metadata.shape.length then
    some (.error ⟨.invalidMetadata, "Array cannot be addressed by name without dimension names",
      array.node⟩)
  else
    match array.offsetOf indices 0 with
    | .error e => some (.error e)
    | .ok offset => array.values[offset]?.map .ok

namespace ArrayMetadata

variable (metadata : ArrayMetadata) (indices : List NamedIndex)

/-- The extents of the dimensions. -/
def extents : List ℕ := metadata.shape.map UInt64.toNat

/-- Each name is of a dimension, and its index inside it. -/
def Inside : Prop := ∀ p ∈ indices, ∃ dimension, findDimensionIndex metadata p.1 = some dimension ∧
  p.2.toNat < metadata.extents.getD dimension 0

/-- The index that is given along a dimension, the first where there are several. -/
def coordOf (dimension : ℕ) : ℕ :=
  match indices.find? fun p => findDimensionIndex metadata p.1 = some dimension with
  | some p => p.2.toNat
  | none => 0

/-- How many values an index goes on along its dimension. -/
def stepOf (p : NamedIndex) : ℕ :=
  p.2.toNat * COrder.step metadata.extents ((findDimensionIndex metadata p.1).getD 0)

/-- The steps of all the indices, as they are added up. -/
def stepsOf : ℕ := (indices.map metadata.stepOf).sum

/-- The steps of the indices along dimensions that have one already: those of an index before, or
`seen`. -/
def repeatedSteps : List (Option ℕ) → List NamedIndex → ℕ
  | _, [] => 0
  | seen, p :: indices =>
    if findDimensionIndex metadata p.1 ∈ seen then metadata.stepOf p + repeatedSteps seen indices
    else repeatedSteps (findDimensionIndex metadata p.1 :: seen) indices

end ArrayMetadata

/-- What an address asks for: an error, or the value at the indices named, and at the first where
none is. -/
def NumericArray.Answers (array : NumericArray) (indices : List NamedIndex) : Prop :=
  (∃ e, NumericArray.at array indices = some (.error e)) ∨
  ∃ coord : ℕ → ℕ,
    (∀ d < array.metadata.shape.length, coord d < array.metadata.extents.getD d 0) ∧
    (∀ p ∈ indices, ∃ d < array.metadata.shape.length,
      findDimensionIndex array.metadata p.1 = some d ∧ coord d = p.2.toNat) ∧
    (∀ d < array.metadata.shape.length,
      (∀ p ∈ indices, findDimensionIndex array.metadata p.1 ≠ some d) → coord d = 0) ∧
    NumericArray.at array indices =
      some (.ok (array.values.getD (COrder.position array.metadata.extents coord) 0))

/-! ## Strides and sizes -/

theorem declaredElements_eq {shape : List UInt64} {declared : ℕ}
    (h : declaredElements shape = some declared) :
    declared = (shape.map UInt64.toNat).prod ∧ declared < 2 ^ 64 := by
  have hfold : ∀ (shape : List UInt64) (start : ℕ), start < 2 ^ 64 →
      shape.foldlM (fun declared extent =>
        if extent ≠ 0 ∧ declared > (2 ^ 64 - 1) / extent.toNat then none
        else some (declared * extent.toNat)) start = some declared →
      declared = start * (shape.map UInt64.toNat).prod ∧ declared < 2 ^ 64 := by
    intro shape
    induction shape with
    | nil =>
      intro start hstart h
      obtain rfl := Option.some.inj h
      exact ⟨by simp, hstart⟩
    | cons extent shape ih =>
      intro start hstart h
      rw [List.foldlM_cons] at h
      by_cases hover : extent ≠ 0 ∧ start > (2 ^ 64 - 1) / extent.toNat
      · rw [if_pos hover] at h
        cases h
      · rw [if_neg hover] at h
        have hlt : start * extent.toNat < 2 ^ 64 := by
          rcases Nat.eq_zero_or_pos extent.toNat with h0 | hpos
          · rw [h0, Nat.mul_zero]
            decide
          · have hne : extent ≠ 0 := fun h0 => by simp [h0] at hpos
            have hle : start ≤ (2 ^ 64 - 1) / extent.toNat := not_lt.1 fun hgt => hover ⟨hne, hgt⟩
            have := (Nat.le_div_iff_mul_le hpos).1 hle
            omega
        obtain ⟨heq, hbound⟩ := ih _ hlt h
        exact ⟨by rw [heq, List.map_cons, List.prod_cons, Nat.mul_assoc], hbound⟩
  have := hfold shape 1 (by decide) h
  rwa [Nat.one_mul] at this

@[simp] theorem strides_length (shape : List UInt64) : (strides shape).length = shape.length := by
  induction shape using strides.induct with
  | case1 => rfl
  | case2 => rfl
  | case3 e dimension shape ih =>
    rw [strides, List.length_cons, ih]
    rfl

/-- Where no extent is zero and there are fewer than `2 ^ 64` elements, the strides are exact. -/
theorem strides_getD {shape : List UInt64} (hpos : ∀ extent ∈ shape, extent ≠ 0)
    (hlt : (shape.map UInt64.toNat).prod < 2 ^ 64) {dimension : ℕ} (hd : dimension < shape.length) :
    (strides shape).getD dimension 0 = COrder.step (shape.map UInt64.toNat) dimension := by
  induction shape using strides.induct generalizing dimension with
  | case1 => simp at hd
  | case2 =>
    obtain rfl : dimension = 0 := by simpa using hd
    simp [strides, COrder.step]
  | case3 e next shape ih =>
    have hepos : 0 < e.toNat := Nat.pos_of_ne_zero fun h =>
      hpos e (by simp) (UInt64.toNat_inj.1 h)
    have hinner : ((next :: shape).map UInt64.toNat).prod < 2 ^ 64 := by
      rw [List.map_cons, List.prod_cons] at hlt
      exact lt_of_le_of_lt (Nat.le_mul_of_pos_left _ hepos) hlt
    have ih := fun {d} => @ih (fun extent h => hpos extent (by simp [h])) hinner d
    rw [strides]
    cases dimension with
    | succ d =>
      rw [List.getD_cons_succ, ih (by simpa using hd)]
      rfl
    | zero =>
      have hhead : (strides (next :: shape)).headD 1 = (shape.map UInt64.toNat).prod := by
        have h0 := @ih 0 (by simp)
        have hlen := strides_length (next :: shape)
        match hs : strides (next :: shape), h0, hlen with
        | [], _, hlen => simp at hlen
        | s :: rest, h0, _ => simpa [COrder.step] using h0
      have hstep : COrder.step ((e :: next :: shape).map UInt64.toNat) 0 =
          (shape.map UInt64.toNat).prod * next.toNat := by
        simp only [COrder.step, List.map_cons, List.drop_succ_cons, List.drop_zero, List.prod_cons]
        rw [Nat.mul_comm]
      rw [List.getD_cons_zero, hhead, hstep, mul_eq]
      rw [Nat.mul_comm]
      simpa using hinner

/-! ## What is added up -/

section Offsets

variable {array : NumericArray} {metadata : ArrayMetadata} {indices : List NamedIndex}

theorem getD_extents (metadata : ArrayMetadata) (d : ℕ) :
    metadata.extents.getD d 0 = (metadata.shape.getD d 0).toNat := by
  have h := List.getD_map metadata.shape 0 (n := d) UInt64.toNat
  exact h

/-- Indices inside their dimensions are added up, wrapping. -/
theorem offsetOf_inside (h : array.metadata.Inside indices) (offset : ℕ)
    (hoffset : offset < 2 ^ 64) :
    array.offsetOf indices offset = .ok ((offset + (indices.map fun p => p.2.toNat *
      (strides array.metadata.shape).getD ((findDimensionIndex array.metadata p.1).getD 0) 0).sum) %
        2 ^ 64) := by
  induction indices generalizing offset with
  | nil =>
    rw [NumericArray.offsetOf, List.map_nil, List.sum_nil, Nat.add_zero, Nat.mod_eq_of_lt hoffset]
  | cons p indices ih =>
    obtain ⟨name, index⟩ := p
    obtain ⟨d, hd, hlt⟩ := h (name, index) (by simp)
    rw [getD_extents] at hlt
    have hinside : ¬ array.metadata.shape.getD d 0 ≤ index := by
      rw [UInt64.le_iff_toNat_le]
      exact not_le.2 hlt
    rw [NumericArray.offsetOf, hd]
    simp only [if_neg hinside]
    rw [ih (fun q hq => h q (by simp [hq])) _ (add_lt _ _)]
    simp only [List.map_cons, List.sum_cons, hd, Option.getD_some, add, mul]
    generalize index.toNat * (strides array.metadata.shape).getD d 0 = first
    generalize List.sum (_ : List ℕ) = rest
    congr 1
    omega

/-- A name of no dimension, or an index past the end of one, is refused. -/
theorem offsetOf_outside (h : ¬ array.metadata.Inside indices) (offset : ℕ) :
    ∃ e, array.offsetOf indices offset = .error e := by
  induction indices generalizing offset with
  | nil => exact absurd (fun p hp => absurd hp (by simp)) h
  | cons p indices ih =>
    obtain ⟨name, index⟩ := p
    rw [NumericArray.offsetOf]
    cases hd : findDimensionIndex array.metadata name with
    | none => exact ⟨_, rfl⟩
    | some d =>
      simp only
      by_cases hle : array.metadata.shape.getD d 0 ≤ index
      · rw [if_pos hle]
        exact ⟨_, rfl⟩
      · rw [if_neg hle]
        refine ih (fun hrest => h fun q hq => ?_) _
        rcases List.mem_cons.1 hq with rfl | hq
        · refine ⟨d, hd, ?_⟩
          rw [getD_extents]
          rw [UInt64.le_iff_toNat_le] at hle
          exact not_le.1 hle
        · exact hrest q hq

/-- Where the extents have strides that are exact, what is added up is the steps of the indices. -/
theorem offsetOf_eq_stepsOf (hpos : ∀ extent ∈ array.metadata.shape, extent ≠ 0)
    (hlt : array.metadata.extents.prod < 2 ^ 64) (h : array.metadata.Inside indices) :
    array.offsetOf indices 0 = .ok (array.metadata.stepsOf indices % 2 ^ 64) := by
  rw [offsetOf_inside h 0 (by decide), Nat.zero_add, ArrayMetadata.stepsOf]
  congr 3
  refine List.map_congr_left fun p hp => ?_
  obtain ⟨d, hd, hlt'⟩ := h p hp
  have hrank : d < array.metadata.shape.length := by
    by_contra hout
    rw [List.getD_eq_default _ _ (by simpa [ArrayMetadata.extents] using hout)] at hlt'
    exact Nat.not_lt_zero _ hlt'
  rw [ArrayMetadata.stepOf, hd, Option.getD_some, strides_getD hpos hlt hrank]
  rfl

theorem Inside.lt_rank (h : metadata.Inside indices) {p : NamedIndex} (hp : p ∈ indices) :
    ∃ d < metadata.shape.length, findDimensionIndex metadata p.1 = some d ∧
      p.2.toNat < metadata.extents.getD d 0 := by
  obtain ⟨d, hd, hlt⟩ := h p hp
  refine ⟨d, ?_, hd, hlt⟩
  by_contra hout
  rw [List.getD_eq_default _ _ (by simpa [ArrayMetadata.extents] using hout)] at hlt
  exact Nat.not_lt_zero _ hlt

/-- The index along a dimension that is not named. -/
theorem coordOf_of_unnamed {d : ℕ} (h : ∀ p ∈ indices, findDimensionIndex metadata p.1 ≠ some d) :
    metadata.coordOf indices d = 0 := by
  rw [ArrayMetadata.coordOf, List.find?_eq_none.2 fun p hp => by simpa using h p hp]

/-- The index along a dimension whose names agree. -/
theorem coordOf_of_named
    (hagree : ∀ p ∈ indices, ∀ q ∈ indices,
      findDimensionIndex metadata p.1 = findDimensionIndex metadata q.1 → p.2 = q.2)
    {p : NamedIndex} (hp : p ∈ indices) {d : ℕ} (hd : findDimensionIndex metadata p.1 = some d) :
    metadata.coordOf indices d = p.2.toNat := by
  rw [ArrayMetadata.coordOf]
  cases hfind : indices.find? fun p => findDimensionIndex metadata p.1 = some d with
  | none => exact absurd hd (by simpa using List.find?_eq_none.1 hfind p hp)
  | some q =>
    have hq : findDimensionIndex metadata q.1 = some d := by simpa using List.find?_some hfind
    rw [hagree p hp q (List.mem_of_find?_eq_some hfind) (hd.trans hq.symm)]

/-- The index along every dimension is inside it. -/
theorem coordOf_lt (hpos : ∀ extent ∈ metadata.shape, extent ≠ 0)
    (h : metadata.Inside indices) {d : ℕ}
    (hd : d < metadata.shape.length) : metadata.coordOf indices d < metadata.extents.getD d 0 := by
  rw [ArrayMetadata.coordOf]
  cases hfind : indices.find? fun p => findDimensionIndex metadata p.1 = some d with
  | none =>
    rw [getD_extents, List.getD_eq_getElem _ _ hd]
    exact Nat.pos_of_ne_zero fun h0 =>
      hpos _ (List.getElem_mem hd) (UInt64.toNat_inj.1 h0)
  | some p =>
    obtain ⟨d', hd', hlt⟩ := h p (List.mem_of_find?_eq_some hfind)
    have hp : findDimensionIndex metadata p.1 = some d := by simpa using List.find?_some hfind
    rwa [← Option.some.inj (hd'.symm.trans hp)]

end Offsets

/-- An address that is added up to the position it asks for: there are values, a name given again
repeats its index, and what the repeated names add is a multiple of `2 ^ 64`. -/
structure ArrayMetadata.Addressed (metadata : ArrayMetadata)
    (indices : List NamedIndex) : Prop where
  extents_pos : ∀ extent ∈ metadata.shape, extent ≠ 0
  agree : ∀ p ∈ indices, ∀ q ∈ indices,
    findDimensionIndex metadata p.1 = findDimensionIndex metadata q.1 → p.2 = q.2
  repeated : 2 ^ 64 ∣ metadata.repeatedSteps [] indices

theorem make_eq_ok_iff {node : String} {metadata : ArrayMetadata}
    {values : List UInt64} {declared : ℕ}
    (hd : declaredElements metadata.shape = some declared) {array : NumericArray} :
    NumericArray.make node metadata values = .ok array ↔
      values.length = declared ∧ array = ⟨node, metadata, values⟩ := by
  rw [NumericArray.make, hd]
  simp only
  by_cases h : values.length = declared
  · rw [if_neg (not_not.2 h)]
    constructor
    · rintro ⟨⟩
      exact ⟨h, rfl⟩
    · rintro ⟨-, rfl⟩
      rfl
  · rw [if_pos h]
    exact iff_of_false (by simp) fun h' => h h'.1

/-- The steps of the indices are those to their position, and those of the repeated names. -/
theorem stepsOf_eq {metadata : ArrayMetadata} {indices : List NamedIndex}
    (hin : metadata.Inside indices) :
    metadata.stepsOf indices = COrder.position metadata.extents (metadata.coordOf indices) +
      metadata.repeatedSteps [] indices := by
  -- the dimensions seen have their steps already
  have hseen : ∀ seen : List (Option ℕ), metadata.stepsOf indices =
      (∑ d ∈ Finset.range metadata.extents.length with some d ∉ seen,
        metadata.coordOf indices d * COrder.step metadata.extents d) +
          metadata.repeatedSteps seen indices := by
    induction indices with
    | nil =>
      intro seen
      have hzero : ∀ d, metadata.coordOf [] d = 0 := fun d => rfl
      simp [ArrayMetadata.stepsOf, ArrayMetadata.repeatedSteps, hzero]
    | cons p indices ih =>
      intro seen
      obtain ⟨d, hrank, hd, -⟩ := Inside.lt_rank hin (p := p) (by simp)
      have ih := ih fun q hq => hin q (by simp [hq])
      have hsteps : metadata.stepsOf (p :: indices) =
          p.2.toNat * COrder.step metadata.extents d + metadata.stepsOf indices := by
        rw [ArrayMetadata.stepsOf, List.map_cons, List.sum_cons, ArrayMetadata.stepOf, hd]
        rfl
      have hcoord : metadata.coordOf (p :: indices) d = p.2.toNat := by
        rw [ArrayMetadata.coordOf, List.find?_cons_of_pos (by simpa using hd)]
      have hother : ∀ d' ≠ d, metadata.coordOf (p :: indices) d' = metadata.coordOf indices d' := by
        intro d' hne
        have hp : findDimensionIndex metadata p.1 ≠ some d' := by
          rw [hd]
          exact fun h => hne (Option.some.inj h).symm
        rw [ArrayMetadata.coordOf, List.find?_cons_of_neg (by simpa using hp)]
        rfl
      rw [ArrayMetadata.repeatedSteps, hsteps, ArrayMetadata.stepOf, hd]
      split_ifs with hmem
      · -- the dimension has its steps from an index before
        rw [ih seen, Option.getD_some, add_left_comm]
        congr 1
        refine Finset.sum_congr rfl fun d' hd' => ?_
        rw [hother]
        rintro rfl
        exact (Finset.mem_filter.1 hd').2 hmem
      · rw [ih (some d :: seen), ← add_assoc]
        congr 1
        have hrange : d ∈ (Finset.range metadata.extents.length).filter fun d' =>
            some d' ∉ seen := by
          simpa [ArrayMetadata.extents] using And.intro hrank hmem
        rw [← Finset.add_sum_erase _ _ hrange, hcoord]
        congr 1
        have herase : ((Finset.range metadata.extents.length).filter fun d' =>
          some d' ∉ seen).erase d =
            (Finset.range metadata.extents.length).filter fun d' => some d' ∉ some d :: seen := by
          ext d'
          simp only [Finset.mem_erase, Finset.mem_filter, List.mem_cons, Option.some.injEq, not_or]
          tauto
        rw [herase]
        refine Finset.sum_congr rfl fun d' hd' => ?_
        rw [hother d' fun h => (Finset.mem_filter.1 hd').2 (by simp [h])]
  rw [hseen [], COrder.position_eq_sum]
  simp

/-- Indices along different dimensions repeat none. -/
theorem repeatedSteps_of_nodup {metadata : ArrayMetadata} {indices : List NamedIndex}
    {seen : List (Option ℕ)} (hnodup : (indices.map fun p => findDimensionIndex metadata p.1).Nodup)
    (hseen : ∀ p ∈ indices, findDimensionIndex metadata p.1 ∉ seen) :
    metadata.repeatedSteps seen indices = 0 := by
  induction indices generalizing seen with
  | nil => rfl
  | cons p indices ih =>
    rw [List.map_cons, List.nodup_cons] at hnodup
    rw [ArrayMetadata.repeatedSteps, if_neg (hseen p (by simp))]
    refine ih hnodup.2 fun q hq hmem => ?_
    rcases List.mem_cons.1 hmem with h | h
    · exact hnodup.1 (List.mem_map.2 ⟨q, hq, h⟩)
    · exact hseen q (by simp [hq]) h

/-- Where there are values, the steps come to the position exactly when the repeated names add
nothing. -/
theorem stepsOf_mod_iff {metadata : ArrayMetadata} {indices : List NamedIndex}
    (hpos : ∀ extent ∈ metadata.shape, extent ≠ 0) (hlt : metadata.extents.prod < 2 ^ 64)
    (hin : metadata.Inside indices) :
    metadata.stepsOf indices % 2 ^ 64 =
      COrder.position metadata.extents (metadata.coordOf indices) ↔
      2 ^ 64 ∣ metadata.repeatedSteps [] indices := by
  have hbound : COrder.position metadata.extents (metadata.coordOf indices) <
      metadata.extents.prod :=
    COrder.position_lt fun d hd => coordOf_lt hpos hin (by simpa [ArrayMetadata.extents] using hd)
  rw [stepsOf_eq hin]
  omega

/-- **The value addressed**, of an address that is added up to its position. -/
theorem ArrayMetadata.Addressed.at_eq {metadata : ArrayMetadata} {indices : List NamedIndex}
    (h : metadata.Addressed indices)
    (hnames : metadata.dimensionNames.length = metadata.shape.length)
    (hin : metadata.Inside indices) {node : String} {values : List UInt64}
    (hlen : values.length = metadata.extents.prod) (hlt : metadata.extents.prod < 2 ^ 64) :
    NumericArray.at ⟨node, metadata, values⟩ indices = some (.ok
      (values.getD (COrder.position metadata.extents (metadata.coordOf indices)) 0)) := by
  have hposition : COrder.position metadata.extents (metadata.coordOf indices) < values.length := by
    rw [hlen]
    refine COrder.position_lt fun d hd => coordOf_lt h.extents_pos hin ?_
    simpa [ArrayMetadata.extents] using hd
  have hoffset : NumericArray.offsetOf ⟨node, metadata, values⟩ indices 0 =
      .ok (metadata.stepsOf indices % 2 ^ 64) := offsetOf_eq_stepsOf h.extents_pos hlt hin
  rw [NumericArray.at, if_neg (not_not.2 hnames), hoffset]
  simp only
  rw [(stepsOf_mod_iff h.extents_pos hlt hin).2 h.repeated, List.getElem?_eq_getElem hposition,
    List.getD_eq_getElem _ _ hposition]
  rfl

/-- An address of different dimensions, of an array that has values. -/
theorem ArrayMetadata.Addressed.of_nodup {metadata : ArrayMetadata} {indices : List NamedIndex}
    (hpos : ∀ extent ∈ metadata.shape, extent ≠ 0)
    (hnodup : (indices.map fun p => findDimensionIndex metadata p.1).Nodup) :
    metadata.Addressed indices := by
  refine ⟨hpos, fun p hp q hq hpq => ?_, ?_⟩
  · rw [List.inj_on_of_nodup_map hnodup hp hq hpq]
  · rw [repeatedSteps_of_nodup hnodup (by simp)]
    exact dvd_zero _

/-- An array whose dimensions are all named, each once, has the value at the coordinates named. -/
theorem at_of_all_named {array : NumericArray} {indices : List NamedIndex} {coord : ℕ → ℕ}
    (hnames : array.metadata.dimensionNames.length = array.metadata.shape.length)
    (hlen : array.values.length = array.metadata.extents.prod)
    (hlt : array.metadata.extents.prod < 2 ^ 64) (hin : array.metadata.Inside indices)
    (hnodup : (indices.map fun p => findDimensionIndex array.metadata p.1).Nodup)
    (hall : ∀ d < array.metadata.shape.length, ∃ p ∈ indices,
      findDimensionIndex array.metadata p.1 = some d)
    (hcoord : ∀ p ∈ indices, ∀ d, findDimensionIndex array.metadata p.1 = some d →
      coord d = p.2.toNat) :
    NumericArray.at array indices =
      some (.ok (array.values.getD (COrder.position array.metadata.extents coord) 0)) := by
  have hpos : ∀ extent ∈ array.metadata.shape, extent ≠ 0 := by
    rintro extent hextent rfl
    obtain ⟨d, hd, hzero⟩ := List.mem_iff_getElem.1 hextent
    obtain ⟨p, hp, hpd⟩ := hall d hd
    obtain ⟨d', -, hd', hinside⟩ := Inside.lt_rank hin hp
    obtain rfl := Option.some.inj (hpd.symm.trans hd')
    rw [getD_extents, List.getD_eq_getElem _ _ hd, hzero] at hinside
    exact Nat.not_lt_zero _ hinside
  have haddressed := ArrayMetadata.Addressed.of_nodup hpos hnodup
  have hposition : COrder.position array.metadata.extents (array.metadata.coordOf indices) =
      COrder.position array.metadata.extents coord := by
    refine COrder.position_congr fun d hd => ?_
    obtain ⟨p, hp, hpd⟩ := hall d (by simpa [ArrayMetadata.extents] using hd)
    rw [coordOf_of_named haddressed.agree hp hpd, hcoord p hp d hpd]
  rw [← hposition]
  exact haddressed.at_eq hnames hin hlen hlt

/-- A name found is of the dimension it is found at. -/
theorem findDimensionIndex_eq_some_iff {metadata : ArrayMetadata}
    (hnodup : metadata.dimensionNames.Nodup)
    {name : String} {d : ℕ} :
    findDimensionIndex metadata name = some d ↔ metadata.dimensionNames[d]? = some name := by
  rw [findDimensionIndex, List.idxOf?_eq_some_iff]
  constructor
  · rintro ⟨hd, hname, -⟩
    rw [List.getElem?_eq_getElem hd, hname]
  · intro h
    obtain ⟨hd, hname⟩ := List.getElem?_eq_some_iff.1 h
    refine ⟨hd, hname, fun j hj => ?_⟩
    rw [← hname]
    exact fun h' => (hnodup.getElem_inj_iff.1 h').not_lt hj

/-- What an answer that is no error is, of indices inside their dimensions. -/
theorem NumericArray.Answers.exists_coord {metadata : ArrayMetadata} {indices : List NamedIndex}
    {node : String} {values : List UInt64}
    (hnames : metadata.dimensionNames.length = metadata.shape.length)
    (hin : metadata.Inside indices)
    (h : NumericArray.Answers ⟨node, metadata, values⟩ indices) :
    ∃ coord : ℕ → ℕ,
      (∀ p ∈ indices, ∀ d, findDimensionIndex metadata p.1 = some d → coord d = p.2.toNat) ∧
      (∀ d < metadata.shape.length, (∀ p ∈ indices, findDimensionIndex metadata p.1 ≠ some d) →
        coord d = 0) ∧
      ∃ offset, NumericArray.offsetOf ⟨node, metadata, values⟩ indices 0 = .ok offset ∧
        values[offset]? = some (values.getD (COrder.position metadata.extents coord) 0) := by
  obtain ⟨offset, hoffset⟩ : ∃ offset,
      NumericArray.offsetOf ⟨node, metadata, values⟩ indices 0 = .ok offset :=
    ⟨_, offsetOf_inside hin 0 (by decide)⟩
  have hat : NumericArray.at ⟨node, metadata, values⟩ indices = values[offset]?.map .ok := by
    rw [NumericArray.at, if_neg (not_not.2 hnames), hoffset]
  rcases h with ⟨e, he⟩ | ⟨coord, -, hnamed, hunnamed, hvalue⟩
  · rw [hat, Option.map_eq_some_iff] at he
    obtain ⟨_, -, he⟩ := he
    cases he
  · rw [hat, Option.map_eq_some_iff] at hvalue
    obtain ⟨value, hget, hvalue⟩ := hvalue
    refine ⟨coord, fun p hp d hd => ?_, hunnamed, offset, hoffset, ?_⟩
    · obtain ⟨d', -, hd', hcoord⟩ := hnamed p hp
      rwa [← Option.some.inj (hd'.symm.trans hd)]
    · rw [hget, Except.ok.inj hvalue]

/-- **An address is answered rightly just in case** it is refused, or there are values and what its
repeated names add is nothing. -/
theorem NumericArray.at_answers_iff {metadata : ArrayMetadata} {declared : ℕ}
    (hd : declaredElements metadata.shape = some declared) (node : String)
    (indices : List NamedIndex) :
    (∀ values array, NumericArray.make node metadata values = .ok array → array.Answers indices) ↔
      metadata.dimensionNames.length ≠ metadata.shape.length ∨ ¬ metadata.Inside indices ∨
        metadata.Addressed indices := by
  obtain ⟨hdeclared, hlt⟩ := declaredElements_eq hd
  change declared = metadata.extents.prod at hdeclared
  subst hdeclared
  by_cases hnames : metadata.dimensionNames.length = metadata.shape.length
  swap
  · refine iff_of_true (fun values array hmake => Or.inl ?_) (Or.inl hnames)
    obtain ⟨-, rfl⟩ := (make_eq_ok_iff hd).1 hmake
    rw [NumericArray.at, if_pos hnames]
    exact ⟨_, rfl⟩
  by_cases hin : metadata.Inside indices
  swap
  · refine iff_of_true (fun values array hmake => Or.inl ?_) (Or.inr (Or.inl hin))
    obtain ⟨-, rfl⟩ := (make_eq_ok_iff hd).1 hmake
    obtain ⟨e, he⟩ := @offsetOf_outside ⟨node, metadata, values⟩ indices hin 0
    rw [NumericArray.at, if_neg (not_not.2 hnames), he]
    exact ⟨e, rfl⟩
  constructor
  · intro hall
    refine Or.inr (Or.inr ?_)
    have hanswers := fun values (hlen : values.length = metadata.extents.prod) =>
      (hall values _ ((make_eq_ok_iff hd).2 ⟨hlen, rfl⟩)).exists_coord hnames hin
    have hpos : ∀ extent ∈ metadata.shape, extent ≠ 0 := by
      rintro extent hextent rfl
      have hzero : metadata.extents.prod = 0 :=
        List.prod_eq_zero (List.mem_map.2 ⟨0, hextent, rfl⟩)
      obtain ⟨_, -, -, offset, -, hget⟩ := hanswers [] (by rw [hzero]; rfl)
      simp at hget
    have hagree : ∀ p ∈ indices, ∀ q ∈ indices,
        findDimensionIndex metadata p.1 = findDimensionIndex metadata q.1 → p.2 = q.2 := by
      intro p hp q hq hpq
      obtain ⟨coord, hnamed, -⟩ :=
        hanswers (List.replicate metadata.extents.prod 0) List.length_replicate
      obtain ⟨d, -, hd, -⟩ := Inside.lt_rank hin hp
      exact UInt64.toNat_inj.1 ((hnamed p hp d hd).symm.trans (hnamed q hq d (hpq ▸ hd)))
    refine ⟨hpos, hagree, (stepsOf_mod_iff hpos hlt hin).1 ?_⟩
    -- a buffer that is zero but at the position asked for
    set position := COrder.position metadata.extents (metadata.coordOf indices) with hposition
    have hrank : metadata.extents.length = metadata.shape.length := List.length_map _
    have hlt' : position < metadata.extents.prod :=
      COrder.position_lt fun d hd => coordOf_lt hpos hin (by rwa [← hrank])
    obtain ⟨coord, hnamed, hunnamed, offset, hoffset, hget⟩ :=
      hanswers ((List.replicate metadata.extents.prod 0).set position 1) (by simp)
    have hcoord : COrder.position metadata.extents coord = position := by
      refine COrder.position_congr fun d hd => ?_
      by_cases hno : ∀ p ∈ indices, findDimensionIndex metadata p.1 ≠ some d
      · rw [hunnamed d (by rwa [← hrank]) hno, coordOf_of_unnamed hno]
      · push Not at hno
        obtain ⟨p, hp, hd⟩ := hno
        rw [hnamed p hp d hd, coordOf_of_named hagree hp hd]
    have hsteps : NumericArray.offsetOf
        ⟨node, metadata, (List.replicate metadata.extents.prod 0).set position 1⟩ indices 0 =
        .ok (metadata.stepsOf indices % 2 ^ 64) := offsetOf_eq_stepsOf hpos hlt hin
    rw [hsteps] at hoffset
    rw [Except.ok.inj hoffset]
    by_contra hne
    rw [hcoord, List.getElem?_set_ne (Ne.symm hne), List.getD_eq_getElem _ _ (by simpa using hlt'),
      List.getElem_set_self, List.getElem?_replicate] at hget
    split at hget
    · exact absurd (Option.some.inj hget) (by decide)
    · cases hget
  · rintro (h | h | h) values array hmake
    · exact absurd hnames h
    · exact absurd hin h
    · obtain ⟨hlen, rfl⟩ := (make_eq_ok_iff hd).1 hmake
      refine Or.inr ⟨metadata.coordOf indices, fun d hd =>
        coordOf_lt h.extents_pos hin hd, fun p hp => ?_,
        fun d _ hno => coordOf_of_unnamed hno, h.at_eq hnames hin hlen hlt⟩
      obtain ⟨d, hrank, hd, -⟩ := Inside.lt_rank hin hp
      exact ⟨d, hrank, hd, coordOf_of_named h.agree hp hd⟩

/-- Two times by three channels, addressed by channel. -/
def timesByChannels : ArrayMetadata where
  shape := [2, 3]
  dimensionNames := ["time", "frequency"]
  dataType := "float64"
  attributes := .object []
  chunkShape := [2, 3]

theorem NumericArray.at_answers_iff_channel :
    NumericArray.Answers ⟨"BEAM", timesByChannels, [0, 1, 2, 3, 4, 5]⟩ [("frequency", 2)] := by
  have hd : declaredElements timesByChannels.shape = some 6 := by decide
  exact (at_answers_iff hd "BEAM" [("frequency", 2)]).2 (Or.inr (Or.inr
    ⟨by simp [timesByChannels], by decide, by decide⟩)) [0, 1, 2, 3, 4, 5] _ rfl

/-- An index given twice is added twice, past the last value, and an array without values has none
at its first position. -/
theorem NumericArray.at_throws :
    NumericArray.make "BEAM" timesByChannels [0, 0, 0, 0, 0, 0] =
      .ok ⟨"BEAM", timesByChannels, [0, 0, 0, 0, 0, 0]⟩ ∧
    NumericArray.at ⟨"BEAM", timesByChannels, [0, 0, 0, 0, 0, 0]⟩ [("time", 1),
      ("time", 1)] = none ∧
    ¬ NumericArray.Answers ⟨"BEAM", timesByChannels, [0, 0, 0, 0, 0, 0]⟩
      [("time", 1), ("time", 1)] ∧
    NumericArray.make "BEAM" { timesByChannels with shape := [2, 0] } [] =
      .ok ⟨"BEAM", { timesByChannels with shape := [2, 0] }, []⟩ ∧
    NumericArray.at ⟨"BEAM", { timesByChannels with shape := [2, 0] }, []⟩
      [("time", 1)] = none := by
  have hat : NumericArray.at ⟨"BEAM", timesByChannels, [0, 0, 0, 0, 0, 0]⟩
      [("time", 1), ("time", 1)] = none := by decide
  refine ⟨rfl, hat, ?_, rfl, by decide⟩
  rintro (⟨e, he⟩ | ⟨coord, -, -, -, hvalue⟩)
  · rw [hat] at he
    cases he
  · rw [hat] at hvalue
    cases hvalue

end CartaZarr
