import CartaZarr.Store.Session
import CartaZarr.Zarr.DataTypes
import Mathlib.Algebra.BigOperators.Ring.List
import Mathlib.Algebra.Order.BigOperators.Group.List
import Mathlib.Data.List.TakeWhile

/-!
# How large a dataset declares itself

Every array of the hierarchy at its uncompressed size, as its metadata declares it. The size of an
array is built one extent after another and refused where it outgrows 64 bits, so that an array with
an extent of zero can be refused for the extents before it (`totalArraySizeBytes_iff`).
-/

namespace CartaZarr

open Word

/-- The extents of an array multiplied into what an element of it occupies. -/
def arraySizeBytes (node : String) : ℕ → List UInt64 → Except Error ℕ
  | arrayBytes, [] => .ok arrayBytes
  | arrayBytes, dimension :: shape =>
    if dimension = 0 then .ok 0
    else if arrayBytes > (2 ^ 64 - 1) / dimension.toNat then
      .error ⟨.invalidMetadata, "Array " ++ node ++ " byte size overflows uint64_t", node⟩
    else arraySizeBytes node (mul arrayBytes dimension.toNat) shape

/-- What an array of the inventory occupies. -/
def entrySizeBytes (entry : NodeEntry) : Except Error ℕ :=
  match entry.array with
  | some (.ok metadata) => do
    let elementSize ← elementSizeBytes metadata entry.name
    arraySizeBytes entry.name elementSize metadata.shape
  | some (.error e) => .error e
  -- an entry of an array has what its document parsed to
  | none => .error ⟨.invalidMetadata, "Zarr node is not an array", entry.name⟩

/-- What the arrays among the entries occupy, and how many they are, after those before. -/
def sumSizeBytes : ℕ → ℕ → List NodeEntry → Except Error (ℕ × ℕ)
  | totalBytes, arrayCount, [] => .ok (totalBytes, arrayCount)
  | totalBytes, arrayCount, entry :: entries =>
    if entry.kind ≠ .array then sumSizeBytes totalBytes arrayCount entries
    else do
      let arrayBytes ← entrySizeBytes entry
      if totalBytes > 2 ^ 64 - 1 - arrayBytes then
        .error ⟨.invalidMetadata, "Total Zarr array byte size overflows uint64_t", ""⟩
      else sumSizeBytes (add totalBytes arrayBytes) (arrayCount + 1) entries

/-- `TotalArraySizeBytes`, of what the inventory of a store answered. -/
def totalArraySizeBytes (inventory : Except Error (List NodeEntry)) : Except Error ℕ := do
  let entries ← inventory
  let (totalBytes, arrayCount) ← sumSizeBytes 0 0 entries
  if arrayCount = 0 then .error ⟨.invalidMetadata, "Zarr store contains no arrays", ""⟩
  else .ok totalBytes

/-! ## What is declared -/

/-- An array as it counts here: what an element of it occupies, and its shape. -/
structure DeclaredArray where
  elementSize : ℕ
  shape : List UInt64

namespace DeclaredArray

/-- What an array declares it holds. -/
def bytes (array : DeclaredArray) : ℕ := array.elementSize * (array.shape.map UInt64.toNat).prod

/-- What is multiplied before an extent of zero is met. -/
def bytesBeforeZero (array : DeclaredArray) : ℕ :=
  array.elementSize * ((array.shape.takeWhile (· ≠ 0)).map UInt64.toNat).prod

end DeclaredArray

/-- An entry whose array parses and has an element size that is known. -/
def NodeEntry.Declares (entry : NodeEntry) (array : DeclaredArray) : Prop :=
  ∃ metadata, entry.array = some (.ok metadata) ∧
    elementSizeBytes metadata entry.name = .ok array.elementSize ∧ metadata.shape = array.shape

/-- What the arrays of an inventory declare together. -/
def declaredBytes (arrays : List DeclaredArray) : ℕ := (arrays.map DeclaredArray.bytes).sum

/-- An array is sized when nothing outgrows 64 bits before the first extent of zero. -/
theorem arraySizeBytes_cases (node : String) {bytes : ℕ} (hbytes : bytes < 2 ^ 64)
    (shape : List UInt64) :
    (bytes * ((shape.takeWhile (· ≠ 0)).map UInt64.toNat).prod < 2 ^ 64 ∧
      arraySizeBytes node bytes shape = .ok (bytes * (shape.map UInt64.toNat).prod)) ∨
    (2 ^ 64 ≤ bytes * ((shape.takeWhile (· ≠ 0)).map UInt64.toNat).prod ∧
      ∃ e, arraySizeBytes node bytes shape = .error e) := by
  induction shape generalizing bytes with
  | nil => exact Or.inl ⟨by simpa using hbytes, by simp [arraySizeBytes]⟩
  | cons dimension shape ih =>
    by_cases h0 : dimension = 0
    · subst h0
      exact Or.inl ⟨by simpa using hbytes, by simp [arraySizeBytes]⟩
    · have hpos : 0 < dimension.toNat := Nat.pos_of_ne_zero fun h => h0 (UInt64.toNat_inj.1 h)
      have htake : (dimension :: shape).takeWhile (· ≠ 0) =
          dimension :: shape.takeWhile (· ≠ 0) := by
        simp [h0]
      rw [htake, arraySizeBytes, if_neg h0, List.map_cons, List.map_cons,
        List.prod_cons, List.prod_cons,
        ← Nat.mul_assoc, ← Nat.mul_assoc]
      by_cases hover : bytes > (2 ^ 64 - 1) / dimension.toNat
      · -- what follows is not zero, so the product only grows
        rw [if_pos hover]
        have hrest : 0 < ((shape.takeWhile (· ≠ 0)).map UInt64.toNat).prod :=
          List.prod_pos fun n hn => by
            obtain ⟨extent, hextent, rfl⟩ := List.mem_map.1 hn
            have hne := List.mem_takeWhile_imp hextent
            simp only [decide_eq_true_eq] at hne
            exact Nat.pos_of_ne_zero fun h => hne (UInt64.toNat_inj.1 h)
        have hle : 2 ^ 64 - 1 < bytes * dimension.toNat := (Nat.div_lt_iff_lt_mul hpos).1 hover
        have hgrow := Nat.le_mul_of_pos_right (bytes * dimension.toNat) hrest
        exact Or.inr ⟨by omega, _, rfl⟩
      · rw [if_neg hover]
        have hle : bytes * dimension.toNat ≤ 2 ^ 64 - 1 :=
          (Nat.le_div_iff_mul_le hpos).1 (not_lt.1 hover)
        rw [mul_eq (by omega)]
        exact ih (by omega)

/-- Where no extent is zero, what is multiplied is what is declared. -/
theorem DeclaredArray.bytesBeforeZero_of_not_mem {array : DeclaredArray} (h : 0 ∉ array.shape) :
    array.bytesBeforeZero = array.bytes := by
  have hall : array.shape.takeWhile (· ≠ 0) = array.shape :=
    List.takeWhile_eq_self_iff.2 fun extent hextent => by
      simpa using fun h0 : extent = 0 => h (h0 ▸ hextent)
  rw [bytesBeforeZero, bytes, hall]

/-- An array with an extent of zero holds nothing. -/
theorem DeclaredArray.bytes_le_bytesBeforeZero (array : DeclaredArray) :
    array.bytes ≤ array.bytesBeforeZero := by
  by_cases h : 0 ∈ array.shape
  · have hzero : (array.shape.map UInt64.toNat).prod = 0 :=
      List.prod_eq_zero (List.mem_map.2 ⟨0, h, rfl⟩)
    rw [bytes, hzero, Nat.mul_zero]
    exact Nat.zero_le _
  · rw [bytesBeforeZero_of_not_mem h]

/-- An array that is declared is sized, or multiplied out of range before its first extent of
zero. -/
theorem entrySizeBytes_cases {entry : NodeEntry} {array : DeclaredArray}
    (h : entry.Declares array) :
    (array.bytesBeforeZero < 2 ^ 64 ∧ entrySizeBytes entry = .ok array.bytes) ∨
    (2 ^ 64 ≤ array.bytesBeforeZero ∧ ∃ e, entrySizeBytes entry = .error e) := by
  obtain ⟨metadata, hmetadata, hsize, hshape⟩ := h
  have hentry : entrySizeBytes entry = arraySizeBytes entry.name array.elementSize array.shape := by
    rw [entrySizeBytes, hmetadata]
    simp only [hsize, hshape, ok_bind]
  rw [hentry]
  exact arraySizeBytes_cases entry.name (elementSizeBytes_lt hsize) array.shape

/-- The entries of arrays, in order. -/
def arrayEntries (entries : List NodeEntry) : List NodeEntry :=
  entries.filter fun entry => entry.kind = .array

/-- **The sum is exact, or refused**: where an array is multiplied out of range, or the sum is. -/
theorem sumSizeBytes_cases {entries : List NodeEntry} {arrays : List DeclaredArray}
    (h : List.Forall₂ NodeEntry.Declares (arrayEntries entries) arrays) (total count : ℕ)
    (htotal : total < 2 ^ 64) :
    ((∀ array ∈ arrays, array.bytesBeforeZero < 2 ^ 64) ∧ total + declaredBytes arrays < 2 ^ 64 ∧
      sumSizeBytes total count entries =
        .ok (total + declaredBytes arrays, count + arrays.length)) ∨
    (((∃ array ∈ arrays, 2 ^ 64 ≤ array.bytesBeforeZero) ∨ 2 ^ 64 ≤ total + declaredBytes arrays) ∧
      ∃ e, sumSizeBytes total count entries = .error e) := by
  induction entries generalizing arrays total count with
  | nil =>
    obtain rfl := List.forall₂_nil_left_iff.1 h
    exact Or.inl ⟨by simp, by simpa [declaredBytes] using htotal, by
      simp [sumSizeBytes, declaredBytes]⟩
  | cons entry entries ih =>
    by_cases hkind : entry.kind = .array
    swap
    · rw [arrayEntries, List.filter_cons_of_neg (by simpa using hkind)] at h
      rw [sumSizeBytes, if_pos hkind]
      exact ih h total count htotal
    rw [arrayEntries, List.filter_cons_of_pos (by simpa using hkind)] at h
    obtain ⟨array, rest, hdeclares, hrest, rfl⟩ := List.forall₂_cons_left_iff.1 h
    have hsum : declaredBytes (array :: rest) = array.bytes + declaredBytes rest := by
      rw [declaredBytes, List.map_cons, List.sum_cons, declaredBytes]
    rw [sumSizeBytes, if_neg (not_not.2 hkind), hsum]
    rcases entrySizeBytes_cases hdeclares with ⟨hfits, hsize⟩ | ⟨hover, e, hsize⟩
    swap
    · exact Or.inr ⟨Or.inl ⟨array, by simp, hover⟩, e, by rw [hsize]; rfl⟩
    rw [hsize, ok_bind]
    by_cases hlarge : total > 2 ^ 64 - 1 - array.bytes
    · rw [if_pos hlarge]
      exact Or.inr ⟨Or.inr (by omega), _, rfl⟩
    rw [if_neg hlarge]
    have hbytes := array.bytes_le_bytesBeforeZero
    rw [add_eq (by omega)]
    rcases ih hrest (total + array.bytes) (count + 1) (by omega) with
      ⟨hall, hlt, hrun⟩ | ⟨hbad, e, hrun⟩
    · refine Or.inl ⟨?_, by omega, ?_⟩
      · intro a ha
        rcases List.mem_cons.1 ha with rfl | ha
        · exact hfits
        · exact hall a ha
      · rw [hrun, List.length_cons]
        congr 2 <;> omega
    · refine Or.inr ⟨?_, e, hrun⟩
      rcases hbad with ⟨a, ha, hover⟩ | hover
      · exact Or.inl ⟨a, by simp [ha], hover⟩
      · exact Or.inr (by omega)

/-- **The declared size is right where no array is refused for nothing.** Of an inventory whose
arrays parse and have element sizes that are known, the size is the sum of what they declare when
that can be counted in 64 bits, and an error when it cannot, just in case the sum cannot be counted
or every array with an extent of zero stays in 64 bits up to the first of them. -/
theorem totalArraySizeBytes_iff {entries : List NodeEntry} {arrays : List DeclaredArray}
    (h : List.Forall₂ NodeEntry.Declares (arrayEntries entries) arrays) (hne : arrays ≠ []) :
    ((declaredBytes arrays < 2 ^ 64 →
      totalArraySizeBytes (.ok entries) = .ok (declaredBytes arrays)) ∧
      (2 ^ 64 ≤ declaredBytes arrays → ∃ e, totalArraySizeBytes (.ok entries) = .error e)) ↔
    (2 ^ 64 ≤ declaredBytes arrays ∨
      ∀ array ∈ arrays, 0 ∈ array.shape → array.bytesBeforeZero < 2 ^ 64) := by
  have hlen : 0 < arrays.length := List.length_pos_iff.2 hne
  rcases sumSizeBytes_cases h 0 0 (by decide) with ⟨hall, hlt, hrun⟩ | ⟨hbad, e, hrun⟩
  · rw [Nat.zero_add] at hlt hrun
    have htotal : totalArraySizeBytes (.ok entries) = .ok (declaredBytes arrays) := by
      rw [totalArraySizeBytes, ok_bind, hrun, ok_bind]
      exact if_neg (by omega)
    exact iff_of_true ⟨fun _ => htotal, fun hle => absurd hlt (not_lt.2 hle)⟩
      (Or.inr fun array harray _ => hall array harray)
  · rw [Nat.zero_add] at hbad
    have htotal : totalArraySizeBytes (.ok entries) = .error e := by
      rw [totalArraySizeBytes, ok_bind, hrun, error_bind]
    rw [htotal]
    constructor
    · rintro ⟨hexact, -⟩
      by_contra hno
      rw [not_or, not_le] at hno
      exact absurd (hexact hno.1) (by simp)
    · rintro hcond
      refine ⟨fun hlt => ?_, fun _ => ⟨e, rfl⟩⟩
      -- an array without a zero extent is multiplied to what it declares, which the sum holds
      obtain ⟨array, harray, hover⟩ := hbad.resolve_right (by omega)
      have hle : array.bytes ≤ declaredBytes arrays :=
        List.single_le_sum (fun _ _ => Nat.zero_le _) _ (List.mem_map_of_mem harray)
      by_cases hzero : 0 ∈ array.shape
      · have := hcond.resolve_left (by omega) array harray hzero
        omega
      · rw [DeclaredArray.bytesBeforeZero_of_not_mem hzero] at hover
        omega

/-- An array of booleans of some shape. -/
def flagsOfShape (shape : List UInt64) : NodeEntry :=
  { name := "FLAG", kind := .array
    array := some (.ok ⟨shape, [], "bool", .null, .object [], shape, [], .object [], .null⟩) }

/-- Three by no by five booleans, after two by two to the sixty-first, are sized. -/
theorem totalArraySizeBytes_iff_empty :
    (declaredBytes [⟨1, [2, 2 ^ 61]⟩, ⟨1, [3, 0, 5]⟩] < 2 ^ 64 →
      totalArraySizeBytes (.ok [flagsOfShape [2, 2 ^ 61], flagsOfShape [3, 0, 5]]) =
        .ok (declaredBytes [⟨1, [2, 2 ^ 61]⟩, ⟨1, [3, 0, 5]⟩])) ∧
    (2 ^ 64 ≤ declaredBytes [⟨1, [2, 2 ^ 61]⟩, ⟨1, [3, 0, 5]⟩] →
      ∃ e, totalArraySizeBytes (.ok [flagsOfShape [2, 2 ^ 61], flagsOfShape [3, 0, 5]]) =
        .error e) :=
  (totalArraySizeBytes_iff (.cons ⟨_, rfl, rfl, rfl⟩ (.cons ⟨_, rfl, rfl, rfl⟩ .nil)) (by simp)).2
    (Or.inr (by decide +kernel))

/-- An array with an extent of zero holds nothing, and is refused when that extent comes last. -/
theorem totalArraySizeBytes_zero_last :
    arrayEntries [flagsOfShape [2 ^ 40, 2 ^ 40, 0]] = [flagsOfShape [2 ^ 40, 2 ^ 40, 0]] ∧
    (flagsOfShape [2 ^ 40, 2 ^ 40, 0]).Declares ⟨1, [2 ^ 40, 2 ^ 40, 0]⟩ ∧
    declaredBytes [⟨1, [2 ^ 40, 2 ^ 40, 0]⟩] = 0 ∧
    totalArraySizeBytes (.ok [flagsOfShape [2 ^ 40, 2 ^ 40, 0]]) =
      .error ⟨.invalidMetadata, "Array FLAG byte size overflows uint64_t", "FLAG"⟩ ∧
    totalArraySizeBytes (.ok [flagsOfShape [0, 2 ^ 40, 2 ^ 40]]) = .ok 0 :=
  ⟨rfl, ⟨_, rfl, rfl, rfl⟩, by decide, by rfl, by rfl⟩

end CartaZarr
