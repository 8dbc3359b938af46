import CartaZarr.Xradio.Attributes
import CartaZarr.Zarr.NumericArray
import Mathlib.Data.List.ProdSigma

/-!
# Tables of beams

A table of beams has a value of each beam parameter for every channel and polarization, and for
every time where it has times. Its values are taken by the names of its dimensions, so that the
beams it describes do not depend on the order they are stored in (`describeBeams_transposed`), and
the parameters by their labels.
-/

namespace CartaZarr

/-- Which parameters are the axes of a beam and its position angle. -/
structure BeamParameterIndices where
  major : Option ℕ := none
  minor : Option ℕ := none
  positionAngle : Option ℕ := none
  deriving DecidableEq, Repr

/-- The last label that names each, in upper case. -/
def findBeamParameterIndices (labels : List Bytes) : BeamParameterIndices :=
  labels.zipIdx.foldl (fun indices label =>
    if upper label.1 = spelled "MAJOR" then { indices with major := some label.2 }
    else if upper label.1 = spelled "MINOR" then { indices with minor := some label.2 }
    else if upper label.1 = spelled "PA" then { indices with positionAngle := some label.2 }
    else indices) {}

/-- A beam. Its values are doubles, kept as their bits. -/
structure Beam where
  time : ℕ
  channel : ℕ
  polarization : ℕ
  unit : String
  major : UInt64
  minor : UInt64
  positionAngle : UInt64
  deriving DecidableEq, Repr

def beamIndices (channel polarization parameter : ℕ) (hasTimeDimension : Bool) (time : ℕ) :
    List NamedIndex :=
  [("frequency", .ofNat channel), ("polarization", .ofNat polarization),
    ("beam_params_label", .ofNat parameter)] ++
  if hasTimeDimension then [("time", .ofNat time)] else []

def readBeamValue (table : NumericArray) (channel polarization parameter : ℕ)
    (hasTimeDimension : Bool) (time : ℕ) : ExceptT Error Option UInt64 :=
  NumericArray.at table (beamIndices channel polarization parameter hasTimeDimension time)

/-- The extent of the dimension with a name. -/
def extentOf (metadata : ArrayMetadata) (name : String) : Option ℕ :=
  (findDimensionIndex metadata name).map fun dimension => (metadata.shape.getD dimension 0).toNat

/-- The beam of a time, a channel and a polarization. -/
def readBeam (table : NumericArray) (major minor positionAngle : ℕ) (hasTimeDimension : Bool)
    (place : ℕ × ℕ × ℕ) : ExceptT Error Option Beam := do
  let read := fun parameter =>
    readBeamValue table place.2.1 place.2.2 parameter hasTimeDimension place.1
  let majorValue ← read major
  let minorValue ← read minor
  let positionAngleValue ← read positionAngle
  return {
    time := place.1, channel := place.2.1, polarization := place.2.2
    unit := attributeString table.metadata.attributes "units"
    major := majorValue, minor := minorValue, positionAngle := positionAngleValue }

/-- The places of the beams, time slowest. -/
def beamPlaces (nTime nChan nPol : ℕ) : List (ℕ × ℕ × ℕ) :=
  (List.range nTime).product ((List.range nChan).product (List.range nPol))

def describeBeams (table : NumericArray) (parameterLabels : List Bytes) :
    ExceptT Error Option (List Beam) :=
  let metadata := table.metadata
  let parameters := findBeamParameterIndices parameterLabels
  match extentOf metadata "frequency", extentOf metadata "polarization",
    extentOf metadata "beam_params_label" with
  | some nChan, some nPol, some nParam =>
    if parameterLabels.length ≠ nParam then
      throw ⟨.invalidMetadata, "Beam parameter labels are " ++ toString parameterLabels.length ++
        " where the beam table has " ++ toString nParam ++ " parameters", "beam_params_label"⟩
    else match parameters.major, parameters.minor, parameters.positionAngle with
      | some major, some minor, some positionAngle =>
        let nTime := (extentOf metadata "time").getD 1
        (beamPlaces nTime nChan nPol).mapM
          (readBeam table major minor positionAngle (extentOf metadata "time").isSome)
      | _, _, _ => throw ⟨.invalidMetadata,
          "Beam parameter labels do not name a major axis, a minor axis and a position angle",
          "beam_params_label"⟩
  | _, _, _ => throw ⟨.invalidMetadata,
      "Beam table does not carry the frequency, polarization and parameter dimensions", table.node⟩

/-! ## Transposed tables -/

/-- The same values stored with their dimensions in another order: dimension `i` of `b` is dimension
`order[i]` of `a`. -/
structure Transposed (order : List ℕ) (a b : NumericArray) : Prop where
  perm : order.Perm (List.range a.metadata.shape.length)
  node : b.node = a.node
  attributes : b.metadata.attributes = a.metadata.attributes
  names : b.metadata.dimensionNames = order.map fun d => a.metadata.dimensionNames.getD d ""
  shape : b.metadata.shape = order.map fun d => a.metadata.shape.getD d 0
  values : ∀ coord : ℕ → ℕ, (∀ d < a.metadata.shape.length, coord d < a.metadata.extents.getD d 0) →
    b.values.getD (COrder.position b.metadata.extents fun i => coord (order.getD i 0)) 0 =
      a.values.getD (COrder.position a.metadata.extents coord) 0

/-- A table of beams, as it is made: its dimensions have their names, in some order. -/
structure IsBeamTable (table : NumericArray) : Prop where
  made : NumericArray.make table.node table.metadata table.values = .ok table
  names : table.metadata.dimensionNames.Perm ["frequency", "polarization", "beam_params_label"] ∨
    table.metadata.dimensionNames.Perm ["frequency", "polarization", "beam_params_label", "time"]
  rank : table.metadata.dimensionNames.length = table.metadata.shape.length

/-- The coordinates of a value of a beam along the dimensions of its table. -/
def beamCoord (metadata : ArrayMetadata) (place : ℕ × ℕ × ℕ) (parameter d : ℕ) : ℕ :=
  if metadata.dimensionNames.getD d "" = "frequency" then place.2.1
  else if metadata.dimensionNames.getD d "" = "polarization" then place.2.2
  else if metadata.dimensionNames.getD d "" = "beam_params_label" then parameter
  else if metadata.dimensionNames.getD d "" = "time" then place.1
  else 0

/-- The value of a beam, where the table has it. -/
def beamValue (table : NumericArray) (place : ℕ × ℕ × ℕ) (parameter : ℕ) : UInt64 :=
  table.values.getD (COrder.position table.metadata.extents
    (beamCoord table.metadata place parameter)) 0

/-- The last of the labels that is a name in upper case. -/
def IsLastLabel (labels : List Bytes) (name : String) (index : ℕ) : Prop :=
  (labels[index]?.map upper) = some (spelled name) ∧
    ∀ later, index < later → labels[later]?.map upper ≠ some (spelled name)

/-! ## Labels -/

section Labels

variable {labels : List Bytes} {label : Bytes} {name : String} {index : ℕ}

theorem IsLastLabel.lt (h : IsLastLabel labels name index) : index < labels.length := by
  by_contra hout
  rw [IsLastLabel, List.getElem?_eq_none (by omega)] at h
  exact absurd h.1 (by simp)

theorem IsLastLabel.concat (h : IsLastLabel labels name index) (hne : upper label ≠ spelled name) :
    IsLastLabel (labels ++ [label]) name index := by
  have hlt := h.lt
  refine ⟨by rw [List.getElem?_append_left hlt]; exact h.1, fun later hlater => ?_⟩
  rcases Nat.lt_trichotomy later labels.length with h' | h' | h'
  · rw [List.getElem?_append_left h']
    exact h.2 later hlater
  · subst h'
    simpa using hne
  · rw [List.getElem?_eq_none (by simp; omega)]
    simp

theorem isLastLabel_concat_self (h : upper label = spelled name) :
    IsLastLabel (labels ++ [label]) name labels.length := by
  refine ⟨by simpa using h, fun later hlater => ?_⟩
  rw [List.getElem?_eq_none (by simp; omega)]
  simp

/-- The parameters found are the last labels of their names. -/
theorem findBeamParameterIndices_spec (labels : List Bytes) :
    (∀ i, (findBeamParameterIndices labels).major = some i → IsLastLabel labels "MAJOR" i) ∧
    (∀ i, (findBeamParameterIndices labels).minor = some i → IsLastLabel labels "MINOR" i) ∧
    ∀ i, (findBeamParameterIndices labels).positionAngle = some i → IsLastLabel labels "PA" i := by
  induction labels using List.reverseRecOn with
  | nil => exact ⟨by rintro i ⟨⟩, by rintro i ⟨⟩, by rintro i ⟨⟩⟩
  | append_singleton labels label ih =>
    obtain ⟨hmajor, hminor, hpa⟩ := ih
    have hstep : findBeamParameterIndices (labels ++ [label]) =
        if upper label = spelled "MAJOR" then
          { findBeamParameterIndices labels with major := some labels.length }
        else if upper label = spelled "MINOR" then
          { findBeamParameterIndices labels with minor := some labels.length }
        else if upper label = spelled "PA" then
          { findBeamParameterIndices labels with positionAngle := some labels.length }
        else findBeamParameterIndices labels := by
      rw [findBeamParameterIndices, List.zipIdx_append, List.foldl_append]
      simp only [List.zipIdx_singleton, Nat.zero_add, List.foldl_cons, List.foldl_nil]
      rfl
    have hMajorMinor : spelled "MAJOR" ≠ spelled "MINOR" := by decide +kernel
    have hMajorPa : spelled "MAJOR" ≠ spelled "PA" := by decide +kernel
    have hMinorPa : spelled "MINOR" ≠ spelled "PA" := by decide +kernel
    rw [hstep]
    split_ifs with h1 h2 h3
    · refine ⟨fun i hi => ?_, fun i hi => (hminor i hi).concat (h1 ▸ hMajorMinor),
        fun i hi => (hpa i hi).concat (h1 ▸ hMajorPa)⟩
      obtain rfl := Option.some.inj hi
      exact isLastLabel_concat_self h1
    · refine ⟨fun i hi => (hmajor i hi).concat h1, fun i hi => ?_,
        fun i hi => (hpa i hi).concat (h2 ▸ hMinorPa)⟩
      obtain rfl := Option.some.inj hi
      exact isLastLabel_concat_self h2
    · refine ⟨fun i hi => (hmajor i hi).concat h1, fun i hi =>
        (hminor i hi).concat h2, fun i hi => ?_⟩
      obtain rfl := Option.some.inj hi
      exact isLastLabel_concat_self h3
    · exact ⟨fun i hi => (hmajor i hi).concat h1, fun i hi => (hminor i hi).concat h2,
        fun i hi => (hpa i hi).concat h3⟩

end Labels

/-! ## Values -/

section Values

variable {table : NumericArray}

theorem IsBeamTable.nodup (h : IsBeamTable table) : table.metadata.dimensionNames.Nodup := by
  rcases h.names with h | h
  · exact h.nodup_iff.2 (by decide)
  · exact h.nodup_iff.2 (by decide)

/-- A table that is made has as many values as its extents say. -/
theorem IsBeamTable.sizes (h : IsBeamTable table) :
    table.values.length = table.metadata.extents.prod ∧ table.metadata.extents.prod < 2 ^ 64 := by
  have hmade := h.made
  rw [NumericArray.make] at hmade
  cases hd : declaredElements table.metadata.shape with
  | none =>
    rw [hd] at hmade
    cases hmade
  | some declared =>
    obtain ⟨hdeclared, hlt⟩ := declaredElements_eq hd
    change declared = table.metadata.extents.prod at hdeclared
    subst hdeclared
    exact ⟨((make_eq_ok_iff hd).1 h.made).1, hlt⟩

/-- An index inside a dimension is one that 64 bits hold. -/
theorem toNat_ofNat_of_extentOf {metadata : ArrayMetadata} {name : String} {extent i : ℕ}
    (h : extentOf metadata name = some extent) (hi : i < extent) : (UInt64.ofNat i).toNat = i := by
  rw [extentOf, Option.map_eq_some_iff] at h
  obtain ⟨d, -, rfl⟩ := h
  have := UInt64.toNat_lt (metadata.shape.getD d 0)
  rw [UInt64.toNat_ofNat']
  exact Nat.mod_eq_of_lt (by omega)

/-- A dimension is there just in case its name is. -/
theorem extentOf_isSome {metadata : ArrayMetadata} {name : String} :
    (extentOf metadata name).isSome ↔ name ∈ metadata.dimensionNames := by
  rw [extentOf, Option.isSome_map, findDimensionIndex, List.isSome_idxOf?]

/-- A place is one of a table, and a parameter one of its parameters. -/
structure IsPlace (metadata : ArrayMetadata) (place : ℕ × ℕ × ℕ) (parameter : ℕ) : Prop where
  time : place.1 < (extentOf metadata "time").getD 1
  channel : ∃ nChan, extentOf metadata "frequency" = some nChan ∧ place.2.1 < nChan
  polarization : ∃ nPol, extentOf metadata "polarization" = some nPol ∧ place.2.2 < nPol
  parameter : ∃ nParam, extentOf metadata "beam_params_label" = some nParam ∧ parameter < nParam

variable {place : ℕ × ℕ × ℕ} {parameter : ℕ}

theorem exists_dimension_of_extentOf {metadata : ArrayMetadata} {name : String} {extent : ℕ}
    (h : extentOf metadata name = some extent) :
    ∃ d, findDimensionIndex metadata name = some d ∧ metadata.extents.getD d 0 = extent := by
  rw [extentOf, Option.map_eq_some_iff] at h
  obtain ⟨d, hd, rfl⟩ := h
  exact ⟨d, hd, getD_extents metadata d⟩

/-- What holds of the index along each dimension a beam is addressed by. -/
theorem IsPlace.of_mem (h : IsPlace table.metadata place parameter) {p : NamedIndex}
    (hp : p ∈ beamIndices place.2.1 place.2.2 parameter
      (extentOf table.metadata "time").isSome place.1) :
    ∃ extent i, extentOf table.metadata p.1 = some extent ∧ i < extent ∧ p.2 = UInt64.ofNat i ∧
      (p.1, i) ∈ [("frequency", place.2.1), ("polarization", place.2.2),
        ("beam_params_label", parameter), ("time", place.1)] := by
  obtain ⟨nChan, hchan, hchan'⟩ := h.channel
  obtain ⟨nPol, hpol, hpol'⟩ := h.polarization
  obtain ⟨nParam, hparam, hparam'⟩ := h.parameter
  rw [beamIndices, List.mem_append] at hp
  rcases hp with hp | hp
  · simp only [List.mem_cons, List.not_mem_nil, or_false] at hp
    rcases hp with rfl | rfl | rfl
    · exact ⟨nChan, _, hchan, hchan', rfl, by simp⟩
    · exact ⟨nPol, _, hpol, hpol', rfl, by simp⟩
    · exact ⟨nParam, _, hparam, hparam', rfl, by simp⟩
  · cases htime : extentOf table.metadata "time" with
    | none => simp [htime] at hp
    | some nTime =>
      rw [htime] at hp
      obtain rfl := List.mem_singleton.1 hp
      exact ⟨nTime, _, htime, by simpa [htime] using h.time, rfl, by simp⟩

theorem IsBeamTable.name_cases (h : IsBeamTable table) {d : ℕ}
    (hd : d < table.metadata.shape.length) :
    table.metadata.dimensionNames[d]? = some "frequency" ∨
    table.metadata.dimensionNames[d]? = some "polarization" ∨
    table.metadata.dimensionNames[d]? = some "beam_params_label" ∨
    table.metadata.dimensionNames[d]? = some "time" := by
  have hlt : d < table.metadata.dimensionNames.length := h.rank ▸ hd
  have hmem : table.metadata.dimensionNames[d] ∈ table.metadata.dimensionNames :=
    List.getElem_mem hlt
  rw [List.getElem?_eq_getElem hlt]
  rcases h.names with hnames | hnames
  · have hthree := hnames.mem_iff.1 hmem
    simp only [List.mem_cons, List.not_mem_nil, or_false] at hthree
    rcases hthree with hname | hname | hname <;> simp [hname]
  · simpa using hnames.mem_iff.1 hmem

/-- The coordinate along a dimension is the index that has its name. -/
theorem beamCoord_of_mem {metadata : ArrayMetadata} {name : String} {d i : ℕ}
    (hname : metadata.dimensionNames[d]? = some name)
    (hi : (name, i) ∈ [("frequency", place.2.1), ("polarization", place.2.2),
      ("beam_params_label", parameter), ("time", place.1)]) :
    beamCoord metadata place parameter d = i := by
  rw [beamCoord, List.getD_eq_getElem?_getD, hname, Option.getD_some]
  simp only [List.mem_cons, List.not_mem_nil, or_false, Prod.mk.injEq] at hi
  rcases hi with ⟨rfl, rfl⟩ | ⟨rfl, rfl⟩ | ⟨rfl, rfl⟩ | ⟨rfl, rfl⟩ <;> rfl

/-- **The value of a beam** is read at the coordinates its place and its parameter have. -/
theorem readBeamValue_eq (h : IsBeamTable table) (hplace : IsPlace table.metadata place parameter) :
    readBeamValue table place.2.1 place.2.2 parameter
      (extentOf table.metadata "time").isSome place.1 =
      pure (beamValue table place parameter) := by
  obtain ⟨hlen, hlt⟩ := h.sizes
  refine at_of_all_named h.rank hlen hlt (fun p hp => ?_) ?_ (fun d hd => ?_) (fun p hp d hd => ?_)
  · obtain ⟨extent, i, hextent, hi, hp2, -⟩ := hplace.of_mem hp
    obtain ⟨d, hd, hextent'⟩ := exists_dimension_of_extentOf hextent
    refine ⟨d, hd, ?_⟩
    rw [hp2, hextent', toNat_ofNat_of_extentOf hextent hi]
    exact hi
  · have hnames : ((beamIndices place.2.1 place.2.2 parameter
        (extentOf table.metadata "time").isSome place.1).map Prod.fst).Nodup := by
      cases (extentOf table.metadata "time").isSome
      · exact (by decide : ["frequency", "polarization", "beam_params_label"].Nodup)
      · exact (by decide : ["frequency", "polarization", "beam_params_label", "time"].Nodup)
    have hfind := List.Nodup.map_on (f := findDimensionIndex table.metadata) ?_ hnames
    · rwa [List.map_map] at hfind
    intro x hx y hy hxy
    obtain ⟨p, hp, rfl⟩ := List.mem_map.1 hx
    obtain ⟨extent, -, hextent, -⟩ := hplace.of_mem hp
    obtain ⟨d, hd, -⟩ := exists_dimension_of_extentOf hextent
    have hx' := (findDimensionIndex_eq_some_iff h.nodup).1 hd
    have hy' := (findDimensionIndex_eq_some_iff h.nodup).1 (hxy ▸ hd)
    exact Option.some.inj (hx'.symm.trans hy')
  · have hall : ∀ name ∈ (beamIndices place.2.1 place.2.2 parameter
        (extentOf table.metadata "time").isSome place.1).map Prod.fst,
        table.metadata.dimensionNames[d]? = some name →
          ∃ p ∈ beamIndices place.2.1 place.2.2 parameter
          (extentOf table.metadata "time").isSome place.1,
          findDimensionIndex table.metadata p.1 = some d := by
      intro name hname hd
      obtain ⟨p, hp, rfl⟩ := List.mem_map.1 hname
      exact ⟨p, hp, (findDimensionIndex_eq_some_iff h.nodup).2 hd⟩
    rcases h.name_cases hd with hname | hname | hname | hname
    · exact hall _ (by simp [beamIndices]) hname
    · exact hall _ (by simp [beamIndices]) hname
    · exact hall _ (by simp [beamIndices]) hname
    · have htime : (extentOf table.metadata "time").isSome = true :=
        extentOf_isSome.2 (List.mem_of_getElem? hname)
      exact hall _ (by simp [beamIndices, htime]) hname
  · obtain ⟨extent, i, hextent, hi, hp2, hmem⟩ := hplace.of_mem hp
    rw [hp2, toNat_ofNat_of_extentOf hextent hi]
    exact beamCoord_of_mem ((findDimensionIndex_eq_some_iff h.nodup).1 hd) hmem

/-- A place has its coordinates inside the extents of the table. -/
theorem IsPlace.beamCoord_lt (h : IsPlace table.metadata place parameter)
    (htable : IsBeamTable table)
    {d : ℕ} (hd : d < table.metadata.shape.length) :
    beamCoord table.metadata place parameter d < table.metadata.extents.getD d 0 := by
  obtain ⟨nChan, hchan, hchan'⟩ := h.channel
  obtain ⟨nPol, hpol, hpol'⟩ := h.polarization
  obtain ⟨nParam, hparam, hparam'⟩ := h.parameter
  have hlt : ∀ {name : String} {extent i : ℕ}, table.metadata.dimensionNames[d]? = some name →
      extentOf table.metadata name = some extent → i < extent →
      (name, i) ∈ [("frequency", place.2.1), ("polarization", place.2.2),
        ("beam_params_label", parameter), ("time", place.1)] →
      beamCoord table.metadata place parameter d < table.metadata.extents.getD d 0 := by
    intro name extent i hname hextent hi hmem
    obtain ⟨d', hd', rfl⟩ := exists_dimension_of_extentOf hextent
    rw [(findDimensionIndex_eq_some_iff htable.nodup).2 hname] at hd'
    obtain rfl := Option.some.inj hd'
    rwa [beamCoord_of_mem hname hmem]
  rcases htable.name_cases hd with hname | hname | hname | hname
  · exact hlt hname hchan hchan' (by simp)
  · exact hlt hname hpol hpol' (by simp)
  · exact hlt hname hparam hparam' (by simp)
  · have htime : (extentOf table.metadata "time").isSome = true :=
      extentOf_isSome.2 (List.mem_of_getElem? hname)
    obtain ⟨nTime, htime⟩ := Option.isSome_iff_exists.1 htime
    exact hlt hname htime (by simpa [htime] using h.time) (by simp)

end Values

/-! ## The order of storage -/

section Transposes

variable {order : List ℕ} {a b : NumericArray}

theorem Transposed.order_lt (h : Transposed order a b) {i : ℕ} (hi : i < order.length) :
    order.getD i 0 < a.metadata.shape.length := by
  rw [List.getD_eq_getElem _ _ hi]
  exact List.mem_range.1 (h.perm.mem_iff.1 (List.getElem_mem hi))

/-- Dimension `i` of the transposed table has the name dimension `order[i]` has. -/
theorem Transposed.name (h : Transposed order a b) (ha : IsBeamTable a) {i : ℕ}
    (hi : i < order.length) :
    b.metadata.dimensionNames[i]? = a.metadata.dimensionNames[order.getD i 0]? := by
  rw [h.names, List.getElem?_map, List.getElem?_eq_getElem hi, Option.map_some,
    ← List.getD_eq_getElem _ 0 hi, List.getD_eq_getElem?_getD,
    List.getElem?_eq_getElem (ha.rank ▸ h.order_lt hi), Option.getD_some]

/-- The dimensions keep their extents. -/
theorem Transposed.extentOf_eq (h : Transposed order a b) (ha : IsBeamTable a) (hb : IsBeamTable b)
    (name : String) : extentOf b.metadata name = extentOf a.metadata name := by
  by_cases hname : name ∈ a.metadata.dimensionNames
  · obtain ⟨d, hd, hname'⟩ := List.mem_iff_getElem.1 hname
    obtain ⟨i, hi, hdi⟩ := List.mem_iff_getElem.1
      (h.perm.mem_iff.2 (List.mem_range.2 (ha.rank ▸ hd)))
    have horder : order.getD i 0 = d := by rw [List.getD_eq_getElem _ _ hi, hdi]
    have hfindA : findDimensionIndex a.metadata name = some d :=
      (findDimensionIndex_eq_some_iff ha.nodup).2 (by rw [List.getElem?_eq_getElem hd, hname'])
    have hfindB : findDimensionIndex b.metadata name = some i :=
      (findDimensionIndex_eq_some_iff hb.nodup).2
        (by rw [h.name ha hi, horder, List.getElem?_eq_getElem hd, hname'])
    rw [extentOf, extentOf, hfindA, hfindB, Option.map_some, Option.map_some, h.shape,
      List.getD_eq_getElem _ _ (by simpa using hi), List.getElem_map, hdi]
  · have hname' : name ∉ b.metadata.dimensionNames := by
      intro hmem
      obtain ⟨i, hi, rfl⟩ := List.mem_iff_getElem.1 hmem
      have hi' : i < order.length := by simpa [h.names] using hi
      refine hname (List.mem_of_getElem? (i := order.getD i 0) ?_)
      rw [← h.name ha hi', List.getElem?_eq_getElem hi]
    rw [Option.not_isSome_iff_eq_none.1 fun hsome => hname (extentOf_isSome.1 hsome),
      Option.not_isSome_iff_eq_none.1 fun hsome => hname' (extentOf_isSome.1 hsome)]

/-- The beams keep their values. -/
theorem Transposed.beamValue_eq (h : Transposed order a b) (ha : IsBeamTable a) {place : ℕ × ℕ × ℕ}
    {parameter : ℕ} (hplace : IsPlace a.metadata place parameter) :
    beamValue b place parameter = beamValue a place parameter := by
  rw [beamValue, beamValue, ← h.values _ fun d hd => hplace.beamCoord_lt ha hd]
  congr 1
  refine COrder.position_congr fun i hi => ?_
  have hi' : i < order.length := by simpa [ArrayMetadata.extents, h.shape] using hi
  rw [beamCoord, beamCoord, List.getD_eq_getElem?_getD, List.getD_eq_getElem?_getD, h.name ha hi']

end Transposes

/-! ## Beams -/

section Beams

variable {table : NumericArray} {labels : List Bytes}
  {nChan nPol nParam major minor positionAngle : ℕ}

def Beam.place (beam : Beam) : ℕ × ℕ × ℕ := (beam.time, beam.channel, beam.polarization)

/-- The beam of a place, of the values the table has for it. -/
def beamOf (table : NumericArray) (major minor positionAngle : ℕ) (place : ℕ × ℕ × ℕ) : Beam where
  time := place.1
  channel := place.2.1
  polarization := place.2.2
  unit := attributeString table.metadata.attributes "units"
  major := beamValue table place major
  minor := beamValue table place minor
  positionAngle := beamValue table place positionAngle

theorem mem_beamPlaces {nTime nChan nPol : ℕ} {place : ℕ × ℕ × ℕ} :
    place ∈ beamPlaces nTime nChan nPol ↔ place.1 < nTime ∧ place.2.1 < nChan ∧
    place.2.2 < nPol := by
  obtain ⟨time, channel, polarization⟩ := place
  simp [beamPlaces]

/-- One place before another, time slowest. -/
def Earlier (p q : ℕ × ℕ × ℕ) : Prop :=
  p.1 < q.1 ∨ p.1 = q.1 ∧ (p.2.1 < q.2.1 ∨ p.2.1 = q.2.1 ∧ p.2.2 < q.2.2)

theorem pairwise_product {α β : Type} {r : α → α → Prop} {s : β → β → Prop}
    {xs : List α} {ys : List β}
    (hr : xs.Pairwise r) (hs : ys.Pairwise s) :
    (xs.product ys).Pairwise fun p q => r p.1 q.1 ∨ p.1 = q.1 ∧ s p.2 q.2 := by
  rw [List.product, List.pairwise_flatMap]
  refine ⟨fun x _ => List.pairwise_map.2 (hs.imp fun h => Or.inr ⟨rfl, h⟩),
    hr.imp fun h p hp q hq => ?_⟩
  obtain ⟨y, -, rfl⟩ := List.mem_map.1 hp
  obtain ⟨y', -, rfl⟩ := List.mem_map.1 hq
  exact Or.inl h

theorem beamPlaces_earlier (nTime nChan nPol : ℕ) :
    (beamPlaces nTime nChan nPol).Pairwise Earlier :=
  pairwise_product List.pairwise_lt_range
    (pairwise_product List.pairwise_lt_range List.pairwise_lt_range)

/-- What a table describes, whose labels are of its parameters. -/
theorem describeBeams_eq (htable : IsBeamTable table)
    (hchan : extentOf table.metadata "frequency" = some nChan)
    (hpol : extentOf table.metadata "polarization" = some nPol)
    (hparam : extentOf table.metadata "beam_params_label" = some nParam)
    (hlabels : labels.length = nParam)
    (hfound : findBeamParameterIndices labels = ⟨some major, some minor, some positionAngle⟩) :
    describeBeams table labels =
        pure ((beamPlaces ((extentOf table.metadata "time").getD 1) nChan nPol).map
          (beamOf table major minor positionAngle)) ∧
      ∀ place ∈ beamPlaces ((extentOf table.metadata "time").getD 1) nChan nPol,
        ∀ parameter ∈ [major, minor, positionAngle], IsPlace table.metadata place parameter := by
  obtain ⟨hmajor, hminor, hpa⟩ := findBeamParameterIndices_spec labels
  rw [hfound] at hmajor hminor hpa
  have hlt : ∀ parameter ∈ [major, minor, positionAngle], parameter < nParam := by
    rw [← hlabels]
    simpa using ⟨(hmajor _ rfl).lt, (hminor _ rfl).lt, (hpa _ rfl).lt⟩
  have hplaces : ∀ place ∈ beamPlaces ((extentOf table.metadata "time").getD 1) nChan nPol,
      ∀ parameter ∈ [major, minor, positionAngle], IsPlace table.metadata place parameter := by
    intro place hplace parameter hparameter
    obtain ⟨ht, hc, hp⟩ := mem_beamPlaces.1 hplace
    exact ⟨ht, ⟨nChan, hchan, hc⟩, ⟨nPol, hpol, hp⟩, nParam, hparam, hlt _ hparameter⟩
  refine ⟨?_, hplaces⟩
  have hread : ∀ place ∈ beamPlaces ((extentOf table.metadata "time").getD 1) nChan nPol,
      readBeam table major minor positionAngle (extentOf table.metadata "time").isSome place =
        pure (beamOf table major minor positionAngle place) := by
    intro place hplace
    rw [readBeam]
    simp only
    rw [readBeamValue_eq htable (hplaces place hplace major (by simp)),
      readBeamValue_eq htable (hplaces place hplace minor (by simp)),
      readBeamValue_eq htable (hplaces place hplace positionAngle (by simp))]
    rfl
  rw [describeBeams]
  simp only [hchan, hpol, hparam, hfound]
  rw [if_neg (not_not.2 hlabels), mapM_congr hread, List.mapM_pure]

/-- Tables of the same extents are refused alike, and else have their beams described. -/
theorem describeBeams_cases {a b : NumericArray} (labels : List Bytes) (hnode : b.node = a.node)
    (hextent : ∀ name, extentOf b.metadata name = extentOf a.metadata name) :
    (∃ e, describeBeams a labels = throw e ∧ describeBeams b labels = throw e) ∨
      ∃ nChan nPol nParam major minor positionAngle,
        extentOf a.metadata "frequency" = some nChan ∧
        extentOf a.metadata "polarization" = some nPol ∧
        extentOf a.metadata "beam_params_label" = some nParam ∧ labels.length = nParam ∧
        findBeamParameterIndices labels = ⟨some major, some minor, some positionAngle⟩ := by
  simp only [describeBeams, hextent, hnode]
  split
  next nChan nPol nParam hchan hpol hparam =>
    by_cases hlabels : labels.length = nParam
    · rw [if_neg (not_not.2 hlabels), if_neg (not_not.2 hlabels)]
      rcases hfound : findBeamParameterIndices labels with
        ⟨_ | major, _ | minor, _ | positionAngle⟩
      case some.some.some =>
        exact Or.inr ⟨nChan, nPol, nParam, major, minor, positionAngle, hchan, hpol,
          hparam, hlabels, rfl⟩
      all_goals exact Or.inl ⟨_, rfl, rfl⟩
    · rw [if_pos hlabels, if_pos hlabels]
      exact Or.inl ⟨_, rfl, rfl⟩
  next => exact Or.inl ⟨_, rfl, rfl⟩

end Beams

/-- **The beams described** do not depend on the order the dimensions of a table are stored in. They
are of every place of the table, time slowest, and their values those of the last labels of their
names. -/
theorem describeBeams_transposed {order : List ℕ} {a b : NumericArray} (ha : IsBeamTable a)
    (hb : IsBeamTable b) (h : Transposed order a b) (labels : List Bytes) :
    describeBeams b labels = describeBeams a labels ∧
    ((∃ e, describeBeams a labels = throw e) ∨
      ∃ nChan nPol major minor positionAngle beams,
        extentOf a.metadata "frequency" = some nChan ∧
        extentOf a.metadata "polarization" = some nPol ∧
        describeBeams a labels = pure beams ∧
        (beams.map Beam.place).Pairwise Earlier ∧
        (∀ place, place ∈ beams.map Beam.place ↔
          place.1 < (extentOf a.metadata "time").getD 1 ∧ place.2.1 < nChan ∧ place.2.2 < nPol) ∧
        IsLastLabel labels "MAJOR" major ∧ IsLastLabel labels "MINOR" minor ∧
        IsLastLabel labels "PA" positionAngle ∧
        ∀ beam ∈ beams, beam.major = beamValue a beam.place major ∧
          beam.minor = beamValue a beam.place minor ∧
          beam.positionAngle = beamValue a beam.place positionAngle) := by
  have hextent := h.extentOf_eq ha hb
  rcases describeBeams_cases labels h.node hextent with ⟨e, herrorA, herrorB⟩ |
    ⟨nChan, nPol, nParam, major, minor, positionAngle, hchan, hpol, hparam, hlabels, hfound⟩
  · exact ⟨herrorB.trans herrorA.symm, Or.inl ⟨e, herrorA⟩⟩
  obtain ⟨hdescribeA, hplaces⟩ := describeBeams_eq ha hchan hpol hparam hlabels hfound
  obtain ⟨hdescribeB, -⟩ := describeBeams_eq hb (by rw [hextent, hchan]) (by rw [hextent, hpol])
    (by rw [hextent, hparam]) hlabels hfound
  obtain ⟨hmajor, hminor, hpa⟩ := findBeamParameterIndices_spec labels
  rw [hfound] at hmajor hminor hpa
  have hbeams : ∀ place ∈ beamPlaces ((extentOf a.metadata "time").getD 1) nChan nPol,
      beamOf b major minor positionAngle place = beamOf a major minor positionAngle place := by
    intro place hplace
    rw [beamOf, beamOf, h.attributes, h.beamValue_eq ha (hplaces place hplace major (by simp)),
      h.beamValue_eq ha (hplaces place hplace minor (by simp)),
      h.beamValue_eq ha (hplaces place hplace positionAngle (by simp))]
  have hmap : ((beamPlaces ((extentOf a.metadata "time").getD 1) nChan nPol).map
      (beamOf a major minor positionAngle)).map Beam.place =
        beamPlaces ((extentOf a.metadata "time").getD 1) nChan nPol := by
    rw [List.map_map]
    exact List.map_id _
  refine ⟨?_, Or.inr ⟨nChan, nPol, major, minor, positionAngle, _, hchan, hpol, hdescribeA, ?_, ?_,
    hmajor _ rfl, hminor _ rfl, hpa _ rfl, fun beam hbeam => ?_⟩⟩
  · rw [hdescribeA, hdescribeB, hextent, List.map_congr_left hbeams]
  · rw [hmap]
    exact beamPlaces_earlier _ _ _
  · intro place
    rw [hmap]
    exact mem_beamPlaces
  · obtain ⟨place, -, rfl⟩ := List.mem_map.1 hbeam
    exact ⟨rfl, rfl, rfl⟩

/-- Two channels with the parameters of a beam, stored parameters last. -/
def parametersLast : NumericArray where
  node := "BEAM"
  metadata := {
    shape := [2, 1, 3], dimensionNames := ["frequency", "polarization", "beam_params_label"]
    dataType := "float64", attributes := .object [], chunkShape := [2, 1, 3] }
  values := [0, 1, 2, 3, 4, 5]

/-- The same beams, stored parameters first. -/
def parametersFirst : NumericArray where
  node := "BEAM"
  metadata := {
    shape := [3, 2, 1], dimensionNames := ["beam_params_label", "frequency", "polarization"]
    dataType := "float64", attributes := .object [], chunkShape := [3, 2, 1] }
  values := [0, 3, 1, 4, 2, 5]

theorem describeBeams_transposed_parametersFirst :
    describeBeams parametersFirst [spelled "major", spelled "minor", spelled "pa"] =
      describeBeams parametersLast [spelled "major", spelled "minor", spelled "pa"] ∧
    (describeBeams parametersFirst [spelled "major", spelled "minor", spelled "pa"]).run.map
        Except.toOption = some (some [⟨0, 0, 0, "", 0, 1, 2⟩, ⟨0, 1, 0, "", 3, 4, 5⟩]) := by
  have hlast : IsBeamTable parametersLast := ⟨rfl, Or.inl (by decide), rfl⟩
  have hfirst : IsBeamTable parametersFirst := ⟨rfl, Or.inl (by decide), rfl⟩
  refine ⟨(@describeBeams_transposed [2, 0, 1] _ _ hlast hfirst
    ⟨by decide, rfl, rfl, rfl, rfl, fun coord hcoord => ?_⟩ _).1, by decide +kernel⟩
  have hchannel : coord 0 < 2 := hcoord 0 (by decide)
  have hpolarization : coord 1 < 1 := hcoord 1 (by decide)
  have hparameter : coord 2 < 3 := hcoord 2 (by decide)
  have hvalues : ∀ channel < 2, ∀ polarization < 1, ∀ parameter < 3,
      [0, 3, 1, 4, 2, 5].getD (parameter * 2 + (channel * 1 + (polarization * 1 + 0)))
        (0 : UInt64) =
        [0, 1, 2, 3, 4, 5].getD (channel * 3 +
          (polarization * 3 + (parameter * 1 + 0))) 0 := by decide
  exact hvalues _ hchannel _ hpolarization _ hparameter

end CartaZarr
