import CartaZarr.Store.Recovered
import CartaZarr.Xradio.Coordinates
import CartaZarr.Xradio.Flag
import CartaZarr.Zarr.DataTypes

/-!
# The coordinate arrays of a dataset

A dataset stores each coordinate once: an array over a dimension of its own name, of numbers or, for
the polarization, of labels. What is asked of one is whether it is well formed, which unit its
samples are in, and the samples themselves. Asked in two sessions each is answered alike, unless a
read that was made for it failed.
-/

namespace CartaZarr

/-- The coordinates of the sky plane. -/
abbrev skyCoordinates : List Coordinate := kCoordinates.filter (onPlane .sky)

/-- What a coordinate's samples are. -/
inductive CoordinateKind
  | numeric | labels
  deriving DecidableEq, Repr

/-- The polarization has labels, and every other coordinate numbers. -/
def coordinateKind (coordinate : Coordinate) : CoordinateKind :=
  if coordinate.name = "polarization" then .labels else .numeric

/-- Whether a coordinate array is well formed in itself. -/
def checkCoordinate (array : ArrayMetadata) (coordinate : Coordinate) : Except Error Unit :=
  if array.dimensionNames ≠ [coordinate.name] then
    .error ⟨.invalidMetadata, "Coordinate shape or dimension name does not match image dataset",
      coordinate.name⟩
  else match coordinateKind coordinate with
    | .labels =>
      if isFixedLengthUtf32 array then checkFixedLengthUtf32StringArray array coordinate.name
      else .error ⟨.unsupportedDataType,
        "Coordinate array has an unsupported data type", coordinate.name⟩
    | .numeric =>
      if isRealDataType array.dataType then .ok ()
      else .error ⟨.unsupportedDataType,
        "Coordinate array has an unsupported data type", coordinate.name⟩

/-- A member of a member that is an object of a member that is one. -/
def unitOfReference (attributes : Json) : String :=
  match memberObject attributes "reference_frequency" with
  | none => ""
  | some reference =>
    match memberObject (.object reference) "attrs" with
    | none => ""
    | some measure => attributeString (.object measure) "units"

/-- The samples of the coordinates. Doubles are kept as their bits. -/
structure CoordinateValues where
  l : List UInt64 := []
  m : List UInt64 := []
  frequency : List UInt64 := []
  time : List UInt64 := []
  polarization : List Bytes := []
  deriving DecidableEq

/-- Put a numeric coordinate's samples where they go, by the axis it is. -/
def CoordinateValues.put (values : CoordinateValues) (role : AxisRole) (samples : List UInt64) :
    CoordinateValues :=
  match role with
  | .spatialX => { values with l := samples }
  | .spatialY => { values with m := samples }
  | .spectral => { values with frequency := samples }
  | .time => { values with time := samples }
  | .polarization | .other => values

/-- An axis of an image with the unit of its coordinate. -/
structure ListedAxis where
  axis : AxisDescriptor
  unit : String
  deriving DecidableEq, Repr

section Ask

variable (store : Store) (outages : Outages)

/-- The unit a coordinate's samples are in, or nothing where the dataset does not say. -/
def coordinateUnit (name : String) (role : AxisRole) : StateM Session String := do
  match ← store.readArrayMetadata outages name with
  | .error _ => return ""
  | .ok metadata =>
    let unit := attributeString metadata.attributes "units"
    if unit = "" ∧ role = .spectral then return unitOfReference metadata.attributes
    else return unit

def listAxes : List AxisDescriptor → StateM Session (List ListedAxis)
  | [] => return []
  | axis :: axes => do
    let unit ← coordinateUnit store outages axis.name axis.role
    return ⟨axis, unit⟩ :: (← listAxes axes)

/-- Read the samples of one coordinate. -/
def readCoordinate (coordinate : Coordinate) (values : CoordinateValues) :
    StateM Session (Except Error CoordinateValues) :=
  match coordinateKind coordinate with
  | .labels => do
    match ← store.readStringArray1D outages coordinate.name with
    | .error e => return .error e
    | .ok labels => return .ok { values with polarization := labels }
  | .numeric => do
    match ← store.readNumericArray outages coordinate.name with
    | .error e => return .error e
    | .ok samples => return .ok (values.put coordinate.role samples.values)

def readCoordinates : List Coordinate → CoordinateValues →
    StateM Session (Except Error CoordinateValues)
  | [], values => return .ok values
  | coordinate :: coordinates, values => do
    match ← readCoordinate store outages coordinate values with
    | .error e => return .error e
    | .ok values => readCoordinates coordinates values

/-- Every sky-plane coordinate's samples. -/
def readCoordinateValues : StateM Session (Except Error CoordinateValues) :=
  readCoordinates store outages (kCoordinates.filter (onPlane .sky)) {}

end Ask

/-! ## What is answered -/

section Answers

variable (store : Store)

/-- The unit of a coordinate, as the store answers. -/
def unitAnswer (name : String) (role : AxisRole) : String :=
  match store.arrayAnswer name with
  | .error _ => ""
  | .ok metadata =>
    let unit := attributeString metadata.attributes "units"
    if unit = "" ∧ role = .spectral then unitOfReference metadata.attributes else unit

def axesAnswer (axes : List AxisDescriptor) : List ListedAxis :=
  axes.map fun axis => ⟨axis, unitAnswer store axis.name axis.role⟩

def coordinateAnswer (coordinate : Coordinate)
    (values : CoordinateValues) : Except Error CoordinateValues :=
  match coordinateKind coordinate with
  | .labels =>
    (store.stringAnswer coordinate.name).map fun labels => { values with polarization := labels }
  | .numeric =>
    (store.numericAnswer coordinate.name).map fun samples =>
      values.put coordinate.role samples.values

def coordinatesAnswer (coordinates : List Coordinate)
    (values : CoordinateValues) : Except Error CoordinateValues :=
  coordinates.foldlM (fun values coordinate => coordinateAnswer store coordinate values) values

end Answers

instance : Unname CoordinateValues := ⟨id⟩
instance : Plain CoordinateValues := ⟨fun _ => rfl⟩

namespace Store

variable {store : Store} {outages : Outages}

theorem later_coordinateUnit (name : String) (role : AxisRole) :
    Moves (Later store outages) (coordinateUnit store outages name role) := by
  refine (later_readArrayMetadata name).bind fun r => ?_
  cases r with
  | error e => exact Moves.pure _
  | ok metadata => dsimp only; split_ifs <;> exact Moves.pure _

theorem later_listAxes (axes : List AxisDescriptor) :
    Moves (Later store outages) (listAxes store outages axes) := by
  induction axes with
  | nil => exact Moves.pure _
  | cons axis axes ih =>
    exact (later_coordinateUnit _ _).bind fun _ => ih.bind fun _ => Moves.pure _

theorem later_readCoordinates (coordinates : List Coordinate) (values : CoordinateValues) :
    Moves (Later store outages) (readCoordinates store outages coordinates values) := by
  induction coordinates generalizing values with
  | nil => exact Moves.pure _
  | cons coordinate coordinates ih =>
    have hone : Moves (Later store outages) (readCoordinate store outages coordinate values) := by
      unfold readCoordinate
      split
      · exact Moves.bind (moves_request (.stringArray _) fun _ => rfl) fun r => by
          cases r <;> exact Moves.pure _
      · exact Moves.bind (moves_request (.numericArray _) fun _ => rfl) fun r => by
          cases r <;> exact Moves.pure _
    refine hone.bind fun r => ?_
    cases r with
    | error e => exact Moves.pure _
    | ok values => exact ih values

variable (hfiled : store.Filed) (hout : outages.Transient True)
include hfiled hout

theorem right_coordinateUnit (name : String) (role : AxisRole) :
    store.Right outages Eq (coordinateUnit store outages name role)
      (unitAnswer store name role) := by
  refine (right_readArrayMetadata hfiled hout name).bind (fun r => ?_) fun r hr => ?_
  · cases r with
    | error e => exact Keeps.pure _
    | ok metadata => dsimp only; split_ifs <;> exact Keeps.pure _
  · unfold unitAnswer
    cases r with
    | error e =>
      obtain ⟨e', hanswer, -⟩ := hr.exists_error
      rw [hanswer]
      exact Right.pure rfl
    | ok metadata =>
      rw [hr.ok]
      dsimp only
      split_ifs <;> exact Right.pure rfl

theorem right_listAxes (axes : List AxisDescriptor) :
    store.Right outages Eq (listAxes store outages axes) (axesAnswer store axes) := by
  induction axes with
  | nil => exact Right.pure rfl
  | cons axis axes ih =>
    refine (right_coordinateUnit hfiled hout axis.name axis.role).bind
      (fun _ => ih.keeps.bind fun _ => Keeps.pure _) fun unit hunit => ?_
    refine ih.bind (fun _ => Keeps.pure _) fun rest hrest => Right.pure ?_
    rw [hunit, hrest, axesAnswer, axesAnswer, List.map_cons]

theorem right_readCoordinate (coordinate : Coordinate) (values : CoordinateValues) :
    store.Right outages SameAnswer (readCoordinate store outages coordinate values)
      (coordinateAnswer store coordinate values) := by
  unfold readCoordinate coordinateAnswer
  split
  · refine (right_readStringArray1D hfiled hout _).bind
      (fun r => by cases r <;> exact Keeps.pure _) fun r hr => ?_
    cases r with
    | error e =>
      obtain ⟨e', hanswer, hsame⟩ := hr.exists_error
      rw [hanswer]
      exact Right.pure hsame.error
    | ok labels =>
      rw [hr.ok]
      exact Right.pure rfl
  · refine (right_readNumericArray hfiled hout _).bind
      (fun r => by cases r <;> exact Keeps.pure _) fun r hr => ?_
    cases r with
    | error e =>
      obtain ⟨e', hanswer, hsame⟩ := hr.exists_error
      rw [hanswer]
      exact Right.pure hsame.error
    | ok samples =>
      obtain ⟨samples', hsamples, hsame⟩ := hr.exists_ok
      have hvalues : (unname samples).values = (unname samples').values :=
        congrArg NumericArray.values hsame
      change samples.values = samples'.values at hvalues
      rw [hsamples]
      dsimp only
      rw [hvalues]
      exact Right.pure rfl

theorem right_readCoordinates (coordinates : List Coordinate) (values : CoordinateValues) :
    store.Right outages SameAnswer (readCoordinates store outages coordinates values)
      (coordinatesAnswer store coordinates values) := by
  induction coordinates generalizing values with
  | nil => exact Right.pure rfl
  | cons coordinate coordinates ih =>
    rw [coordinatesAnswer, List.foldlM_cons]
    exact (right_readCoordinate hfiled hout coordinate values).andThen
      (fun _ => rfl) fun values => ih values

theorem right_readCoordinateValues :
    store.Right outages SameAnswer (readCoordinateValues store outages)
    (coordinatesAnswer store (kCoordinates.filter (onPlane .sky)) {}) :=
  right_readCoordinates hfiled hout _ _

end Store

end CartaZarr
