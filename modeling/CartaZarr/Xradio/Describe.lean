import CartaZarr.Xradio.CoordinateValues
import CartaZarr.Xradio.Direction
import CartaZarr.Xradio.Openable

/-!
# The description of an image

`describeImage` opens an image by name. It asks first whether the name qualifies, then holds the
image to its own document and reads the samples of its coordinates, and describes it from these: its
axes, its coordinates, its flag, and the geometry of both arrays. What each step is refused for is
what the description is refused for.

Left out of it are the linear descriptions that are fitted to the samples, with what the fits say of
them, the equinox of the direction, and the observation. The fits are in
`CartaZarr.Xradio.LinearAxis`, on numbers.
-/

namespace CartaZarr

/-! ## What is reported -/

structure SpectralCoordinate where
  channelFrequencies : List UInt64
  unit : String
  system : Bytes
  restFrequency : Option ℚ

structure TemporalCoordinate where
  values : List UInt64
  unit : String
  scale : Bytes
  format : Bytes

/-- What is reported of an image, but for the linear descriptions of its axes, its equinox and its
observation. The diagnostics are those of selecting the flag; the fits' own are left out with
them. -/
@[ext]
structure ImageReport where
  id : String
  storedType : DataType
  unit : String
  imageRole : String
  dataGroups : List String
  axes : List ListedAxis
  direction : DirectionCoordinate
  spectral : Option SpectralCoordinate
  polarization : Option (List Bytes)
  temporal : Option TemporalCoordinate
  pixelMaskId : String
  diagnostics : List Diagnostic

/-- What reads are made by. -/
def ImageReport.descriptor (report : ImageReport) : ImageDescriptor where
  id := report.id
  storedType := report.storedType
  axes := report.axes.map ListedAxis.axis
  hasPixelMask := report.pixelMaskId ≠ ""

/-- An image as a profile describes it. Without a pixel mask there is no geometry of one. -/
structure DescribedImage where
  report : ImageReport
  geometry : StoredGeometry
  flagGeometry : Option StoredGeometry

/-! ## Describing -/

/-- The data groups that name an image. -/
def findDataGroups (rootAttributes : Json) (imageId : String) : List String :=
  (((memberObject rootAttributes "data_groups").getD []).filter fun group =>
    match group.2 with
    | .object members => members.any fun value => value.2.string? = some imageId
    | _ => false).map Prod.fst

def memberNumber (object : Json) (name : String) : Option ℚ := (object.get? name).bind Json.number?

/-- The role an image plays is said by one rule, for the listing and for describing. -/
def imageRoleOf (image : ArrayMetadata) : String :=
  -- a flag's `type` is no role
  let declaredRole := attributeString image.attributes "type"
  let role := if declaredRole = "flag" then "" else declaredRole
  if role = "" then attributeString image.attributes "image_type" else role

/-- The attributes of a node's document, or none. -/
def attributesOf (document : Except Error Json) : Json :=
  match document with
  | .ok document => (objectMember document "attributes").getD (.object [])
  | .error _ => .object []

/-- The frame of the channels, and the rest frequency. -/
def spectralOf (attributes : Json) (channels : List UInt64)
    (unit : String) : SpectralCoordinate where
  channelFrequencies := channels
  unit := unit
  system :=
    match (objectMember attributes "reference_frequency").bind (objectMember · "attrs") with
    | some measure => upper (spelled (attributeString measure "observer"))
    | none => []
  restFrequency := (objectMember attributes "rest_frequency").bind (memberNumber · "data")

def temporalOf (attributes : Json) (values : List UInt64) : TemporalCoordinate where
  values := values
  unit := attributeString attributes "units"
  scale := upper (spelled (attributeString attributes "scale"))
  format := upper (spelled (attributeString attributes "format"))

section Describe

variable (store : Store) (outages : Outages)

def describeSpectralCoordinate
    (channels : List UInt64) : StateM Session (Option SpectralCoordinate) := do
  if channels = [] then return none
  else
    let attributes := attributesOf (← store.readNodeMetadata outages "frequency")
    let unit ← coordinateUnit store outages "frequency" .spectral
    return some (spectralOf attributes channels unit)

def describeTemporalCoordinate
    (values : List UInt64) : StateM Session (Option TemporalCoordinate) := do
  if values = [] then return none
  else return some (temporalOf (attributesOf (← store.readNodeMetadata outages "time")) values)

/-- The axes of an image with their units. -/
def describeListedAxes (image : ArrayMetadata) :
    StateM Session (Except OpenFailure (List ListedAxis)) :=
  match describeAxes image with
  | none => return .error (.threw "vector::at")
  | some axes => return .ok (← listAxes store outages axes)

/-- The geometry of the flag that masks an image, by its own layout. -/
def describeFlag (descriptor : ImageDescriptor) (flag : String) :
    StateM Session (Except OpenFailure (Option StoredGeometry)) := do
  if flag = "" then return .ok none
  else
    match ← store.verifyArray outages flag with
    | .error e => return .error (.refused e)
    | .ok own =>
      match buildChunkGeometry descriptor (parseStorageLayout own) with
      | none => return .error (.threw "vector::at")
      | some geometry => return .ok (some geometry)

/-- Put together what is reported, and the geometries. -/
def describeReport (image : ArrayMetadata) (report : ImageReport) :
    StateM Session (Except OpenFailure DescribedImage) := do
  match ← describeFlag store outages report.descriptor report.pixelMaskId with
  | .error e => return .error e
  | .ok flagGeometry =>
    match buildChunkGeometry report.descriptor (parseStorageLayout image) with
    | none => return .error (.threw "vector::at")
    | some geometry => return .ok ⟨report, geometry, flagGeometry⟩

/-- Describe an image whose metadata is there. No linear description is fitted, and no observation
read: neither of them refuses an image, or reads from the store. -/
def describeMetadata (imageId : String) (values : CoordinateValues) (image : ArrayMetadata) :
    StateM Session (Except OpenFailure DescribedImage) := do
  match ← describeListedAxes store outages image with
  | .error e => return .error e
  | .ok axes =>
    match readCoordinateSystem store.rootAttributes with
    | .error e => return .error (.refused e)
    | .ok direction =>
      let spectral ← describeSpectralCoordinate store outages values.frequency
      let temporal ← describeTemporalCoordinate store outages values.time
      let selected ← determineFlag store outages image imageId []
      match selected.1 with
      | .error e => return .error (.refused e)
      | .ok flag =>
        describeReport store outages image
          { id := imageId
            storedType := parseDataType image.dataType
            unit := attributeString image.attributes "units"
            imageRole := imageRoleOf image
            dataGroups := findDataGroups store.rootAttributes imageId
            axes := axes
            direction := direction
            spectral := spectral
            polarization := if values.polarization = [] then none else some values.polarization
            temporal := temporal
            pixelMaskId := flag
            diagnostics := selected.2 }

def describeImageFrom (imageId : String) (values : CoordinateValues) :
    StateM Session (Except OpenFailure DescribedImage) := do
  match ← requireQualified store outages imageId with
  | .error e => return .error (.refused e)
  | .ok _ =>
    match ← store.readArrayMetadata outages imageId with
    | .error _ => return .error (.threw "bad_variant_access")
    | .ok image => describeMetadata store outages imageId values image

def describeImage (imageId : String) : StateM Session (Except OpenFailure DescribedImage) := do
  match ← requireQualified store outages imageId with
  | .error e => return .error (.refused e)
  | .ok _ =>
    match ← store.verifyArray outages imageId with
    | .error e => return .error (.refused e)
    | .ok _ =>
      match ← readCoordinateValues store outages with
      | .error e => return .error (.refused e)
      | .ok values => describeImageFrom store outages imageId values

end Describe

end CartaZarr
