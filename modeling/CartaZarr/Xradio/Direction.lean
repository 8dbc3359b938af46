import CartaZarr.Xradio.Flag

/-!
# The direction of a sky plane

The coordinate system that the root of a dataset describes: a projection, the directions of its
reference and of its native pole, and a matrix. What is accepted here is what is reported:
`readCoordinateSystem` is asked by the probe of a dataset and by the description of each image.
Angles are rational numbers, so that their conversion to degrees is not rounded.
-/

namespace CartaZarr

/-- A number, as a double. -/
def Json.number? : Json → Option ℚ
  | .unsigned n => some (Json.double n.toNat)
  | .integer n => some (Json.double n.toInt)
  | .float x => some x
  | _ => none

/-- The numbers of an array of so many. -/
def numericVector? (value : Json) (length : ℕ) : Option (List ℚ) :=
  value.array?.bind fun items => if items.length = length then items.mapM Json.number? else none

/-- The rows of an array of arrays of numbers. -/
def numericMatrix? (value : Json) (rows columns : ℕ) : Option (List (List ℚ)) :=
  value.array?.bind fun items =>
    if items.length = rows then items.mapM fun row => numericVector? row columns else none

/-- What a radian is in degrees, as a double. -/
def kRadToDeg : ℚ := 0x1ca5dc1a63c1f8 / 2 ^ 47

def malformed (message : String) : Error :=
  ⟨.invalidMetadata, message, "/attributes/coordinate_system_info"⟩

/-- The two angles of a measure, in degrees. -/
def readAnglePair (measure : Option Json) : Option (List ℚ) :=
  (measure.bind fun measure => measure.get? "data").bind fun data =>
    (numericVector? data 2).map fun angles => angles.map (· * kRadToDeg)

/-- The direction of a sky plane, as the root of the dataset describes it. -/
structure DirectionCoordinate where
  projection : Bytes
  referenceFrame : Bytes
  referenceValue : List ℚ
  nativePoleDirection : List ℚ
  transformationMatrix : List (List ℚ)
  projectionParameters : List ℚ

/-- A member that is an object. -/
def objectMember (object : Json) (name : String) : Option Json :=
  (memberObject object name).map Json.object

def readCoordinateSystem (rootAttributes : Json) : Except Error DirectionCoordinate :=
  match objectMember rootAttributes "coordinate_system_info" with
  | none => .error (malformed "XRADIO requires coordinate_system_info metadata")
  | some info =>
    let projection := upper (spelled (attributeString info "projection"))
    if projection = [] then .error (malformed "coordinate_system_info requires a projection")
    else match readAnglePair (objectMember info "reference_direction") with
      | none => .error (malformed "coordinate_system_info requires a two-value reference direction")
      | some referenceValue =>
        match readAnglePair (objectMember info "native_pole_direction") with
        | none =>
          .error (malformed "coordinate_system_info requires a two-value native pole direction")
        | some nativePole =>
          match (info.get? "pixel_coordinate_transformation_matrix").bind
              (numericMatrix? · 2 2) with
          | none =>
            .error (malformed "coordinate_system_info requires a 2x2 pixel transformation matrix")
          | some matrix =>
            let attrs := (objectMember info "reference_direction").bind (objectMember · "attrs")
            .ok
              { projection := projection
                referenceFrame := upper (spelled ((attrs.map (attributeString · "frame")).getD ""))
                referenceValue := referenceValue
                nativePoleDirection := nativePole
                transformationMatrix := matrix
                projectionParameters :=
                  ((((info.get? "projection_parameters").bind Json.array?).getD
                    []).filterMap Json.number?) }

end CartaZarr
