import CartaZarr.Xradio.CoordinateValues
import CartaZarr.Xradio.Direction

/-!
# What a probe found

A probe states what it needs of a dataset, one requirement after another, and asks at the end what
came of it. The report latches: after a requirement that is not met, or a read that failed, those
after it ask nothing and change nothing. A report that is still good has therefore met them all, and
one that is not names the first it missed.
-/

namespace CartaZarr

/-- What a store is to a profile. -/
inductive SchemaMatchKind
  | noMatch | isMatch | invalid
  deriving DecidableEq, Repr

structure SchemaProbeResult where
  kind : SchemaMatchKind
  schemaId : String
  schemaVersion : String
  diagnostics : List Diagnostic
  deriving DecidableEq

def kXradioImageSchema : String := "xradio.image"

/-- What a probe calls an error. -/
def diagnosticCodeFor : ErrorCode → DiagnosticCode
  | .unsupportedDataType => .unsupportedDataType
  | .ambiguousSchema => .ambiguousSchema
  | .invalidMetadata | .notFound | .notZarr | .unsupportedTransport | .unsupportedZarrVersion
  | .unsupportedSchema | .unsupportedSchemaVersion | .invalidArgument
      | .unsupportedCodec | .invalidSlice
  | .bufferTooSmall | .ioError | .decodeError | .cancelled | .notImplemented => .invalidMetadata

/-- What a probe found so far: its diagnostics, a read that failed, and whether every requirement
was met. -/
structure ProbeReport where
  diagnostics : List Diagnostic := []
  error : Option Error := none
  met : Bool := true

namespace ProbeReport

variable (report : ProbeReport)

/-- Every requirement so far was met, and no read failed. What a requirement returns is what this
says of the report after it. -/
def ok : Bool := report.met && report.error.isNone

def fail (code : DiagnosticCode) (message nodePath : String) : ProbeReport :=
  { report with diagnostics := report.diagnostics ++ [⟨code, message, nodePath⟩], met := false }

/-- A node's metadata must have parsed. -/
def requireArrayMetadata (metadata : Except Error ArrayMetadata) (node : String) : ProbeReport :=
  if ¬ report.ok then report
  else match metadata with
    | .ok _ => report
    | .error e => report.fail (diagnosticCodeFor e.code) e.message node

/-- What is required of the array of a coordinate once it is read. -/
def requireCoordinateArray (coordinate : Coordinate)
    (metadata : Except Error ArrayMetadata) : ProbeReport :=
  let report := report.requireArrayMetadata metadata coordinate.name
  match metadata with
  | .error _ => report
  | .ok array =>
    match checkCoordinate array coordinate with
    | .ok _ => report
    | .error e => report.fail (diagnosticCodeFor e.code) e.message coordinate.name

/-- The array of a coordinate must exist, read, and be well formed. -/
def requireCoordinate (store : Store) (outages : Outages) (coordinate : Coordinate) :
    StateM Session ProbeReport := do
  if ¬ report.ok then return report
  else
    match ← store.readNodeMetadata outages coordinate.name with
    | .error e =>
      if e.code = .notFound then
        return report.fail .invalidMetadata "Missing required coordinate array" coordinate.name
      else return { report with error := some e }
    | .ok _ =>
      return report.requireCoordinateArray coordinate
        (← store.readArrayMetadata outages coordinate.name)

/-- The root must describe a direction. -/
def requireCoordinateSystem (rootAttributes : Json) : ProbeReport :=
  if ¬ report.ok then report
  else match readCoordinateSystem rootAttributes with
    | .ok _ => report
    | .error e => report.fail .invalidMetadata e.message e.nodePath

/-- The array of each coordinate of the sky plane must be there. -/
def requireCoordinates (store : Store) (outages : Outages) :
    List Coordinate → ProbeReport → StateM Session ProbeReport
  | [], report => return report
  | coordinate :: coordinates, report => do
    requireCoordinates store outages coordinates
      (← report.requireCoordinate store outages coordinate)

/-- The result of a probe, or the error of the read that stopped it. -/
def finish (kind : SchemaMatchKind) (schemaVersion : String) : Except Error SchemaProbeResult :=
  match report.error with
  | some e => .error e
  | none => .ok ⟨kind, kXradioImageSchema, schemaVersion, report.diagnostics⟩

end ProbeReport

end CartaZarr
