import CartaZarr.Foundations.Fallible
import CartaZarr.Foundations.Json
import CartaZarr.Image.Descriptor

/-!
# What the document of an array says

`ArrayMetadata` is what is kept of a node's document once it has been accepted as an array's. The
codec chain, the chunk key encoding and the fill value are carried as written, for what they mean
differs by who is asking. `parseArrayMetadata` accepts a document or says why not, and
`parseStorageLayout` reads from what was accepted how the array is stored.

What a document is refused for does not depend on the node it is of, which is only named in the
error: `parseArray` is the rule and `parseArrayMetadata` adds the name.
-/

namespace CartaZarr

structure ArrayMetadata where
  shape : List UInt64
  dimensionNames : List String
  dataType : String
  dataTypeConfiguration : Json := .null
  attributes : Json
  chunkShape : List UInt64
  /-- The chain, in the order it encodes in. -/
  codecs : List Json := []
  chunkKeyEncoding : Json := .object []
  /-- What a chunk never written reads as; null when the document has none. -/
  fillValue : Json := .null

/-- A refusal that does not yet name the node it is about. -/
abbrev Failure := ErrorCode × String

/-- A refusal of a node. -/
def Failure.at (node : String) (failure : Failure) : Error := ⟨failure.1, failure.2, node⟩

/-- A member of the configuration of a codec or of a key encoding. -/
def configured (j : Json) (key : String) : Option Json :=
  (j.get? "configuration").bind (Json.get? key)

/-- An integer above zero. -/
def isPositiveInteger (value : Json) : Bool :=
  match value.natural? with
  | some n => 0 < n
  | none => false

/-- An array of strings, each a positive number of code points of four bytes. -/
def isFixedLengthUtf32 (metadata : ArrayMetadata) : Bool :=
  match metadata.dataTypeConfiguration.get? "length_bytes" with
  | some value =>
    metadata.dataType = "fixed_length_utf32" && isPositiveInteger value &&
      (value.natural?.getD 0).toNat % 4 = 0
  | none => false

/-! ### Codecs -/

/-- The name of a codec, where it has one that is a string. -/
def codecName? (codec : Json) : Option String := (codec.get? "name").bind Json.string?

/-- The first codec of a chain with a name. -/
def findCodec (codecs : List Json) (name : String) : Option Json :=
  codecs.find? fun codec => codec.isObject && (codecName? codec).getD "" = name

/-- Every codec that names itself does so with a string. -/
def codecNamesAreStrings (codecs : List Json) : Bool :=
  codecs.all fun codec =>
    match codec.get? "name" with
    | some value => value.string?.isSome
    | none => true

/-- The compressor of a chain, or the empty string. -/
def findCompressor (codecs : List Json) : String :=
  (["zstd", "gzip", "blosc"].find? fun name => (findCodec codecs name).isSome).getD ""

/-- The axis order a transpose writes in, where it is a permutation of the axes. -/
def transposeOrder (codec : Json) (rank : ℕ) : Option (List ℕ) :=
  match configured codec "order" with
  | some (.string spelling) =>
    if spelling = "C" then some (List.range rank)
    else if spelling = "F" then some ((List.range rank).map fun i => rank - 1 - i)
    else none
  | some (.array items) =>
    if items.length ≠ rank then none
    else match items.mapM Json.natural? with
      | some axes =>
        if axes.all (fun axis => axis.toNat < rank) ∧ (axes.map UInt64.toNat).Nodup then
          some (axes.map UInt64.toNat)
        else none
      | none => none
  | _ => none

/-! ### The parts of a document -/

/-- Refuse unless a condition holds. -/
def require (condition : Bool) (code : ErrorCode) (message : String) : Except Failure Unit :=
  if condition then .ok () else .error (code, message)

/-- What a document has, or a refusal. -/
def demand {α : Type} (value : Option α) (code : ErrorCode) (message : String) : Except Failure α :=
  match value with
  | some value => .ok value
  | none => .error (code, message)

def parseShape (metadata : Json) : Except Failure (List UInt64) := do
  let items ← demand ((metadata.get? "shape").bind Json.array?) .invalidMetadata
    "Zarr array metadata requires a shape"
  items.mapM fun item => demand item.natural? .invalidMetadata
    "Zarr array shape must contain non-negative integers"

/-- The names of the dimensions: of the document, or of its attributes where it has none. -/
def parseDimensionNames (metadata : Json) (rank : ℕ) : Except Failure (List String) :=
  match metadata.get? "dimension_names" <|>
      (metadata.get? "attributes").bind (Json.get? "dimension_names") with
  | none => .ok []
  | some dimensions => do
    let items ← demand dimensions.array? .invalidMetadata
      "Array dimension_names must match shape rank"
    require (items.length = rank) .invalidMetadata "Array dimension_names must match shape rank"
    let names ← items.mapM fun item => demand item.string? .invalidMetadata
      "Array dimension names must be strings"
    require names.Nodup .invalidMetadata "Array dimension names must be unique"
    return names

/-- The name of the data type and its configuration. -/
def parseDataTypeMember (metadata : Json) : Except Failure (String × Json) := do
  let dataType ← demand (metadata.get? "data_type") .invalidMetadata
    "Zarr array metadata requires data_type"
  match dataType with
  | .string name => return (name, .null)
  | _ =>
    let name ← demand ((dataType.get? "name").bind Json.string?) .unsupportedDataType
      "Zarr array data_type is not recognized"
    match dataType.get? "configuration" with
    | none => return (name, .null)
    | some configuration =>
      require configuration.isObject .invalidMetadata
        "Zarr data_type configuration must be an object"
      return (name, configuration)

def parseAttributes (metadata : Json) : Except Failure Json :=
  match metadata.get? "attributes" with
  | none => .ok (.object [])
  | some attributes => do
    require attributes.isObject .invalidMetadata "Zarr array attributes must be an object"
    return attributes

def parseCodecsMember (metadata : Json) : Except Failure (List Json) :=
  match (metadata.get? "codecs").bind Json.array? with
  | none => .ok []
  | some codecs => do
    require (codecNamesAreStrings codecs) .invalidMetadata "Zarr codec names must be strings"
    return codecs

/-- Chunk extents above zero, as many as the array has dimensions. -/
def parseExtents (value : Option Json) (rank : ℕ)
    (message : String) : Except Failure (List UInt64) := do
  let items ← demand (value.bind Json.array?) .invalidMetadata message
  require (items.length = rank && items.all isPositiveInteger) .invalidMetadata message
  return items.filterMap Json.natural?

def parseChunkShape (metadata : Json) (rank : ℕ) : Except Failure (List UInt64) := do
  let grid := metadata.get? "chunk_grid"
  let chunks := grid.bind fun grid => configured grid "chunk_shape"
  require ((grid.bind fun grid => (grid.get? "name").bind Json.string?) = some "regular" &&
    chunks.isSome) .unsupportedCodec "Only regular Zarr chunk grids are supported"
  parseExtents chunks rank "Zarr chunk_shape must be positive and match shape rank"

/-- Every transpose of a chain is a permutation of the axes. -/
def checkTransposes (codecs : List Json) (rank : ℕ) : Except Failure Unit :=
  require (codecs.all fun codec => codecName? codec ≠ some "transpose" ||
    (transposeOrder codec rank).isSome) .invalidMetadata
    "Transpose codec order must be a permutation of the array's axes"

/-- The chunks of a sharding codec are extents of the array's rank, and its own codecs are named by
strings. -/
def checkSharding (codecs : List Json) (rank : ℕ) : Except Failure Unit :=
  match findCodec codecs "sharding_indexed" with
  | none => .ok ()
  | some sharding => do
    let _ ← parseExtents (configured sharding "chunk_shape") rank
      "Sharding codec chunk_shape must be positive and match the array rank"
    match (configured sharding "codecs").bind Json.array? with
    | none => return
    | some inner =>
      require (codecNamesAreStrings inner) .invalidMetadata "Zarr codec names must be strings"

/-- What the document of an array says, or why it is none. -/
def parseArray (metadata : Json) : Except Failure ArrayMetadata := do
  require metadata.isObject .invalidMetadata "Zarr array metadata must be a JSON object"
  require ((metadata.get? "node_type").bind Json.string? = some "array") .invalidMetadata
    "Zarr node is not an array"
  let format ← demand ((metadata.get? "zarr_format").bind Json.natural?) .invalidMetadata
    "Zarr array metadata has no valid zarr_format"
  require (format = 3) .unsupportedZarrVersion "Only Zarr format 3 arrays are supported"
  let shape ← parseShape metadata
  let dimensionNames ← parseDimensionNames metadata shape.length
  let (dataType, dataTypeConfiguration) ← parseDataTypeMember metadata
  let attributes ← parseAttributes metadata
  let codecs ← parseCodecsMember metadata
  let chunkShape ← parseChunkShape metadata shape.length
  checkTransposes codecs shape.length
  checkSharding codecs shape.length
  return {
    shape, dimensionNames, dataType, dataTypeConfiguration, attributes, chunkShape, codecs
    chunkKeyEncoding := match metadata.get? "chunk_key_encoding" with
      | some (.object members) => .object members
      | _ => .object []
    fillValue := (metadata.get? "fill_value").getD .null }

def parseArrayMetadata (metadata : Json) (node : String) : Except Error ArrayMetadata :=
  (parseArray metadata).mapError (Failure.at node)

/-! ### How an array is stored -/

structure StorageLayout where
  chunkShape : List UInt64
  shardShape : List UInt64 := []
  compressor : String := ""
  sharded : Bool := false
  deriving DecidableEq, Repr

/-- The decoded axis each axis is of the array that reaches the sharding codec, after the transposes
before it. -/
def decodedAxes (codecs : List Json) (rank : ℕ) : List ℕ :=
  (codecs.takeWhile fun codec =>
    !(codec.isObject && (codecName? codec).getD "" = "sharding_indexed")).foldl
    (fun decoded codec =>
      if codecName? codec = some "transpose" then
        ((transposeOrder codec rank).getD []).map fun axis => decoded.getD axis 0
      else decoded) (List.range rank)

/-- The chunks inside the shards, on the axes a read names, and the compressor that applies to
them. -/
def applyShardingLayout (codecs : List Json) (sharding : Json) (layout : StorageLayout) :
    StorageLayout :=
  let rank := layout.chunkShape.length
  let inner := (((configured sharding "chunk_shape").bind Json.array?).getD
    []).filterMap Json.natural?
  let chunkShape := (inner.zip (decodedAxes codecs rank)).foldl
    (fun shape extent => shape.set extent.2 extent.1) (List.replicate rank 0)
  let compressor := match (configured sharding "codecs").bind Json.array? with
    | some inner => findCompressor inner
    | none => ""
  { chunkShape, shardShape := layout.chunkShape, compressor, sharded := true }

def parseStorageLayout (metadata : ArrayMetadata) : StorageLayout :=
  let layout : StorageLayout := { chunkShape := metadata.chunkShape }
  let layout := match findCodec metadata.codecs "sharding_indexed" with
    | some sharding => applyShardingLayout metadata.codecs sharding layout
    | none => layout
  if layout.compressor = "" then { layout with compressor := findCompressor metadata.codecs }
  else layout

end CartaZarr
