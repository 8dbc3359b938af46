import CartaZarr.Foundations.Crc
import CartaZarr.Foundations.Fallible
import CartaZarr.Zarr.ArrayMetadata

/-!
# Reading an array of strings

A one-dimensional array of fixed-length UTF-32 strings is read without the array library, which has
no strings: each chunk file is undone codec by codec and its code points are written again as UTF-8.

The decompressors are other libraries' and are a parameter, `Decompressors`: the functions that are
called, each into a buffer of a given size, and what their documentation says of them. Everything
that is checked around a call is here. That an allocation fails is not modelled.
-/

namespace CartaZarr

abbrev Bytes := List UInt8

/-- What the helpers throw: a failure with a code of its own, or an exception of a library. -/
inductive Thrown
  | failure (code : ErrorCode) (message : String)
  | exception (what : String)
  deriving DecidableEq, Repr

abbrev Throws (α : Type) : Type := Except Thrown α

/-- Stop with a failure. -/
def fail {α : Type} (code : ErrorCode) (message : String) : Throws α :=
  .error (.failure code message)

/-! ### Code points -/

def kUnicodeMax : UInt32 := 0x10FFFF

def kSurrogateMin : UInt32 := 0xD800

def kSurrogateMax : UInt32 := 0xDFFF

/-- A byte of a sequence: its tag, and the bits of the code point it carries. -/
def tagged (tag bits : UInt32) : UInt8 := (tag ||| bits).toUInt8

/-- Write one code point at the end of a UTF-8 string. -/
def appendUtf8 (out : Bytes) (codePoint : UInt32) : Throws Bytes :=
  if codePoint > kUnicodeMax ∨ (codePoint ≥ kSurrogateMin ∧ codePoint ≤ kSurrogateMax) then
    fail .decodeError "Invalid Unicode code point"
  else if codePoint < 0x80 then
    .ok (out ++ [codePoint.toUInt8])
  else if codePoint < 0x800 then
    .ok (out ++ [tagged 0xC0 (codePoint >>> 6), tagged 0x80 (codePoint &&& 0x3F)])
  else if codePoint < 0x10000 then
    .ok (out ++ [tagged 0xE0 (codePoint >>> 12), tagged 0x80 ((codePoint >>> 6) &&& 0x3F),
      tagged 0x80 (codePoint &&& 0x3F)])
  else
    .ok (out ++ [tagged 0xF0 (codePoint >>> 18), tagged 0x80 ((codePoint >>> 12) &&& 0x3F),
      tagged 0x80 ((codePoint >>> 6) &&& 0x3F), tagged 0x80 (codePoint &&& 0x3F)])

/-- The 32-bit number at an offset, in either byte order. -/
def readUint32 (bytes : Bytes) (offset : ℕ) (littleEndian : Bool) : UInt32 :=
  let byte := fun i => (bytes.getD (offset + i) 0).toUInt32
  if littleEndian then byte 0 ||| (byte 1 <<< 8) ||| (byte 2 <<< 16) ||| (byte 3 <<< 24)
  else byte 3 ||| (byte 2 <<< 8) ||| (byte 1 <<< 16) ||| (byte 0 <<< 24)

/-- The code points of the element at `start`, from `codeIndex` on, up to the first that is zero. -/
def decodeElement (bytes : Bytes) (start : ℕ) (littleEndian : Bool) :
    (remaining codeIndex : ℕ) → Bytes → Throws Bytes
  | 0, _, value => .ok value
  | remaining + 1, codeIndex, value =>
    let offset := start + codeIndex * 4
    if bytes.length < offset + 4 then
      fail .decodeError "String array chunk ended before the last element"
    else
      let codePoint := readUint32 bytes offset littleEndian
      if codePoint = 0 then .ok value
      else do
        let value ← appendUtf8 value codePoint
        decodeElement bytes start littleEndian remaining (codeIndex + 1) value

/-- The strings of a chunk, as UTF-8. -/
def decodeFixedLengthUtf32 (bytes : Bytes) (numElements lengthBytes : ℕ) (littleEndian : Bool) :
    Throws (List Bytes) :=
  (List.range numElements).mapM fun element =>
    decodeElement bytes (element * lengthBytes) littleEndian (lengthBytes / 4) 0 []

/-! ### Compressors -/

inductive BytesCodec
  | blosc | gzip | zstd
  deriving DecidableEq, Repr

def BytesCodec.name : BytesCodec → String
  | blosc => "blosc"
  | gzip => "gzip"
  | zstd => "zstd"

/-- What `inflate` says when it stops. -/
inductive InflateStatus
  | streamEnd
  | ok
  | failed (text : String)

/-- The decompressors, each given a stream and the size of the buffer to write to. -/
structure Decompressors where
  /-- What a stream of a compressor's format holds. -/
  Holds : BytesCodec → Bytes → Bytes → Prop
  /-- `ZSTD_decompress`: what it wrote, or the name of its error. -/
  zstdDecompress : Bytes → ℕ → Except String Bytes
  /-- `inflateInit2`, for a gzip stream, and one `inflate` to the end: nothing where the first
  fails. -/
  inflate : Bytes → ℕ → Option (InflateStatus × Bytes)
  /-- `blosc_cbuffer_sizes`: the sizes of the contents and of the stream, as its header gives
  them. -/
  bloscSizes : Bytes → ℕ × ℕ
  /-- `blosc_decompress`: what it wrote, or nothing where it returns a negative number. -/
  bloscDecompress : Bytes → ℕ → Option Bytes
  holds_unique : ∀ {codec stream a b}, Holds codec stream a → Holds codec stream b → a = b
  /-- Decompression inverts compression, into a buffer of the size of the contents. -/
  zstd_of_holds : ∀ {stream contents}, Holds .zstd stream contents →
    zstdDecompress stream contents.length = .ok contents
  zstd_holds : ∀ {stream size contents}, zstdDecompress stream size = .ok contents →
    Holds .zstd stream contents
  /-- The sizes `inflate` is given are of 32 bits. -/
  inflate_of_holds : ∀ {stream contents}, Holds .gzip stream contents → stream.length < 2 ^ 32 →
    contents.length < 2 ^ 32 → inflate stream contents.length = some (.streamEnd, contents)
  inflate_holds : ∀ {stream size contents}, inflate stream size = some (.streamEnd, contents) →
    Holds .gzip stream contents
  blosc_of_holds : ∀ {stream contents}, Holds .blosc stream contents →
    16 ≤ stream.length ∧ (bloscSizes stream).1 = contents.length ∧
      (bloscSizes stream).2 ≤ stream.length ∧
        bloscDecompress stream contents.length = some contents
  blosc_holds : ∀ {stream size contents}, bloscDecompress stream size = some contents →
    Holds .blosc stream contents

variable (lib : Decompressors)

def zstdDecompress (compressed : Bytes) (size : ℕ) : Throws Bytes :=
  match lib.zstdDecompress compressed size with
  | .ok decompressed => .ok decompressed
  | .error name => fail .decodeError ("Zstd decompression failed: " ++ name)

def gzipDecompress (compressed : Bytes) (size : ℕ) : Throws Bytes :=
  if compressed.length > 2 ^ 32 - 1 then
    fail .decodeError "Gzip buffer is too large to decompress"
  else if size > 2 ^ 32 - 1 then
    fail .decodeError "Gzip expected output is too large to decompress"
  else match lib.inflate compressed size with
    | none => fail .decodeError "Failed to initialize gzip decompression"
    | some (.streamEnd, decompressed) => .ok decompressed
    | some (.ok, decompressed) =>
      if decompressed.length = size then
        fail .decodeError "Gzip decompressed size exceeds the expected array size"
      else fail .decodeError "Gzip decompression failed: "
    | some (.failed text, _) => fail .decodeError ("Gzip decompression failed: " ++ text)

def bloscDecompress (compressed : Bytes) (size : ℕ) : Throws Bytes :=
  if compressed.length < 16 then
    fail .decodeError "Blosc buffer is smaller than the header"
  else if (lib.bloscSizes compressed).2 > compressed.length then
    fail .decodeError "Blosc buffer is truncated"
  else if (lib.bloscSizes compressed).1 ≠ size then
    fail .decodeError "Blosc decompressed size does not match the expected chunk size"
  else match lib.bloscDecompress compressed size with
    | none => fail .decodeError "Blosc decompression failed"
    | some decompressed =>
      if decompressed.length ≠ size then
        fail .decodeError "Blosc produced an unexpected decompressed size"
      else .ok decompressed

def decompressBytesCodec (compressed : Bytes) : BytesCodec → ℕ → Throws Bytes
  | .blosc => bloscDecompress lib compressed
  | .gzip => gzipDecompress lib compressed
  | .zstd => zstdDecompress lib compressed

/-! ### Checksums -/

def crc32c (data : Bytes) : UInt32 := data.foldl (Crc.lookup 0x82F63B78) 0xFFFFFFFF ^^^ 0xFFFFFFFF

/-- Verify and remove one checksum from the end, which is little-endian whatever the strings are. -/
def stripCrc32c (data : Bytes) : Throws Bytes :=
  if data.length < 4 then
    fail .decodeError "String array chunk is too small to contain a CRC32C checksum"
  else
    let payloadSize := data.length - 4
    if readUint32 data payloadSize true ≠ crc32c (data.take payloadSize) then
      fail .decodeError "String array CRC32C checksum mismatch"
    else .ok (data.take payloadSize)

/-- Remove a number of checksums. -/
def stripAll : ℕ → Bytes → Throws Bytes
  | 0, data => .ok data
  | count + 1, data => do
    let data ← stripCrc32c data
    stripAll count data

/-! ### The codec chain -/

/-- How a chunk is encoded: the compressor if there is one, the byte order, and the number of
checksums on each side of the compressor. Those before it end up inside what is compressed, those
after it wrap the stored chunk. -/
structure StringCodecInfo where
  bytesCodec : Option BytesCodec := none
  littleEndian : Bool := true
  crcBeforeCompressor : ℕ := 0
  crcAfterCompressor : ℕ := 0
  deriving DecidableEq, Repr

def setBytesCodec (info : StringCodecInfo) (codec : BytesCodec) : Throws StringCodecInfo :=
  if info.bytesCodec.isSome then
    fail .unsupportedCodec
      "String array uses multiple bytes compressors; only one of zstd, gzip, or blosc is supported"
  else .ok { info with bytesCodec := some codec }

/-- The name of a codec: of what is no object, or has no name, the empty one. A name that is no
string throws. -/
def codecName (codec : Json) : Throws String :=
  match codec.get? "name" with
  | none => .ok ""
  | some (.string name) => .ok name
  | some value => .error (.exception
      ("[json.exception.type_error.302] type must be string, but is " ++ value.typeName))

/-- The order of a transpose that moves nothing in one dimension, `[0]`. -/
def isIdentityOrder : Json → Bool
  | .array [axis] => axis.isZero
  | _ => false

/-- Take the byte order of a `bytes` codec. -/
def parseEndian (codec : Json) (info : StringCodecInfo) : StringCodecInfo :=
  match configured codec "endian" with
  | some (.string endian) => { info with littleEndian := endian ≠ "big" }
  | _ => info

/-- Count a checksum. The compressor is recorded once seen, so its presence tells the two sides
apart. -/
def countCrc (info : StringCodecInfo) : StringCodecInfo :=
  if info.bytesCodec.isSome then { info with crcAfterCompressor := info.crcAfterCompressor + 1 }
  else { info with crcBeforeCompressor := info.crcBeforeCompressor + 1 }

/-- Take one codec of the chain, given whether a `bytes` codec was seen. -/
def parseStringCodec (codec : Json) (info : StringCodecInfo) (seenBytes : Bool) :
    Throws (StringCodecInfo × Bool) := do
  let name ← codecName codec
  if name = "blosc" then (setBytesCodec info .blosc).map (·, seenBytes)
  else if name = "gzip" then (setBytesCodec info .gzip).map (·, seenBytes)
  else if name = "zstd" then (setBytesCodec info .zstd).map (·, seenBytes)
  else if name = "bytes" then
    if seenBytes then
      fail .unsupportedCodec "String array has multiple bytes codecs in its codec chain"
    else .ok (parseEndian codec info, true)
  else if name = "crc32c" then .ok (countCrc info, seenBytes)
  else if name = "transpose" then
    if (configured codec "order").any isIdentityOrder then .ok (info, seenBytes)
    else fail .unsupportedCodec ("String array uses a non-identity transpose; " ++
      "unsupported for 1-D string decode")
  else fail .unsupportedCodec ("String array uses unsupported codec '" ++ name ++
    "'; only bytes, transpose, zstd, gzip, blosc, and crc32c are supported")

/-- Take the codecs of a chain, in order. -/
def parseCodecs : List Json → StringCodecInfo → Bool → Throws StringCodecInfo
  | [], info, _ => .ok info
  | codec :: codecs, info, seenBytes => do
    let (info, seenBytes) ← parseStringCodec codec info seenBytes
    parseCodecs codecs info seenBytes

def parseStringCodecs (codecs : List Json) : Throws StringCodecInfo := parseCodecs codecs {} false

/-! ### The layout -/

structure StringArrayLayout where
  numElements : ℕ
  chunkElements : ℕ
  lengthBytes : ℕ
  /-- What each element of a chunk never written reads as, in UTF-8. -/
  fillValue : Bytes
  chunkElements_pos : 0 < chunkElements

/-- The bytes of a string. -/
def utf8 (s : String) : Bytes := s.toList.flatMap String.utf8EncodeChar

/-- A fill value is a string; none at all is the empty string. -/
def parseStringFillValue : Json → Throws Bytes
  | .null => .ok []
  | .string s => .ok (utf8 s)
  | _ => fail .invalidMetadata "String array fill_value is not a string"

def parseStringArrayLayout (metadata : ArrayMetadata) : Throws StringArrayLayout :=
  if isFixedLengthUtf32 metadata then
    match metadata.shape, metadata.chunkShape with
    | [numElements], [chunkElements] =>
      if h : chunkElements.toNat = 0 then
        fail .invalidMetadata "String array has a chunk of no elements"
      else do
        let fillValue ← parseStringFillValue metadata.fillValue
        let lengthBytes := (metadata.dataTypeConfiguration.get? "length_bytes").bind Json.natural?
        return ⟨numElements.toNat, chunkElements.toNat, (lengthBytes.getD 0).toNat, fillValue,
          Nat.pos_of_ne_zero h⟩
    | _, _ => fail .unsupportedDataType "Only 1-D string arrays are supported"
  else fail .unsupportedDataType "Array is not a valid fixed_length_utf32 string array"

/-- One path under another. -/
def joinPath (directory name : String) : String :=
  if directory = "" ∨ directory.toList.getLast? = some '/' then directory ++ name
  else directory ++ "/" ++ name

/-- Where a chunk is kept. -/
def getStringChunkPath (arrayDirectory : String) (encoding : Json) (index : ℕ) : Throws String :=
  let keyEncoding := ((encoding.get? "name").bind Json.string?).getD "default"
  let separator := ((configured encoding "separator").bind Json.string?).getD "/"
  if keyEncoding = "default" then
    if separator ≠ "/" ∧ separator ≠ "." then
      fail .unsupportedCodec ("String array has invalid chunk key separator '" ++ separator ++ "'")
    else .ok (joinPath arrayDirectory ("c" ++ separator ++ toString index))
  else if keyEncoding = "v2" then .ok (joinPath arrayDirectory (toString index))
  else fail .unsupportedCodec
    ("String array uses unsupported chunk key encoding '" ++ keyEncoding ++ "'")

/-! ### Chunks -/

/-- What there is at a path: nothing, something the file system cannot tell, a file that does not
open, or the bytes of one that does. -/
inductive ChunkFile
  | missing
  | uninspectable (message : String)
  | unreadable
  | contents (bytes : Bytes)

/-- Undo the compressor of a chunk, if there is one, into a buffer for what was compressed. -/
def decompressChunk (bytes : Bytes) (codecInfo : StringCodecInfo) (expectedChunkBytes : ℕ) :
    Throws Bytes :=
  match codecInfo.bytesCodec with
  | some codec =>
    if codecInfo.crcBeforeCompressor > (2 ^ 64 - 1 - expectedChunkBytes) / 4 then
      fail .invalidMetadata "String array expected checksum byte count overflows size_t"
    else
      decompressBytesCodec lib bytes codec (expectedChunkBytes + 4 * codecInfo.crcBeforeCompressor)
  | none => .ok bytes

def decodeStringChunk (bytes : Bytes) (codecInfo : StringCodecInfo) (layout : StringArrayLayout) :
    Throws Bytes :=
  if layout.lengthBytes ≠ 0 ∧ layout.chunkElements > (2 ^ 64 - 1) / layout.lengthBytes then
    fail .invalidMetadata "String array expected byte count overflows size_t"
  else do
    let expectedChunkBytes := layout.chunkElements * layout.lengthBytes
    let bytes ← stripAll codecInfo.crcAfterCompressor bytes
    let bytes ← decompressChunk lib bytes codecInfo expectedChunkBytes
    let bytes ← stripAll codecInfo.crcBeforeCompressor bytes
    if bytes.length < expectedChunkBytes then
      fail .decodeError "String array chunk is smaller than expected"
    -- What lies past the end is no string of this array, whatever it decodes to.
    else if bytes.length > expectedChunkBytes then
      fail .decodeError "String array chunk is larger than its chunk shape accounts for"
    else .ok bytes

/-- The elements of one chunk: those of the file, or the fill value where there is none. -/
def readStringChunk (file : ChunkFile) (path : String) (codecInfo : StringCodecInfo)
    (layout : StringArrayLayout) (count : ℕ) :
    Throws {chunk : List Bytes // chunk.length = count} :=
  match file with
  | .missing => .ok ⟨List.replicate count layout.fillValue, List.length_replicate⟩
  | .uninspectable message =>
    fail .ioError ("Unable to inspect string array chunk: " ++ message)
  | .unreadable => fail .ioError ("Failed to open array data " ++ path)
  | .contents bytes => do
    let bytes ← decodeStringChunk lib bytes codecInfo layout
    match h : decodeFixedLengthUtf32 bytes count layout.lengthBytes codecInfo.littleEndian with
    | .ok decoded => .ok ⟨decoded, by simpa using (mapM_eq_ok_iff.1 h).length_eq.symm⟩
    | .error e => .error e

/-- Read chunk after chunk until there are as many elements as the array has. -/
def readStringChunks (files : String → ChunkFile) (arrayDirectory : String) (encoding : Json)
    (codecInfo : StringCodecInfo) (layout : StringArrayLayout) (index : ℕ) (values : List Bytes) :
    Throws (List Bytes) :=
  if values.length < layout.numElements then do
    let path ← getStringChunkPath arrayDirectory encoding index
    -- The last chunk may overhang the array; what lies past its end is not an element.
    let count := min layout.chunkElements (layout.numElements - values.length)
    let chunk ← readStringChunk lib (files path) path codecInfo layout count
    readStringChunks files arrayDirectory encoding codecInfo layout (index + 1) (values ++ chunk.1)
  else .ok values
termination_by layout.numElements - values.length
decreasing_by
  have hchunk := chunk.2
  have := layout.chunkElements_pos
  simp only [List.length_append, hchunk]
  omega

/-- What is thrown, as an error about a node. -/
def Thrown.toError (other : ErrorCode) (node : String) : Thrown → Error
  | .failure code message => ⟨code, message, node⟩
  | .exception what => ⟨other, what, node⟩

/-- Whether an array could be read as strings, by its metadata alone. -/
def checkFixedLengthUtf32StringArray (metadata : ArrayMetadata) (node : String) :
    Except Error Unit :=
  Except.mapError (Thrown.toError .invalidMetadata node) do
    let _ ← parseStringArrayLayout metadata
    let _ ← parseStringCodecs metadata.codecs
    let _ ← getStringChunkPath "" metadata.chunkKeyEncoding 0

def readFixedLengthUtf32StringArray (files : String → ChunkFile) (arrayDirectory : String)
    (metadata : ArrayMetadata) (node : String) : Except Error (List Bytes) :=
  Except.mapError (Thrown.toError .decodeError node) do
    let layout ← parseStringArrayLayout metadata
    let codecInfo ← parseStringCodecs metadata.codecs
    readStringChunks lib files arrayDirectory metadata.chunkKeyEncoding codecInfo layout 0 []

end CartaZarr
