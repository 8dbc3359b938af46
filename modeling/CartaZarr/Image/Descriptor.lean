import Mathlib.Data.List.GetD
import Mathlib.Data.List.Range
import Mathlib.Data.UInt
import CartaZarr.Foundations.Word

/-!
# Images, their layout and what is asked of them

The data every read and every reduction works from: an image's axes in logical order, each with
its length and the stored dimension it is; the shape of its chunks, in logical order as well; and
a request, one range of each axis. What the library says when it refuses is an `Error`.

Lengths and chunk extents are 64-bit numbers of the array's own metadata, and are kept as such;
the arithmetic on them is `Word`'s. The fields no read looks at (units, coordinates, beams) are
left out.
-/

namespace CartaZarr

/-- Why an operation was refused or failed. -/
inductive ErrorCode
  | notFound | notZarr | unsupportedTransport | unsupportedZarrVersion | unsupportedSchema
  | unsupportedSchemaVersion | ambiguousSchema | invalidArgument | invalidMetadata
  | unsupportedDataType | unsupportedCodec | invalidSlice | bufferTooSmall | ioError | decodeError
  | cancelled | notImplemented
  deriving DecidableEq, Repr

/-- A refusal: its code, what it says, and the node it is about. -/
structure Error where
  code : ErrorCode
  message : String
  nodePath : String
  deriving DecidableEq, Repr

/-- What is said of an image that is described all the same. -/
inductive DiagnosticCode
  | invalidMetadata | unsupportedDataType | ambiguousSchema | unrecognisedNode | unreadableArray
  | unsupportedCoordinatePlane | ambiguousPixelMask | nonuniformAxis | inexactReferencePixel
  | degenerateAxis
  deriving DecidableEq, Repr

structure Diagnostic where
  code : DiagnosticCode
  message : String
  nodePath : String
  deriving DecidableEq, Repr

inductive AxisRole
  | spatialX | spatialY | spectral | polarization | time | other
  deriving DecidableEq, Repr, Inhabited

inductive DataType
  | unknown | boolean | int8 | uint8 | int16 | uint16 | int32 | uint32 | int64 | uint64
  | float16 | float32 | float64 | complex64 | complex128
  deriving DecidableEq, Repr

/-- The bytes of one element of a type, for the types the table of the store names. -/
def DataType.elementBytes : DataType → Option ℕ
  | .unknown => none
  | .boolean | .int8 | .uint8 => some 1
  | .int16 | .uint16 | .float16 => some 2
  | .int32 | .uint32 | .float32 => some 4
  | .int64 | .uint64 | .float64 | .complex64 => some 8
  | .complex128 => some 16

/-- One axis of an image. -/
structure AxisDescriptor where
  name : String
  role : AxisRole
  length : UInt64
  storageIndex : ℕ
  deriving DecidableEq, Repr, Inhabited

structure ImageDescriptor where
  id : String
  storedType : DataType
  axes : List AxisDescriptor
  hasPixelMask : Bool
  deriving DecidableEq, Repr

namespace ImageDescriptor

/-- How many axes the image has. -/
abbrev rank (d : ImageDescriptor) : ℕ := d.axes.length

/-- The axis at a logical position. -/
def axis (d : ImageDescriptor) (i : ℕ) : AxisDescriptor := d.axes.getD i default

/-- The length of the axis at a logical position. -/
def length (d : ImageDescriptor) (i : ℕ) : ℕ := (d.axis i).length.toNat

/-- The stored dimension of the axis at a logical position. -/
def stored (d : ImageDescriptor) (i : ℕ) : ℕ := (d.axis i).storageIndex

/-- The axes are stored in some order: their storage indices are a permutation of the dimensions. -/
def StoredInOrder (d : ImageDescriptor) : Prop :=
  (d.axes.map AxisDescriptor.storageIndex).Perm (List.range d.rank)

instance (d : ImageDescriptor) : Decidable d.StoredInOrder :=
  inferInstanceAs (Decidable (List.Perm _ _))

theorem length_lt (d : ImageDescriptor) (i : ℕ) : d.length i < 2 ^ 64 := (d.axis i).length.toNat_lt

theorem axis_eq_getElem (d : ImageDescriptor) {i : ℕ} (h : i < d.rank) : d.axis i = d.axes[i] :=
  List.getD_eq_getElem _ _ h

/-- A bound on the lengths of the axes bounds the length at every position, for there is nothing at
the others. -/
theorem length_le_of_lt (d : ImageDescriptor) {n : ℕ} (h : ∀ i < d.rank, d.length i ≤ n) (i : ℕ) :
    d.length i ≤ n := by
  rcases lt_or_ge i d.rank with hi | hi
  · exact h i hi
  · have : d.length i = 0 := by
      rw [length, axis, List.getD_eq_default _ _ hi]
      rfl
    omega

theorem getElem?_map_storageIndex (d : ImageDescriptor) {i : ℕ} (h : i < d.rank) :
    (d.axes.map AxisDescriptor.storageIndex)[i]? = some (d.stored i) := by
  rw [List.getElem?_map, List.getElem?_eq_getElem h, stored, axis_eq_getElem d h]
  rfl

theorem StoredInOrder.stored_lt {d : ImageDescriptor} (h : d.StoredInOrder) {i : ℕ}
    (hi : i < d.rank) : d.stored i < d.rank :=
  List.mem_range.1 (h.mem_iff.1 (List.mem_of_getElem? (getElem?_map_storageIndex d hi)))

/-- Every stored dimension is some axis's. -/
theorem StoredInOrder.exists_stored {d : ImageDescriptor} (h : d.StoredInOrder) {s : ℕ}
    (hs : s < d.rank) : ∃ i < d.rank, d.stored i = s := by
  have hm : s ∈ d.axes.map AxisDescriptor.storageIndex := h.mem_iff.2 (List.mem_range.2 hs)
  obtain ⟨i, hi⟩ := List.mem_iff_getElem?.1 hm
  have hi' : i < d.rank := by
    by_contra hlt
    rw [List.getElem?_eq_none (by simpa using hlt)] at hi
    cases hi
  rw [getElem?_map_storageIndex d hi'] at hi
  exact ⟨i, hi', Option.some.inj hi⟩

/-- Numbers by axis are numbers by stored dimension. -/
theorem StoredInOrder.exists_byStored {d : ImageDescriptor} (h : d.StoredInOrder) (n : ℕ → ℕ) :
    ∃ m : ℕ → ℕ, ∀ i < d.rank, m (d.stored i) = n i := by
  refine ⟨fun s => n ((d.axes.map AxisDescriptor.storageIndex).idxOf s), fun i hi => ?_⟩
  have hn : (d.axes.map AxisDescriptor.storageIndex).Nodup := h.nodup_iff.2 List.nodup_range
  obtain ⟨hlt, e⟩ := List.getElem?_eq_some_iff.1 (getElem?_map_storageIndex d hi)
  simp only [← e, hn.idxOf_getElem]

end ImageDescriptor

/-- The layout of an image, in logical order. -/
structure ChunkGeometry where
  fastestSpatialAxis : AxisRole
  chunkShape : List UInt64
  deriving DecidableEq, Repr

/-- The chunk extent along an axis, zero for an axis the shape does not reach. -/
def ChunkGeometry.chunk (g : ChunkGeometry) (i : ℕ) : ℕ := (g.chunkShape.getD i 0).toNat

theorem ChunkGeometry.chunk_lt (g : ChunkGeometry) (i : ℕ) : g.chunk i < 2 ^ 64 :=
  UInt64.toNat_lt _

/-- A geometry of an image's rank, with extents above zero: what every array that parsed has. -/
structure ChunkGeometry.Of (g : ChunkGeometry) (d : ImageDescriptor) : Prop where
  length_eq : g.chunkShape.length = d.rank
  chunk_pos : ∀ i < d.rank, 0 < g.chunk i

/-- `count` indices of an axis from `start` on, `stride` apart. -/
structure Range where
  start : ℕ
  count : ℕ
  stride : ℕ
  deriving DecidableEq, Repr, Inhabited

/-- One range of each axis, in logical order. -/
structure ReadRequest where
  axes : List Range
  deriving DecidableEq, Repr

/-- The range of the axis at a logical position. -/
def ReadRequest.axis (r : ReadRequest) (i : ℕ) : Range := r.axes.getD i default

/-- The options of a read that decide what it does; what it may be stopped by is `ReadControl`. -/
structure ReadOptions where
  applyPixelMask : Bool
  readBudgetBytes : ℕ
  deriving DecidableEq, Repr

/-- Whether a read of this image folds its pixel mask into the pixels. -/
def appliesPixelMask (options : ReadOptions) (descriptor : ImageDescriptor) : Bool :=
  options.applyPixelMask && descriptor.hasPixelMask

/-- A cube of 4 by 4 pixels and 8 channels, stored with its spectrum slowest. -/
def smallCube : ImageDescriptor where
  id := "SKY"
  storedType := .float32
  axes := [⟨"l", .spatialX, 4, 2⟩, ⟨"m", .spatialY, 4, 1⟩, ⟨"frequency", .spectral, 8, 0⟩]
  hasPixelMask := false

/-- Chunks of the whole plane and 4 channels, 256 bytes each. -/
def smallCubeChunks : ChunkGeometry := ⟨.spatialX, [4, 4, 4]⟩

end CartaZarr
