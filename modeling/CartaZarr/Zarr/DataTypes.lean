import CartaZarr.Zarr.ArrayMetadata

/-!
# The data types a store names

What is known of a data type, in one table: what a document spells, what a descriptor reports, what
an element occupies once decoded, and whether it is real. Strings of fixed length are not in it, for
each array of them says for itself how wide they are.
-/

namespace CartaZarr

structure DataTypeInfo where
  name : String
  kind : DataType
  elementBytes : ℕ
  real : Bool
  deriving DecidableEq, Repr

def kDataTypes : List DataTypeInfo :=
  [⟨"bool", .boolean, 1, false⟩, ⟨"int8", .int8, 1, true⟩, ⟨"uint8", .uint8, 1, true⟩,
    ⟨"int16", .int16, 2, true⟩, ⟨"uint16", .uint16, 2, true⟩, ⟨"int32", .int32, 4, true⟩,
    ⟨"uint32", .uint32, 4, true⟩, ⟨"int64", .int64, 8, true⟩, ⟨"uint64", .uint64, 8, true⟩,
    ⟨"float16", .float16, 2, true⟩, ⟨"float32", .float32, 4, true⟩, ⟨"float64", .float64, 8, true⟩,
    ⟨"complex64", .complex64, 8, false⟩, ⟨"complex128", .complex128, 16, false⟩]

/-- The entry of a name as a document spells it. -/
def findDataType (name : String) : Option DataTypeInfo :=
  kDataTypes.find? fun info => info.name = name

def isRealDataType (dataType : String) : Bool := (findDataType dataType).any DataTypeInfo.real

def parseDataType (dataType : String) : DataType :=
  match findDataType dataType with
  | some info => info.kind
  | none => .unknown

/-- The table says of each type what a descriptor's type says of itself. -/
theorem elementBytes_of_mem {info : DataTypeInfo} (h : info ∈ kDataTypes) :
    info.kind.elementBytes = some info.elementBytes := by
  revert info
  decide

theorem findDataType_mem {name : String} {info : DataTypeInfo} (h : findDataType name = some info) :
    info ∈ kDataTypes ∧ info.name = name := by
  refine ⟨List.mem_of_find?_eq_some h, ?_⟩
  simpa using List.find?_some h

/-- What one element of an array occupies. -/
def elementSizeBytes (metadata : ArrayMetadata) (node : String) : Except Error ℕ :=
  match findDataType metadata.dataType with
  | some info => .ok info.elementBytes
  | none =>
    match metadata.dataTypeConfiguration.get? "length_bytes" with
    | some lengthBytes =>
      if isPositiveInteger lengthBytes then .ok (lengthBytes.natural?.getD 0).toNat
      else .error ⟨.unsupportedDataType,
        "Array " ++ node ++ " has unsupported data_type " ++ metadata.dataType, node⟩
    | none => .error ⟨.unsupportedDataType,
        "Array " ++ node ++ " has unsupported data_type " ++ metadata.dataType, node⟩

theorem elementSizeBytes_lt {metadata : ArrayMetadata} {node : String} {size : ℕ}
    (h : elementSizeBytes metadata node = .ok size) : size < 2 ^ 64 := by
  rw [elementSizeBytes] at h
  split at h
  case h_1 info hinfo =>
    obtain ⟨hmem, -⟩ := findDataType_mem hinfo
    obtain rfl := Except.ok.inj h
    have : ∀ info ∈ kDataTypes, info.elementBytes < 2 ^ 64 := by decide
    exact this info hmem
  case h_2 =>
    split at h
    case h_1 lengthBytes _ =>
      split at h
      · obtain rfl := Except.ok.inj h
        exact UInt64.toNat_lt _
      · cases h
    case h_2 => cases h

end CartaZarr
