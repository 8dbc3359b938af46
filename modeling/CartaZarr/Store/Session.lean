import CartaZarr.Foundations.Memo
import CartaZarr.Foundations.Sorted
import CartaZarr.Store.Consolidated
import CartaZarr.Zarr.StringArray

/-!
# A store and what it remembers

A `Store` interprets a hierarchy of nodes whose bytes something else holds: a `Backing`, which is
the transport, the parser of documents and the reader of values together. What a backing answers is
fixed, but a read of it may fail to be made; `Outages` says which do, by the number of reads made
before.

Everything the store answers it remembers, in six tables that are the `Session`. They lie over each
other: an array's metadata is parsed from its node's, a verified array is one whose metadata is held
to its own document, and values are read of verified arrays only. Each operation is a computation
over the session, as the store's own are over its caches.
-/

namespace CartaZarr

/-- What a parser makes of bytes: a document, an error in them, or another exception. -/
inductive Parsed
  | document (j : Json)
  | malformed (what : String)
  | exception (what : String)

/-- Where the bytes of a store are, and what reads them. Doubles are kept as their bits. -/
structure Backing where
  /-- The document of a node, the root's under the empty name. -/
  readNodeBytes : String → Except Error Bytes
  /-- Every node but the root, in any order. -/
  listNodes : Except Error (List String)
  arrayDirectory : String → Except Error String
  parseJson : Bytes → Parsed
  /-- The values of the array in a directory, as doubles. -/
  numericValues : String → Except Failure (List UInt64)
  decompressors : Decompressors
  /-- The chunk files of arrays of strings. -/
  files : String → ChunkFile

/-- The reads that fail to be made, by how many were made before, and what each says. -/
abbrev Outages := ℕ → Option Error

/-- Parse the document of a node. -/
def Backing.parseNodeMetadata (backing : Backing) (bytes : Bytes) (nodePath : String) :
    Except Error Json :=
  match backing.parseJson bytes with
  | .document j => .ok j
  | .malformed what =>
    .error ⟨.invalidMetadata, "Invalid JSON in Zarr metadata: " ++ what, nodePath⟩
  | .exception what => .error ⟨.ioError, "Unable to read Zarr metadata: " ++ what, nodePath⟩

/-- An array's values with the document they were decoded with. -/
structure NumericArray where
  node : String
  metadata : ArrayMetadata
  values : List UInt64

/-- The number of elements of a shape, where it can be counted in 64 bits. -/
def declaredElements (shape : List UInt64) : Option ℕ :=
  shape.foldlM (fun declared extent =>
    if extent ≠ 0 ∧ declared > (2 ^ 64 - 1) / extent.toNat then none
    else some (declared * extent.toNat)) 1

/-- Bind values to a document that declares as many. -/
def NumericArray.make (node : String) (metadata : ArrayMetadata) (values : List UInt64) :
    Except Error NumericArray :=
  match declaredElements metadata.shape with
  | none => .error ⟨.invalidMetadata, "Array shape declares more values than can be counted", node⟩
  | some declared =>
    if values.length ≠ declared then
      .error ⟨.invalidMetadata, "Array holds " ++ toString values.length ++
        " values where its shape declares " ++ toString declared, node⟩
    else .ok ⟨node, metadata, values⟩

inductive NodeKind
  | group | array | unrecognised
  deriving DecidableEq, Repr

/-- A node of the hierarchy: what it is and, of an array, its metadata parsed or refused. -/
structure NodeEntry where
  name : String
  kind : NodeKind
  array : Option (Except Error ArrayMetadata) := none
  /-- Why the node is unrecognised. -/
  reason : Option Error := none

/-- Everything a store remembers, and how many reads it has made. -/
structure Session where
  reads : ℕ := 0
  nodeMetadata : Memo String (Except Error Json) := .empty
  arrayMetadata : Memo String (Except Error ArrayMetadata) := .empty
  verifiedArrays : Memo String (Except Error ArrayMetadata) := .empty
  inventory : Memo Unit (Except Error (List NodeEntry)) := .empty
  doubleArrays : Memo String (Except Error NumericArray) := .empty
  stringArrays : Memo String (Except Error (List Bytes)) := .empty

namespace Session

variable (s : Session)

def keepNodeMetadata (key : String) (answer : Except Error Json) : Session :=
  { s with nodeMetadata := s.nodeMetadata.push key answer }

def keepArrayMetadata (key : String) (answer : Except Error ArrayMetadata) : Session :=
  { s with arrayMetadata := s.arrayMetadata.push key answer }

def keepVerifiedArrays (key : String) (answer : Except Error ArrayMetadata) : Session :=
  { s with verifiedArrays := s.verifiedArrays.push key answer }

def keepInventory (key : Unit) (answer : Except Error (List NodeEntry)) : Session :=
  { s with inventory := s.inventory.push key answer }

def keepDoubleArrays (key : String) (answer : Except Error NumericArray) : Session :=
  { s with doubleArrays := s.doubleArrays.push key answer }

def keepStringArrays (key : String) (answer : Except Error (List Bytes)) : Session :=
  { s with stringArrays := s.stringArrays.push key answer }

end Session

/-- A code of a read that could not be made. -/
def ErrorCode.isTransient (code : ErrorCode) : Bool := code = .ioError || code = .cancelled

/-- Whether an answer is to be asked again: it is of a read that could not be made. -/
def askAgain {α : Type} : Except Error α → Bool
  | .ok _ => false
  | .error e => e.code.isTransient

/-- What the two documents of an array differ in. -/
def differs (what node : String) : Error :=
  ⟨.invalidMetadata, "The array's " ++ what ++
    " in the root's consolidated metadata differs from its own zarr.json", node⟩

/-- The root's copy of an array's document and its own say the same of what is taken from the
copy. -/
def requireSameArray (copy own : ArrayMetadata) (node : String) : Except Error Unit :=
  if copy.shape ≠ own.shape then .error (differs "shape" node)
  else if copy.dimensionNames ≠ own.dimensionNames then .error (differs "dimension names" node)
  else if copy.dataType ≠ own.dataType then .error (differs "data type" node)
  else if (parseStorageLayout copy).chunkShape ≠ (parseStorageLayout own).chunkShape ∨
      (parseStorageLayout copy).shardShape ≠ (parseStorageLayout own).shardShape then
    .error (differs "chunk layout" node)
  else if ¬ copy.attributes.same own.attributes then .error (differs "attributes" node)
  else .ok ()

structure Store where
  backing : Backing
  rootAttributes : Json
  /-- The root's copy of its children's documents. -/
  consolidated : Documents
  hasConsolidatedMetadata : Bool

namespace Store

variable (store : Store) (outages : Outages)

/-- The names the root's copy accounted for, in order. -/
def consolidatedNodes : List String := store.consolidated.map Prod.fst

/-- The session of a store that has just been made: the root's copy is node metadata it has read. -/
def initial : Session where
  nodeMetadata := store.consolidated.foldl
    (fun memo document => memo.insert document.1 (.ok document.2)) .empty

/-- Ask the backing, which answers unless there is an outage. -/
def ask {α : Type} (answer : Except Error α) : StateM Session (Except Error α) := fun s =>
  (match outages s.reads with
    | some e => .error e
    | none => answer, { s with reads := s.reads + 1 })

def readNodeMetadata (node : String) : StateM Session (Except Error Json) :=
  match normalizeNodeName node with
  -- A rejected name is remembered as asked for, which is no canonical name.
  | .error e =>
    remember Session.nodeMetadata Session.keepNodeMetadata askAgain node (pure (.error e))
  | .ok name => remember Session.nodeMetadata Session.keepNodeMetadata askAgain name do
      match ← ask outages (store.backing.readNodeBytes name) with
      | .error e => return .error e
      | .ok bytes => return store.backing.parseNodeMetadata bytes node

/-- What a name is remembered under: the canonical one where there is one. -/
def cacheKey (node : String) : String :=
  match normalizeNodeName node with
  | .ok name => name
  | .error _ => node

def readArrayMetadata (node : String) : StateM Session (Except Error ArrayMetadata) :=
  remember Session.arrayMetadata Session.keepArrayMetadata askAgain (cacheKey node) do
    match normalizeNodeName node with
    | .error e => return .error e
    | .ok _ =>
      match ← store.readNodeMetadata outages node with
      | .error e => return .error e
      | .ok metadata => return parseArrayMetadata metadata node

/-- Hold the root's copy of an array's document to the document itself. -/
def verifyOwn (copy : ArrayMetadata) (name : String) (bytes : Except Error Bytes) :
    Except Error ArrayMetadata :=
  match bytes with
  | .error e =>
    if e.code = .notFound then .error ⟨.invalidMetadata,
      "The root's consolidated metadata describes this array, but its own zarr.json is missing",
      name⟩
    else .error e
  | .ok bytes => do
    let document ← store.backing.parseNodeMetadata bytes name
    let own ← parseArrayMetadata document name
    requireSameArray copy own name
    return own

def verifyArray (node : String) : StateM Session (Except Error ArrayMetadata) :=
  remember Session.verifiedArrays Session.keepVerifiedArrays askAgain node do
    match ← store.readArrayMetadata outages node with
    | .error e => return .error e
    | .ok copy =>
      let name := cacheKey node
      if name ∈ store.consolidatedNodes then
        return store.verifyOwn copy name (← ask outages (store.backing.readNodeBytes name))
      -- Read from its own document in the first place.
      else return .ok copy

/-- The names of the nodes: those of the root's copy, or those the transport lists. -/
def nodeNames : StateM Session (Except Error (List String)) :=
  if store.hasConsolidatedMetadata then return .ok store.consolidatedNodes
  else do
    match ← ask outages store.backing.listNodes with
    | .error e => return .error e
    | .ok listed => return listed.mapM fun name =>
        match normalizeNodeName name with
        | .ok canonical => .ok canonical
        | .error _ => .error ⟨.ioError, "Zarr transport listed a node by an invalid path", name⟩

/-- What a document says its node is. -/
def nodeKind (document : Json) : NodeKind :=
  match (document.get? "node_type").bind Json.string? with
  | some "group" => .group
  | some "array" => .array
  | _ => .unrecognised

/-- The entry of a node. -/
def readEntry (node : String) : StateM Session (Except Error NodeEntry) := do
  match ← store.readNodeMetadata outages node with
  | .error e =>
    -- A document that does not parse is an answer about the node, not about the hierarchy.
    if e.code = .invalidMetadata then
      return .ok ⟨node, .unrecognised, none, some e⟩
    else return .error e
  | .ok document =>
    match nodeKind document with
    | .group => return .ok ⟨node, .group, none, none⟩
    | .array => return .ok ⟨node, .array, some (← store.readArrayMetadata outages node), none⟩
    | .unrecognised => return .ok ⟨node, .unrecognised, none,
        some ⟨.invalidMetadata, "Zarr node is neither a group nor an array", node⟩⟩

/-- The entries of nodes, until one cannot be read. -/
def readEntries : List String → StateM Session (Except Error (List NodeEntry))
  | [] => return .ok []
  | node :: nodes => do
    match ← store.readEntry outages node with
    | .error e => return .error e
    | .ok entry =>
      match ← readEntries nodes with
      | .error e => return .error e
      | .ok entries => return .ok (entry :: entries)

/-- Every node of the hierarchy, in the order of the names. -/
def inventory : StateM Session (Except Error (List NodeEntry)) :=
  remember Session.inventory Session.keepInventory askAgain () do
    match ← store.nodeNames outages with
    | .error e => return .error e
    | .ok names => store.readEntries outages (unique (names.insertionSort (· ≤ ·)))

/-- The entry with a name, in a list in the order of the names. -/
def findEntry (entries : List NodeEntry) (name : String) : Option NodeEntry :=
  (entries.find? fun entry => name ≤ entry.name).filter fun entry => entry.name = name

/-- The entry of a node, or nothing: also where the hierarchy could not be taken. -/
def findNode (name : String) : StateM Session (Option NodeEntry) := do
  match ← store.inventory outages with
  | .error _ => return none
  | .ok entries => return findEntry entries name

def resolveArrayDirectory (node : String) : StateM Session (Except Error String) :=
  match normalizeNodeName node with
  | .error e => return .error e
  | .ok name => ask outages (store.backing.arrayDirectory name)

/-- Read the values of an array once it is held to its own document. -/
def readVerified {α : Type} (node : String)
    (read : ArrayMetadata → String → StateM Session (Except Error α)) :
    StateM Session (Except Error α) := do
  match ← store.verifyArray outages node with
  | .error e => return .error e
  | .ok own =>
    match ← store.resolveArrayDirectory outages node with
    | .error e => return .error e
    | .ok directory => read own directory

def readNumericArray (node : String) : StateM Session (Except Error NumericArray) :=
  remember Session.doubleArrays Session.keepDoubleArrays askAgain (cacheKey node) <|
    store.readVerified outages node fun own directory => do
      match ← ask outages ((store.backing.numericValues directory).mapError (Failure.at node)) with
      | .error e => return .error e
      | .ok values => return NumericArray.make node own values

def readStringArray1D (node : String) : StateM Session (Except Error (List Bytes)) :=
  match normalizeNodeName node with
  | .error e => return .error e
  | .ok name => remember Session.stringArrays Session.keepStringArrays askAgain name <|
      store.readVerified outages node fun own directory =>
        ask outages (readFixedLengthUtf32StringArray store.backing.decompressors store.backing.files
          directory own node)

/-- Read pixels of an array: what reads them is given where the array is. -/
def readPixelsInto {α : Type} (node : String) (read : String → Except Error α) :
    StateM Session (Except Error α) :=
  store.readVerified outages node fun _ directory => ask outages (read directory)

end Store

/-- How opening a store ends otherwise: it is refused, or an exception leaves it. -/
inductive OpenFailure
  | refused (e : Error)
  | threw (what : String)
  deriving DecidableEq

/-- Refuse the root's document. -/
def refuseRoot {α : Type} (code : ErrorCode) (message : String) : Except OpenFailure α :=
  .error (.refused ⟨code, message, "zarr.json"⟩)

/-- The document of the root, read and parsed. -/
def readRoot (backing : Backing) : Except Error Json :=
  match backing.readNodeBytes "" with
  | .ok bytes => backing.parseNodeMetadata bytes "zarr.json"
  | .error e =>
    -- A transport with no root node is no Zarr store, whatever else it holds.
    if e.code = .notFound then .error ⟨.notZarr, "Zarr store is missing zarr.json", e.nodePath⟩
    else .error e

/-- The root is a group of a format that is read. A `node_type` that is no string throws. -/
def checkRoot (metadata : Json) : Except OpenFailure Unit :=
  if ¬ metadata.isObject then
    refuseRoot .invalidMetadata "Root Zarr metadata must be a JSON object"
  else match (metadata.get? "zarr_format").bind Json.natural? with
    | none => refuseRoot .invalidMetadata "Root Zarr metadata has no valid zarr_format"
    | some format =>
      if format ≠ 3 then refuseRoot .unsupportedZarrVersion "Only Zarr format 3 is supported"
      else match metadata.get? "node_type" with
        | some (.string "group") => .ok ()
        | none | some (.string _) => refuseRoot .notZarr "The Zarr root must be a group"
        | some value => .error (.threw
            ("[json.exception.type_error.302] type must be string, but is " ++ value.typeName))

/-- The root's copy of its children's documents, where it has one. -/
def readConsolidated (metadata : Json) : Except OpenFailure (Option Documents) :=
  match metadata.get? "consolidated_metadata" with
  | none | some .null => .ok none
  | some block =>
    match block.get? "metadata" with
    | some (.object members) =>
      ((collectConsolidatedMetadata (.object members) "" []).mapError .refused).map some
    | _ => refuseRoot .invalidMetadata
        "Zarr consolidated_metadata must contain an object metadata member"

/-- Open a store over a backing, from the root's document. -/
def openStore (backing : Backing) : Except OpenFailure Store := do
  let metadata ← (readRoot backing).mapError .refused
  checkRoot metadata
  let consolidated ← readConsolidated metadata
  return ⟨backing, (metadata.get? "attributes").getD (.object []), consolidated.getD [],
    consolidated.isSome⟩

end CartaZarr
