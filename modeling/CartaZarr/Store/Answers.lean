import CartaZarr.Store.Session

/-!
# What a store has to answer

The answers of a store whose backing never fails to be read, as functions of the backing alone: what
the tables of a session are to remember. An answer that was computed in a session is one of these up
to how the node it is about was spelled (`unname`), for one spelling of a node is remembered for
all, or, where reads may fail to be made, it is of such a read and is asked again: `Stands`.
-/

namespace CartaZarr

/-- Leave out how nodes are spelled. -/
class Unname (α : Type) where
  unname : α → α

export Unname (unname)

instance : Unname Error := ⟨fun e => { e with nodePath := "" }⟩
instance : Unname String := ⟨id⟩
instance : Unname Json := ⟨id⟩
instance : Unname ArrayMetadata := ⟨id⟩
instance : Unname UInt8 := ⟨id⟩
instance : Unname UInt64 := ⟨id⟩

instance {α : Type} [Unname α] : Unname (List α) := ⟨List.map unname⟩
instance {α : Type} [Unname α] : Unname (Option α) := ⟨Option.map unname⟩

instance {α : Type} [Unname α] : Unname (Except Error α) :=
  ⟨fun r => match r with
    | .ok a => .ok (unname a)
    | .error e => .error (unname e)⟩

instance : Unname NumericArray := ⟨fun a => { a with node := "" }⟩

instance : Unname NodeEntry :=
  ⟨fun entry => { entry with array := unname entry.array, reason := unname entry.reason }⟩

@[simp] theorem unname_ok {α : Type} [Unname α] (a : α) :
    unname (.ok a : Except Error α) = .ok (unname a) := rfl

@[simp] theorem unname_error {α : Type} [Unname α] (e : Error) :
    unname (.error e : Except Error α) = .error (unname e) := rfl

/-- Answers that name no node. -/
class Plain (α : Type) [Unname α] : Prop where
  unname_eq : ∀ a : α, unname a = a

instance : Plain String := ⟨fun _ => rfl⟩
instance : Plain Json := ⟨fun _ => rfl⟩
instance : Plain ArrayMetadata := ⟨fun _ => rfl⟩
instance : Plain UInt8 := ⟨fun _ => rfl⟩
instance : Plain UInt64 := ⟨fun _ => rfl⟩

instance {α : Type} [Unname α] [Plain α] : Plain (List α) :=
  ⟨fun l => (List.map_congr_left fun a _ => Plain.unname_eq a).trans (List.map_id l)⟩

/-- An answer that is another up to how nodes are spelled or, where reads may fail to be made, is to
be asked again. -/
def Stands {α : Type} [Unname α] (failing : Prop) (a b : Except Error α) : Prop :=
  failing ∧ askAgain a = true ∨ unname a = unname b

section Stands

variable {failing : Prop} {α β : Type} [Unname α] [Unname β]

theorem Stands.refl (a : Except Error α) : Stands failing a a := .inr rfl

theorem Stands.of_unname {a b c : Except Error α} (h : Stands failing a b)
    (hbc : unname b = unname c) : Stands failing a c := h.imp_right fun h => h.trans hbc

/-- An error stands for what goes wrong in the same way, whatever was asked for. -/
theorem Stands.error {e : Error} {b : Except Error α} (h : Stands failing (.error e) b)
    (k : α → Except Error β) : Stands failing (.error e) (b >>= k) := by
  rcases h with h | h
  · exact .inl h
  · cases b with
    | ok b => cases h
    | error e' =>
      rw [unname_error, unname_error, Except.error.injEq] at h
      exact .inr (by rw [error_bind, unname_error, unname_error, h])

theorem Stands.ok [Plain α] {a : α} {b : Except Error α} (h : Stands failing (.ok a) b) :
    b = .ok a := by
  rcases h with ⟨-, h⟩ | h
  · cases h
  · cases b with
    | ok b' =>
      rw [unname_ok, unname_ok, Except.ok.injEq, Plain.unname_eq, Plain.unname_eq] at h
      rw [h]
    | error e => cases h

/-- Answers that are one up to spelling lead to answers that are. -/
theorem unname_bind [Plain α] {x x' : Except Error α} {k k' : α → Except Error β}
    (hx : unname x = unname x') (hk : ∀ a, unname (k a) = unname (k' a)) :
    unname (x >>= k) = unname (x' >>= k') := by
  cases x with
  | ok a =>
    have hstands : Stands True (.ok a) x' := .inr hx
    rw [hstands.ok, ok_bind, ok_bind, hk]
  | error e =>
    cases x' with
    | ok a => cases hx
    | error e' =>
      rw [unname_error, unname_error, Except.error.injEq] at hx
      rw [error_bind, error_bind, unname_error, unname_error, hx]

end Stands

namespace Store

variable (store : Store)

def nodeAnswer (node : String) : Except Error Json :=
  match normalizeNodeName node with
  | .error e => .error e
  | .ok name =>
    match store.consolidated.lookup name with
    | some document => .ok document
    | none => do
      let bytes ← store.backing.readNodeBytes name
      store.backing.parseNodeMetadata bytes node

def arrayAnswer (node : String) : Except Error ArrayMetadata := do
  let metadata ← store.nodeAnswer node
  parseArrayMetadata metadata node

def verifyAnswer (node : String) : Except Error ArrayMetadata := do
  let copy ← store.arrayAnswer node
  if cacheKey node ∈ store.consolidatedNodes then
    store.verifyOwn copy (cacheKey node) (store.backing.readNodeBytes (cacheKey node))
  else return copy

def namesAnswer : Except Error (List String) :=
  if store.hasConsolidatedMetadata then .ok store.consolidatedNodes
  else do
    let listed ← store.backing.listNodes
    listed.mapM fun name =>
      match normalizeNodeName name with
      | .ok canonical => .ok canonical
      | .error _ => .error ⟨.ioError, "Zarr transport listed a node by an invalid path", name⟩

def entryAnswer (node : String) : Except Error NodeEntry :=
  match store.nodeAnswer node with
  | .error e =>
    if e.code = .invalidMetadata then .ok ⟨node, .unrecognised, none, some e⟩ else .error e
  | .ok document =>
    match nodeKind document with
    | .group => .ok ⟨node, .group, none, none⟩
    | .array => .ok ⟨node, .array, some (store.arrayAnswer node), none⟩
    | .unrecognised => .ok ⟨node, .unrecognised, none,
        some ⟨.invalidMetadata, "Zarr node is neither a group nor an array", node⟩⟩

def inventoryAnswer : Except Error (List NodeEntry) := do
  let names ← store.namesAnswer
  (unique (names.insertionSort (· ≤ ·))).mapM store.entryAnswer

def directoryAnswer (node : String) : Except Error String := do
  let name ← normalizeNodeName node
  store.backing.arrayDirectory name

def numericAnswer (node : String) : Except Error NumericArray := do
  let own ← store.verifyAnswer node
  let directory ← store.directoryAnswer node
  let values ← (store.backing.numericValues directory).mapError (Failure.at node)
  NumericArray.make node own values

def stringAnswer (node : String) : Except Error (List Bytes) := do
  let own ← store.verifyAnswer node
  let directory ← store.directoryAnswer node
  readFixedLengthUtf32StringArray store.backing.decompressors store.backing.files directory own node

/-! ### One node under two spellings -/

variable {store}

theorem unname_parseNodeMetadata (bytes : Bytes) (node node' : String) :
    unname (store.backing.parseNodeMetadata bytes node) =
      unname (store.backing.parseNodeMetadata bytes node') := by
  unfold Backing.parseNodeMetadata
  split <;> rfl

theorem unname_mapError_at {α : Type} [Unname α] (r : Except Failure α) (node node' : String) :
    unname (r.mapError (Failure.at node)) = unname (r.mapError (Failure.at node')) := by
  cases r <;> rfl

theorem cacheKey_of_ok {node name : String} (h : normalizeNodeName node = .ok name) :
    cacheKey node = name := by rw [cacheKey, h]

theorem cacheKey_of_error {node : String} {e : Error} (h : normalizeNodeName node = .error e) :
    cacheKey node = node := by rw [cacheKey, h]

/-- What a name is remembered under is remembered under itself. -/
theorem cacheKey_cacheKey (node : String) : cacheKey (cacheKey node) = cacheKey node := by
  cases h : normalizeNodeName node with
  | ok name => rw [cacheKey_of_ok h, cacheKey_of_ok (normalizeNodeName_canonical h)]
  | error e => rw [cacheKey_of_error h, cacheKey_of_error h]

/-- A node named by what it is remembered under has that name. -/
theorem normalizeNodeName_of_cacheKey {node node' name : String}
    (hname : normalizeNodeName node = .ok name)
    (h : cacheKey node' = cacheKey node) : normalizeNodeName node' = .ok name := by
  rw [cacheKey_of_ok hname] at h
  cases hnode' : normalizeNodeName node' with
  | ok name' => rw [← h, cacheKey_of_ok hnode']
  | error e =>
    -- a name that is refused is remembered as it is, and `name` is not refused
    have hself : node' = name := (cacheKey_of_error hnode').symm.trans h
    rw [hself, normalizeNodeName_canonical hname] at hnode'
    cases hnode'

theorem unname_nodeAnswer (node : String) :
    unname (store.nodeAnswer node) = unname (store.nodeAnswer (cacheKey node)) := by
  cases h : normalizeNodeName node with
  | error e => rw [cacheKey_of_error h]
  | ok name =>
    rw [cacheKey_of_ok h, nodeAnswer, nodeAnswer, h, normalizeNodeName_canonical h]
    dsimp only
    cases store.consolidated.lookup name with
    | some document => rfl
    | none => exact unname_bind rfl fun bytes => unname_parseNodeMetadata bytes node name

theorem unname_arrayAnswer (node : String) :
    unname (store.arrayAnswer node) = unname (store.arrayAnswer (cacheKey node)) :=
  unname_bind (unname_nodeAnswer node) fun _ => unname_mapError_at _ _ _

theorem unname_verifyAnswer (node : String) :
    unname (store.verifyAnswer node) = unname (store.verifyAnswer (cacheKey node)) := by
  rw [verifyAnswer, verifyAnswer, cacheKey_cacheKey]
  exact unname_bind (unname_arrayAnswer node) fun _ => rfl

theorem unname_directoryAnswer (node : String) :
    unname (store.directoryAnswer node) = unname (store.directoryAnswer (cacheKey node)) := by
  cases h : normalizeNodeName node with
  | error e => rw [cacheKey_of_error h]
  | ok name => rw [cacheKey_of_ok h, directoryAnswer, directoryAnswer, h,
      normalizeNodeName_canonical h]

theorem unname_make (node node' : String) (own : ArrayMetadata) (values : List UInt64) :
    unname (NumericArray.make node own values) = unname (NumericArray.make node' own values) := by
  unfold NumericArray.make
  split
  · rfl
  · split <;> rfl

theorem unname_numericAnswer (node : String) :
    unname (store.numericAnswer node) = unname (store.numericAnswer (cacheKey node)) :=
  unname_bind (unname_verifyAnswer node) fun _ => unname_bind (unname_directoryAnswer node) fun _ =>
    unname_bind (unname_mapError_at _ _ _) fun _ => unname_make _ _ _ _

theorem unname_readStringArray (lib : Decompressors) (files : String → ChunkFile)
    (directory : String)
    (own : ArrayMetadata) (node node' : String) :
    unname (readFixedLengthUtf32StringArray lib files directory own node) =
      unname (readFixedLengthUtf32StringArray lib files directory own node') := by
  unfold readFixedLengthUtf32StringArray
  generalize (do
    let layout ← parseStringArrayLayout own
    let codecInfo ← parseStringCodecs own.codecs
    readStringChunks lib files directory own.chunkKeyEncoding codecInfo layout 0 [] :
      Throws (List Bytes)) = r
  cases r with
  | ok values => rfl
  | error thrown => cases thrown <;> rfl

theorem unname_stringAnswer (node : String) :
    unname (store.stringAnswer node) = unname (store.stringAnswer (cacheKey node)) :=
  unname_bind (unname_verifyAnswer node) fun _ => unname_bind (unname_directoryAnswer node) fun _ =>
    unname_readStringArray _ _ _ _ _ _

end Store

end CartaZarr
