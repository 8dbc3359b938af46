import CartaZarr.Reduce.PassPlan
import CartaZarr.Store.Requests
import CartaZarr.Xradio.Coordinates
import CartaZarr.Xradio.Flag
import CartaZarr.Zarr.DataTypes

/-!
# Which variables are images

`qualifyNode` tells which nodes of a store are listed as images and which of them open. What it asks
of one that opens is not all that describing it rests on: that its names are of its dimensions, and
that its layout and its flag's are of its rank, comes from how their documents were parsed and from
what its flag was held to. Together they leave no image that opens without its axes or the geometry
of either array (`openable_addressable`).
-/

namespace CartaZarr

structure NodeQualification where
  listed : Bool := false
  openable : Bool := false
  diagnostic : Option Diagnostic := none
  malformed : Bool := false

section Qualify

variable (store : Store) (outages : Outages)

/-- The first dimension that has not the length of the coordinate of its name. -/
def extentDisagreement (node : String) : List (String × UInt64) → StateM Session (Option Diagnostic)
  | [] => return none
  | (name, extent) :: dimensions => do
    match ← store.readArrayMetadata outages name with
    | .error _ => extentDisagreement node dimensions
    | .ok coordinate =>
      if coordinate.shape ≠ [extent] then
        return some ⟨.invalidMetadata,
          "Image dimension '" ++ name ++ "' is not the length of the coordinate of that name", node⟩
      else extentDisagreement node dimensions

/-- Why the flag an image declares cannot mask it. -/
def unusableDeclaredFlag (image : ArrayMetadata)
    (node : String) : StateM Session (Option Diagnostic) := do
  match ← declaredFlag store outages image node with
  | .ok _ => return none
  | .error e => return some ⟨.invalidMetadata,
      "Declared flag '" ++ e.nodePath ++ "' cannot mask this image: " ++ e.message, node⟩

/-- What there is to say of a variable on the sky plane. -/
def qualifyImage (image : ArrayMetadata) (node : String) : StateM Session NodeQualification := do
  if ¬ isRealDataType image.dataType then
    return ⟨true, false, some ⟨.unsupportedDataType,
      "Complex sky-plane variables are not openable", node⟩, false⟩
  else if image.dimensionNames.length ≠ axisCount .sky then
    return ⟨true, false, some ⟨.invalidMetadata,
      "Sky-plane variable has dimensions beyond time, frequency, polarization, l and m",
      node⟩, true⟩
  else
    match ← extentDisagreement store outages node (image.dimensionNames.zip image.shape) with
    | some disagreement => return ⟨true, false, some disagreement, true⟩
    | none =>
      match ← unusableDeclaredFlag store outages image node with
      | some unusable => return ⟨true, false, some unusable, true⟩
      | none => return ⟨true, true, none, false⟩

/-- Whether a node is an image, and opens. -/
def qualifyNode (entry : NodeEntry) : StateM Session NodeQualification :=
  match entry.kind with
  | .group => return {}
  | .unrecognised => return ⟨false, false,
      some ⟨.unrecognisedNode, (entry.reason.map Error.message).getD "", entry.name⟩, true⟩
  | .array =>
    match entry.array with
    -- an array has its metadata, or why it has none
    | none => return {}
    | some (.error e) => return ⟨false, false, some ⟨.unreadableArray, e.message, entry.name⟩, true⟩
    | some (.ok array) =>
      if isFlag array then return {}
      else if carriesPlane array .sky then qualifyImage store outages array entry.name
      else if carriesPlane array .aperture then
        return ⟨true, false,
          some ⟨.unsupportedCoordinatePlane,
            "Aperture-plane variables are not openable", entry.name⟩, false⟩
      else return {}

end Qualify

variable {store : Store} {outages : Outages} {failing : Prop}

/-- An image that opens has five dimensions. -/
theorem qualifyImage_openable {image : ArrayMetadata} {node : String} {s : Session}
    (h : (qualifyImage store outages image node s).1.openable = true) :
    image.dimensionNames.length = axisCount .sky := by
  by_contra hlength
  unfold qualifyImage at h
  split_ifs at h <;> cases h

/-- A node that is listed is an array that parsed. -/
theorem qualifyNode_listed {entry : NodeEntry} {s : Session}
    (h : (qualifyNode store outages entry s).1.listed = true) :
    ∃ image, entry.array = some (.ok image) := by
  unfold qualifyNode at h
  rcases entry with ⟨name, kind, array, reason⟩
  rcases kind with _ | _ | _
  · cases h
  · rcases array with _ | e | image
    · cases h
    · cases h
    · exact ⟨image, rfl⟩
  · cases h

/-- A node that opens is an array on the sky plane, of five dimensions. -/
theorem qualifyNode_openable {entry : NodeEntry} {s : Session}
    (h : (qualifyNode store outages entry s).1.openable = true) :
    ∃ image, entry.array = some (.ok image) ∧ carriesPlane image .sky = true ∧
      image.dimensionNames.length = 5 := by
  unfold qualifyNode at h
  rcases entry with ⟨name, kind, array, reason⟩
  rcases kind with _ | _ | _
  · cases h
  · rcases array with _ | e | image
    · cases h
    · cases h
    · dsimp only at h
      split_ifs at h with hflag hsky haperture
      · cases h
      · exact ⟨image, rfl, hsky, qualifyImage_openable h⟩
      · cases h
      · cases h
  · cases h

/-- An array of an inventory is the one its document says. -/
theorem arrayAnswer_of_mem_inventory (hfiled : store.Filed)
    (hout : outages.Transient failing) {s : Session}
    (hs : store.Sound failing s) {entries : List NodeEntry}
    (h : (store.inventory outages s).1 = .ok entries)
    {entry : NodeEntry} (hentry : entry ∈ entries) {image : ArrayMetadata}
    (harray : entry.array = some (.ok image)) : store.arrayAnswer entry.name = .ok image := by
  obtain ⟨-, -, hstands⟩ := Store.gives_inventory hfiled hout s hs
  rw [h] at hstands
  obtain ⟨entries', hentries', hunname⟩ := Store.Stands.exists_ok hstands
  have hmem : unname entry ∈ unname entries' := hunname ▸ List.mem_map_of_mem hentry
  obtain ⟨entry', hmem', hsame⟩ := List.mem_map.1 hmem
  have hname : (unname entry').name = (unname entry).name := congrArg NodeEntry.name hsame
  have harray' : (unname entry').array = (unname entry).array := congrArg NodeEntry.array hsame
  change entry'.name = entry.name at hname
  change unname entry'.array = unname entry.array at harray'
  rw [harray] at harray'
  obtain ⟨-, hanswers⟩ := inventoryAnswer_eq_ok hfiled hentries'
  rcases hfound : entry'.array with _ | e | m
  · rw [hfound] at harray'
    cases harray'
  · rw [hfound] at harray'
    cases harray'
  · rw [hfound] at harray'
    cases harray'
    rw [← hname, ← ((hanswers entry' hmem').2 _ hfound).2]

/-- The document of an array whose metadata is an answer. -/
theorem exists_document_of_arrayAnswer {node : String} {m : ArrayMetadata}
    (h : store.arrayAnswer node = .ok m) :
    ∃ document, parseArrayMetadata document node = .ok m := by
  obtain ⟨document, -, h⟩ := bind_eq_ok_iff.1 h
  exact ⟨document, h⟩

/-- The names of an array that was accepted, where it has any, are of its dimensions. -/
theorem length_dimensionNames {document : Json} {node : String} {m : ArrayMetadata}
    (h : parseArrayMetadata document node = .ok m) (hnames : m.dimensionNames ≠ []) :
    m.dimensionNames.length = m.shape.length := by
  have h := mapError_eq_ok_iff.1 h
  unfold parseArray at h
  simp only [bind_eq_ok_iff] at h
  obtain ⟨_, -, _, -, _, -, _, -, shape, -, names, hdimensions, _, -, _, -, _, -, _, -,
    _, -, _, -, ⟨⟩⟩ := h
  unfold parseDimensionNames at hdimensions
  split at hdimensions
  · cases hdimensions
    exact absurd rfl hnames
  · simp only [bind_eq_ok_iff] at hdimensions
    obtain ⟨items, -, _, hlength, names, hitems, _, -, ⟨⟩⟩ := hdimensions
    rw [← (mapM_eq_ok_iff.1 hitems).length_eq]
    simpa [require_eq_ok_iff] using hlength

/-- An array that is held to its own document is one that was accepted, of the shape of the copy. -/
theorem verifyAnswer_shape {node : String} {copy own : ArrayMetadata}
    (hcopy : store.arrayAnswer node = .ok copy)
    (h : store.verifyAnswer node = .ok own) :
    own.shape = copy.shape ∧ ∃ document name, parseArrayMetadata document name = .ok own := by
  rw [Store.verifyAnswer, hcopy, ok_bind] at h
  split_ifs at h
  · unfold Store.verifyOwn at h
    split at h
    · split_ifs at h
    · simp only [bind_eq_ok_iff] at h
      obtain ⟨document, -, own', hown, _, hsame, ⟨⟩⟩ := h
      refine ⟨?_, document, _, hown⟩
      unfold requireSameArray at hsame
      split_ifs at hsame with hshape
      all_goals simp_all
  · cases h
    exact ⟨rfl, exists_document_of_arrayAnswer hcopy |>.imp fun document h => ⟨node, h⟩⟩

/-! ## What an image that opens is read by -/

theorem AxesOf.rank_eq {image : ArrayMetadata} {d : ImageDescriptor}
    (h : AxesOf image d.axes) : d.rank = 5 := by
  have hlength := congrArg List.length h.role
  rwa [List.length_map] at hlength

theorem AxesOf.storedInOrder {image : ArrayMetadata} {d : ImageDescriptor}
    (h : AxesOf image d.axes) :
    d.StoredInOrder := by
  rw [ImageDescriptor.StoredInOrder, h.rank_eq]
  exact h.stored

/-- The axes of an image have a map. -/
theorem AxesOf.mapAxes_eq {image : ArrayMetadata} {d : ImageDescriptor} (h : AxesOf image d.axes) :
    mapAxes d = .ok ⟨0, 1, 2, some 3, some 4⟩ := by
  obtain ⟨id, storedType, axes, hasPixelMask⟩ := d
  obtain ⟨x, axes, rfl, hx, h⟩ := List.map_eq_cons_iff.1 h.role
  obtain ⟨y, axes, rfl, hy, h⟩ := List.map_eq_cons_iff.1 h
  obtain ⟨spectral, axes, rfl, hspectral, h⟩ := List.map_eq_cons_iff.1 h
  obtain ⟨polarization, axes, rfl, hpolarization, h⟩ := List.map_eq_cons_iff.1 h
  obtain ⟨time, axes, rfl, htime, h⟩ := List.map_eq_cons_iff.1 h
  obtain rfl := List.map_eq_nil_iff.1 h
  simp only [mapAxes, findAxes, hx, hy, hspectral, hpolarization, htime]

/-- A layout has a geometry on the axes of an image, with extents above zero that stand on the axis
of their dimension. -/
def HasGeometry (d : ImageDescriptor) (layout : StorageLayout) : Prop :=
  ∃ g, buildChunkGeometry d layout = some g ∧ g.Stands d layout

/-- **An image that opens has its five axes**, found by every walk, and a geometry of its own layout
and of that of the flag it is read with. -/
theorem openable_addressable {backing : Backing} (hopen : openStore backing = .ok store)
    (hout : outages.Transient failing) {s s' : Session} (hs : store.Reached outages s)
    {entries : List NodeEntry}
    (h : (store.inventory outages s).1 = .ok entries) {entry : NodeEntry} (hentry : entry ∈ entries)
    (hopenable : (qualifyNode store outages entry s').1.openable = true) :
    ∃ image axes, entry.array = some (.ok image) ∧
    describeAxes image = some axes ∧ AxesOf image axes ∧
      ∀ d : ImageDescriptor, d.axes = axes →
        mapAxes d = .ok ⟨0, 1, 2, some 3, some 4⟩ ∧ HasGeometry d (parseStorageLayout image) ∧
        ∀ diagnostics t t' flag own, store.Reached outages t → store.Reached outages t' →
          (determineFlag store outages image entry.name diagnostics t).1.1 = .ok flag → flag ≠ "" →
          (store.verifyArray outages flag t').1 = .ok own →
          HasGeometry d (parseStorageLayout own) := by
  have hfiled := openStore_filed hopen
  obtain ⟨image, harray, hsky, hnames⟩ := qualifyNode_openable hopenable
  have hanswer := arrayAnswer_of_mem_inventory hfiled hout (hs.sound hopen hout) h hentry harray
  obtain ⟨document, hdocument⟩ := exists_document_of_arrayAnswer hanswer
  have hshape : image.shape.length = 5 := by
    rw [← length_dimensionNames hdocument (List.ne_nil_of_length_eq_add_one hnames), hnames]
  obtain ⟨axes, haxes, hof⟩ := describeAxes_of hnames hshape hsky
  refine ⟨image, axes, harray, haxes, hof, ?_⟩
  rintro d rfl
  have hgeometry : ∀ {document name m}, parseArrayMetadata document name = .ok m →
    m.shape.length = 5 →
      HasGeometry d (parseStorageLayout m) := fun hparse hlength =>
    buildChunkGeometry_stands hof.storedInOrder hparse (hlength.trans hof.rank_eq.symm)
  refine ⟨hof.mapAxes_eq, hgeometry hdocument hshape, ?_⟩
  intro diagnostics t t' flag own ht ht' hflag hne hverified
  obtain ⟨copy, hcopy, hmasks⟩ := determineFlag_masks hfiled hout (ht.sound hopen hout) hne hflag
  obtain ⟨-, -, hstands⟩ := Store.gives_verifyArray hfiled hout flag t' (ht'.sound hopen hout)
  rw [hverified] at hstands
  obtain ⟨hsame, document', name, hown⟩ := verifyAnswer_shape hcopy hstands.ok
  exact hgeometry hown (by rw [hsame, hmasks.shape, hshape])

/-- The document of a variable of one time, two channels, one polarization and `3 × 4` pixels. -/
def chunkedDocument (chunkShape : List UInt64) (dataType : String)
    (attributes : List (String × Json)) :
    Json :=
  .object [("zarr_format", .unsigned 3), ("node_type", .string "array"),
    ("shape", .array [.unsigned 1, .unsigned 2, .unsigned 1, .unsigned 3, .unsigned 4]),
    ("dimension_names", .array [.string "time", .string "frequency",
      .string "polarization", .string "l",
      .string "m"]), ("data_type", .string dataType), ("attributes", .object attributes),
    ("chunk_grid", .object [("name", .string "regular"), ("configuration", .object [("chunk_shape",
      .array (chunkShape.map .unsigned))])])]

/-- The same, in chunks of `2 × 2` pixels. -/
def variableDocument : String → List (String × Json) → Json := chunkedDocument [1, 1, 1, 2, 2]

/-- A store of an image and the flag that it declares. -/
def cubeWithFlag (flag : Json) : Backing where
  readNodeBytes name := if name = "" then .ok [] else if name = "SKY" then .ok [0]
    else if name = "FLAG" then .ok [1] else .error ⟨.notFound, "Zarr node was not found", name⟩
  listNodes := .ok ["SKY", "FLAG"]
  arrayDirectory name := .ok name
  parseJson bytes := .document <|
    if bytes = [] then .object [("zarr_format", .unsigned 3), ("node_type", .string "group")]
    else if bytes = [0] then variableDocument "float32" [("flag", .string "./FLAG")]
    else flag
  numericValues _ := .ok []
  decompressors := storedStreams
  files _ := .missing

def maskedCube : Backing := cubeWithFlag (variableDocument "bool" [("type", .string "flag")])

def maskedCubeStore : Store where
  backing := maskedCube
  rootAttributes := .object []
  consolidated := []
  hasConsolidatedMetadata := false

def maskedCubeEntries : List NodeEntry :=
  ["FLAG", "SKY"].map fun name => ⟨name, .array, some (maskedCubeStore.arrayAnswer name), none⟩

theorem openable_addressable_maskedCube :
    ∃ entry ∈ maskedCubeEntries, ∃ image axes,
      entry.array = some (.ok image) ∧ describeAxes image = some axes ∧ AxesOf image axes ∧
      ∀ d : ImageDescriptor, d.axes = axes →
        mapAxes d = .ok ⟨0, 1, 2, some 3, some 4⟩ ∧ HasGeometry d (parseStorageLayout image) ∧
        ∀ diagnostics t t' flag own, maskedCubeStore.Reached (fun _ => none) t →
          maskedCubeStore.Reached (fun _ => none) t' →
          (determineFlag maskedCubeStore (fun _ => none) image entry.name diagnostics t).1.1 =
            .ok flag →
          flag ≠ "" → (maskedCubeStore.verifyArray (fun _ => none) flag t').1 = .ok own →
          HasGeometry d (parseStorageLayout own) := by
  have hopen : openStore maskedCube = .ok maskedCubeStore := rfl
  have hentries : (maskedCubeStore.inventory (fun _ => none) maskedCubeStore.initial).1 =
      .ok maskedCubeEntries := by rfl
  have hopenable : (qualifyNode maskedCubeStore (fun _ => none) maskedCubeEntries[1]
      maskedCubeStore.initial).1.openable = true := by rfl
  exact ⟨_, List.getElem_mem _, openable_addressable hopen (transient_of_none fun _ =>
    rfl) .initial hentries
    (List.getElem_mem (by decide)) hopenable⟩

example :
    ((maskedCubeStore.arrayAnswer "SKY").toOption.map fun image => (determineFlag maskedCubeStore
    (fun _ => none) image "SKY" [] maskedCubeStore.initial).1.1.toOption) =
      some (some "FLAG") := by rfl

end CartaZarr
