import CartaZarr.Xradio.Describe
import CartaZarr.Xradio.Qualification

/-!
# What a description says

An image is described as its store answers, in whatever session it is described
(`right_describeImage`): what comes of opening a name is told by the store alone, unless a read that
was made for it failed. A name is described exactly where it is that of an image that opens, its own
document and its flag's hold, the samples of the coordinates can be read and the root describes a
direction (`describeImage_describes`).
-/

namespace CartaZarr

open Store

/-! ## The answers of a store -/

section Answers

variable (store : Store)

/-- The flag that is declared for an image, where it serves. -/
def declaredName (image : ArrayMetadata) (imageId : String) : String :=
  if attributeString image.attributes "flag" ≠ ""
    then canonical (attributeString image.attributes "flag")
  else
    match (flagsOfDataGroups store.rootAttributes imageId).own with
    | [flag] => canonical flag
    | _ => ""

/-- The flag an image is read with, and what is said of it. -/
def flagAnswer (image : ArrayMetadata) (imageId : String)
    (entries : List NodeEntry) : String × List Diagnostic :=
  if declaredName store image imageId ≠ "" then (declaredName store image imageId, [])
  else
    match matchingFlags image (flagsOfDataGroups store.rootAttributes imageId) entries with
    | [] => ("", [])
    | [flag] => (flag, [])
    | _ => ("", [ambiguousPixelMask imageId])

def spectralAnswer (channels : List UInt64) : Option SpectralCoordinate :=
  if channels = [] then none
  else some (spectralOf (attributesOf (store.nodeAnswer "frequency")) channels
    (unitAnswer store "frequency" .spectral))

def temporalAnswer (values : List UInt64) : Option TemporalCoordinate :=
  if values = [] then none else some (temporalOf (attributesOf (store.nodeAnswer "time")) values)

/-- What is reported of an image, as the store answers. -/
structure IsReport (imageId : String) (image : ArrayMetadata) (values : CoordinateValues)
    (report : ImageReport) :
    Prop where
  id : report.id = imageId
  storedType : report.storedType = parseDataType image.dataType
  unit : report.unit = attributeString image.attributes "units"
  imageRole : report.imageRole = imageRoleOf image
  dataGroups : report.dataGroups = findDataGroups store.rootAttributes imageId
  axes : ∃ axes, describeAxes image = some axes ∧ report.axes = axesAnswer store axes
  direction : readCoordinateSystem store.rootAttributes = .ok report.direction
  spectral : report.spectral = spectralAnswer store values.frequency
  polarization : report.polarization = if values.polarization = [] then none
    else some values.polarization
  temporal : report.temporal = temporalAnswer store values.time
  mask : ∃ entries, store.inventoryAnswer = .ok entries ∧
    (report.pixelMaskId, report.diagnostics) = flagAnswer store image imageId entries

/-- The geometry of the flag an image is read with. -/
def IsFlagGeometry (descriptor : ImageDescriptor) (flag : String)
    (geometry : Option StoredGeometry) : Prop :=
  flag = "" ∧ geometry = none ∨
    flag ≠ "" ∧ ∃ own g, store.verifyAnswer flag = .ok own ∧ geometry = some g ∧
      buildChunkGeometry descriptor (parseStorageLayout own) = some g

/-- A description of an image from the samples of its coordinates. -/
structure IsDescription (imageId : String) (image : ArrayMetadata) (values : CoordinateValues)
    (described : DescribedImage) : Prop where
  report : IsReport store imageId image values described.report
  geometry : buildChunkGeometry described.report.descriptor (parseStorageLayout image) =
    some described.geometry
  flagGeometry : IsFlagGeometry store described.report.descriptor described.report.pixelMaskId
    described.flagGeometry

/-- What a name is described as: it is that of an image that opens, held to its own document, from
the samples of the coordinates. -/
def DescribedAs (imageId : String) (described : DescribedImage) : Prop :=
  NameOpens store imageId ∧ (∃ own, store.verifyAnswer imageId = .ok own) ∧
    ∃ values, coordinatesAnswer store skyCoordinates {} = .ok values ∧
      ∃ image, store.arrayAnswer imageId = .ok image ∧
        IsDescription store imageId image values described

end Answers

/-! ## The flag -/

variable {store : Store} {outages : Outages}

/-- A flag that is declared is named as it is declared. -/
theorem yields_declaredFlag (image : ArrayMetadata) (imageId : String) :
    Yields (fun r => ∀ name, r = .ok name → name = declaredName store image imageId)
      (declaredFlag store outages image imageId) := by
  have hrequire : ∀ spelt, Yields (fun r => ∀ name, r = .ok name → name = canonical spelt)
      (requireDeclaredFlag store outages image spelt) := fun spelt => Yields.bind fun r => by
    cases r with
    | error e => exact Yields.pure (by simp)
    | ok flag =>
      refine Yields.pure fun name hname => ?_
      cases h : requireUsableFlag flag image (canonical spelt) with
      | error e =>
        rw [h] at hname
        cases hname
      | ok _ =>
        rw [h] at hname
        exact (Except.ok.inj hname).symm
  unfold declaredFlag declaredName
  dsimp only
  split_ifs
  · exact hrequire _
  · rcases (flagsOfDataGroups store.rootAttributes imageId).own with _ | ⟨flag, _ | _⟩
    · exact Yields.pure (by simp)
    · exact hrequire _
    · exact Yields.pure (by simp)

theorem later_determineFlag (image : ArrayMetadata) (imageId : String)
    (diagnostics : List Diagnostic) :
    Moves (Later store outages) (determineFlag store outages image imageId diagnostics) := by
  refine (later_declaredFlag image imageId).bind fun r => ?_
  cases r with
  | error e => exact Moves.pure _
  | ok declared =>
    dsimp only
    split
    · exact Moves.pure _
    · refine later_inventory.bind fun r => ?_
      cases r with
      | error e => exact Moves.pure _
      | ok entries => dsimp only; split <;> exact Moves.pure _

theorem later_describeSpectralCoordinate (channels : List UInt64) :
    Moves (Later store outages) (describeSpectralCoordinate store outages channels) := by
  unfold describeSpectralCoordinate
  split_ifs
  · exact Moves.pure _
  · exact (later_readNodeMetadata _).bind fun _ =>
      (later_coordinateUnit _ _).bind fun _ => Moves.pure _

theorem later_describeTemporalCoordinate (values : List UInt64) :
    Moves (Later store outages) (describeTemporalCoordinate store outages values) := by
  unfold describeTemporalCoordinate
  split_ifs
  · exact Moves.pure _
  · exact (later_readNodeMetadata _).bind fun _ => Moves.pure _

theorem later_describeListedAxes (image : ArrayMetadata) :
    Moves (Later store outages) (describeListedAxes store outages image) := by
  unfold describeListedAxes
  split
  · exact Moves.pure _
  · exact (later_listAxes _).bind fun _ => Moves.pure _

theorem later_describeFlag (descriptor : ImageDescriptor) (flag : String) :
    Moves (Later store outages) (describeFlag store outages descriptor flag) := by
  unfold describeFlag
  split_ifs
  · exact Moves.pure _
  · refine (later_verifyArray flag).bind fun r => ?_
    cases r with
    | error e => exact Moves.pure _
    | ok own => dsimp only; split <;> exact Moves.pure _

theorem later_describeReport (image : ArrayMetadata) (report : ImageReport) :
    Moves (Later store outages) (describeReport store outages image report) := by
  refine (later_describeFlag _ _).bind fun r => ?_
  cases r with
  | error e => exact Moves.pure _
  | ok flagGeometry => dsimp only; split <;> exact Moves.pure _

theorem later_describeMetadata (imageId : String) (values : CoordinateValues)
    (image : ArrayMetadata) :
    Moves (Later store outages) (describeMetadata store outages imageId values image) := by
  refine (later_describeListedAxes image).bind fun r => ?_
  cases r with
  | error e => exact Moves.pure _
  | ok axes =>
    dsimp only
    split
    · exact Moves.pure _
    · refine (later_describeSpectralCoordinate _).bind fun _ =>
        (later_describeTemporalCoordinate _).bind fun _ => ?_
      refine (later_determineFlag _ _ _).bind fun selected => ?_
      split
      · exact Moves.pure _
      · exact later_describeReport image _

section Ask

variable (hfiled : store.Filed) (hout : outages.Transient True)
include hfiled hout

/-- The flag of an image that opens. -/
theorem right_determineFlag {image : ArrayMetadata} {imageId : String}
    (hserves : FlagServes store image imageId)
    {entries : List NodeEntry} (hanswer : store.inventoryAnswer = .ok entries) :
    store.Right outages (fun selected (answer : String × List Diagnostic) =>
        selected.1 = .ok answer.1 ∧ selected.2 = answer.2)
      (determineFlag store outages image imageId []) (flagAnswer store image imageId entries) := by
  refine ((right_declaredFlag hfiled hout image imageId).and
    (yields_declaredFlag image imageId)).bind (fun r => ?_) ?_
  · cases r with
    | error e => exact Keeps.pure _
    | ok declared =>
      dsimp only
      split
      · exact Keeps.pure _
      · refine (right_inventory hfiled hout).keeps.bind fun r => ?_
        cases r with
        | error e => exact Keeps.pure _
        | ok entries => dsimp only; split <;> exact Keeps.pure _
  · rintro r ⟨hdeclared, hname⟩
    obtain ⟨name, rfl⟩ := hdeclared.2 hserves
    obtain rfl := hname name rfl
    unfold flagAnswer
    dsimp only
    split_ifs with hempty
    · exact Right.pure ⟨rfl, rfl⟩
    · refine (right_inventory hfiled hout).bind (fun r => ?_) fun r hr => ?_
      · cases r with
        | error e => exact Keeps.pure _
        | ok entries => dsimp only; split <;> exact Keeps.pure _
      · rw [hanswer] at hr
        obtain ⟨entries', rfl, hsame⟩ := hr.symm.exists_ok
        have hmatching : matchingFlags image
          (flagsOfDataGroups store.rootAttributes imageId) entries' =
            matchingFlags image (flagsOfDataGroups store.rootAttributes imageId) entries := by
          rw [← matchingFlags_unname, show unname entries' = unname entries from hsame.symm,
            matchingFlags_unname]
        dsimp only
        rw [hmatching]
        rcases matchingFlags image (flagsOfDataGroups store.rootAttributes imageId) entries
          with _ | ⟨flag, _ | _⟩ <;>
          exact Right.pure ⟨rfl, rfl⟩

omit hfiled hout in
theorem attributesOf_congr {r y : Except Error Json}
    (h : SameAnswer r y) : attributesOf r = attributesOf y := by
  cases r with
  | error e =>
    obtain ⟨e', rfl, -⟩ := h.exists_error
    rfl
  | ok document => rw [h.ok]

theorem right_describeSpectralCoordinate (channels : List UInt64) :
    store.Right outages Eq (describeSpectralCoordinate store outages channels)
      (spectralAnswer store channels) := by
  unfold describeSpectralCoordinate spectralAnswer
  split_ifs
  · exact Right.pure rfl
  · refine (right_readNodeMetadata hfiled hout "frequency").bind
      (fun _ => (right_coordinateUnit hfiled hout "frequency" .spectral).keeps.bind fun _ =>
        Keeps.pure _) fun r hr => ?_
    refine (right_coordinateUnit hfiled hout "frequency" .spectral).bind
      (fun _ => Keeps.pure _) fun unit hunit => ?_
    rw [hunit, attributesOf_congr hr]
    exact Right.pure rfl

theorem right_describeTemporalCoordinate (values : List UInt64) :
    store.Right outages Eq (describeTemporalCoordinate store outages values)
      (temporalAnswer store values) := by
  unfold describeTemporalCoordinate temporalAnswer
  split_ifs
  · exact Right.pure rfl
  · refine (right_readNodeMetadata hfiled hout "time").bind (fun _ => Keeps.pure _) fun r hr => ?_
    rw [attributesOf_congr hr]
    exact Right.pure rfl

theorem right_describeListedAxes (image : ArrayMetadata) :
    store.Right outages Tells (describeListedAxes store outages image)
      (fun listed => ∃ axes, describeAxes image = some axes ∧ listed = axesAnswer store axes) := by
  unfold describeListedAxes
  cases describeAxes image with
  | none => exact Right.pure fun _ => by simp
  | some axes =>
    refine (right_listAxes hfiled hout axes).bind (fun _ => Keeps.pure _) fun listed hlisted =>
      Right.pure fun a => ?_
    simp [hlisted, eq_comm]

theorem right_describeFlag (descriptor : ImageDescriptor) (flag : String) :
    store.Right outages Tells (describeFlag store outages descriptor flag)
      (IsFlagGeometry store descriptor flag) := by
  unfold describeFlag IsFlagGeometry
  split_ifs with hflag
  · exact Right.pure fun a => by simp [hflag, eq_comm]
  · refine Right.tells_congr (Right.bindOk (q := fun own geometry =>
        ∃ g, buildChunkGeometry descriptor (parseStorageLayout own) = some g ∧ geometry = some g)
      (right_verifyArray hfiled hout flag).tells ?_ (fun own => ?_) fun own hown =>
        ?_) fun geometry => ?_
    · exact fun e => ⟨_, rfl⟩
    · dsimp only
      split <;> exact Keeps.pure _
    · dsimp only
      cases buildChunkGeometry descriptor (parseStorageLayout own) with
      | none => exact Right.pure fun _ => by simp
      | some g => exact Right.pure fun _ => by simp [eq_comm]
    · simp only [hflag, false_and, ne_eq, not_false_eq_true, true_and, false_or]
      constructor
      · rintro ⟨own, hown, g, hg, hgeometry⟩
        exact ⟨own, g, hown, hgeometry, hg⟩
      · rintro ⟨own, g, hown, hgeometry, hg⟩
        exact ⟨own, hown, g, hg, hgeometry⟩

theorem right_describeReport (image : ArrayMetadata) (report : ImageReport) :
    store.Right outages Tells (describeReport store outages image report)
      (fun described => described.report = report ∧
        buildChunkGeometry report.descriptor (parseStorageLayout image) = some described.geometry ∧
        IsFlagGeometry store report.descriptor report.pixelMaskId described.flagGeometry) := by
  refine Right.tells_congr (Right.bindOk (q := fun flagGeometry described =>
    described.report = report ∧
      buildChunkGeometry report.descriptor (parseStorageLayout image) = some described.geometry ∧
      described.flagGeometry = flagGeometry)
    (right_describeFlag hfiled hout report.descriptor report.pixelMaskId) ?_
      (fun flagGeometry => ?_)
    fun flagGeometry _ => ?_) fun described => ?_
  · exact fun e => ⟨_, rfl⟩
  · dsimp only
    split <;> exact Keeps.pure _
  · dsimp only
    cases buildChunkGeometry report.descriptor (parseStorageLayout image) with
    | none => exact Right.pure fun _ => by simp
    | some g =>
      refine Right.pure fun described => ⟨?_, ?_⟩
      · rintro ⟨⟩
        exact ⟨rfl, rfl, rfl⟩
      · rintro ⟨rfl, hg, rfl⟩
        rw [Option.some.inj hg]
  · constructor
    · rintro ⟨flagGeometry, hflag, hreport, hg, rfl⟩
      exact ⟨hreport, hg, hflag⟩
    · rintro ⟨hreport, hg, hflag⟩
      exact ⟨_, hflag, hreport, hg, rfl⟩

omit hfiled hout in
theorem IsDescription.of_report {imageId : String} {image : ArrayMetadata}
    {values : CoordinateValues}
    {described : DescribedImage} (h : IsDescription store imageId image values described)
    {report : ImageReport}
    (hreport : described.report = report) : described.report = report ∧
      buildChunkGeometry report.descriptor (parseStorageLayout image) = some described.geometry ∧
      IsFlagGeometry store report.descriptor report.pixelMaskId described.flagGeometry := by
  subst hreport
  exact ⟨rfl, h.geometry, h.flagGeometry⟩

/-- An image whose metadata is there, and that a flag serves. -/
theorem right_describeMetadata {imageId : String} {image : ArrayMetadata}
    (values : CoordinateValues)
    (hserves : FlagServes store image imageId) {entries : List NodeEntry}
    (hanswer : store.inventoryAnswer = .ok entries) :
    store.Right outages Tells (describeMetadata store outages imageId values image)
      (IsDescription store imageId image values) := by
  have hselects := right_determineFlag hfiled hout hserves hanswer
  have hspectral := right_describeSpectralCoordinate hfiled hout values.frequency
  have htemporal := right_describeTemporalCoordinate hfiled hout values.time
  have hreports := right_describeReport hfiled hout image
  have hreported : ∀ report, store.Keeps (describeReport store outages image report) :=
      fun report =>
    (hreports report).keeps
  refine Right.tells_congr (Right.bindOk
      (q := fun axes described => described.report.axes = axes ∧
        IsDescription store imageId image values described)
    (right_describeListedAxes hfiled hout image) ?_ (fun axes => ?_) ?_) fun described => ?_
  · exact fun e => ⟨_, rfl⟩
  · dsimp only
    split
    · exact Keeps.pure _
    · refine hspectral.keeps.bind fun _ => htemporal.keeps.bind fun _ =>
        hselects.keeps.bind fun _ => ?_
      split
      exacts [Keeps.pure _, hreported _]
  · rintro _ ⟨axes, haxes, rfl⟩
    dsimp only
    cases hdirection : readCoordinateSystem store.rootAttributes with
    | error e =>
      refine Right.pure fun described => iff_of_false (by simp) ?_
      rintro ⟨-, h⟩
      have hread := h.report.direction
      rw [hdirection] at hread
      cases hread
    | ok direction =>
      refine hspectral.bind (fun _ => htemporal.keeps.bind fun _ =>
        hselects.keeps.bind fun _ => ?_) ?_
      · split
        exacts [Keeps.pure _, hreported _]
      rintro _ rfl
      refine htemporal.bind (fun _ => hselects.keeps.bind fun _ => ?_) ?_
      · split
        exacts [Keeps.pure _, hreported _]
      rintro _ rfl
      refine hselects.bind (fun _ => ?_) ?_
      · split
        exacts [Keeps.pure _, hreported _]
      rintro selected ⟨hflag, hdiagnostics⟩
      rw [hflag]
      dsimp only
      refine (hreports _).tells_congr fun described => ⟨?_, ?_⟩
      · rintro ⟨hreport, hgeometry, hflagGeometry⟩
        refine ⟨by rw [hreport], ?_, ?_, ?_⟩
        · rw [hreport]
          exact ⟨rfl, rfl, rfl, rfl, rfl, ⟨axes, haxes, rfl⟩, hdirection, rfl, rfl, rfl,
            entries, hanswer, by rw [hdiagnostics]⟩
        · rw [hreport]
          exact hgeometry
        · rw [hreport]
          exact hflagGeometry
      · rintro ⟨haxes', h⟩
        obtain ⟨entries', hanswer', hmask⟩ := h.report.mask
        obtain rfl := Except.ok.inj (hanswer.symm.trans hanswer')
        have hdirection' := Except.ok.inj (hdirection.symm.trans h.report.direction)
        exact h.of_report (ImageReport.ext h.report.id h.report.storedType
          h.report.unit h.report.imageRole
          h.report.dataGroups haxes' hdirection'.symm h.report.spectral
            h.report.polarization h.report.temporal
          (congrArg Prod.fst hmask) ((congrArg Prod.snd hmask).trans hdiagnostics.symm))
  · constructor
    · rintro ⟨axes, -, -, h⟩
      exact h
    · intro h
      obtain ⟨axes, haxes, hreport⟩ := h.report.axes
      exact ⟨_, ⟨axes, haxes, rfl⟩, hreport, h⟩

theorem right_requireQualified_tells (imageId : String) : store.Right outages Tells
    (requireQualified store outages imageId) (fun _ => NameOpens store imageId) :=
  (right_requireQualified hfiled hout imageId).mono fun _ hr _ => hr

omit hout in
/-- An image that opens is there, with a flag that serves it. -/
theorem NameOpens.image {imageId : String} (h : NameOpens store imageId) :
    ∃ entries image, store.inventoryAnswer = .ok entries ∧ store.arrayAnswer imageId = .ok image ∧
      Openable store image imageId := by
  obtain ⟨entries, hanswer, entry, hentry, rfl, -, image, harray, hopenable⟩ := h
  exact ⟨entries, image, hanswer,
    (((inventoryAnswer_eq_ok hfiled hanswer).2 entry hentry).2 _ harray).2.symm,
    hopenable⟩

theorem right_describeImageFrom (imageId : String) (values : CoordinateValues) :
    store.Right outages Tells (describeImageFrom store outages imageId values) (fun described =>
      NameOpens store imageId ∧ ∃ image, store.arrayAnswer imageId = .ok image ∧
        IsDescription store imageId image values described) := by
  have hkeeps : ∀ image, store.Keeps (describeMetadata store outages imageId values image) :=
      fun image =>
    Keeps.of_moves hfiled hout (later_describeMetadata imageId values image)
  refine Right.tells_congr (Right.bindOk (q := fun _ described => ∃ image,
    store.arrayAnswer imageId = .ok image ∧
      IsDescription store imageId image values described)
        (right_requireQualified_tells hfiled hout imageId) ?_
    (fun _ => (right_readArrayMetadata hfiled hout imageId).keeps.bind fun r =>
      ?_) fun _ hopens => ?_)
    fun described => ?_
  · exact fun e => ⟨_, rfl⟩
  · cases r with
    | error e => exact Keeps.pure _
    | ok image => exact hkeeps image
  · obtain ⟨entries, image, hanswer, himage, hopenable⟩ := hopens.image hfiled
    refine Right.bindOk (right_readArrayMetadata hfiled hout imageId).tells ?_ hkeeps ?_
    · exact fun e => ⟨_, rfl⟩
    · intro image' himage'
      obtain rfl := Except.ok.inj (himage.symm.trans himage')
      exact right_describeMetadata hfiled hout values hopenable.flag hanswer
  · exact ⟨fun ⟨_, hopens, h⟩ => ⟨hopens, h⟩, fun ⟨hopens, h⟩ => ⟨(), hopens, h⟩⟩

/-- **An image is described as its store answers**, and a name is described where nothing that is
asked of it is refused. -/
theorem right_describeImage (imageId : String) :
    store.Right outages Tells (describeImage store outages imageId)
      (DescribedAs store imageId) := by
  have hvalues := right_readCoordinateValues hfiled hout
  have hfrom := right_describeImageFrom hfiled hout imageId
  have hverify := right_verifyArray hfiled hout imageId
  refine Right.tells_congr (Right.bindOk
    (right_requireQualified_tells hfiled hout imageId) (fun e => ⟨_, rfl⟩)
    (fun _ => hverify.keeps.bind fun r => ?_) fun _ _ =>
      Right.bindOk hverify.tells (fun e => ⟨_, rfl⟩)
      (fun own => hvalues.keeps.bind fun r => ?_) fun _ _ =>
        Right.bindOk hvalues.tells (fun e => ⟨_, rfl⟩)
        (fun values => (hfrom values).keeps) fun values _ => hfrom values) fun described => ?_
  · cases r with
    | error e => exact Keeps.pure _
    | ok own =>
      refine hvalues.keeps.bind fun r => ?_
      cases r with
      | error e => exact Keeps.pure _
      | ok values => exact (hfrom values).keeps
  · cases r with
    | error e => exact Keeps.pure _
    | ok values => exact (hfrom values).keeps
  constructor
  · rintro ⟨_, hopens, own, hown, values, hvalues, -, h⟩
    exact ⟨hopens, ⟨own, hown⟩, values, hvalues, h⟩
  · rintro ⟨hopens, ⟨own, hown⟩, values, hvalues, h⟩
    exact ⟨(), hopens, own, hown, values, hvalues, hopens, h⟩

end Ask

/-! ## What is described -/

section Describable

variable {imageId : String} {image : ArrayMetadata} {entries : List NodeEntry}
  (hfiled : store.Filed)
include hfiled

/-- The flag an image that opens is read with masks it. -/
theorem flagAnswer_masks (hserves : FlagServes store image imageId)
    (hanswer : store.inventoryAnswer = .ok entries)
    (hne : (flagAnswer store image imageId entries).1 ≠ "") :
    CanMask store image (flagAnswer store image imageId entries).1 := by
  obtain ⟨-, hown, -⟩ := flagsOfDataGroups_spec store.rootAttributes imageId
  by_cases hdeclared : declaredName store image imageId = ""
  · unfold flagAnswer at hne ⊢
    rw [if_neg (not_not.2 hdeclared)] at hne ⊢
    have hmem := fun name => @mem_matchingFlags_iff store image imageId hfiled entries hanswer name
    rcases hlist : matchingFlags image (flagsOfDataGroups store.rootAttributes imageId) entries with
      _ | ⟨flag, _ | _⟩
    · rw [hlist] at hne
      exact absurd rfl hne
    · rw [hlist] at hmem
      obtain ⟨-, entry, hentry, rfl, flag, harray, hmasks⟩ := (hmem flag).1 (by simp)
      exact ⟨flag, (((inventoryAnswer_eq_ok hfiled hanswer).2 entry hentry).2 _ harray).2.symm,
        hmasks⟩
    · rw [hlist] at hne
      exact absurd rfl hne
  · have hflag : (flagAnswer store image imageId entries).1 = declaredName store image imageId := by
      rw [flagAnswer, if_pos hdeclared]
    rw [hflag]
    unfold declaredName at hdeclared ⊢
    split_ifs at hdeclared ⊢ with hattribute
    · exact hserves.ofImage hattribute
    · rcases hlist : (flagsOfDataGroups store.rootAttributes imageId).own with _ | ⟨flag, _ | _⟩
      · rw [hlist] at hdeclared
        exact absurd rfl hdeclared
      · have hdeclares : DeclaredFor store.rootAttributes imageId flag :=
          (hown flag).1 (by rw [hlist]; simp)
        have hcanonical : canonical flag = flag := by
          obtain ⟨_, spelt, -, -, rfl⟩ := hdeclares
          exact canonical_canonical spelt
        dsimp only
        rw [hcanonical]
        exact (hserves.ofGroups (not_not.1 hattribute) flag hdeclares).1
      · rw [hlist] at hdeclared
        exact absurd rfl hdeclared

/-- A name that is described: nothing that is asked of it is refused. -/
structure Describable (store : Store) (imageId : String) : Prop where
  opens : NameOpens store imageId
  verified : ∃ own, store.verifyAnswer imageId = .ok own
  values : ∃ values, coordinatesAnswer store skyCoordinates {} = .ok values
  direction : ∃ direction, readCoordinateSystem store.rootAttributes = .ok direction
  /-- The flag holds, too, where there is one. -/
  flag : ∀ entries image, store.inventoryAnswer = .ok entries →
    store.arrayAnswer imageId = .ok image →
    (flagAnswer store image imageId entries).1 ≠ "" →
      ∃ own, store.verifyAnswer (flagAnswer store image imageId entries).1 = .ok own

omit hfiled in
theorem map_axis_axesAnswer (axes : List AxisDescriptor) :
    (axesAnswer store axes).map ListedAxis.axis = axes := by
  rw [axesAnswer, List.map_map]
  exact List.map_id _

/-- What is reported of an image of these axes. -/
def reportAnswer (store : Store) (imageId : String) (image : ArrayMetadata)
    (axes : List AxisDescriptor)
    (values : CoordinateValues) (direction : DirectionCoordinate)
    (flag : String × List Diagnostic) : ImageReport where
  id := imageId
  storedType := parseDataType image.dataType
  unit := attributeString image.attributes "units"
  imageRole := imageRoleOf image
  dataGroups := findDataGroups store.rootAttributes imageId
  axes := axesAnswer store axes
  direction := direction
  spectral := spectralAnswer store values.frequency
  polarization := if values.polarization = [] then none else some values.polarization
  temporal := temporalAnswer store values.time
  pixelMaskId := flag.1
  diagnostics := flag.2

/-- An image that opens has its axes, and the geometry of its own layout and of its flag's: it is
described from any samples where the root describes a direction and its flag holds. -/
theorem exists_isDescription (hopens : NameOpens store imageId)
    (hdirection : ∃ direction, readCoordinateSystem store.rootAttributes = .ok direction)
    (hverified : ∀ entries image, store.inventoryAnswer = .ok entries →
      store.arrayAnswer imageId = .ok image →
      (flagAnswer store image imageId entries).1 ≠ "" →
        ∃ own, store.verifyAnswer (flagAnswer store image imageId entries).1 = .ok own)
    (values : CoordinateValues) :
    ∃ image described, store.arrayAnswer imageId = .ok image ∧
      IsDescription store imageId image values described := by
  obtain ⟨entries, image, hanswer, himage, hopenable⟩ := hopens.image hfiled
  obtain ⟨direction, hdirection⟩ := hdirection
  obtain ⟨axes, haxes, hof⟩ := hopenable.axes himage
  obtain ⟨document, hdocument⟩ := exists_document_of_arrayAnswer himage
  have hshape : image.shape.length = 5 := by
    rw [← length_dimensionNames hdocument (List.ne_nil_of_length_eq_add_one hopenable.dimensions),
      hopenable.dimensions]
  let report := reportAnswer store imageId image axes values direction
    (flagAnswer store image imageId entries)
  have hstored : AxesOf image report.descriptor.axes := by
    rw [show report.descriptor.axes = axes from map_axis_axesAnswer axes]
    exact hof
  have hgeometry : ∀ {document node m}, parseArrayMetadata document node = .ok m →
      m.shape.length = 5 →
        ∃ g, buildChunkGeometry report.descriptor (parseStorageLayout m) = some g ∧ _ :=
    fun hparse hlength =>
      buildChunkGeometry_stands hstored.storedInOrder hparse (hlength.trans hstored.rank_eq.symm)
  obtain ⟨g, hg, -⟩ := hgeometry hdocument hshape
  have hflag : ∃ flagGeometry, IsFlagGeometry store report.descriptor
      report.pixelMaskId flagGeometry := by
    by_cases hempty : report.pixelMaskId = ""
    · exact ⟨none, .inl ⟨hempty, rfl⟩⟩
    · obtain ⟨own, hown⟩ := hverified entries image hanswer himage hempty
      obtain ⟨copy, hcopy, hmasks⟩ := flagAnswer_masks hfiled hopenable.flag hanswer hempty
      obtain ⟨hsame, document', name, hparse⟩ := verifyAnswer_shape hcopy hown
      obtain ⟨g, hg, -⟩ := hgeometry hparse (by rw [hsame, hmasks.shape, hshape])
      exact ⟨some g, .inr ⟨hempty, own, g, hown, rfl, hg⟩⟩
  obtain ⟨flagGeometry, hflag⟩ := hflag
  exact ⟨image, ⟨report, g, flagGeometry⟩, himage,
    ⟨rfl, rfl, rfl, rfl, rfl, ⟨axes, haxes, rfl⟩, hdirection, rfl, rfl, rfl, entries,
      hanswer, rfl⟩, hg, hflag⟩

/-- **A name is described exactly where nothing that is asked of it is refused.** -/
theorem exists_describes_iff : (∃ described, DescribedAs store imageId described) ↔
    Describable store imageId := by
  constructor
  · rintro ⟨described, hopens, hown, values, hvalues, image, himage, h⟩
    refine ⟨hopens, hown, ⟨values, hvalues⟩, ⟨_, h.report.direction⟩, ?_⟩
    rintro entries image' hanswer himage' hne
    obtain rfl := Except.ok.inj (himage.symm.trans himage')
    obtain ⟨entries', hanswer', hmask⟩ := h.report.mask
    obtain rfl := Except.ok.inj (hanswer.symm.trans hanswer')
    have hflag : described.report.pixelMaskId = _ := congrArg Prod.fst hmask
    rw [← hflag] at hne ⊢
    rcases h.flagGeometry with ⟨hempty, -⟩ | ⟨-, own, g, hown, -⟩
    · exact absurd hempty hne
    · exact ⟨own, hown⟩
  · intro h
    obtain ⟨values, hvalues⟩ := h.values
    obtain ⟨image, described, himage, hdescription⟩ :=
      exists_isDescription hfiled h.opens h.direction h.flag values
    exact ⟨described, h.opens, h.verified, values, hvalues, image, himage, hdescription⟩

end Describable

/-- **What a name is described as, its store tells**, whatever was asked before: unless a read that
was made for it failed, a description is what the store answers with, and there is one exactly where
nothing that is asked of the name is refused. -/
theorem describeImage_describes {backing : Backing} (hopen : openStore backing = .ok store)
    (hout : outages.Transient True) {s : Session} (hs : store.Reached outages s)
    (imageId : String) :
    outages.FailBetween s (describeImage store outages imageId s).2 ∨
      (∀ described, (describeImage store outages imageId s).1 = .ok described ↔
        DescribedAs store imageId described) ∧
      ((∃ described, (describeImage store outages imageId s).1 = .ok described) ↔
        Describable store imageId) := by
  have hfiled := openStore_filed hopen
  refine (right_describeImage hfiled hout imageId s (hs.sound hopen hout)).2.2.imp_right
    fun htells => ⟨htells, ?_⟩
  rw [← exists_describes_iff hfiled]
  exact exists_congr htells

/-- The document of a coordinate. -/
def coordinateDocument (name : String) (extent : UInt64) (dataType fill : Json) : Json :=
  .object [("zarr_format", .unsigned 3), ("node_type", .string "array"),
    ("shape", .array [.unsigned extent]),
    ("dimension_names", .array [.string name]), ("data_type", dataType), ("fill_value", fill),
    ("codecs", .array [.object [("name", .string "bytes"),
      ("configuration", .object [("endian", .string "little")])]]),
    ("chunk_key_encoding", .object [("name", .string "default")]),
    ("chunk_grid", .object [("name", .string "regular"),
      ("configuration", .object [("chunk_shape", .array [.unsigned extent])])])]

/-- A direction at the pole. -/
def poleDirection : Json :=
  .object [("projection", .string "sin"),
    ("reference_direction", .object [("data", .array [.unsigned 0, .unsigned 0])]),
    ("native_pole_direction", .object [("data", .array [.unsigned 0, .unsigned 0])]),
    ("pixel_coordinate_transformation_matrix",
      .array [.array [.unsigned 1, .unsigned 0], .array [.unsigned 0, .unsigned 1]])]

/-- What each node of a whole dataset is. -/
def wholeCubeNodes : List (String × Json) :=
  [("", .object [("zarr_format", .unsigned 3), ("node_type", .string "group"),
      ("attributes", .object [("coordinate_system_info", poleDirection)])]),
    ("FLAG", variableDocument "bool" [("type", .string "flag")]),
    ("SKY", variableDocument "float32" [("flag", .string "./FLAG"), ("type", .string "sky")]),
    ("frequency", coordinateDocument "frequency" 2 (.string "float64") .null),
    ("l", coordinateDocument "l" 3 (.string "float64") .null),
    ("m", coordinateDocument "m" 4 (.string "float64") .null),
    ("polarization", coordinateDocument "polarization" 1
      (.object [("name", .string "fixed_length_utf32"),
      ("configuration", .object [("length_bytes", .unsigned 4)])]) (.string "I")),
    ("time", coordinateDocument "time" 1 (.string "float64") .null)]

/-- A store of an image with everything that describing it needs. The bytes of a document are its
place. -/
def wholeCube : Backing where
  readNodeBytes name :=
    match wholeCubeNodes.findIdx? fun node => node.1 = name with
    | some i => .ok [UInt8.ofNat i]
    | none => .error ⟨.notFound, "Zarr node was not found", name⟩
  listNodes := .ok ["FLAG", "SKY", "frequency", "l", "m", "polarization", "time"]
  arrayDirectory name := .ok name
  parseJson bytes :=
    match wholeCubeNodes[(bytes.headD 0).toNat]? with
    | some node => .document node.2
    | none => .malformed "no document"
  numericValues directory := .ok
    (List.replicate (if directory = "l" then 3 else if directory = "m" then 4
    else if directory = "frequency" then 2 else 1) 0)
  decompressors := storedStreams
  files _ := .missing

def wholeCubeStore : Store where
  backing := wholeCube
  rootAttributes := .object [("coordinate_system_info", poleDirection)]
  consolidated := []
  hasConsolidatedMetadata := false

theorem describeImage_describes_wholeCube :
    Outages.FailBetween (fun _ => none) wholeCubeStore.initial
        (describeImage wholeCubeStore (fun _ => none) "SKY" wholeCubeStore.initial).2 ∨
      (∀ described, (describeImage wholeCubeStore (fun _ => none) "SKY" wholeCubeStore.initial).1 =
        .ok described ↔
        DescribedAs wholeCubeStore "SKY" described) ∧
      ((∃ described, (describeImage wholeCubeStore (fun _ => none) "SKY" wholeCubeStore.initial).1 =
        .ok described) ↔ Describable wholeCubeStore "SKY") :=
  have hopen : openStore wholeCube = .ok wholeCubeStore := rfl
  describeImage_describes hopen transient_none .initial "SKY"

example : ((describeImage wholeCubeStore
      (fun _ => none) "SKY" wholeCubeStore.initial).1.toOption.map fun described =>
    (described.report.pixelMaskId, described.report.polarization)) =
      some ("FLAG", some [[0x49]]) := by
  decide +kernel

end CartaZarr
