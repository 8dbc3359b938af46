import CartaZarr.Store.Repeated
import CartaZarr.Xradio.Described
import CartaZarr.Xradio.Inspection

/-!
# A description stands

Whichever reads fail, a description that is given is the one its store answers with, and from then
on it is given again without a read (`describeImage_stands`). A read that fails while a name is
qualified may let one through that does not open: the coordinate a dimension is held to is not
missed where it cannot be read. But a description reads the samples of every coordinate before it
asks again whether the name qualifies, and by then the documents of the coordinates are known, so
that no later failure is of a read that it could do without.

A listing promises it: a name that is described anywhere is listed as opening, with the role and the
axes that its description reports (`listed_as_described`).
-/

namespace CartaZarr

open Store

variable {store : Store} {outages : Outages}

/-- The names of the coordinates of the sky plane. -/
abbrev skyNames : List String := skyCoordinates.map Coordinate.name

theorem skyNames_nodup : skyNames.Nodup := by decide

theorem length_skyNames : skyNames.length = 5 := rfl

/-- A variable on the sky plane of five dimensions has no other. -/
theorem mem_skyNames_of_mem_dimensionNames {image : ArrayMetadata}
    (hsky : carriesPlane image .sky = true)
    (hdimensions : image.dimensionNames.length = 5) {name : String}
    (h : name ∈ image.dimensionNames) :
    name ∈ skyNames := by
  have hsub : skyNames ⊆ image.dimensionNames := by
    intro name hname
    obtain ⟨coordinate, hc, rfl⟩ := List.mem_map.1 hname
    exact mem_dimensionNames_of_carriesPlane hsky hc
  have hperm := (skyNames_nodup.subperm hsub).perm_of_length_le
    (by rw [hdimensions, length_skyNames])
  exact hperm.mem_iff.2 h

/-- An axis has the name of a coordinate. -/
theorem name_mem_of_describeAxes {image : ArrayMetadata} {axes : List AxisDescriptor}
    (h : describeAxes image = some axes) {axis : AxisDescriptor}
    (haxis : axis ∈ axes) : axis.name ∈ skyNames := by
  obtain ⟨found, hfound, hmade⟩ := exists_of_forall₂ (mapM_eq_some_iff.1 h) haxis
  obtain ⟨length, -, ⟨⟩⟩ := Option.bind_eq_some_iff.1 hmade
  obtain ⟨coordinate, hcoordinate, hindex⟩ := List.mem_filterMap.1 hfound
  obtain ⟨index, -, rfl⟩ := Option.map_eq_some_iff.1 hindex
  exact List.mem_map_of_mem hcoordinate

/-! ## What is asked of coordinates that are known -/

theorem repeats_coordinateUnit {name : String} (h : name ∈ skyNames) (role : AxisRole) :
    Repeats store outages skyNames (fun _ => True) (coordinateUnit store outages name role) := by
  refine (repeats_readSettledArray h).andThen fun r => ?_
  cases r with
  | error e => exact Repeats.pure _
  | ok metadata => dsimp only; split_ifs <;> exact Repeats.pure _

theorem repeats_listAxes {axes : List AxisDescriptor} (h : ∀ axis ∈ axes, axis.name ∈ skyNames) :
    Repeats store outages skyNames (fun _ => True) (listAxes store outages axes) := by
  induction axes with
  | nil => exact Repeats.pure _
  | cons axis axes ih =>
    exact (repeats_coordinateUnit (h axis List.mem_cons_self) _).andThen fun _ =>
      (ih fun axis haxis => h axis (List.mem_cons_of_mem _ haxis)).andThen fun _ => Repeats.pure _

theorem repeats_extentDisagreement (node : String) {dimensions : List (String × UInt64)}
    (h : ∀ dimension ∈ dimensions, dimension.1 ∈ skyNames) :
    Repeats store outages skyNames (fun _ => True)
      (extentDisagreement store outages node dimensions) := by
  induction dimensions with
  | nil => exact Repeats.pure _
  | cons dimension dimensions ih =>
    have hrest := ih fun dimension hd => h dimension (List.mem_cons_of_mem _ hd)
    refine (repeats_readSettledArray (h dimension List.mem_cons_self)).andThen fun r => ?_
    cases r with
    | error e => exact hrest
    | ok coordinate => dsimp only; split; exacts [Repeats.pure _, hrest]

/-! ## A name that qualifies -/

/-- A flag that is declared and serves. -/
theorem repeats_declaredFlag (image : ArrayMetadata) (imageId : String) :
    Repeats store outages skyNames IsOk (declaredFlag store outages image imageId) := by
  have hrequire : ∀ spelt, Repeats store outages skyNames IsOk
      (requireDeclaredFlag store outages image spelt) :=
    fun spelt => ((repeats_readArrayMetadata _).imp fun _ => IsOk.definite).bindOk
        (fun e => ⟨e, rfl⟩) fun _ =>
      Repeats.pure _
  unfold declaredFlag
  dsimp only
  split
  · exact hrequire _
  · split
    exacts [Repeats.pure _, hrequire _, Repeats.pure _]

theorem repeats_unusableDeclaredFlag (image : ArrayMetadata) (node : String) :
    Repeats store outages skyNames (· = none) (unusableDeclaredFlag store outages image node) := by
  refine (repeats_declaredFlag image node).bind (fun r => ?_) fun r s hnone => ?_
  · cases r <;> exact Repeats.pure _
  · cases r with
    | error e => cases hnone
    | ok name => exact ⟨name, rfl⟩

theorem repeats_qualifyImage {image : ArrayMetadata}
    (hsky : carriesPlane image .sky = true) (node : String) :
    Repeats store outages skyNames (fun q => q.openable = true)
      (qualifyImage store outages image node) := by
  unfold qualifyImage
  split
  · exact Repeats.pure _
  split
  · exact Repeats.pure _
  rename_i hdimensions
  have hnames : ∀ dimension ∈ image.dimensionNames.zip image.shape,
      dimension.1 ∈ skyNames := fun dimension hd =>
    mem_skyNames_of_mem_dimensionNames hsky (not_not.1 hdimensions) (List.of_mem_zip hd).1
  refine (repeats_extentDisagreement node hnames).andThen fun r => ?_
  cases r with
  | some disagreement => exact Repeats.pure _
  | none =>
    refine (repeats_unusableDeclaredFlag image node).bind (fun r => ?_) fun r s hopenable => ?_
    · cases r <;> exact Repeats.pure _
    · cases r with
      | some unusable => cases hopenable
      | none => rfl

theorem repeats_qualifyNode (entry : NodeEntry) :
    Repeats store outages skyNames (fun q => q.openable = true)
      (qualifyNode store outages entry) := by
  unfold qualifyNode
  rcases entry with ⟨name, _ | _ | _, array, reason⟩
  · exact Repeats.pure _
  · rcases array with _ | e | image
    · exact Repeats.pure _
    · exact Repeats.pure _
    · dsimp only
      split_ifs with hflag hsky
      exacts [Repeats.pure _, repeats_qualifyImage hsky name, Repeats.pure _, Repeats.pure _]
  · exact Repeats.pure _

/-- A name that qualifies. -/
theorem repeats_requireQualified (imageId : String) :
    Repeats store outages skyNames IsOk (requireQualified store outages imageId) := by
  refine repeats_inventory.bindOk (fun e => ⟨e, rfl⟩) fun entries => ?_
  refine (repeats_findNode imageId).bind (fun found => ?_) fun found s hok => ?_
  · cases found with
    | none => exact Repeats.pure _
    | some entry =>
      refine (repeats_qualifyNode entry).bind (fun q => ?_) fun q s hok => ?_
      · split_ifs
        exacts [Repeats.pure _, Repeats.pure _]
      · split_ifs at hok with hopenable
        · exact hopenable
        · exact absurd hok (not_isOk_error _)
  · cases found with
    | none => exact absurd hok (not_isOk_error _)
    | some entry => rfl

/-! ## A description -/

theorem repeats_describeListedAxes (image : ArrayMetadata) :
    Repeats store outages skyNames IsOk (describeListedAxes store outages image) := by
  unfold describeListedAxes
  cases haxes : describeAxes image with
  | none => exact Repeats.pure _
  | some axes =>
    exact (repeats_listAxes fun axis => name_mem_of_describeAxes haxes).andThen fun _ =>
      Repeats.pure _

theorem repeats_describeSpectralCoordinate
    (channels : List UInt64) : Repeats store outages skyNames (fun _ => True)
    (describeSpectralCoordinate store outages channels) := by
  have hname : "frequency" ∈ skyNames := by decide
  unfold describeSpectralCoordinate
  split_ifs
  · exact Repeats.pure _
  · exact (repeats_readNodeMetadata hname).andThen fun _ =>
        (repeats_coordinateUnit hname .spectral).andThen fun _ =>
      Repeats.pure _

theorem repeats_describeTemporalCoordinate
    (values : List UInt64) : Repeats store outages skyNames (fun _ => True)
    (describeTemporalCoordinate store outages values) := by
  unfold describeTemporalCoordinate
  split_ifs
  · exact Repeats.pure _
  · exact (repeats_readNodeMetadata (by decide)).andThen fun _ => Repeats.pure _

theorem repeats_determineFlag (image : ArrayMetadata) (imageId : String)
    (diagnostics : List Diagnostic) :
    Repeats store outages skyNames (fun selected => IsOk selected.1)
      (determineFlag store outages image imageId diagnostics) := by
  refine (repeats_declaredFlag image imageId).bind (fun r => ?_) fun r s hok => ?_
  · cases r with
    | error e => exact Repeats.pure _
    | ok declared =>
      dsimp only
      split_ifs
      · exact Repeats.pure _
      · refine repeats_inventory.bind (fun r => ?_) fun r s hok => ?_
        · cases r with
          | error e => exact Repeats.pure _
          | ok entries => dsimp only; split <;> exact Repeats.pure _
        · cases r with
          | error e => exact absurd hok (not_isOk_error e)
          | ok entries => exact ⟨entries, rfl⟩
  · cases r with
    | error e => exact absurd hok (not_isOk_error e)
    | ok declared => exact ⟨declared, rfl⟩

theorem repeats_describeFlag (descriptor : ImageDescriptor) (flag : String) :
    Repeats store outages skyNames IsOk (describeFlag store outages descriptor flag) := by
  unfold describeFlag
  split_ifs
  · exact Repeats.pure _
  · refine (repeats_verifyArray flag).bindOk (fun e => ⟨_, rfl⟩) fun own => ?_
    dsimp only
    split <;> exact Repeats.pure _

theorem repeats_describeReport (image : ArrayMetadata) (report : ImageReport) :
    Repeats store outages skyNames IsOk (describeReport store outages image report) := by
  refine (repeats_describeFlag _ _).bindOk (fun e => ⟨e, rfl⟩) fun flagGeometry => ?_
  dsimp only
  split <;> exact Repeats.pure _

theorem repeats_describeMetadata (imageId : String) (values : CoordinateValues)
    (image : ArrayMetadata) :
    Repeats store outages skyNames IsOk (describeMetadata store outages imageId values image) := by
  refine (repeats_describeListedAxes image).bindOk (fun e => ⟨e, rfl⟩) fun axes => ?_
  dsimp only
  split
  · exact Repeats.pure _
  · refine (repeats_describeSpectralCoordinate _).andThen fun spectral =>
      (repeats_describeTemporalCoordinate _).andThen fun temporal => ?_
    refine (repeats_determineFlag image imageId []).bind (fun selected =>
      ?_) fun selected s hok => ?_
    · split
      exacts [Repeats.pure _, repeats_describeReport image _]
    · rcases selected with ⟨e | flag, diagnostics⟩
      · exact absurd hok (not_isOk_error _)
      · exact ⟨flag, rfl⟩

/-- What is made of a name once the coordinates are known. -/
theorem repeats_describeImageFrom (imageId : String) (values : CoordinateValues) :
    Repeats store outages skyNames IsOk (describeImageFrom store outages imageId values) :=
  (repeats_requireQualified imageId).bindOk (fun _ => ⟨_, rfl⟩) fun _ =>
    ((repeats_readArrayMetadata imageId).imp fun _ => IsOk.definite).bindOk
        (fun _ => ⟨_, rfl⟩) fun image =>
      repeats_describeMetadata imageId values image

/-! ## The samples of the coordinates -/

theorem repeats_readCoordinates {names : List String} (coordinates : List Coordinate)
    (values : CoordinateValues) :
    Repeats store outages names IsOk (readCoordinates store outages coordinates values) := by
  have hone : ∀ coordinate values,
      Repeats store outages names IsOk (readCoordinate store outages coordinate values) := by
    intro coordinate values
    unfold readCoordinate
    split
    · exact (repeats_readStringArray1D _).bindOk (fun e => ⟨e, rfl⟩) fun _ => Repeats.pure _
    · exact (repeats_readNumericArray _).bindOk (fun e => ⟨e, rfl⟩) fun _ => Repeats.pure _
  induction coordinates generalizing values with
  | nil => exact Repeats.pure _
  | cons coordinate coordinates ih => exact (hone coordinate values).bindOk (fun e => ⟨e, rfl⟩) ih

/-- Where the samples were read, the coordinates are settled. -/
theorem settles_readCoordinates (coordinates : List Coordinate) (values : CoordinateValues) :
    Triple (Reached store outages) (readCoordinates store outages coordinates values) (fun r s =>
      Reached store outages s ∧ (IsOk r →
        ∀ coordinate ∈ coordinates, Store.Settles s coordinate.name)) := by
  have hone : ∀ coordinate values,
    Triple (Reached store outages) (readCoordinate store outages coordinate values)
      (fun r s => Reached store outages s ∧ (IsOk r → Store.Settles s coordinate.name)) := by
    intro coordinate values
    unfold readCoordinate
    split
    · refine (settles_readStringArray1D _).bind fun r => ?_
      cases r with
      | error e => exact Triple.pure fun s hs => ⟨hs.1, fun h => absurd h (not_isOk_error e)⟩
      | ok labels => exact Triple.pure fun s hs => ⟨hs.1, fun _ => hs.2 labels rfl⟩
    · refine (settles_readNumericArray _).bind fun r => ?_
      cases r with
      | error e => exact Triple.pure fun s hs => ⟨hs.1, fun h => absurd h (not_isOk_error e)⟩
      | ok samples => exact Triple.pure fun s hs => ⟨hs.1, fun _ => hs.2 samples rfl⟩
  induction coordinates generalizing values with
  | nil => exact Triple.pure fun s hs => ⟨hs, fun _ coordinate h => by cases h⟩
  | cons coordinate coordinates ih =>
    refine (hone coordinate values).bind fun r => ?_
    cases r with
    | error e => exact Triple.pure fun s hs => ⟨hs.1, fun h => absurd h (not_isOk_error e)⟩
    | ok values =>
      -- a coordinate that was read stays settled while the others are
      have hrest := (ih values).frame (k := fun s => Store.Settles s coordinate.name)
        (later_readCoordinates _ _)
        fun s t h hs => hs.firm h.firm
      exact hrest.imp (fun s hs => ⟨hs.1, hs.2 ⟨values, rfl⟩⟩) fun r s hs =>
        ⟨hs.1.1, fun hok => List.forall_mem_cons.2 ⟨hs.2, hs.1.2 hok⟩⟩

theorem repeats_readCoordinateValues {names : List String} :
    Repeats store outages names IsOk (readCoordinateValues store outages) :=
  repeats_readCoordinates _ _

theorem told_readCoordinateValues :
    Triple (Reached store outages) (readCoordinateValues store outages)
    (fun r s => IsOk r → Told store outages skyNames s) := by
  refine fun s hs hok => ?_
  have hread : Triple (Reached store outages) (readCoordinateValues store outages) _ :=
    settles_readCoordinates _ _
  obtain ⟨hreached, hsettles⟩ := hread s hs
  refine ⟨hreached, fun name hname => ?_⟩
  obtain ⟨coordinate, hcoordinate, rfl⟩ := List.mem_map.1 hname
  exact hsettles hok coordinate hcoordinate

/-! ## What is given stands -/

section Stands

variable {s t : Session} {imageId : String} {described : DescribedImage}

/-- A name that was described once the coordinates were settled qualifies from then on, and is
described again. -/
theorem again_describeImageFrom {values : CoordinateValues} (hs : Told store outages skyNames s)
    (h : (describeImageFrom store outages imageId values s).1 = .ok described)
    (ht : Later store outages (describeImageFrom store outages imageId values s).2 t) :
    requireQualified store outages imageId t = (.ok (), t) ∧
      describeImageFrom store outages imageId values t = (.ok described, t) := by
  have hagain := (repeats_describeImageFrom imageId values).again s hs ⟨described, h⟩ t ht
  rw [h] at hagain
  refine ⟨?_, hagain⟩
  unfold describeImageFrom at h ht
  obtain ⟨_, hok, -⟩ := exists_of_bind_ok
    (x := requireQualified store outages imageId) h fun _ => ⟨_, rfl⟩
  rw [← hok]
  refine (repeats_requireQualified imageId).bind_left (q := IsOk) (fun r => ?_) (fun r s hr =>
    ?_) hs ⟨described, h⟩ ht
  · cases r with
    | error e => exact Moves.pure _
    | ok _ =>
      refine (later_readArrayMetadata imageId).bind fun r => ?_
      cases r with
      | error e => exact Moves.pure _
      | ok image => exact later_describeMetadata imageId values image
  · cases r with
    | error e => exact absurd hr (not_isOk_error _)
    | ok _ => exact ⟨(), rfl⟩

theorem later_describeImage (imageId : String) :
    Moves (Later store outages) (describeImage store outages imageId) := by
  have hqualify : Moves (Later store outages) (requireQualified store outages imageId) :=
    (repeats_requireQualified imageId).moves
  have hread : Repeats store outages [] IsOk (readCoordinateValues store outages) :=
    repeats_readCoordinateValues
  refine hqualify.bind fun r => ?_
  cases r with
  | error e => exact Moves.pure _
  | ok _ =>
    refine (later_verifyArray imageId).bind fun r => ?_
    cases r with
    | error e => exact Moves.pure _
    | ok own =>
      refine hread.moves.bind fun r => ?_
      cases r with
      | error e => exact Moves.pure _
      | ok values => exact (repeats_describeImageFrom imageId values).moves

/-- **A description is given again**, without a read. -/
theorem again_describeImage (hs : Reached store outages s)
    (h : (describeImage store outages imageId s).1 = .ok described)
    (ht : Later store outages (describeImage store outages imageId s).2 t) :
    describeImage store outages imageId t = (.ok described, t) := by
  -- what was done before the samples were read
  obtain ⟨_, -, hrun⟩ := exists_of_bind_ok
    (x := requireQualified store outages imageId) h fun _ => ⟨_, rfl⟩
  rw [describeImage, hrun] at h ht
  dsimp only at h ht
  obtain ⟨own, hown, hrun⟩ := exists_of_bind_ok
    (x := store.verifyArray outages imageId) h fun _ => ⟨_, rfl⟩
  rw [hrun] at h ht
  dsimp only at h ht
  obtain ⟨values, hvalues, hrun⟩ :=
    exists_of_bind_ok (x := readCoordinateValues store outages) h fun _ => ⟨_, rfl⟩
  rw [hrun] at h ht
  dsimp only at h ht
  -- and what is known from then on
  have hqualify : Moves (Later store outages) (requireQualified store outages imageId) :=
    (repeats_requireQualified imageId).moves
  have hverify : Repeats store outages [] IsOk (store.verifyArray outages imageId) :=
    repeats_verifyArray imageId
  have hread : Repeats store outages [] IsOk (readCoordinateValues store outages) :=
    repeats_readCoordinateValues
  have hreached := hs.later (hqualify s)
  have hreached' := hreached.later (hverify.moves _)
  have hfrom := again_describeImageFrom
    (told_readCoordinateValues _ hreached' ⟨values, hvalues⟩) h ht
  have hlater := ((repeats_describeImageFrom imageId values).moves _).trans ht
  have hvalues' := hread.again _ ⟨hreached', fun _ h => by cases h⟩ ⟨values, hvalues⟩ t hlater
  have hown' := hverify.again _ ⟨hreached, fun _ h => by cases h⟩ ⟨own, hown⟩ t
    ((hread.moves _).trans hlater)
  rw [hvalues] at hvalues'
  rw [hown] at hown'
  exact (bind_run hfrom.1).trans ((bind_run hown').trans ((bind_run hvalues').trans hfrom.2))

/-- A store has one description for a name: a session in which no read fails comes to it. -/
theorem DescribedAs.unique {backing : Backing} (hopen : openStore backing = .ok store)
    {described' : DescribedImage}
    (h : DescribedAs store imageId described) (h' : DescribedAs store imageId described') :
    described' = described := by
  obtain ⟨-, -, hfails | htells⟩ :=
    right_describeImage (openStore_filed hopen) transient_none imageId _
    (Reached.initial.sound hopen transient_none)
  · obtain ⟨n, -, -, hn⟩ := hfails
    exact absurd rfl hn
  · have hgiven := (htells described).2 h
    rw [(htells described').2 h'] at hgiven
    exact Except.ok.inj hgiven

/-- Nothing that failed is in a description that is given. -/
theorem describedAs_of_describeImage {backing : Backing} (hopen : openStore backing = .ok store)
    (hout : outages.Transient True) (hs : Reached store outages s)
    (h : (describeImage store outages imageId s).1 = .ok described) :
    DescribedAs store imageId described := by
  have hlater : Later store outages s (describeImage store outages imageId s).2 :=
    later_describeImage imageId s
  have htells := (right_describeImage (openStore_filed hopen) hout imageId).of_repeats
    ((hs.later hlater).sound hopen hout) (by rw [again_describeImage hs h .refl, h])
  exact (htells described).1 h

/-- **A description stands**: whichever reads failed before it was given, it is the one that its
store answers with, and from then on it is given again without a read, whatever else is asked and
whichever reads fail. -/
theorem describeImage_stands {backing : Backing} (hopen : openStore backing = .ok store)
    (hout : outages.Transient True) (hs : Reached store outages s)
    (h : (describeImage store outages imageId s).1 = .ok described) :
    (∀ described', DescribedAs store imageId described' ↔ described' = described) ∧
      ∀ t, Later store outages (describeImage store outages imageId s).2 t →
        describeImage store outages imageId t = (.ok described, t) := by
  have hdescribed := describedAs_of_describeImage hopen hout hs h
  exact ⟨fun described' => ⟨hdescribed.unique hopen, fun heq => heq ▸ hdescribed⟩,
    fun t ht => again_describeImage hs h ht⟩

/-- What a listing says of a name that opens, and is reported. -/
theorem Lists.as_reported {backing : Backing} (hopen : openStore backing = .ok store)
    {entries : List NodeEntry} {discovery : ImageDiscovery} (h : Lists store entries discovery)
    (hanswer : store.inventoryAnswer = .ok entries) (hopens : NameOpens store imageId)
    {metadata : ArrayMetadata} (harray : store.arrayAnswer imageId = .ok metadata)
    {values : CoordinateValues} {report : ImageReport}
    (hreport : IsReport store imageId metadata values report) :
    ∃ image ∈ discovery.images, (∀ other ∈ discovery.images, other.id = imageId ↔ other = image) ∧
      image.openable = true ∧ image.imageRole = report.imageRole ∧ image.axes = report.axes := by
  obtain ⟨entries', hanswer', entry, hentry, rfl, hopens⟩ := hopens
  obtain rfl : entries' = entries := Except.ok.inj (hanswer'.symm.trans hanswer)
  obtain ⟨image, himage, hof⟩ := h.images.all entry hentry hopens.isImage
  have hopenable := hof.openable.2 hopens
  -- the array of the entry is the one that is described
  obtain ⟨metadata', hmetadata, hrole, haxes⟩ := hof.described
  have harray' := (((inventoryAnswer_eq_ok (openStore_filed hopen) hanswer).2 entry hentry).2 _
    hmetadata).2
  obtain rfl : metadata = metadata' := Except.ok.inj (harray.symm.trans harray'.symm)
  obtain ⟨axes, hdescribe, -, hlisted⟩ := haxes hopenable
  obtain ⟨axes', hdescribe', hreported⟩ := hreport.axes
  obtain rfl : axes' = axes := Option.some.inj (hdescribe'.symm.trans hdescribe)
  refine ⟨image, himage, fun other hother => ⟨fun hid => ?_, fun heq => heq ▸ hof.id⟩, hopenable,
    hrole.trans hreport.imageRole.symm, hlisted.trans hreported.symm⟩
  exact List.inj_on_of_nodup_map h.distinct hother himage (hid.trans hof.id.symm)

/-- **A listing promises what a description reports**: in any two sessions of a store, whichever
reads failed, a name that is described in one is listed in the other, once, as opening, with its
role and its axes, unless a read that was made for the listing failed. -/
theorem listed_as_described {backing : Backing} {outages' : Outages}
    (hopen : openStore backing = .ok store)
    (hout : outages.Transient True) (hout' : outages'.Transient True) (hs : Reached store outages s)
    (ht : Reached store outages' t) {inspection : SchemaInspection}
    (hinspection : (inspectImages store outages s).1 = .ok inspection)
    (hdescribed : (describeImage store outages' imageId t).1 = .ok described) :
    outages.FailBetween s (inspectImages store outages s).2 ∨
      ∃ image ∈ inspection.discovery.images,
        (∀ other ∈ inspection.discovery.images, other.id = imageId ↔ other = image) ∧
          image.openable = true ∧ image.imageRole = described.report.imageRole ∧
            image.axes = described.report.axes := by
  have htold := describedAs_of_describeImage hopen hout' ht hdescribed
  refine (right_inspectImages (openStore_filed hopen) hout s
    (hs.sound hopen hout)).2.2.imp_right fun hinspects => ?_
  rw [hinspection] at hinspects
  generalize hanswer : store.inventoryAnswer = answer at hinspects
  cases hinspects with
  | decided hdecides =>
    obtain ⟨hopens, -, values, -, metadata, harray, hdescription⟩ := htold
    exact hdecides.lists.as_reported hopen hanswer hopens harray hdescription.report

end Stands

theorem exists_of_isSome_toOption {ε α : Type} {r : Except ε α} (h : r.toOption.isSome = true) :
    ∃ a, r = .ok a := by
  cases r with
  | error e => cases h
  | ok a => exact ⟨a, rfl⟩

theorem describeImage_stands_wholeCube : ∃ described,
    (∀ described', DescribedAs wholeCubeStore "SKY" described' ↔ described' = described) ∧
      ∀ t, Later wholeCubeStore firstFails (describeImage wholeCubeStore firstFails "SKY"
          (wholeCubeStore.after firstFails wholeCubeStore.initial (.nodeMetadata "SKY"))).2 t →
        describeImage wholeCubeStore firstFails "SKY" t = (.ok described, t) := by
  have hopen : openStore wholeCube = .ok wholeCubeStore := rfl
  have hreached : Reached wholeCubeStore firstFails
      (wholeCubeStore.after firstFails wholeCubeStore.initial (.nodeMetadata "SKY")) :=
        Reached.initial.after _
  obtain ⟨described, hdescribed⟩ : ∃ described, (describeImage wholeCubeStore firstFails "SKY"
      (wholeCubeStore.after firstFails wholeCubeStore.initial (.nodeMetadata "SKY"))).1 =
          .ok described :=
    exists_of_isSome_toOption (by decide +kernel)
  exact ⟨described, describeImage_stands hopen firstFails_transient hreached hdescribed⟩

theorem listed_as_described_wholeCube :
    ∃ (inspection : SchemaInspection) (described : DescribedImage),
    (inspectImages wholeCubeStore (fun _ => none) wholeCubeStore.initial).1 = .ok inspection ∧
      (Outages.FailBetween (fun _ => none) wholeCubeStore.initial
          (inspectImages wholeCubeStore (fun _ => none) wholeCubeStore.initial).2 ∨
        ∃ image ∈ inspection.discovery.images,
          (∀ other ∈ inspection.discovery.images, other.id = "SKY" ↔ other = image) ∧
            image.openable = true ∧ image.imageRole = described.report.imageRole ∧
              image.axes = described.report.axes) := by
  have hopen : openStore wholeCube = .ok wholeCubeStore := rfl
  have hreached : Reached wholeCubeStore firstFails
      (wholeCubeStore.after firstFails wholeCubeStore.initial (.nodeMetadata "SKY")) :=
        Reached.initial.after _
  obtain ⟨described, hdescribed⟩ : ∃ described, (describeImage wholeCubeStore firstFails "SKY"
      (wholeCubeStore.after firstFails wholeCubeStore.initial (.nodeMetadata "SKY"))).1 =
          .ok described :=
    exists_of_isSome_toOption (by decide +kernel)
  obtain ⟨inspection, hinspection⟩ : ∃ inspection,
      (inspectImages wholeCubeStore (fun _ => none) wholeCubeStore.initial).1 = .ok inspection :=
    exists_of_isSome_toOption (by decide +kernel)
  exact ⟨inspection, described, hinspection,
    listed_as_described hopen transient_none firstFails_transient .initial
    hreached hinspection hdescribed⟩

end CartaZarr
