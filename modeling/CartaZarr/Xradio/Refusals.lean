import CartaZarr.Store.HandedBack
import CartaZarr.Xradio.Described
import CartaZarr.Xradio.Inspection

/-!
# What fails is refused

Inspecting a store and describing an image take values that they were promised: the metadata of a
name that qualified, the extent of each of its dimensions, the layout of an array that is masked by
another. None of these is missing, whichever reads fail and whatever was asked before, so that a
failure is always the error of what failed, and no exception leaves either (`inspectImages_refuses`,
`describeImage_refuses`). Nor is what `qualifyNode` and `refusal` take from a node, where their
definitions have a default for it (`refusal_explained`).
-/

namespace CartaZarr

open Store

/-- No exception leaves a computation. -/
def Refuses {α : Type} (r : Except OpenFailure α) : Prop := ∀ what, r ≠ .error (.threw what)

theorem refuses_ok {α : Type} (a : α) : Refuses (.ok a : Except OpenFailure α) :=
  fun _ h => by cases h

theorem refuses_refused {α : Type}
    (e : Error) : Refuses (.error (.refused e) : Except OpenFailure α) :=
  fun _ h => by cases h

theorem refuses_error {α β : Type} {e : OpenFailure}
    (h : Refuses (.error e : Except OpenFailure α)) :
    Refuses (.error e : Except OpenFailure β) := by
  rintro what ⟨⟩
  exact h what rfl

/-- An image whose axes and extents are there. -/
structure Addressable (image : ArrayMetadata) : Prop where
  parsed : ∃ document node, parseArrayMetadata document node = .ok image
  sky : carriesPlane image .sky = true
  dimensions : image.dimensionNames.length = 5

namespace Addressable

variable {image : ArrayMetadata}

theorem shape (h : Addressable image) : image.shape.length = 5 := by
  obtain ⟨document, node, hparse⟩ := h.parsed
  rw [← length_dimensionNames hparse (List.ne_nil_of_length_eq_add_one h.dimensions), h.dimensions]

theorem axes (h : Addressable image) : ∃ axes, describeAxes image = some axes ∧ AxesOf image axes :=
  describeAxes_of h.dimensions h.shape h.sky

/-- An array of its shape has a geometry on its axes. -/
theorem geometry {own : ArrayMetadata} {descriptor : ImageDescriptor}
    (hof : AxesOf image descriptor.axes)
    {document : Json} {node : String} (hparse : parseArrayMetadata document node = .ok own)
    (hshape : own.shape.length = 5) :
    ∃ g, buildChunkGeometry descriptor (parseStorageLayout own) = some g :=
  (buildChunkGeometry_stands hof.storedInOrder hparse
    (hshape.trans hof.rank_eq.symm)).imp fun _ h => h.1

end Addressable

section Describe

variable {store : Store} {outages : Outages} {backing : Backing}

/-- What is known of an image that a session parsed is what its store answers. -/
theorem Store.Knows.arrayAnswer (hfiled : store.Filed) (hout : outages.Transient True) {s : Session}
    (hs : store.Sound True s) {node : String} {image : ArrayMetadata} (h : Knows s node image) :
    store.arrayAnswer node = .ok image := by
  obtain ⟨entries, hlast, entry, hentry, rfl, himage⟩ := h
  have hinventory : (store.inventory outages s).1 = .ok entries :=
    congrArg Prod.fst (remember_of_current _ _ _ hlast rfl)
  exact arrayAnswer_of_mem_inventory hfiled hout hs hinventory hentry himage

/-- A node that opens is an image that stays known. -/
theorem triple_qualifyNode (entry : NodeEntry) :
    Triple (fun s => Reached store outages s ∧ ∀ image, entry.array = some (.ok image) →
      Knows s entry.name image)
      (qualifyNode store outages entry) (fun q s => Reached store outages s ∧ (q.openable = true →
        ∃ image, Knows s entry.name image ∧ carriesPlane image .sky = true ∧
        image.dimensionNames.length = 5)) := by
  rintro s ⟨hs, hknows⟩
  have hlater : Later store outages s (qualifyNode store outages entry s).2 :=
    later_qualifyNode entry s
  refine ⟨hs.later hlater, fun hopenable => ?_⟩
  obtain ⟨image, harray, hsky, hdimensions⟩ := qualifyNode_openable hopenable
  exact ⟨image, (hknows image harray).firm hlater.firm, hsky, hdimensions⟩

/-- A name that qualified is that of an image that is known. -/
theorem triple_requireQualified (imageId : String) : Triple (Reached store outages)
    (requireQualified store outages imageId) (fun r s => Reached store outages s ∧ (r = .ok () →
      ∃ image, Knows s imageId image ∧ carriesPlane image .sky = true ∧
      image.dimensionNames.length = 5)) := by
  refine triple_inventory.bind fun r => ?_
  cases r with
  | error e => exact Triple.pure fun s hs => ⟨hs.1, fun h => by cases h⟩
  | ok entries =>
    refine Triple.bind ((triple_findNode imageId).imp (fun s hs => hs.1) fun _ _ h =>
      h) fun found => ?_
    cases found with
    | none => exact Triple.pure fun s hs => ⟨hs.1, fun h => by cases h⟩
    | some entry =>
      by_cases hname : entry.name = imageId
      · subst hname
        refine ((triple_qualifyNode entry).imp (fun s hs => ⟨hs.1, (hs.2 entry rfl).2⟩) fun _ _ h =>
          h).bind fun q => ?_
        split_ifs with hopenable
        · exact Triple.pure fun s hs => ⟨hs.1, fun _ => hs.2 hopenable⟩
        · exact Triple.pure fun s hs => ⟨hs.1, fun h => by cases h⟩
      · exact fun s hs => absurd (hs.2 entry rfl).1 hname

variable (hopen : openStore backing = .ok store) (hout : outages.Transient True)
include hopen hout

/-- A name that qualified has axes and extents. -/
theorem Store.Knows.addressable {s : Session} (hs : Reached store outages s) {node : String}
    {image : ArrayMetadata}
    (h : Knows s node image) (hsky : carriesPlane image .sky = true)
    (hdimensions : image.dimensionNames.length = 5) :
    Addressable image := by
  obtain ⟨document, hparse⟩ := exists_document_of_arrayAnswer
    (h.arrayAnswer (openStore_filed hopen) hout (hs.sound hopen hout))
  exact ⟨⟨document, node, hparse⟩, hsky, hdimensions⟩

omit hopen hout in
theorem triple_describeListedAxes {image : ArrayMetadata} {axes : List AxisDescriptor}
    (haxes : describeAxes image = some axes) : Triple (Reached store outages)
      (describeListedAxes store outages image) (fun r s => Reached store outages s ∧ Refuses r ∧
        ∀ listed, r = .ok listed → listed.map ListedAxis.axis = axes) := by
  have hmap : ∀ axes, Yields (fun listed : List ListedAxis => listed.map ListedAxis.axis = axes)
      (listAxes store outages axes) := by
    intro axes
    induction axes with
    | nil => exact Yields.pure rfl
    | cons axis axes ih =>
      refine Yields.bind fun unit => ih.bind_of fun rest hrest => Yields.pure ?_
      rw [List.map_cons, hrest]
  intro s hs
  refine ⟨hs.later (later_describeListedAxes image s), ?_⟩
  have hyields : Yields (fun r : Except OpenFailure (List ListedAxis) => Refuses r ∧
      ∀ listed, r = .ok listed → listed.map ListedAxis.axis =
          axes) (describeListedAxes store outages image) := by
    unfold describeListedAxes
    rw [haxes]
    exact (hmap axes).bind_of fun listed hlisted =>
      Yields.pure ⟨refuses_ok _, by rintro _ ⟨⟩; exact hlisted⟩
  exact hyields s

/-- The geometry of a flag that masks the image, if it holds. -/
theorem triple_describeFlag {image : ArrayMetadata} (himage : Addressable image)
    {descriptor : ImageDescriptor}
    (hof : AxesOf image descriptor.axes) {flag : String}
    (hflag : flag ≠ "" → CanMask store image flag) :
    Triple (Reached store outages) (describeFlag store outages descriptor flag)
      (fun r _ => Refuses r) := by
  unfold describeFlag
  split_ifs with hempty
  · exact Triple.pure fun _ _ => refuses_ok _
  · have hverified : Triple (Reached store outages) (store.verifyArray outages flag)
        (fun r _ => ∀ own, r = .ok own → store.verifyAnswer flag = .ok own) := by
      intro s hs own hown
      obtain ⟨-, -, hstands⟩ := gives_verifyArray (openStore_filed hopen) hout flag s
        (hs.sound hopen hout)
      rw [hown] at hstands
      exact hstands.ok
    refine hverified.bind fun r => ?_
    cases r with
    | error e => exact Triple.pure fun _ _ => refuses_refused e
    | ok own =>
      intro s hs
      obtain ⟨copy, hcopy, hmasks⟩ := hflag hempty
      obtain ⟨hsame, document, name, hparse⟩ := verifyAnswer_shape hcopy (hs own rfl)
      obtain ⟨g, hg⟩ := Addressable.geometry hof hparse (by rw [hsame, hmasks.shape, himage.shape])
      dsimp only
      rw [hg]
      exact refuses_ok _

theorem triple_describeReport {image : ArrayMetadata} (himage : Addressable image)
    {report : ImageReport}
    (hof : AxesOf image report.descriptor.axes)
    (hflag : report.pixelMaskId ≠ "" → CanMask store image report.pixelMaskId) :
    Triple (Reached store outages) (describeReport store outages image report)
      (fun r _ => Refuses r) := by
  refine (triple_describeFlag hopen hout himage hof hflag).bind fun r => ?_
  cases r with
  | error e => exact Triple.pure fun _ h => refuses_error h
  | ok flagGeometry =>
    obtain ⟨document, node, hparse⟩ := himage.parsed
    obtain ⟨g, hg⟩ := Addressable.geometry hof hparse himage.shape
    dsimp only
    rw [hg]
    exact Triple.pure fun _ _ => refuses_ok _

theorem triple_determineFlag (image : ArrayMetadata)
    (imageId : String) : Triple (Reached store outages)
    (determineFlag store outages image imageId []) (fun selected s => Reached store outages s ∧
      ∀ flag, selected.1 = .ok flag → flag ≠ "" → CanMask store image flag) := by
  intro s hs
  refine ⟨hs.later (later_determineFlag image imageId [] s), fun flag hflag hne => ?_⟩
  exact determineFlag_masks (openStore_filed hopen) hout (hs.sound hopen hout) hne hflag

theorem triple_describeMetadata {image : ArrayMetadata}
    (himage : Addressable image) (imageId : String)
    (values : CoordinateValues) : Triple (Reached store outages)
      (describeMetadata store outages imageId values image) (fun r _ => Refuses r) := by
  obtain ⟨axes, haxes, hof⟩ := himage.axes
  refine (triple_describeListedAxes haxes).bind fun r => ?_
  cases r with
  | error e => exact Triple.pure fun _ h => refuses_error h.2.1
  | ok listed =>
    rintro s ⟨hs, -, hlisted⟩
    have hmap := hlisted listed rfl
    refine Triple.imp (p := Reached store outages) (q := fun r _ => Refuses r) ?_ (fun _ h => h)
      (fun _ _ h => h) s hs
    dsimp only
    split
    · exact Triple.pure fun _ _ => refuses_refused _
    · refine Triple.bind (q := fun _ => Reached store outages)
        (fun s hs => hs.later (later_describeSpectralCoordinate _ s)) fun spectral => ?_
      refine Triple.bind (q := fun _ => Reached store outages)
        (fun s hs => hs.later (later_describeTemporalCoordinate _ s)) fun temporal => ?_
      refine (triple_determineFlag hopen hout image imageId).bind fun selected => ?_
      split
      · exact Triple.pure fun _ _ => refuses_refused _
      · rename_i flag hflag
        rintro s ⟨hs, hmasks⟩
        refine triple_describeReport hopen hout himage ?_ (hmasks flag hflag) s hs
        rw [ImageReport.descriptor, hmap]
        exact hof

/-- What qualified is described from what the store holds of it. -/
theorem triple_describeImageFrom (imageId : String) (values : CoordinateValues) :
    Triple (Reached store outages)
    (describeImageFrom store outages imageId values) (fun r _ => Refuses r) := by
  refine (triple_requireQualified imageId).bind fun r => ?_
  cases r with
  | error e => exact Triple.pure fun _ _ => refuses_refused e
  | ok _ =>
    rintro s ⟨hs, hknown⟩
    obtain ⟨image, hknows, hsky, hdimensions⟩ := hknown rfl
    have himage := hknows.addressable hopen hout hs hsky hdimensions
    have hread : Triple (· = s) (store.readArrayMetadata outages imageId)
        (fun r t => r = .ok image ∧ t = s) := by
      rintro _ rfl
      rw [hknows.readArrayMetadata hs]
      exact ⟨rfl, rfl⟩
    dsimp only
    refine Triple.bind (r := fun r _ => Refuses r) hread ?_ s rfl
    rintro _ t ⟨rfl, rfl⟩
    exact triple_describeMetadata hopen hout himage imageId values t hs

/-- **Describing an image never throws**, whatever was asked before and whichever reads fail: what
is asked of the metadata of a name that qualified is there. -/
theorem describeImage_refuses {s : Session} (hs : store.Reached outages s) (imageId : String) :
    Refuses (describeImage store outages imageId s).1 := by
  have hdescribe : Triple (Reached store outages) (describeImage store outages imageId)
      (fun r _ => Refuses r) := by
    refine Triple.bind (q := fun _ => Reached store outages)
      ((triple_requireQualified imageId).imp (fun _ h => h) fun _ _ h => h.1) fun r => ?_
    cases r with
    | error e => exact Triple.pure fun _ _ => refuses_refused e
    | ok _ =>
      refine Triple.bind (q := fun _ => Reached store outages) (fun s hs =>
        hs.after (.verifiedArray imageId)) fun r => ?_
      cases r with
      | error e => exact Triple.pure fun _ _ => refuses_refused e
      | ok _ =>
        refine Triple.bind (q := fun _ => Reached store outages)
          (fun s hs => hs.later (later_readCoordinates _ _ s)) fun r => ?_
        cases r with
        | error e => exact Triple.pure fun _ _ => refuses_refused e
        | ok values => exact triple_describeImageFrom hopen hout imageId values
  exact hdescribe s hs

end Describe

/-- The session of the whole dataset after its first read failed. -/
def wholeCubeFailed : Session :=
  wholeCubeStore.after firstFails wholeCubeStore.initial (.nodeMetadata "SKY")

/-- The image is refused at first, and described after the read that failed. -/
theorem describeImage_refuses_wholeCube :
    Refuses (describeImage wholeCubeStore firstFails "SKY" wholeCubeStore.initial).1 ∧
      Refuses (describeImage wholeCubeStore firstFails "SKY" wholeCubeFailed).1 ∧
      (describeImage wholeCubeStore firstFails "SKY" wholeCubeStore.initial).1.toOption.isSome =
        false ∧
      (describeImage wholeCubeStore firstFails "SKY" wholeCubeFailed).1.toOption.isSome = true :=
  have hopen : openStore wholeCube = .ok wholeCubeStore := rfl
  ⟨describeImage_refuses hopen firstFails_transient .initial "SKY",
    describeImage_refuses hopen firstFails_transient (Reached.initial.after _) "SKY",
    by decide +kernel, by decide +kernel⟩

section Inspect

variable {store : Store} {outages : Outages} {backing : Backing}

/-- The axes of an entry that opens. -/
theorem triple_discoverEntry (found : Discovered) (entry : NodeEntry)
    (hentry : ∀ image, entry.array = some (.ok image) → store.arrayAnswer entry.name = .ok image) :
    Triple (Reached store outages) (discoverEntry store outages found entry)
      (fun r s => Reached store outages s ∧ Refuses r) := by
  have hqualify : Triple (Reached store outages) (qualifyNode store outages entry) (fun q s =>
      Reached store outages s ∧ (q.listed = true → ∃ image, entry.array = some (.ok image)) ∧
        (q.openable = true → ∃ image, entry.array = some (.ok image) ∧ Addressable image)) := by
    refine fun s hs => ⟨hs.later (later_qualifyNode entry s), qualifyNode_listed,
      fun hopenable => ?_⟩
    obtain ⟨image, harray, hsky, hdimensions⟩ := qualifyNode_openable hopenable
    obtain ⟨document, hparse⟩ := exists_document_of_arrayAnswer (hentry image harray)
    exact ⟨image, harray, ⟨document, entry.name, hparse⟩, hsky, hdimensions⟩
  refine hqualify.bind fun q => ?_
  dsimp only
  split
  · rename_i hlisted
    split
    · rename_i metadata harray
      have haxes : Triple (fun s => Reached store outages s ∧
          (q.listed = true → ∃ image, entry.array = some (.ok image)) ∧
            (q.openable = true → ∃ image, entry.array = some (.ok image) ∧ Addressable image))
          (entryAxes store outages q.openable metadata)
              (fun r s => Reached store outages s ∧ Refuses r) := by
        unfold entryAxes
        split_ifs with hopenable
        · rintro s ⟨hs, -, himage⟩
          obtain ⟨image, harray', himage⟩ := himage hopenable
          obtain rfl := Except.ok.inj (Option.some.inj (harray.symm.trans harray'))
          obtain ⟨axes, haxes, -⟩ := himage.axes
          obtain ⟨hreached, hrefuses, -⟩ := triple_describeListedAxes haxes s hs
          exact ⟨hreached, hrefuses⟩
        · exact Triple.pure fun s hs => ⟨hs.1, refuses_ok _⟩
      refine haxes.bind fun r => ?_
      cases r with
      | error e => exact Triple.pure fun s hs => ⟨hs.1, refuses_error hs.2⟩
      | ok axes => exact Triple.pure fun s hs => ⟨hs.1, refuses_ok _⟩
    · rename_i hnone
      rintro s ⟨-, himage, -⟩
      obtain ⟨image, harray⟩ := himage hlisted
      exact absurd harray (hnone image)
  · exact Triple.pure fun s hs => ⟨hs.1, refuses_ok _⟩

theorem triple_discoverEntries (entries : List NodeEntry) (found : Discovered)
    (hentries : ∀ entry ∈ entries, ∀ image, entry.array = some (.ok image) →
      store.arrayAnswer entry.name = .ok image) :
    Triple (Reached store outages) (discoverEntries store outages entries found)
      (fun r s => Reached store outages s ∧ Refuses r) := by
  induction entries generalizing found with
  | nil => exact Triple.pure fun s hs => ⟨hs, refuses_ok _⟩
  | cons entry entries ih =>
    refine (triple_discoverEntry found entry (hentries entry List.mem_cons_self)).bind fun r => ?_
    cases r with
    | error e => exact Triple.pure fun s hs => hs
    | ok found =>
      exact (ih found fun e he => hentries e (List.mem_cons_of_mem _ he)).imp (fun s hs =>
        hs.1) fun _ _ h => h

variable (hopen : openStore backing = .ok store) (hout : outages.Transient True)
include hopen hout

theorem triple_discoverImages : Triple (Reached store outages) (discoverImages store outages)
    (fun r s => Reached store outages s ∧ Refuses r) := by
  have hinventory : Triple (Reached store outages) (store.inventory outages)
    (fun r s => Reached store outages s ∧
      ∀ entries, r = .ok entries → ∀ entry ∈ entries, ∀ image, entry.array = some (.ok image) →
        store.arrayAnswer entry.name = .ok image) :=
          fun s hs => ⟨hs.after .inventory, fun entries hentries entry hmem
          image harray => arrayAnswer_of_mem_inventory (openStore_filed hopen) hout
            (hs.sound hopen hout) hentries hmem
            harray⟩
  refine hinventory.bind fun r => ?_
  cases r with
  | error e => exact Triple.pure fun s hs => ⟨hs.1, refuses_refused e⟩
  | ok entries =>
    rintro s ⟨hs, hentries⟩
    refine Triple.imp (p := Reached store outages) (q := fun r s =>
      Reached store outages s ∧ Refuses r) ?_
      (fun _ h => h) (fun _ _ h => h) s hs
    refine (triple_discoverEntries entries {} (hentries entries rfl)).bind fun r => ?_
    cases r with
    | error e => exact Triple.pure fun s hs => hs
    | ok found => exact Triple.pure fun s hs => ⟨hs.1, refuses_ok _⟩

/-- **Inspecting a store never throws**, whatever was asked before and whichever reads fail. -/
theorem inspectImages_refuses {s : Session} (hs : store.Reached outages s) :
    Refuses (inspectImages store outages s).1 := by
  have hconclude : ∀ report kind discovery, Refuses (concludeInspection report kind discovery) := by
    intro report kind discovery
    unfold concludeInspection
    split
    · exact refuses_refused _
    · exact refuses_ok _
  have hinspect : Triple (Reached store outages) (inspectImages store outages)
      (fun r _ => Refuses r) := by
    refine (triple_discoverImages hopen hout).bind fun r => ?_
    cases r with
    | error e => exact Triple.pure fun s hs => refuses_error hs.2
    | ok found =>
      dsimp only
      split
      · exact Triple.pure fun s _ => hconclude _ _ _
      · exact Triple.bind (q := fun _ _ => True) (fun _ _ => trivial) fun report =>
          Triple.pure fun s _ => hconclude _ _ _
  exact hinspect s hs

end Inspect

theorem inspectImages_refuses_wholeCube :
    Refuses (inspectImages wholeCubeStore firstFails wholeCubeStore.initial).1 ∧
      Refuses (inspectImages wholeCubeStore firstFails wholeCubeFailed).1 ∧
      (inspectImages wholeCubeStore firstFails wholeCubeStore.initial).1.toOption.isSome = false ∧
      (inspectImages wholeCubeStore firstFails wholeCubeFailed).1.toOption.isSome = true :=
  have hopen : openStore wholeCube = .ok wholeCubeStore := rfl
  ⟨inspectImages_refuses hopen firstFails_transient .initial,
    inspectImages_refuses hopen firstFails_transient (Reached.initial.after _),
    by decide +kernel, by decide +kernel⟩

/-! ## Why a node does not qualify -/

/-- A node has what is taken from one of its kind, and no more: an array its metadata, parsed or
refused, and one that is not recognised the reason. -/
structure NodeEntry.Filled (entry : NodeEntry) : Prop where
  array : entry.kind = .array ↔ entry.array.isSome = true
  reason : entry.kind = .unrecognised ↔ entry.reason.isSome = true

/-- A refusal says what was found: what the qualification said of an image, what is wrong with a
node that is none, or that there is no such image. -/
def Explained (entry : NodeEntry) (q : NodeQualification) (imageId : String) : Prop :=
  (q.listed = true ∧ ∃ d, q.diagnostic = some d ∧ refusal entry q imageId =
      ⟨if q.malformed then .invalidMetadata else .unsupportedDataType, d.message, imageId⟩) ∨
    (∃ e d, (entry.array = some (.error e) ∨ entry.reason = some e) ∧ q.diagnostic = some d ∧
      d.message = e.message ∧ refusal entry q imageId = e) ∨
    q.diagnostic = none ∧ refusal entry q imageId = imageNotFound imageId

section Explain

variable {store : Store} {outages : Outages} {backing : Backing}

theorem entryAnswer_filled {node : String} {entry : NodeEntry}
    (h : store.entryAnswer node = .ok entry) :
    entry.Filled := by
  unfold Store.entryAnswer at h
  split at h
  · split_ifs at h
    cases h
    exact ⟨by simp, by simp⟩
  · split at h <;> cases h <;> exact ⟨by simp, by simp⟩

theorem filled_unname (entry : NodeEntry) : (unname entry).Filled ↔ entry.Filled := by
  rcases entry with ⟨name, kind, array, reason⟩
  have harray : (unname array).isSome = array.isSome := Option.isSome_map
  have hreason : (unname reason).isSome = reason.isSome := Option.isSome_map
  refine ⟨fun h => ⟨h.array.trans ?_, h.reason.trans ?_⟩, fun h =>
    ⟨h.array.trans ?_, h.reason.trans ?_⟩⟩
  all_goals simp only [← harray, ← hreason]; exact Iff.rfl

/-- What qualifying a node took from it was there. -/
theorem yields_explained {entry : NodeEntry} (h : entry.Filled) (imageId : String) :
    Yields (fun q => q.openable = false →
      Explained entry q imageId) (qualifyNode store outages entry) := by
  have hlisted : ∀ {d : Diagnostic} {malformed : Bool},
      Explained entry ⟨true, false, some d, malformed⟩ imageId :=
    .inl ⟨rfl, _, rfl, rfl⟩
  have himage : ∀ image node, Yields (fun q => q.openable = false → Explained entry q imageId)
      (qualifyImage store outages image node) := by
    intro image node
    unfold qualifyImage
    split
    · exact Yields.pure fun _ => hlisted
    split
    · exact Yields.pure fun _ => hlisted
    refine Yields.bind fun r => ?_
    cases r with
    | some disagreement => exact Yields.pure fun _ => hlisted
    | none =>
      refine Yields.bind fun r => ?_
      cases r with
      | some unusable => exact Yields.pure fun _ => hlisted
      | none => exact Yields.pure nofun
  unfold qualifyNode
  rcases entry with ⟨name, kind, array, reason⟩
  rcases kind with _ | _ | _
  · exact Yields.pure fun _ => .inr (.inr ⟨rfl, rfl⟩)
  · rcases array with _ | e | image
    · cases h.array.1 rfl
    · exact Yields.pure fun _ => .inr (.inl ⟨e, _, .inl rfl, rfl, rfl, rfl⟩)
    · dsimp only
      split_ifs
      · exact Yields.pure fun _ => .inr (.inr ⟨rfl, rfl⟩)
      · exact himage image name
      · exact Yields.pure fun _ => hlisted
      · exact Yields.pure fun _ => .inr (.inr ⟨rfl, rfl⟩)
  · rcases reason with _ | e
    · cases h.reason.1 rfl
    · refine Yields.pure fun _ => .inr (.inl ⟨e, _, .inr rfl, rfl, rfl, ?_⟩)
      cases array with
      | none => rfl
      | some r => cases h.array.2 rfl

variable (hopen : openStore backing = .ok store) (hout : outages.Transient True)
include hopen hout

/-- **A refusal of a node of an inventory says what was found of it.** -/
theorem refusal_explained {s : Session} (hs : store.Reached outages s) {entries : List NodeEntry}
    (h : (store.inventory outages s).1 = .ok entries) {entry : NodeEntry} (hentry : entry ∈ entries)
    (imageId : String) : Yields (fun q => q.openable = false → Explained entry q imageId)
      (qualifyNode store outages entry) := by
  obtain ⟨-, -, hstands⟩ := gives_inventory (openStore_filed hopen) hout s (hs.sound hopen hout)
  rw [h] at hstands
  obtain ⟨entries', hentries', hunname⟩ := Stands.exists_ok hstands
  have hmem : unname entry ∈ unname entries' := hunname ▸ List.mem_map_of_mem hentry
  obtain ⟨entry', hmem', hsame⟩ := List.mem_map.1 hmem
  refine yields_explained ?_ imageId
  rw [← filled_unname, ← hsame, filled_unname]
  obtain ⟨names, -, hanswers⟩ := bind_eq_ok_iff.1 hentries'
  have hforall := mapM_eq_ok_iff.1 hanswers
  obtain ⟨i, hi, rfl⟩ := List.mem_iff_getElem.1 hmem'
  exact entryAnswer_filled ((List.forall₂_iff_get.1 hforall).2 i
    (by rw [hforall.length_eq]; exact hi) hi)

end Explain

end CartaZarr
