import CartaZarr.Store.Verbatim
import CartaZarr.Xradio.Steadfast

/-!
# Reads that fail and are taken for answers

Qualifying a name reads the metadata of other nodes: the coordinates its dimensions are held to, and
the flag that is declared for it. One that cannot be read there is passed over, or closes the image,
whether or not it was the read that failed; so an answer about an image can rest on a read that was
never made (`inquire_flagUnread`). That is all that can go wrong. The inventory and the coordinates
that are required keep a failed read apart: an inquiry none of whose reads for qualifying fails
answers word for word as if none had ever failed, whatever failed before, or with the error of a
read (`inquire_undisturbed`).
-/

namespace CartaZarr

open Store

variable {store : Store} {outages : Outages}

/-- The names of the coordinates are canonical. -/
theorem cacheKey_skyNames : ∀ name ∈ skyNames, cacheKey name = name := by decide +kernel

theorem cacheKey_canonical (spelt : String) : cacheKey (canonical spelt) = canonical spelt :=
  cacheKey_cacheKey spelt

section Agree

variable (hfiled : store.Filed) (hout : outages.Transient True)
include hfiled hout

theorem agree_coordinateUnit {name : String} (h : name ∈ skyNames) (role : AxisRole) :
    store.Agree outages (coordinateUnit store outages name role)
      (coordinateUnit store allMade name role) := by
  refine (agree_readArrayMetadata hfiled hout (cacheKey_skyNames name h)).bind fun r => ?_
  cases r with
  | error e => exact Agree.pure _
  | ok metadata => dsimp only; split_ifs <;> exact Agree.pure _

theorem agree_listAxes {axes : List AxisDescriptor} (h : ∀ axis ∈ axes, axis.name ∈ skyNames) :
    store.Agree outages (listAxes store outages axes) (listAxes store allMade axes) := by
  induction axes with
  | nil => exact Agree.pure _
  | cons axis axes ih =>
    exact (agree_coordinateUnit hfiled hout (h axis List.mem_cons_self) _).bind fun _ =>
      (ih fun axis haxis => h axis (List.mem_cons_of_mem _ haxis)).bind fun _ => Agree.pure _

theorem agree_extentDisagreement (node : String) {dimensions : List (String × UInt64)}
    (h : ∀ dimension ∈ dimensions, dimension.1 ∈ skyNames) :
    store.Agree outages (extentDisagreement store outages node dimensions)
      (extentDisagreement store allMade node dimensions) := by
  induction dimensions with
  | nil => exact Agree.pure _
  | cons dimension dimensions ih =>
    have hrest := ih fun dimension hd => h dimension (List.mem_cons_of_mem _ hd)
    have hname := cacheKey_skyNames _ (h dimension List.mem_cons_self)
    refine (agree_readArrayMetadata hfiled hout hname).bind fun r => ?_
    cases r with
    | error e => exact hrest
    | ok coordinate => dsimp only; split; exacts [Agree.pure _, hrest]

theorem agree_unusableDeclaredFlag (image : ArrayMetadata) (node : String) :
    store.Agree outages (unusableDeclaredFlag store outages image node)
      (unusableDeclaredFlag store allMade image node) := by
  have hrequire : ∀ spelt, store.Agree outages (requireDeclaredFlag store outages image spelt)
      (requireDeclaredFlag store allMade image spelt) := fun spelt =>
    (agree_readArrayMetadata hfiled hout (cacheKey_canonical spelt)).bind fun r => by
      cases r <;> exact Agree.pure _
  have hdeclared : store.Agree outages (declaredFlag store outages image node)
      (declaredFlag store allMade image node) := by
    unfold declaredFlag
    dsimp only
    split
    · exact hrequire _
    · split
      exacts [Agree.pure _, hrequire _, Agree.pure _]
  exact hdeclared.bind fun r => by cases r <;> exact Agree.pure _

theorem agree_qualifyImage {image : ArrayMetadata} (hsky : carriesPlane image .sky = true)
    (node : String) :
    store.Agree outages (qualifyImage store outages image node)
      (qualifyImage store allMade image node) := by
  unfold qualifyImage
  split
  · exact Agree.pure _
  split
  · exact Agree.pure _
  rename_i hdimensions
  have hnames : ∀ dimension ∈ image.dimensionNames.zip image.shape,
      dimension.1 ∈ skyNames := fun dimension hd =>
    mem_skyNames_of_mem_dimensionNames hsky (not_not.1 hdimensions) (List.of_mem_zip hd).1
  refine (agree_extentDisagreement hfiled hout node hnames).bind fun r => ?_
  cases r with
  | some disagreement => exact Agree.pure _
  | none =>
    refine (agree_unusableDeclaredFlag hfiled hout image node).bind fun r => ?_
    cases r <;> exact Agree.pure _

/-- What a node is said to be. -/
theorem agree_qualifyNode (entry : NodeEntry) :
    store.Agree outages (qualifyNode store outages entry) (qualifyNode store allMade entry) := by
  unfold qualifyNode
  rcases entry with ⟨name, _ | _ | _, array, reason⟩
  · exact Agree.pure _
  · rcases array with _ | e | image
    · exact Agree.pure _
    · exact Agree.pure _
    · dsimp only
      split_ifs with hflag hsky
      exacts [Agree.pure _, agree_qualifyImage hfiled hout hsky name, Agree.pure _, Agree.pure _]
  · exact Agree.pure _

theorem agree_entryAxes (openable : Bool) (image : ArrayMetadata) :
    store.Agree outages (entryAxes store outages openable image)
      (entryAxes store allMade openable image) := by
  unfold entryAxes describeListedAxes
  split_ifs
  · cases haxes : describeAxes image with
    | none => exact Agree.pure _
    | some axes =>
      exact (agree_listAxes hfiled hout fun axis => name_mem_of_describeAxes haxes).bind fun _ =>
        Agree.pure _
  · exact Agree.pure _

/-- What is found in some entries. -/
theorem agree_discoverEntries (entries : List NodeEntry) (found : Discovered) :
    store.Agree outages (discoverEntries store outages entries found)
      (discoverEntries store allMade entries found) := by
  induction entries generalizing found with
  | nil => exact Agree.pure _
  | cons entry entries ih =>
    have hentry : store.Agree outages (discoverEntry store outages found entry)
        (discoverEntry store allMade found entry) := by
      refine (agree_qualifyNode hfiled hout entry).bind fun q => ?_
      dsimp only
      split
      · split
        · exact (agree_entryAxes hfiled hout _ _).bind fun r => by cases r <;> exact Agree.pure _
        · exact Agree.pure _
      · exact Agree.pure _
    refine hentry.bind fun r => ?_
    cases r with
    | error e => exact Agree.pure _
    | ok found => exact ih found

end Agree

/-! ## The coordinates that are required -/

/-- A probe that was ended by a read that failed. -/
def ProbeReport.Interrupted (report : ProbeReport) : Prop :=
  ∃ e, report.error = some e ∧ e.code.isTransient = true

theorem ProbeReport.Interrupted.not_ok {report : ProbeReport} (h : report.Interrupted) :
    report.ok = false := by
  obtain ⟨e, he, -⟩ := h
  simp [ProbeReport.ok, he]

/-- What requiring a coordinate is to report, as the store answers. -/
def coordinateReport (store : Store) (report : ProbeReport) (coordinate : Coordinate) :
    ProbeReport :=
  if ¬ report.ok then report
  else match store.nodeAnswer coordinate.name with
    | .error e =>
      if e.code = .notFound then
        report.fail .invalidMetadata "Missing required coordinate array" coordinate.name
      else { report with error := some e }
    | .ok _ => report.requireCoordinateArray coordinate (store.arrayAnswer coordinate.name)

/-- A probe reports what the store answers, or was ended by a read of its own that failed. -/
def ReportsAs (store : Store) (outages : Outages) (x : StateM Session ProbeReport)
    (y : ProbeReport) : Prop :=
  ∀ s, store.Verbatim s → store.Verbatim (x s).2 ∧ s.Extends (x s).2 ∧
    ((x s).1 = y ∨ (x s).1.Interrupted ∧ outages.FailBetween s (x s).2)

theorem ReportsAs.pure (report : ProbeReport) : ReportsAs store outages (Pure.pure report) report :=
  fun s hs => ⟨hs, .refl s, .inl rfl⟩

section Report

variable (hfiled : store.Filed) (hout : outages.Transient True)
include hfiled hout

theorem reports_requireCoordinate (report : ProbeReport) {coordinate : Coordinate}
    (h : coordinate.name ∈ skyNames) :
    ReportsAs store outages (report.requireCoordinate store outages coordinate)
      (coordinateReport store report coordinate) := by
  have hnode := cacheKey_skyNames _ h
  unfold ProbeReport.requireCoordinate coordinateReport
  split
  · exact ReportsAs.pure _
  intro s hs
  obtain ⟨hverbatim, hext, hanswers⟩ := answers_readNodeMetadata hfiled hout hnode s hs
  have hagain := fun document =>
    @Sound.readNodeMetadata_again store True outages s hs.sound coordinate.name document
  rcases hread : store.readNodeMetadata outages coordinate.name s with ⟨r, s'⟩
  rw [hread] at hverbatim hext hanswers hagain
  simp only [bind, StateT.bind, hread]
  cases r with
  | error e =>
    dsimp only
    rcases hanswers with hanswers | ⟨htransient, hfails⟩
    · rw [← hanswers]
      dsimp only
      split_ifs <;> exact ⟨hverbatim, hext, .inl rfl⟩
    · have hcode : e.code ≠ .notFound := by
        intro hcode
        rw [askAgain, hcode] at htransient
        cases htransient
      rw [if_neg hcode]
      exact ⟨hverbatim, hext, .inr ⟨⟨e, rfl, htransient⟩, hfails⟩⟩
  | ok document =>
    obtain ⟨hverbatim', hext', hsame⟩ := readArrayMetadata_of_document hfiled hout hnode hverbatim
      (hagain document rfl hfiled hout)
    have hanswer : store.nodeAnswer coordinate.name = .ok document :=
      (hanswers.resolve_right (by rintro ⟨⟨⟩, -⟩)).symm
    rw [hanswer, ← hsame]
    exact ⟨hverbatim', hext.trans hext', .inl rfl⟩

/-- The coordinates, one after another: what interrupts one ends it. -/
theorem reports_requireCoordinates {coordinates : List Coordinate} (report : ProbeReport)
    (h : ∀ coordinate ∈ coordinates, coordinate.name ∈ skyNames) :
    ReportsAs store outages (ProbeReport.requireCoordinates store outages coordinates report)
      (coordinates.foldl (coordinateReport store) report) := by
  induction coordinates generalizing report with
  | nil => exact ReportsAs.pure _
  | cons coordinate coordinates ih =>
    intro s hs
    have hone := reports_requireCoordinate hfiled hout report (h coordinate List.mem_cons_self) s hs
    rw [ProbeReport.requireCoordinates, List.foldl_cons]
    rcases hrun : report.requireCoordinate store outages coordinate s with ⟨after, s'⟩
    rw [hrun] at hone
    obtain ⟨hverbatim, hext, hreports⟩ := hone
    simp only [bind, StateT.bind, hrun]
    rcases hreports with hsame | ⟨hinterrupted, hfails⟩
    · obtain ⟨hverbatim', hext', hrest⟩ :=
        ih after (fun c hc => h c (List.mem_cons_of_mem _ hc)) s' hverbatim
      refine ⟨hverbatim', hext.trans hext', hrest.imp (fun h => ?_) fun h =>
        ⟨h.1, h.2.extend hext (.refl _)⟩⟩
      rw [h, ← hsame]
    · rw [ProbeReport.requireCoordinates_of_not_ok hinterrupted.not_ok]
      exact ⟨hverbatim, hext, .inr ⟨hinterrupted, hfails⟩⟩

/-- What reading an image that is known needs of its dataset. -/
theorem requireImage_of_knows {s : Session} (hreached : Reached store outages s)
    (hs : store.Verbatim s) {imageId : String} {image : ArrayMetadata}
    (hknows : Knows s imageId image) {report : ProbeReport} (hok : report.ok = true) :
    store.Verbatim (requireImage store outages imageId report s).2 ∧
      ((requireImage store outages imageId report s).1 =
        (skyCoordinates.foldl (coordinateReport store) report).requireCoordinateSystem
          store.rootAttributes ∨
      (requireImage store outages imageId report s).1.Interrupted ∧
        outages.FailBetween s (requireImage store outages imageId report s).2) := by
  obtain ⟨hverbatim, -, hreports⟩ := reports_requireCoordinates hfiled hout report
    (fun c hc => List.mem_map_of_mem hc : ∀ c ∈ skyCoordinates, c.name ∈ skyNames) s hs
  have hsame : report.requireArrayMetadata (.ok image) imageId = report := by
    unfold ProbeReport.requireArrayMetadata
    rw [hok]
    rfl
  unfold requireImage
  simp only [bind, StateT.bind, hknows.readArrayMetadata hreached, hsame, hok, if_true]
  generalize ProbeReport.requireCoordinates store outages skyCoordinates report = x
    at hverbatim hreports ⊢
  rcases hrun : x s with ⟨after, s'⟩
  rw [hrun] at hverbatim hreports
  refine ⟨hverbatim, ?_⟩
  rcases hreports with h | ⟨hinterrupted, hfails⟩
  · rw [← h]
    exact .inl rfl
  · refine .inr ⟨?_, hfails⟩
    change (after.requireCoordinateSystem store.rootAttributes).Interrupted
    rwa [ProbeReport.requireCoordinateSystem_of_not_ok hinterrupted.not_ok]

end Report

/-! ## What is listed -/

/-- Images that are of arrays of some entries. -/
def OfArrays (entries : List NodeEntry) (found : Discovered) : Prop :=
  ∀ image ∈ found.discovery.images, ∃ entry ∈ entries, entry.name = image.id ∧
    ∃ array, entry.array = some (.ok array)

/-- Whatever fails, what is listed is of arrays that parsed. -/
theorem yields_discoverEntries {all : List NodeEntry} (entries : List NodeEntry)
    (hall : ∀ entry ∈ entries, entry ∈ all) {found : Discovered} (h : OfArrays all found) :
    Yields (fun r => ∀ found', r = .ok found' → OfArrays all found')
      (discoverEntries store outages entries found) := by
  induction entries generalizing found with
  | nil => exact Yields.pure (by rintro _ ⟨⟩; exact h)
  | cons entry entries ih =>
    have hentry : Yields (fun r => ∀ found', r = .ok found' → OfArrays all found')
        (discoverEntry store outages found entry) := by
      refine Yields.bind fun q => ?_
      dsimp only
      split
      · split
        · rename_i metadata harray
          refine Yields.bind fun r => ?_
          cases r with
          | error e => exact Yields.pure (by rintro _ ⟨⟩)
          | ok axes =>
            refine Yields.pure ?_
            rintro _ ⟨⟩ image himage
            rcases List.mem_append.1 himage with himage | himage
            · exact h image himage
            · obtain rfl := List.mem_singleton.1 himage
              exact ⟨entry, hall entry List.mem_cons_self, rfl, metadata, harray⟩
        · exact Yields.pure (by rintro _ ⟨⟩)
      · exact Yields.pure (by rintro _ ⟨⟩; exact h)
    refine Yields.bind_of hentry fun r hr => ?_
    cases r with
    | error e => exact Yields.pure (by rintro _ ⟨⟩)
    | ok found' => exact ih (fun e he => hall e (List.mem_cons_of_mem _ he)) (hr found' rfl)

/-- The first image that opens is of an array that parsed. -/
theorem OfArrays.first {entries : List NodeEntry} {found : Discovered} (h : OfArrays entries found)
    {imageId : String} (hfirst : found.sort.reasonFirst.defaultImageId = some imageId) :
    ∃ entry ∈ entries, entry.name = imageId ∧ ∃ array, entry.array = some (.ok array) := by
  have hsame : found.sort.reasonFirst.defaultImageId = found.sort.discovery.defaultImageId := by
    unfold Discovered.reasonFirst
    split <;> rfl
  have hid : (found.sort.discovery.images.find? ImageEntry.openable).map ImageEntry.id =
      some imageId := hsame.symm.trans hfirst
  obtain ⟨image, hfind, rfl⟩ := Option.map_eq_some_iff.1 hid
  exact h image ((List.perm_insertionSort ImageEntry.Before _).mem_iff.1
    (List.mem_of_find?_eq_some hfind))

/-! ## What an inquiry answers -/

/-- What is made of a listing, as the store answers. -/
def inspectionAnswer (store : Store) (found : Discovered) : Except OpenFailure SchemaInspection :=
  let discovery := found.reasonFirst
  let report : ProbeReport := { diagnostics := discovery.diagnostics }
  match discovery.defaultImageId with
  | none => concludeInspection report (found.unopenedKind store.rootAttributes) discovery
  | some _ =>
    let report := (skyCoordinates.foldl (coordinateReport store) report).requireCoordinateSystem
      store.rootAttributes
    concludeInspection report (if report.ok then .isMatch else .invalid) discovery

/-- An inspection that is ended by the error of a read. -/
def EndsUnread (r : Except OpenFailure SchemaInspection) : Prop :=
  ∃ e, r = .error (.refused e) ∧ e.code.isTransient = true

section Run

variable {s s₁ s₂ : Session} {entries : List NodeEntry} {found : Discovered}

theorem inspectImages_of_refused {e : Error} (h : store.inventory outages s = (.error e, s₁)) :
    inspectImages store outages s = (.error (.refused e), s₁) := by
  have hdiscover : discoverImages store outages s = (.error (.refused e), s₁) := by
    unfold discoverImages
    rw [bind_run h]
    rfl
  unfold inspectImages
  rw [bind_run hdiscover]
  rfl

theorem discoverImages_run (hinventory : store.inventory outages s = (.ok entries, s₁)) :
    discoverImages store outages s =
      ((discoverEntries store outages entries {} s₁).1.map Discovered.sort,
        (discoverEntries store outages entries {} s₁).2) := by
  rcases hfound : discoverEntries store outages entries {} s₁ with ⟨q, s₂⟩
  unfold discoverImages
  rw [bind_run hinventory]
  dsimp only
  rw [bind_run hfound]
  cases q <;> rfl

theorem inspectImages_of_threw {failure : OpenFailure}
    (hinventory : store.inventory outages s = (.ok entries, s₁))
    (hfound : discoverEntries store outages entries {} s₁ = (.error failure, s₂)) :
    inspectImages store outages s = (.error failure, s₂) := by
  have hdiscover : discoverImages store outages s = (.error failure, s₂) := by
    rw [discoverImages_run hinventory, hfound]
    rfl
  unfold inspectImages
  rw [bind_run hdiscover]
  rfl

theorem inspectImages_of_unnamed (hfound : discoverImages store outages s = (.ok found, s₂))
    (hdefault : found.reasonFirst.defaultImageId = none) :
    inspectImages store outages s = (inspectionAnswer store found, s₂) := by
  unfold inspectImages
  rw [bind_run hfound]
  simp only [inspectionAnswer, hdefault]
  rfl

theorem inspectImages_of_named {firstImage : String} {after : ProbeReport} {s₃ : Session}
    (hfound : discoverImages store outages s = (.ok found, s₂))
    (hdefault : found.reasonFirst.defaultImageId = some firstImage)
    (hrun : requireImage store outages firstImage
      { diagnostics := found.reasonFirst.diagnostics } s₂ = (after, s₃)) :
    inspectImages store outages s =
      (concludeInspection after (if after.ok then .isMatch else .invalid) found.reasonFirst,
        s₃) := by
  unfold inspectImages
  rw [bind_run hfound]
  simp only [hdefault]
  rw [bind_run hrun]
  rfl

/-- What the store answers of an image found is what its coordinates and its direction report. -/
theorem inspectionAnswer_of_named {firstImage : String} {after : ProbeReport}
    (hdefault : found.reasonFirst.defaultImageId = some firstImage)
    (h : after = (skyCoordinates.foldl (coordinateReport store)
      { diagnostics := found.reasonFirst.diagnostics }).requireCoordinateSystem
        store.rootAttributes) :
    inspectionAnswer store found =
      concludeInspection after (if after.ok then .isMatch else .invalid) found.reasonFirst := by
  simp only [inspectionAnswer, hdefault, h]

/-- A name is looked up in the inventory that was taken, and its node qualified. -/
theorem requireQualified_run (hinventory : store.inventory outages s = (.ok entries, s₁))
    (imageId : String) :
    requireQualified store outages imageId s =
      (findEntry entries imageId).elim (.error (imageNotFound imageId), s₁) fun entry =>
        (if (qualifyNode store outages entry s₁).1.openable then .ok ()
          else .error (refusal entry (qualifyNode store outages entry s₁).1 imageId),
          (qualifyNode store outages entry s₁).2) := by
  have hagain : store.inventory outages s₁ = (.ok entries, s₁) := by
    have h := @inventory_again store outages s entries
    rw [hinventory] at h
    exact h rfl
  have hfind : store.findNode outages imageId s₁ = (findEntry entries imageId, s₁) := by
    rw [findNode_eq, hagain]
    rfl
  unfold requireQualified
  rw [bind_run hinventory]
  dsimp only
  rw [bind_run hfind]
  cases findEntry entries imageId with
  | none => rfl
  | some entry =>
    dsimp only [Option.elim]
    rcases hqualify : qualifyNode store outages entry s₁ with ⟨q, s₂⟩
    rw [bind_run hqualify]
    dsimp only
    split_ifs <;> rfl

variable (hfiled : store.Filed) (hout : outages.Transient True)
include hfiled hout

/-- What an inspection makes of what it found: what the store answers, unless a read that it made of
a coordinate failed. -/
theorem inspectImages_of_found
    (hreached : Reached store outages s) (hs : store.Verbatim s₂)
    (hinventory : store.inventory outages s = (.ok entries, s₁))
    (hfound : discoverEntries store outages entries {} s₁ = (.ok found, s₂)) :
    store.Verbatim (inspectImages store outages s).2 ∧
      ((inspectImages store outages s).1 = inspectionAnswer store found.sort ∨
      EndsUnread (inspectImages store outages s).1 ∧
        outages.FailBetween s₂ (inspectImages store outages s).2) := by
  have hreached₁ : Reached store outages s₁ := by
    have h := hreached.after .inventory
    rwa [Store.after, hinventory] at h
  have hlater : Later store outages s₁ s₂ := by
    have h := @later_discoverEntries store outages entries {} s₁
    rwa [hfound] at h
  have hlast : (s₁.inventory ()).getLast? = some (.ok entries) := by
    have h := (triple_inventory s hreached).2 entries
    rw [hinventory] at h
    exact h rfl
  have hdiscover : discoverImages store outages s = (.ok found.sort, s₂) := by
    rw [discoverImages_run hinventory, hfound]
    rfl
  rcases hdefault : found.sort.reasonFirst.defaultImageId with _ | firstImage
  · rw [inspectImages_of_unnamed hdiscover hdefault]
    exact ⟨hs, .inl rfl⟩
  have hof : OfArrays entries found := by
    have h := @yields_discoverEntries store outages entries entries (fun _ h => h) {}
      (by simp [OfArrays]) s₁
    rw [hfound] at h
    exact h found rfl
  obtain ⟨entry, hentry, rfl, array, harray⟩ := hof.first hdefault
  have hknows : Knows s₂ entry.name array :=
    Knows.firm ⟨entries, hlast, entry, hentry, rfl, harray⟩ hlater.firm
  obtain ⟨hverbatim, hreports⟩ := requireImage_of_knows hfiled hout (hreached₁.later hlater) hs
    hknows (show ProbeReport.ok { diagnostics := found.sort.reasonFirst.diagnostics } from rfl)
  rcases hrun : requireImage store outages entry.name
    { diagnostics := found.sort.reasonFirst.diagnostics } s₂ with ⟨after, s₃⟩
  rw [hrun] at hverbatim hreports
  rw [inspectImages_of_named hdiscover hdefault hrun]
  refine ⟨hverbatim, ?_⟩
  rcases hreports with h | ⟨⟨e, he, htransient⟩, hfails⟩
  · exact .inl (inspectionAnswer_of_named hdefault h).symm
  · refine .inr ⟨⟨e, ?_, htransient⟩, hfails⟩
    have he : after.error = some e := he
    rw [concludeInspection, ProbeReport.finish, he]

theorem verbatim_inspectImages (hreached : Reached store outages s) (hs : store.Verbatim s) :
    store.Verbatim (inspectImages store outages s).2 := by
  obtain ⟨hverbatim₁, -, -⟩ := answers_inventory hfiled hout s hs
  rcases hinventory : store.inventory outages s with ⟨r, s₁⟩
  rw [hinventory] at hverbatim₁
  cases r with
  | error e =>
    rw [inspectImages_of_refused hinventory]
    exact hverbatim₁
  | ok entries =>
    obtain ⟨hverbatim₂, -⟩ :=
      (agree_discoverEntries hfiled hout entries {} s₁ hverbatim₁).2 s₁ hverbatim₁
    rcases hfound : discoverEntries store outages entries {} s₁ with ⟨q, s₂⟩
    rw [hfound] at hverbatim₂
    cases q with
    | error failure =>
      rw [inspectImages_of_threw hinventory hfound]
      exact hverbatim₂
    | ok found => exact (inspectImages_of_found hfiled hout hreached hverbatim₂ hinventory hfound).1

theorem verbatim_requireQualified (hs : store.Verbatim s) (imageId : String) :
    store.Verbatim (requireQualified store outages imageId s).2 := by
  obtain ⟨hverbatim₁, -, -⟩ := answers_inventory hfiled hout s hs
  rcases hinventory : store.inventory outages s with ⟨r, s₁⟩
  rw [hinventory] at hverbatim₁
  cases r with
  | error e =>
    unfold requireQualified
    rw [bind_run hinventory]
    exact hverbatim₁
  | ok entries =>
    rw [requireQualified_run hinventory]
    cases findEntry entries imageId with
    | none => exact hverbatim₁
    | some entry => exact ((agree_qualifyNode hfiled hout entry s₁ hverbatim₁).2 s₁ hverbatim₁).1

/-- An inspection whose discovery was not disturbed. -/
theorem inspectImages_undisturbed (hreached : Reached store outages s) (hs : store.Verbatim s)
    {t : Session} (ht : Reached store allMade t) (hverbatim : store.Verbatim t)
    (hmade : ¬ outages.FailBetween (store.inventory outages s).2
      (discoverImages store outages s).2) :
    EndsUnread (inspectImages store outages s).1 ∨
      (inspectImages store outages s).1 = (inspectImages store allMade t).1 := by
  obtain ⟨hs₁, -, hanswers⟩ := answers_inventory hfiled hout s hs
  obtain ⟨ht₁, -, hanswers'⟩ := answers_inventory hfiled transient_none t hverbatim
  have hanswer := hanswers'.resolve_right fun h => not_failBetween_allMade _ _ h.2
  rcases hinventory : store.inventory outages s with ⟨r, s₁⟩
  rcases hinventory' : store.inventory allMade t with ⟨r', t₁⟩
  rw [hinventory] at hs₁ hanswers hmade
  rw [hinventory'] at ht₁ hanswer
  cases r with
  | error e =>
    rw [inspectImages_of_refused hinventory]
    rcases hanswers with hsame | ⟨htransient, -⟩
    · have hsame' : r' = .error e := hanswer.trans hsame.symm
      rw [hsame'] at hinventory'
      rw [inspectImages_of_refused hinventory']
      exact .inr rfl
    · exact .inl ⟨e, rfl, htransient⟩
  | ok entries =>
    have hsame : r' = .ok entries :=
      hanswer.trans (hanswers.resolve_right (by rintro ⟨⟨⟩, -⟩)).symm
    rw [hsame] at hinventory'
    rw [discoverImages_run hinventory] at hmade
    obtain ⟨ht₂, hagree⟩ := agree_discoverEntries hfiled hout entries {} t₁ ht₁
    obtain ⟨hs₂, -, hfound⟩ := hagree s₁ hs₁
    rcases hrun : discoverEntries store outages entries {} s₁ with ⟨q, s₂⟩
    rcases hrun' : discoverEntries store allMade entries {} t₁ with ⟨q', t₂⟩
    rw [hrun] at hs₂ hfound hmade
    rw [hrun'] at ht₂ hfound
    obtain rfl : q = q' := hfound.resolve_left hmade
    cases q with
    | error failure =>
      rw [inspectImages_of_threw hinventory hrun, inspectImages_of_threw hinventory' hrun']
      exact .inr rfl
    | ok found =>
      obtain ⟨-, hconcludes⟩ := inspectImages_of_found hfiled hout hreached hs₂ hinventory hrun
      obtain ⟨-, hconcludes'⟩ :=
        inspectImages_of_found hfiled transient_none ht ht₂ hinventory' hrun'
      rw [hconcludes'.resolve_right fun h => not_failBetween_allMade _ _ h.2]
      exact hconcludes.symm.imp_left And.left

/-- A name whose node was qualified without a disturbance. -/
theorem requireQualified_undisturbed (hs : store.Verbatim s) {t : Session}
    (hverbatim : store.Verbatim t) {imageId : String}
    (hmade : ¬ outages.FailBetween (store.inventory outages s).2
      (requireQualified store outages imageId s).2) :
    askAgain (requireQualified store outages imageId s).1 = true ∨
      (requireQualified store outages imageId s).1 =
        (requireQualified store allMade imageId t).1 := by
  obtain ⟨hs₁, -, hanswers⟩ := answers_inventory hfiled hout s hs
  obtain ⟨ht₁, -, hanswers'⟩ := answers_inventory hfiled transient_none t hverbatim
  have hanswer := hanswers'.resolve_right fun h => not_failBetween_allMade _ _ h.2
  rcases hinventory : store.inventory outages s with ⟨r, s₁⟩
  rcases hinventory' : store.inventory allMade t with ⟨r', t₁⟩
  rw [hinventory] at hs₁ hanswers hmade
  rw [hinventory'] at ht₁ hanswer
  have hrefused : ∀ (outages : Outages) (s s₁ : Session) (e : Error),
      store.inventory outages s = (.error e, s₁) →
      requireQualified store outages imageId s = (.error e, s₁) := by
    intro outages s s₁ e h
    unfold requireQualified
    rw [bind_run h]
    rfl
  cases r with
  | error e =>
    rw [hrefused _ _ _ _ hinventory]
    rcases hanswers with hsame | ⟨htransient, -⟩
    · have hsame' : r' = .error e := hanswer.trans hsame.symm
      rw [hsame'] at hinventory'
      rw [hrefused _ _ _ _ hinventory']
      exact .inr rfl
    · exact .inl htransient
  | ok entries =>
    have hsame : r' = .ok entries :=
      hanswer.trans (hanswers.resolve_right (by rintro ⟨⟨⟩, -⟩)).symm
    rw [hsame] at hinventory'
    rw [requireQualified_run hinventory] at hmade
    rw [requireQualified_run hinventory, requireQualified_run hinventory']
    cases hfind : findEntry entries imageId with
    | none => exact .inr rfl
    | some entry =>
      rw [hfind] at hmade
      obtain ⟨-, -, hqualified⟩ := (agree_qualifyNode hfiled hout entry t₁ ht₁).2 s₁ hs₁
      refine .inr ?_
      dsimp only [Option.elim]
      rw [hqualified.resolve_left hmade]

end Run

/-! ## Inquiries -/

/-- What a store is asked about its images. -/
inductive Inquiry
  | inspectImages
  | requireQualified (imageId : String)

inductive Reply
  | inspected (r : Except OpenFailure SchemaInspection)
  | qualified (r : Except Error Unit)
  deriving DecidableEq

/-- The error of a read, which is no answer. -/
def Reply.Unread : Reply → Prop
  | .inspected r => EndsUnread r
  | .qualified r => askAgain r = true

section Inquire

variable (store : Store) (outages : Outages)

def inquire : Inquiry → StateM Session Reply
  | .inspectImages => do return .inspected (← inspectImages store outages)
  | .requireQualified imageId => do return .qualified (← requireQualified store outages imageId)

/-- The session that comes of inquiries. -/
def inquired (inquiries : List Inquiry) : Session :=
  inquiries.foldl (fun s inquiry => (inquire store outages inquiry s).2) store.initial

/-- No read fails that an inquiry makes of other nodes to qualify some: in discovering the images
once it has the inventory, or in looking up a name in it. -/
def Undisturbed (s : Session) : Inquiry → Prop
  | .inspectImages => ¬ outages.FailBetween (store.inventory outages s).2
      (discoverImages store outages s).2
  | .requireQualified imageId => ¬ outages.FailBetween (store.inventory outages s).2
      (requireQualified store outages imageId s).2

end Inquire

theorem inquired_concat (inquiries : List Inquiry) (inquiry : Inquiry) :
    inquired store outages (inquiries ++ [inquiry]) =
      (inquire store outages inquiry (inquired store outages inquiries)).2 :=
  List.foldl_concat ..

/-- A session of inquiries is reached, and is the store's word for word: what an inquiry asks for it
asks for by its canonical name. -/
theorem inquired_verbatim {backing : Backing} (hopen : openStore backing = .ok store)
    (hout : outages.Transient True) (inquiries : List Inquiry) :
    Reached store outages (inquired store outages inquiries) ∧
      store.Verbatim (inquired store outages inquiries) := by
  have hfiled := openStore_filed hopen
  induction inquiries using List.reverseRecOn with
  | nil => exact ⟨.initial, verbatim_initial hfiled⟩
  | append_singleton inquiries inquiry ih =>
    rw [inquired_concat]
    cases inquiry with
    | inspectImages =>
      exact ⟨ih.1.later (later_inspectImages _), verbatim_inspectImages hfiled hout ih.1 ih.2⟩
    | requireQualified imageId =>
      exact ⟨ih.1.later ((repeats_requireQualified imageId).moves _),
        verbatim_requireQualified hfiled hout ih.2 imageId⟩

/-- **A failed read is an answer only where it was made to qualify a node**: an inquiry no such read
of which fails is answered word for word as by a store that is always read, or with the error of a
read, whatever was asked and failed before. -/
theorem inquire_undisturbed {backing : Backing} (hopen : openStore backing = .ok store)
    (hout : outages.Transient True) (inquiries : List Inquiry) (inquiry : Inquiry)
    (hmade : Undisturbed store outages (inquired store outages inquiries) inquiry) :
    (inquire store outages inquiry (inquired store outages inquiries)).1.Unread ∨
      (inquire store outages inquiry (inquired store outages inquiries)).1 =
        (inquire store allMade inquiry (inquired store allMade inquiries)).1 := by
  have hfiled := openStore_filed hopen
  obtain ⟨hreached, hverbatim⟩ := inquired_verbatim hopen hout inquiries
  obtain ⟨hreached', hverbatim'⟩ := inquired_verbatim hopen transient_none inquiries
  cases inquiry with
  | inspectImages =>
    exact (inspectImages_undisturbed hfiled hout hreached hverbatim hreached' hverbatim'
      hmade).imp_right (congrArg Reply.inspected)
  | requireQualified imageId =>
    exact (requireQualified_undisturbed hfiled hout hverbatim hverbatim' hmade).imp_right
      (congrArg Reply.qualified)

/-- A store whose root has a copy of its image and not of the flag that the image declares. -/
def copiedCube : Backing :=
  { maskedCube with
    parseJson := fun bytes => .document <|
      if bytes = [] then .object [("zarr_format", .unsigned 3), ("node_type", .string "group"),
        ("consolidated_metadata", .object [("metadata", .object
          [("SKY", variableDocument "float32" [("flag", .string "./FLAG")])])])]
      else variableDocument "bool" [("type", .string "flag")] }

def copiedCubeStore : Store where
  backing := copiedCube
  rootAttributes := .object []
  consolidated := [("SKY", variableDocument "float32" [("flag", .string "./FLAG")])]
  hasConsolidatedMetadata := true

/-- The sixth read fails to be made, which is of the flag, after those of the coordinates. -/
def sixthFails : Outages := fun n =>
  if n = 5 then some ⟨.ioError, "Unable to read Zarr node", "FLAG"⟩ else none

theorem sixthFails_transient : sixthFails.Transient True := by
  intro n e h
  unfold sixthFails at h
  split_ifs at h
  cases h
  exact ⟨trivial, rfl⟩

theorem inquire_undisturbed_afterOutage :
    (inquire copiedCubeStore sixthFails (.requireQualified "SKY")
      (inquired copiedCubeStore sixthFails [.requireQualified "SKY"])).1 =
        (inquire copiedCubeStore allMade (.requireQualified "SKY")
          (inquired copiedCubeStore allMade [.requireQualified "SKY"])).1 := by
  have hopen : openStore copiedCube = .ok copiedCubeStore := rfl
  have hreads : (copiedCubeStore.inventory sixthFails
      (inquired copiedCubeStore sixthFails [.requireQualified "SKY"])).2.reads = 6 := by
    decide +kernel
  have hok : (inquire copiedCubeStore sixthFails (.requireQualified "SKY")
      (inquired copiedCubeStore sixthFails [.requireQualified "SKY"])).1 = .qualified (.ok ()) := by
    decide +kernel
  have hmade : Undisturbed copiedCubeStore sixthFails
      (inquired copiedCubeStore sixthFails [.requireQualified "SKY"])
      (.requireQualified "SKY") := by
    rintro ⟨n, hle, -, hfails⟩
    rw [hreads] at hle
    exact hfails (if_neg (by omega))
  refine (inquire_undisturbed hopen sixthFails_transient _ _ hmade).resolve_left ?_
  rw [hok]
  rintro ⟨⟩

/-- A flag that could not be read closes the image that declares it. -/
theorem inquire_flagUnread :
    openStore copiedCube = .ok copiedCubeStore ∧ sixthFails.Transient True ∧
    (inquire copiedCubeStore sixthFails (.requireQualified "SKY")
      (inquired copiedCubeStore sixthFails [])).1 = .qualified (.error ⟨.invalidMetadata,
        "Declared flag 'FLAG' cannot mask this image: Unable to read Zarr node", "SKY"⟩) ∧
    (inquire copiedCubeStore allMade (.requireQualified "SKY")
      (inquired copiedCubeStore allMade [])).1 = .qualified (.ok ()) ∧
    ((inspectImages copiedCubeStore sixthFails copiedCubeStore.initial).1.toOption.map
      fun inspection => inspection.discovery.images.map ImageEntry.openable) = some [false] ∧
    ((inspectImages copiedCubeStore allMade copiedCubeStore.initial).1.toOption.map
      fun inspection => inspection.discovery.images.map ImageEntry.openable) = some [true] :=
  ⟨rfl, sixthFails_transient, by decide +kernel, by decide +kernel, by decide +kernel,
    by decide +kernel⟩

end CartaZarr
