import CartaZarr.Xradio.Discovery
import CartaZarr.Xradio.ProbeReport

/-!
# Whether a store is an image dataset

`inspectImages` decides from the listing of a store what the store is to the profile. It is a match
where an image opens and its dataset is whole: every coordinate of the sky plane is there and well
formed, and the root describes a direction. One where none opens is invalid if something in it is
malformed and it has something of an image dataset about it, and no match otherwise; what it is
refused for is then what is malformed, whatever else there was to say (`inspectImages_decides`).

The store is enumerated once, for the listing and for the match, so that what the match was decided
from is what a name is opened by afterwards (`listed_iff_opens`).
-/

namespace CartaZarr

/-- What a profile makes of a store: what it decided, and what it decided it from. -/
structure SchemaInspection where
  probe : SchemaProbeResult
  discovery : ImageDiscovery
  deriving DecidableEq

def kVersion : String := "1.2"

/-- Take one element to the front. -/
def moveToFront {α : Type} (i : ℕ) (l : List α) : List α := l[i]?.toList ++ l.eraseIdx i

/-- Where nothing opens, what is malformed is said first. -/
def Discovered.reasonFirst (found : Discovered) : ImageDiscovery :=
  match found.discovery.defaultImageId, found.firstMalformation with
  | none, some reason =>
    { found.discovery with diagnostics := moveToFront reason found.discovery.diagnostics }
  | _, _ => found.discovery

/-- A store that looks like an image dataset: by what is in it, or by what its root says. -/
def Discovered.isImageDataset (found : Discovered) (rootAttributes : Json) : Bool :=
  found.imageEvidence || attributeString rootAttributes "type" = "image_dataset"

/-- What a store is in which nothing opens. -/
def Discovered.unopenedKind (found : Discovered) (rootAttributes : Json) : SchemaMatchKind :=
  if found.firstMalformation.isSome ∧ found.isImageDataset rootAttributes
    then .invalid else .noMatch

def concludeInspection (report : ProbeReport) (kind : SchemaMatchKind)
    (discovery : ImageDiscovery) :
    Except OpenFailure SchemaInspection :=
  match report.finish kind kVersion with
  | .error e => .error (.refused e)
  | .ok probe => .ok ⟨probe, discovery⟩

section Inspect

variable (store : Store) (outages : Outages)

/-- What reading an image needs of its dataset. -/
def requireImage (imageId : String) (report : ProbeReport) : StateM Session ProbeReport := do
  let report := report.requireArrayMetadata (← store.readArrayMetadata outages imageId) imageId
  if report.ok then
    let report ← ProbeReport.requireCoordinates store outages
      (kCoordinates.filter (onPlane .sky)) report
    return report.requireCoordinateSystem store.rootAttributes
  else return report

def inspectImages : StateM Session (Except OpenFailure SchemaInspection) := do
  match ← discoverImages store outages with
  | .error e => return .error e
  | .ok found =>
    let discovery := found.reasonFirst
    let report : ProbeReport := { diagnostics := discovery.diagnostics }
    match discovery.defaultImageId with
    | none => return concludeInspection report (found.unopenedKind store.rootAttributes) discovery
    | some firstImage =>
      let report ← requireImage store outages firstImage report
      return concludeInspection report (if report.ok then .isMatch else .invalid) discovery

end Inspect

/-! ## What is decided -/

section Spec

variable (store : Store)

/-- The array of a coordinate is there, and well formed. -/
def HasCoordinate (coordinate : Coordinate) : Prop :=
  ∃ array, store.arrayAnswer coordinate.name = .ok array ∧ checkCoordinate array coordinate = .ok ()

/-- A dataset that has what reading its images needs. -/
structure Whole : Prop where
  coordinates : ∀ coordinate ∈ skyCoordinates, HasCoordinate store coordinate
  direction : ∃ direction, readCoordinateSystem store.rootAttributes = .ok direction

/-- What a dataset lacks that is not whole. -/
def Lacks (path : String) : Prop :=
  (∃ coordinate ∈ skyCoordinates, path = coordinate.name ∧ ¬ HasCoordinate store coordinate) ∨
    path = "/attributes/coordinate_system_info" ∧
      ∃ e, readCoordinateSystem store.rootAttributes = .error e

/-- A coordinate whose document is there and cannot be read. -/
def Unread (e : Error) : Prop :=
  e.code ≠ .notFound ∧ ∃ coordinate ∈ skyCoordinates, ∃ e',
    store.nodeAnswer coordinate.name = .error e' ∧
    Store.SameAnswer e e'

/-- What comes of asking a good report for something: it is left as it was, or says what is lacking,
or has the error of the read that failed. -/
inductive Latches (report : ProbeReport) (met : Prop) : ProbeReport → Prop
  | met (h : met) : Latches report met report
  | unmet (h : ¬ met) (d : Diagnostic) (hd : Lacks store d.nodePath) :
      Latches report met (report.fail d.code d.message d.nodePath)
  | unread (h : ¬ met) (e : Error) (he : Unread store e) :
      Latches report met { report with error := some e }

/-- A store with these entries has something of an image dataset about it. -/
def LooksLikeImages (entries : List NodeEntry) : Prop :=
  (∃ entry ∈ entries, IsImage entry ∨ knownImageRank entry.name < kKnownImages.length) ∨
    attributeString store.rootAttributes "type" = "image_dataset"

/-- What a profile is to make of a store with these entries. -/
structure Decides (entries : List NodeEntry) (inspection : SchemaInspection) : Prop where
  lists : Lists store entries inspection.discovery
  isMatch : inspection.probe.kind = .isMatch ↔ (∃ entry ∈ entries, Opens store entry) ∧ Whole store
  noMatch : inspection.probe.kind = .noMatch ↔ (¬ ∃ entry ∈ entries, Opens store entry) ∧
    ¬ ((∃ entry ∈ entries, IsMalformed store entry) ∧ LooksLikeImages store entries)
  /-- Where none opens, the first thing said is what is malformed. -/
  reason : (¬ ∃ entry ∈ entries, Opens store entry) → (∃ entry ∈ entries, IsMalformed store entry) →
    ∃ d ∈ inspection.probe.diagnostics.head?, ∃ entry ∈ entries, IsMalformed store entry ∧
      d.nodePath = entry.name
  /-- Where one opens and the dataset is not whole, the last is what it lacks. -/
  lacks : (∃ entry ∈ entries, Opens store entry) → ¬ Whole store →
    ∃ d ∈ inspection.probe.diagnostics.getLast?, Lacks store d.nodePath
  said : ∀ entry ∈ entries, IsReported store entry →
    ∃ d ∈ inspection.probe.diagnostics, d.nodePath = entry.name
  reported : ∀ d ∈ inspection.probe.diagnostics,
    (∃ entry ∈ entries, IsReported store entry ∧ d.nodePath = entry.name) ∨ Lacks store d.nodePath

/-- What is to come of inspecting a store that answers with these entries, or has none to answer
with. -/
inductive Inspects : Except OpenFailure SchemaInspection → Except Error (List NodeEntry) → Prop
  | decided {inspection : SchemaInspection} {entries : List NodeEntry}
    (h : Decides store entries inspection) :
      Inspects (.ok inspection) (.ok entries)
  | unread {entries : List NodeEntry} {e : Error} (hopens : ∃ entry ∈ entries, Opens store entry)
      (hunread : Unread store e) : Inspects (.error (.refused e)) (.ok entries)
  | refused {e e' : Error} (hsame : Store.SameAnswer e e') :
      Inspects (.error (.refused e)) (.error e')

end Spec

/-! ## A report latches -/

open Store

variable {store : Store} {outages : Outages} {report : ProbeReport} {p q : Prop}

namespace ProbeReport

theorem not_ok_fail (code : DiagnosticCode) (message nodePath : String) :
    (report.fail code message nodePath).ok = false := rfl

theorem requireCoordinateSystem_of_not_ok (h : report.ok = false) (rootAttributes : Json) :
    report.requireCoordinateSystem rootAttributes = report := by
  unfold requireCoordinateSystem
  rw [h]
  rfl

theorem requireCoordinates_of_not_ok (h : report.ok = false) (coordinates : List Coordinate) :
    requireCoordinates store outages coordinates report = pure report := by
  induction coordinates with
  | nil => rfl
  | cons coordinate coordinates ih =>
    have hone : report.requireCoordinate store outages coordinate = pure report := by
      unfold requireCoordinate
      rw [h]
      rfl
    rw [requireCoordinates, hone, pure_bind, ih]

end ProbeReport

theorem Latches.not_ok {after : ProbeReport} (h : Latches store report p after)
    (hp : ¬ p) : after.ok = false := by
  cases h with
  | met h => exact absurd h hp
  | unmet => rfl
  | unread => simp [ProbeReport.ok]

theorem Latches.eq_of_met {after : ProbeReport} (h : Latches store report p after)
    (hp : p) : after = report := by
  cases h with
  | met => rfl
  | unmet h => exact absurd hp h
  | unread h => exact absurd hp h

/-- A requirement that follows one that is met. -/
theorem Latches.and_of_left {after : ProbeReport} (hp : p) (h : Latches store report q after) :
    Latches store report (p ∧ q) after := by
  cases h with
  | met h => exact .met ⟨hp, h⟩
  | unmet h d hd => exact .unmet (fun hand => h hand.2) d hd
  | unread h e he => exact .unread (fun hand => h hand.2) e he

/-- One that follows one that is not. -/
theorem Latches.and_of_not {after : ProbeReport} (hp : ¬ p) (h : Latches store report p after) :
    Latches store report (p ∧ q) after := by
  cases h with
  | met h => exact absurd h hp
  | unmet _ d hd => exact .unmet (fun hand => hp hand.1) d hd
  | unread _ e he => exact .unread (fun hand => hp hand.1) e he

theorem Latches.congr {after : ProbeReport} (h : Latches store report p after) (hpq : p ↔ q) :
    Latches store report q after := by
  rwa [← propext hpq]

/-! ## What is required -/

/-- What is wrong with the direction is said of the coordinate system. -/
theorem nodePath_of_readCoordinateSystem {rootAttributes : Json} {e : Error}
    (h : readCoordinateSystem rootAttributes = .error e) :
    e.nodePath = "/attributes/coordinate_system_info" := by
  unfold readCoordinateSystem at h
  dsimp only at h
  repeat' split at h
  all_goals cases h
  all_goals rfl

theorem hasCoordinate_document {coordinate : Coordinate} (h : HasCoordinate store coordinate) :
    ∃ document, store.nodeAnswer coordinate.name = .ok document := by
  obtain ⟨array, harray, -⟩ := h
  obtain ⟨document, hdocument, -⟩ := bind_eq_ok_iff.1 harray
  exact ⟨document, hdocument⟩

/-- The array of a coordinate, once it is read. -/
theorem latches_requireCoordinateArray (hok : report.ok = true) {coordinate : Coordinate}
    (hsky : coordinate ∈ skyCoordinates) {metadata : Except Error ArrayMetadata}
    (hmetadata : SameAnswer metadata (store.arrayAnswer coordinate.name)) :
    Latches store report (HasCoordinate store coordinate)
      (report.requireCoordinateArray coordinate metadata) := by
  have hlacks : ¬ HasCoordinate store coordinate → Lacks store coordinate.name := fun h =>
    .inl ⟨coordinate, hsky, rfl, h⟩
  have hfails : ∀ (e : Error) code message, ¬ HasCoordinate store coordinate →
      Latches store report (HasCoordinate store coordinate)
          (report.fail code message coordinate.name) :=
    fun e code message h => .unmet h ⟨code, message, coordinate.name⟩ (hlacks h)
  unfold ProbeReport.requireCoordinateArray ProbeReport.requireArrayMetadata
  rw [hok]
  cases metadata with
  | error e =>
    obtain ⟨e', hanswer, -⟩ := hmetadata.exists_error
    refine hfails e _ _ ?_
    rintro ⟨array, harray, -⟩
    rw [hanswer] at harray
    cases harray
  | ok array =>
    have hanswer := hmetadata.ok
    dsimp only
    cases hchecked : checkCoordinate array coordinate with
    | ok _ => exact .met ⟨array, hanswer, hchecked⟩
    | error e =>
      refine hfails e _ _ ?_
      rintro ⟨array', harray', hchecked'⟩
      obtain rfl := Except.ok.inj (hanswer.symm.trans harray')
      rw [hchecked] at hchecked'
      cases hchecked'

theorem later_requireCoordinates (coordinates : List Coordinate) (report : ProbeReport) :
    Moves (Later store outages) (ProbeReport.requireCoordinates store outages
      coordinates report) := by
  induction coordinates generalizing report with
  | nil => exact Moves.pure _
  | cons coordinate coordinates ih =>
    refine Moves.bind ?_ fun report => ih report
    unfold ProbeReport.requireCoordinate
    split
    · exact Moves.pure _
    · refine (later_readNodeMetadata _).bind fun r => ?_
      cases r with
      | error e => dsimp only; split_ifs <;> exact Moves.pure _
      | ok document => exact (later_readArrayMetadata _).bind fun _ => Moves.pure _

theorem later_requireImage (imageId : String) (report : ProbeReport) :
    Moves (Later store outages) (requireImage store outages imageId report) := by
  refine (later_readArrayMetadata imageId).bind fun metadata => ?_
  dsimp only
  split_ifs
  · exact (later_requireCoordinates _ _).bind fun _ => Moves.pure _
  · exact Moves.pure _

theorem later_inspectImages : Moves (Later store outages) (inspectImages store outages) := by
  refine later_discoverImages.bind fun r => ?_
  cases r with
  | error e => exact Moves.pure _
  | ok found =>
    dsimp only
    split
    · exact Moves.pure _
    · exact (later_requireImage _ _).bind fun _ => Moves.pure _

section Ask

variable (hfiled : store.Filed) (hout : outages.Transient True)
include hfiled hout

theorem right_requireCoordinate (hok : report.ok = true) {coordinate : Coordinate}
    (hsky : coordinate ∈ skyCoordinates) :
    store.Right outages (fun after p => Latches store report p after)
      (report.requireCoordinate store outages coordinate) (HasCoordinate store coordinate) := by
  have hnot : ∀ e, store.nodeAnswer coordinate.name = .error e →
      ¬ HasCoordinate store coordinate := by
    intro e he h
    obtain ⟨document, hdocument⟩ := hasCoordinate_document h
    rw [he] at hdocument
    cases hdocument
  have hkeeps := (right_readArrayMetadata hfiled hout coordinate.name).keeps
  unfold ProbeReport.requireCoordinate
  rw [hok]
  refine (right_readNodeMetadata hfiled hout coordinate.name).bind (fun r => ?_) fun r hr => ?_
  · cases r with
    | error e => dsimp only; split_ifs <;> exact Keeps.pure _
    | ok document => exact hkeeps.bind fun _ => Keeps.pure _
  · cases r with
    | error e =>
      obtain ⟨e', hanswer, hsame⟩ := hr.exists_error
      dsimp only
      split_ifs with hcode
      · exact Right.pure (.unmet (hnot e' hanswer) ⟨_, _, coordinate.name⟩
          (.inl ⟨coordinate, hsky, rfl, hnot e' hanswer⟩))
      · exact Right.pure (.unread (hnot e' hanswer) e ⟨hcode, coordinate, hsky, e', hanswer, hsame⟩)
    | ok document =>
      exact (right_readArrayMetadata hfiled hout coordinate.name).bind
          (fun _ => Keeps.pure _) fun metadata hmetadata =>
        Right.pure (latches_requireCoordinateArray hok hsky hmetadata)

/-- The coordinates, one after another. -/
theorem right_requireCoordinates (hok : report.ok = true) {coordinates : List Coordinate}
    (hsky : ∀ coordinate ∈ coordinates, coordinate ∈ skyCoordinates) :
    store.Right outages (fun after p => Latches store report p after)
      (ProbeReport.requireCoordinates store outages coordinates report)
      (∀ coordinate ∈ coordinates, HasCoordinate store coordinate) := by
  induction coordinates with
  | nil => exact Right.pure (.met (by simp))
  | cons coordinate coordinates ih =>
    refine (right_requireCoordinate hfiled hout hok (hsky coordinate List.mem_cons_self)).bind
      (fun after => Keeps.of_moves hfiled hout (later_requireCoordinates coordinates after))
        fun after hafter => ?_
    by_cases hp : HasCoordinate store coordinate
    · obtain rfl := hafter.eq_of_met hp
      refine (ih fun c hc => hsky c (List.mem_cons_of_mem _ hc)).mono fun _ h => ?_
      exact (h.and_of_left hp).congr List.forall_mem_cons.symm
    · rw [ProbeReport.requireCoordinates_of_not_ok (hafter.not_ok hp)]
      exact Right.pure ((hafter.and_of_not hp).congr List.forall_mem_cons.symm)

omit hfiled hout in
/-- The direction that the root describes. -/
theorem latches_requireCoordinateSystem (hok : report.ok = true) :
    Latches store report (∃ direction, readCoordinateSystem store.rootAttributes = .ok direction)
      (report.requireCoordinateSystem store.rootAttributes) := by
  unfold ProbeReport.requireCoordinateSystem
  rw [hok]
  cases hread : readCoordinateSystem store.rootAttributes with
  | ok direction => exact .met ⟨direction, rfl⟩
  | error e =>
    refine .unmet (by simp) ⟨.invalidMetadata, e.message, e.nodePath⟩ (.inr ⟨?_, e, hread⟩)
    exact nodePath_of_readCoordinateSystem hread

/-- What reading an image that is there needs of its dataset. -/
theorem right_requireImage (hok : report.ok = true) {imageId : String} {image : ArrayMetadata}
    (hanswer : store.arrayAnswer imageId = .ok image) :
    store.Right outages (fun after p => Latches store report p after)
      (requireImage store outages imageId report)
      (Whole store) := by
  have hwhole : Whole store ↔ (∀ coordinate ∈ skyCoordinates, HasCoordinate store coordinate) ∧
      ∃ direction, readCoordinateSystem store.rootAttributes = .ok direction :=
    ⟨fun h => ⟨h.coordinates, h.direction⟩, fun h => ⟨h.1, h.2⟩⟩
  refine (right_readArrayMetadata hfiled hout imageId).bind (fun metadata =>
    ?_) fun metadata hmetadata => ?_
  · dsimp only
    split_ifs
    · exact (Keeps.of_moves hfiled hout (later_requireCoordinates _ _)).bind fun _ => Keeps.pure _
    · exact Keeps.pure _
  · rw [hanswer] at hmetadata
    obtain ⟨image', rfl⟩ : ∃ image', metadata = .ok image' := by
      cases metadata with
      | error e => cases hmetadata
      | ok image' => exact ⟨image', rfl⟩
    have hsame : report.requireArrayMetadata (.ok image') imageId = report := by
      unfold ProbeReport.requireArrayMetadata
      rw [hok]
      rfl
    rw [hsame]
    dsimp only
    rw [if_pos hok]
    refine (right_requireCoordinates hfiled hout hok fun _ h => h).bind
        (fun _ => Keeps.pure _) fun after hafter =>
      Right.pure ?_
    by_cases hp : ∀ coordinate ∈ skyCoordinates, HasCoordinate store coordinate
    · obtain rfl := hafter.eq_of_met hp
      exact ((latches_requireCoordinateSystem hok).and_of_left hp).congr hwhole.symm
    · rw [ProbeReport.requireCoordinateSystem_of_not_ok (hafter.not_ok hp)]
      exact (hafter.and_of_not hp).congr hwhole.symm

end Ask

/-! ## The store is an image dataset or not -/

section Decide

variable {entries : List NodeEntry} {found : Discovered} {discovery : ImageDiscovery}

theorem Opens.isImage {entry : NodeEntry} (h : Opens store entry) : IsImage entry := by
  obtain ⟨hkind, image, harray, hopenable⟩ := h
  exact ⟨hkind, image, harray, hopenable.notFlag, .inl hopenable.sky⟩

/-- A listing has a first image that opens where one opens. -/
theorem Lists.none (h : Lists store entries discovery) (hnone : discovery.defaultImageId = .none) :
    ¬ ∃ entry ∈ entries, Opens store entry := by
  rintro ⟨entry, hentry, hopens⟩
  obtain ⟨image, himage, hof⟩ := h.images.all entry hentry hopens.isImage
  rw [h.first, Option.map_eq_none_iff, List.find?_eq_none] at hnone
  exact hnone image himage (hof.openable.2 hopens)

theorem Lists.some {imageId : String} (h : Lists store entries discovery)
    (hsome : discovery.defaultImageId = .some imageId) :
    ∃ entry ∈ entries, entry.name = imageId ∧ Opens store entry := by
  rw [h.first, Option.map_eq_some_iff] at hsome
  obtain ⟨image, hfind, rfl⟩ := hsome
  obtain ⟨entry, hentry, -, hof⟩ := h.images.of image (List.mem_of_find?_eq_some hfind)
  exact ⟨entry, hentry, hof.id.symm, hof.openable.1 (List.find?_some hfind)⟩

theorem perm_moveToFront {α : Type} {i : ℕ} {l : List α}
    (h : i < l.length) : (moveToFront i l).Perm l := by
  rw [moveToFront, List.getElem?_eq_getElem h]
  exact List.getElem_cons_eraseIdx_perm h

/-- Saying the reason first leaves a listing one, and what is said what it was. -/
theorem Lists.reasonFirst (h : Lists store entries found.discovery)
    (hnoted : Noted store entries found) :
    Lists store entries found.reasonFirst ∧
    found.reasonFirst.defaultImageId = found.discovery.defaultImageId ∧
      found.reasonFirst.diagnostics.Perm found.discovery.diagnostics ∧
      (found.discovery.defaultImageId = .none → (∃ entry ∈ entries, IsMalformed store entry) →
        ∃ d ∈ found.reasonFirst.diagnostics.head?, ∃ entry ∈ entries,
          IsMalformed store entry ∧ d.nodePath = entry.name) := by
  unfold Discovered.reasonFirst
  split
  · rename_i reason hnone hfirst
    obtain ⟨d, hd, entry, hentry⟩ := hnoted.first reason hfirst
    have hlt := (List.getElem?_eq_some_iff.1 hd).1
    refine ⟨⟨h.sorted, h.distinct, h.images, h.first⟩, rfl, perm_moveToFront hlt, fun _ _ =>
      ⟨d, ?_, entry, hentry⟩⟩
    simp [moveToFront, hd]
  · rename_i hnot
    refine ⟨h, rfl, .refl _, fun hnone hmalformed => ?_⟩
    obtain ⟨reason, hreason⟩ := Option.isSome_iff_exists.1 (hnoted.malformed.2 hmalformed)
    exact absurd hreason (hnot reason hnone)

/-- What a store is in which nothing opens. -/
theorem unopenedKind_spec (hnoted : Noted store entries found) :
    found.unopenedKind store.rootAttributes ≠ .isMatch ∧
    (found.unopenedKind store.rootAttributes = .noMatch ↔
      ¬ ((∃ entry ∈ entries, IsMalformed store entry) ∧ LooksLikeImages store entries)) := by
  have hlooks : found.isImageDataset store.rootAttributes = true ↔
      LooksLikeImages store entries := by
    rw [Discovered.isImageDataset, Bool.or_eq_true, decide_eq_true_eq,
      hnoted.evidence, LooksLikeImages]
  unfold Discovered.unopenedKind
  rw [← hnoted.malformed, ← hlooks]
  split_ifs with h <;> simp [h]

/-- What a store is in which something opens. -/
theorem inspects_of_latches (hlists : Lists store entries discovery)
    (hsaid : ∀ entry ∈ entries, IsReported store entry →
      ∃ d ∈ discovery.diagnostics, d.nodePath = entry.name)
    (hreported : ∀ d ∈ discovery.diagnostics, ∃ entry ∈ entries, IsReported store entry ∧
      d.nodePath = entry.name)
    (hsome : ∃ entry ∈ entries, Opens store entry) {after : ProbeReport}
    (h : Latches store { diagnostics := discovery.diagnostics } (Whole store) after) :
    Inspects store (concludeInspection after (if after.ok then .isMatch else .invalid) discovery)
      (.ok entries) := by
  cases h with
  | met h =>
    have hconclude : ∀ kind, concludeInspection
      { diagnostics := discovery.diagnostics } kind discovery =
        .ok ⟨⟨kind, kXradioImageSchema, kVersion, discovery.diagnostics⟩, discovery⟩ := fun _ => rfl
    have hok : ({ diagnostics := discovery.diagnostics } : ProbeReport).ok = true := rfl
    rw [hconclude, hok, if_pos rfl]
    exact .decided ⟨hlists, by simp [hsome, h], by simp [hsome], fun hnone => absurd hsome hnone,
      fun _ hnot => absurd h hnot, hsaid, fun d hd => .inl (hreported d hd)⟩
  | unmet h d hd =>
    have hconclude : ∀ kind, concludeInspection
        (({ diagnostics := discovery.diagnostics } : ProbeReport).fail d.code d.message
          d.nodePath) kind discovery =
          .ok ⟨⟨kind, kXradioImageSchema, kVersion, discovery.diagnostics ++ [d]⟩, discovery⟩ :=
            fun _ => rfl
    rw [hconclude, ProbeReport.not_ok_fail, if_neg (by simp)]
    refine .decided ⟨hlists, by simp [h], by simp [hsome], fun hnone => absurd hsome hnone,
      fun _ _ => ⟨d, by simp, hd⟩,
      fun entry hentry hreport => ?_, fun d' hd' => ?_⟩
    · exact (hsaid entry hentry hreport).imp fun d hd => ⟨List.mem_append_left _ hd.1, hd.2⟩
    · rcases List.mem_append.1 hd' with hd' | hd'
      · exact .inl (hreported d' hd')
      · obtain rfl := List.mem_singleton.1 hd'
        exact .inr hd
  | unread h e he => exact .unread hsome he

variable (hfiled : store.Filed) (hout : outages.Transient True)
include hfiled hout

theorem right_inspectImages :
    store.Right outages (Inspects store) (inspectImages store outages) store.inventoryAnswer := by
  refine (right_discoverImages hfiled hout).bind (fun r => ?_) fun r hr => ?_
  · cases r with
    | error e => exact Keeps.pure _
    | ok found =>
      dsimp only
      split
      · exact Keeps.pure _
      · exact (Keeps.of_moves hfiled hout (later_requireImage _ _)).bind fun _ => Keeps.pure _
  · generalize hanswer : store.inventoryAnswer = answer at hr ⊢
    cases hr with
    | refused hsame => exact Right.pure (.refused hsame)
    | @found found entries hlists hnoted =>
      obtain ⟨hlists', hdefault, hperm, hreason⟩ := hlists.reasonFirst hnoted
      have hsaid : ∀ entry ∈ entries, IsReported store entry →
          ∃ d ∈ found.reasonFirst.diagnostics, d.nodePath = entry.name := fun entry hentry h =>
        (hnoted.said entry hentry h).imp fun d hd => ⟨hperm.mem_iff.2 hd.1, hd.2⟩
      have hreported := fun d (hd : d ∈ found.reasonFirst.diagnostics) =>
        hnoted.reported d (hperm.mem_iff.1 hd)
      dsimp only
      split
      · rename_i hnone
        have hcloses := hlists'.none hnone
        obtain ⟨hnotMatch, hkind⟩ := unopenedKind_spec hnoted
        refine Right.pure (.decided ⟨hlists', ?_, ?_, fun _ => hreason (hdefault ▸ hnone),
          fun hopens => absurd hopens hcloses, hsaid, fun d hd => .inl (hreported d hd)⟩)
        · exact iff_of_false hnotMatch fun h => hcloses h.1
        · exact hkind.trans (and_iff_right hcloses).symm
      · rename_i firstImage hfirst
        obtain ⟨entry, hentry, rfl, hopens⟩ := hlists'.some hfirst
        have hsome : ∃ entry ∈ entries, Opens store entry := ⟨entry, hentry, hopens⟩
        obtain ⟨-, image, harray, -⟩ := hopens
        have himage := (((inventoryAnswer_eq_ok hfiled hanswer).2 entry hentry).2 _ harray).2
        refine (right_requireImage hfiled hout rfl himage.symm).bind
            (fun _ => Keeps.pure _) fun after hafter =>
          Right.pure ?_
        exact inspects_of_latches hlists' hsaid hreported hsome hafter

end Decide

section Sessions

variable {backing : Backing} {outages' : Outages} {s t : Session}

/-- **Whether a store is an image dataset**, whatever was asked before: it is decided as its listing
and what its dataset has require, or refused for a document that could not be read, unless a read
that was made to decide it failed. -/
theorem inspectImages_decides (hopen : openStore backing = .ok store)
    (hout : outages.Transient True)
    (hs : store.Reached outages s) :
    outages.FailBetween s (inspectImages store outages s).2 ∨
      Inspects store (inspectImages store outages s).1 store.inventoryAnswer :=
  (right_inspectImages (openStore_filed hopen) hout s (hs.sound hopen hout)).2.2

/-- A listing has what opens, under its name. -/
theorem Lists.opens_iff {entries : List NodeEntry} {discovery : ImageDiscovery}
    (h : Lists store entries discovery)
    (hanswer : store.inventoryAnswer = .ok entries) (imageId : String) :
    (∃ image ∈ discovery.images, image.id = imageId ∧ image.openable = true) ↔
    NameOpens store imageId := by
  simp only [NameOpens, hanswer, Except.ok.injEq, exists_eq_left']
  constructor
  · rintro ⟨image, himage, rfl, hopenable⟩
    obtain ⟨entry, hentry, -, hof⟩ := h.images.of image himage
    exact ⟨entry, hentry, hof.id.symm, hof.openable.1 hopenable⟩
  · rintro ⟨entry, hentry, rfl, hopens⟩
    obtain ⟨image, himage, hof⟩ := h.images.all entry hentry hopens.isImage
    exact ⟨image, himage, hof.id, hof.openable.2 hopens⟩

/-- **What is listed as opening is what opens by name**, in any two sessions of a store, unless a
read that was made for the listing or for the name failed. -/
theorem listed_iff_opens (hopen : openStore backing = .ok store) (hout : outages.Transient True)
    (hout' : outages'.Transient True) (hs : store.Reached outages s) (ht : store.Reached outages' t)
    {inspection : SchemaInspection}
    (hinspection : (inspectImages store outages s).1 = .ok inspection)
    (imageId : String) :
    outages.FailBetween s (inspectImages store outages s).2 ∨
      outages'.FailBetween t (requireQualified store outages' imageId t).2 ∨
      ((∃ image ∈ inspection.discovery.images, image.id = imageId ∧ image.openable = true) ↔
        (requireQualified store outages' imageId t).1 = .ok ()) := by
  rcases (right_inspectImages (openStore_filed hopen) hout s (hs.sound hopen hout)).2.2
    with hfails | hinspects
  · exact .inl hfails
  rcases (right_requireQualified (openStore_filed hopen) hout' imageId t (ht.sound hopen hout')).2.2
    with hfails | hname
  · exact .inr (.inl hfails)
  rw [hinspection] at hinspects
  generalize hanswer : store.inventoryAnswer = answer at hinspects
  cases hinspects with
  | decided hdecides =>
    exact .inr (.inr ((hdecides.lists.opens_iff hanswer imageId).trans hname.symm))

end Sessions

/-- What is made of a store of an image whose dataset has none of its coordinates. -/
def maskedCubeInspection : SchemaInspection where
  probe := ⟨.invalid, kXradioImageSchema, kVersion,
    [⟨.invalidMetadata, "Missing required coordinate array", "l"⟩]⟩
  discovery := ⟨[⟨"SKY", true, [], "", [⟨⟨"l", .spatialX, 3, 3⟩, ""⟩, ⟨⟨"m", .spatialY, 4, 4⟩, ""⟩,
    ⟨⟨"frequency", .spectral, 2, 1⟩, ""⟩, ⟨⟨"polarization", .polarization, 1, 2⟩, ""⟩,
    ⟨⟨"time", .time, 1, 0⟩, ""⟩]⟩], some "SKY", []⟩

theorem inspectImages_decides_maskedCube :
    Outages.FailBetween (fun _ => none) maskedCubeStore.initial
        (inspectImages maskedCubeStore (fun _ => none) maskedCubeStore.initial).2 ∨
      Inspects maskedCubeStore (inspectImages maskedCubeStore
        (fun _ => none) maskedCubeStore.initial).1
        maskedCubeStore.inventoryAnswer :=
  have hopen : openStore maskedCube = .ok maskedCubeStore := rfl
  inspectImages_decides hopen transient_none .initial

theorem listed_iff_opens_maskedCube :
    Outages.FailBetween (fun _ => none) maskedCubeStore.initial
        (inspectImages maskedCubeStore (fun _ => none) maskedCubeStore.initial).2 ∨
      Outages.FailBetween (fun _ => none) maskedCubeStore.initial
        (requireQualified maskedCubeStore (fun _ => none) "SKY" maskedCubeStore.initial).2 ∨
      ((∃ image ∈ maskedCubeInspection.discovery.images, image.id = "SKY" ∧ image.openable = true) ↔
        (requireQualified maskedCubeStore (fun _ => none) "SKY" maskedCubeStore.initial).1 =
          .ok ()) :=
  have hopen : openStore maskedCube = .ok maskedCubeStore := rfl
  have hinspection : (inspectImages maskedCubeStore (fun _ => none) maskedCubeStore.initial).1 =
      .ok maskedCubeInspection := by rfl
  listed_iff_opens hopen transient_none transient_none .initial .initial hinspection "SKY"

end CartaZarr
