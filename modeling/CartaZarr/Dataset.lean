import CartaZarr.Xradio.Steadfast

/-!
# A dataset and the images opened of it

Opening a dataset inspects its store once, and what it lists is what the inspection found. Opening
an image describes it, unless it was described before: a description that was given is kept.
Whatever is asked of the store between, in whatever order images are opened and whichever reads
fail, a kept description is the one that the store answers with (`Dataset.Keeps`), so that an image
that opened once opens from then on as it did, without a read, and as the dataset lists it
(`openImage_agrees`).
-/

namespace CartaZarr

open Store

/-- What the profiles together make of a store. -/
inductive ProbeKind
  | zarrWithoutSupportedSchema | supportedDataset | invalidDataset
  deriving DecidableEq, Repr

structure DatasetDescriptor where
  schemaId : String := ""
  schemaVersion : String := ""
  images : List ImageEntry := []
  defaultImageId : Option String := none
  diagnostics : List Diagnostic := []

/-- A descriptor, as far as the kind allows. -/
structure ProbeResult extends DatasetDescriptor where
  kind : ProbeKind := .zarrWithoutSupportedSchema

def rejectionMessage (diagnostics : List Diagnostic) (fallback : String) : String :=
  (diagnostics.head?.map Diagnostic.message).getD fallback

/-- The inspections that decided for a kind. -/
def SchemaInspection.ofKind (inspections : List SchemaInspection)
    (kind : SchemaMatchKind) : List SchemaInspection :=
  inspections.filter fun inspection => inspection.probe.kind = kind

/-- What comes of the inspections of all profiles: the one that matched, the first that is invalid,
or the first reason that one that did not match had to give. -/
def concludeProbe (inspections : List SchemaInspection) : ProbeResult :=
  match SchemaInspection.ofKind inspections .isMatch with
  | [found] =>
    { kind := .supportedDataset
      schemaId := found.probe.schemaId
      schemaVersion := found.probe.schemaVersion
      images := found.discovery.images
      defaultImageId := found.discovery.defaultImageId
      diagnostics := found.probe.diagnostics }
  | _ :: _ :: _ =>
    { kind := .invalidDataset
      diagnostics :=
        [⟨.ambiguousSchema, "More than one built-in schema profile matched the Zarr store", ""⟩] }
  | [] =>
    match SchemaInspection.ofKind inspections .invalid with
    | first :: _ =>
      { kind := .invalidDataset
        schemaId := first.probe.schemaId
        schemaVersion := first.probe.schemaVersion
        diagnostics := first.probe.diagnostics }
    | [] =>
      { diagnostics := (((SchemaInspection.ofKind inspections .noMatch).map fun inspection =>
          inspection.probe.diagnostics).find? fun diagnostics => ¬ diagnostics.isEmpty).getD [] }

def requireOpenableDataset (probe : ProbeResult) (location : String) : Except Error Unit :=
  if probe.kind ≠ .supportedDataset then
    .error ⟨if probe.kind = .invalidDataset then .invalidMetadata else .unsupportedSchema,
      rejectionMessage probe.diagnostics
        "No built-in schema profile matched the Zarr store", location⟩
  else if probe.images.isEmpty then
    .error ⟨.invalidMetadata, "Supported schema has no image variables", location⟩
  else .ok ()

/-- The one profile that is built in has this schema. -/
def requireProfile (schemaId : String) : Except Error Unit :=
  if schemaId = kXradioImageSchema then .ok ()
  else .error ⟨.unsupportedSchema, "No built-in profile exists for schema " ++ schemaId, ""⟩

section Probe

variable (store : Store) (outages : Outages)

/-- Ask the one profile that is built in. -/
def probeStore : StateM Session (Except OpenFailure ProbeResult) := do
  match ← inspectImages store outages with
  | .error e => return .error e
  | .ok inspection => return .ok (concludeProbe [inspection])

/-- What opening a dataset makes of its store. -/
def probeDataset (location : String) : StateM Session (Except OpenFailure DatasetDescriptor) := do
  match ← probeStore store outages with
  | .error e => return .error e
  | .ok probe =>
    match requireOpenableDataset probe location with
    | .error e => return .error (.refused e)
    | .ok _ =>
      match requireProfile probe.schemaId with
      | .error e => return .error (.refused e)
      | .ok _ => return .ok probe.toDatasetDescriptor

end Probe

/-- What a dataset keeps: what its store remembers, and the images that were described. -/
structure Dataset where
  session : Session
  imageDescriptors : List (String × DescribedImage)

namespace Dataset

variable (store : Store) (outages : Outages)

/-- A dataset none of whose images was opened. -/
def opened (location : String) : Dataset :=
  ⟨(probeDataset store outages location store.initial).2, []⟩

/-- Open an image, by what was kept of it. -/
def openImage (dataset : Dataset)
    (imageId : String) : Except OpenFailure DescribedImage × Dataset :=
  match dataset.imageDescriptors.lookup imageId with
  | some described => (.ok described, dataset)
  | none =>
    let answer := describeImage store outages imageId dataset.session
    match answer.1 with
    | .error e => (.error e, ⟨answer.2, dataset.imageDescriptors⟩)
    | .ok described => (.ok described, ⟨answer.2, (imageId, described) :: dataset.imageDescriptors⟩)

/-- What is done with a dataset and its images. -/
inductive Action
  | openImage (imageId : String)
  | ask (request : Request)

def step (dataset : Dataset) : Action → Dataset
  | .openImage imageId => (dataset.openImage store outages imageId).2
  | .ask request => ⟨store.after outages dataset.session request, dataset.imageDescriptors⟩

def run (dataset : Dataset) (actions : List Action) : Dataset :=
  actions.foldl (step store outages) dataset

/-- What is kept of an image is what its store answers with. -/
structure Keeps (dataset : Dataset) : Prop where
  reached : Reached store outages dataset.session
  described : ∀ imageId described, dataset.imageDescriptors.lookup imageId = some described →
    DescribedAs store imageId described

variable {store outages} {dataset : Dataset} {imageId : String} {described : DescribedImage}

/-! ## Opening an image -/

theorem openImage_of_kept (h : dataset.imageDescriptors.lookup imageId = some described) :
    dataset.openImage store outages imageId = (.ok described, dataset) := by
  rw [openImage, h]

/-- An image that opens was described, before or now, and is kept. -/
theorem lookup_of_openImage (h : (dataset.openImage store outages imageId).1 = .ok described) :
    (dataset.openImage store outages imageId).2.imageDescriptors.lookup imageId =
      some described := by
  cases hkept : dataset.imageDescriptors.lookup imageId with
  | some kept =>
    rw [openImage_of_kept hkept] at h ⊢
    rw [← Except.ok.inj h]
    exact hkept
  | none =>
    unfold openImage at h ⊢
    rw [hkept] at h ⊢
    dsimp only at h ⊢
    cases hanswer : (describeImage store outages imageId dataset.session).1 with
    | error e =>
      rw [hanswer] at h
      cases h
    | ok given =>
      rw [hanswer] at h
      cases h
      exact List.lookup_cons_self

/-- What is kept stays kept. -/
theorem lookup_openImage (h : dataset.imageDescriptors.lookup imageId = some described)
    (other : String) :
    (dataset.openImage store outages other).2.imageDescriptors.lookup imageId = some described := by
  cases hkept : dataset.imageDescriptors.lookup other with
  | some kept =>
    rw [openImage_of_kept hkept]
    exact h
  | none =>
    have hne : imageId ≠ other := by
      rintro rfl
      rw [hkept] at h
      cases h
    unfold openImage
    rw [hkept]
    dsimp only
    cases (describeImage store outages other dataset.session).1 with
    | error e => exact h
    | ok given =>
      rw [List.lookup_cons, beq_false_of_ne hne]
      exact h

theorem lookup_step (h : dataset.imageDescriptors.lookup imageId = some described)
    (action : Action) :
    (dataset.step store outages action).imageDescriptors.lookup imageId = some described := by
  cases action with
  | openImage other => exact lookup_openImage h other
  | ask request => exact h

theorem lookup_run (h : dataset.imageDescriptors.lookup imageId = some described)
    (actions : List Action) :
    (dataset.run store outages actions).imageDescriptors.lookup imageId = some described := by
  induction actions generalizing dataset with
  | nil => exact h
  | cons action actions ih => exact ih (lookup_step h action)

section Run

variable {backing : Backing} (hopen : openStore backing = .ok store) (hout : outages.Transient True)
  (h : dataset.Keeps store outages)
include hopen hout h

/-- Opening an image keeps what is true of what is kept. -/
theorem Keeps.openImage (imageId : String) :
    (dataset.openImage store outages imageId).2.Keeps store outages := by
  cases hkept : dataset.imageDescriptors.lookup imageId with
  | some kept =>
    rw [openImage_of_kept hkept]
    exact h
  | none =>
    have hlater : Later store outages dataset.session
        (describeImage store outages imageId dataset.session).2 :=
      later_describeImage imageId dataset.session
    unfold Dataset.openImage
    rw [hkept]
    dsimp only
    cases hanswer : (describeImage store outages imageId dataset.session).1 with
    | error e => exact ⟨h.reached.later hlater, h.described⟩
    | ok given =>
      refine ⟨h.reached.later hlater, fun name described hlookup => ?_⟩
      dsimp only at hlookup
      rw [List.lookup_cons] at hlookup
      by_cases hname : name = imageId
      · subst hname
        rw [beq_self_eq_true] at hlookup
        rw [← Option.some.inj hlookup]
        exact describedAs_of_describeImage hopen hout h.reached hanswer
      · rw [beq_false_of_ne hname] at hlookup
        exact h.described name described hlookup

theorem Keeps.step (action : Action) : (dataset.step store outages action).Keeps store outages := by
  cases action with
  | openImage other => exact Keeps.openImage hopen hout h other
  | ask request => exact ⟨h.reached.after request, h.described⟩

theorem Keeps.run (actions : List Action) :
    (dataset.run store outages actions).Keeps store outages := by
  induction actions generalizing dataset with
  | nil => exact h
  | cons action actions ih => exact ih (Keeps.step hopen hout h action)

end Run

end Dataset

/-! ## Opening a dataset -/

section Open

variable {store : Store} {outages : Outages}

theorem probeStore_run (s : Session) : probeStore store outages s =
    ((inspectImages store outages s).1.map fun inspection => concludeProbe [inspection],
      (inspectImages store outages s).2) := by
  rcases hinspect : inspectImages store outages s with ⟨r, t⟩
  have hrun : probeStore store outages s = _ := bind_run hinspect
  rw [hrun]
  cases r <;> rfl

/-- A dataset lists what the inspection of its store found, and opening it reads no more. -/
theorem probeDataset_run (location : String) (s : Session) :
    (probeDataset store outages location s).2 = (inspectImages store outages s).2 ∧
      ∀ descriptor, (probeDataset store outages location s).1 = .ok descriptor →
        ∃ inspection, (inspectImages store outages s).1 = .ok inspection ∧
          descriptor.images = inspection.discovery.images := by
  have hrun : probeDataset store outages location s = _ := bind_run (probeStore_run s)
  rw [hrun]
  cases (inspectImages store outages s).1 with
  | error e => exact ⟨rfl, fun _ h => by cases h⟩
  | ok inspection =>
    dsimp only [Except.map]
    cases hrequire : requireOpenableDataset (concludeProbe [inspection]) location with
    | error e => exact ⟨rfl, fun _ h => by cases h⟩
    | ok u =>
      cases hprofile : requireProfile (concludeProbe [inspection]).schemaId with
      | error e => exact ⟨rfl, fun _ h => by cases h⟩
      | ok u =>
        refine ⟨rfl, ?_⟩
        rintro _ ⟨⟩
        refine ⟨inspection, rfl, ?_⟩
        -- a dataset that opens is one that the profile matched
        by_cases hmatch : inspection.probe.kind = .isMatch
        · simp [concludeProbe, SchemaInspection.ofKind, hmatch]
        · have hkind : (concludeProbe [inspection]).kind ≠ .supportedDataset := by
            by_cases hinvalid : inspection.probe.kind = .invalid <;>
              simp [concludeProbe, SchemaInspection.ofKind, hmatch, hinvalid]
          rw [requireOpenableDataset, if_pos hkind] at hrequire
          cases hrequire

theorem Dataset.keeps_opened (location : String) :
    (Dataset.opened store outages location).Keeps store outages := by
  refine ⟨?_, fun _ _ h => by cases h⟩
  rw [Dataset.opened, (probeDataset_run location _).1]
  exact Reached.initial.later (later_inspectImages _)

/-- **An image that opened opens so for ever**: of a dataset that was opened, whatever was done with
it and whichever reads fail, an image that opens is what its store answers with and nothing else.
Whatever is done from then on it opens as it did, without a read; and the dataset lists it, once, as
opening and with the axes it opens with, unless a read failed while the dataset was opened. -/
theorem openImage_agrees {backing : Backing} (hopen : openStore backing = .ok store)
    (hout : outages.Transient True)
    {location : String} {descriptor : DatasetDescriptor}
    (hdataset : (probeDataset store outages location store.initial).1 = .ok descriptor)
    (actions : List Dataset.Action) {imageId : String} {described : DescribedImage}
    (h : (((Dataset.opened store outages location).run store outages actions).openImage store
      outages imageId).1 =
      .ok described) :
    (∀ described', DescribedAs store imageId described' ↔ described' = described) ∧
      (∀ more : List Dataset.Action,
        ((Dataset.opened store outages location).run store outages
            (actions ++ .openImage imageId :: more)).openImage store outages imageId =
          (.ok described, (Dataset.opened store outages location).run store outages
            (actions ++ .openImage imageId :: more))) ∧
      (outages.FailBetween store.initial (Dataset.opened store outages location).session ∨
        ∃ image ∈ descriptor.images, (∀ other ∈ descriptor.images,
          other.id = imageId ↔ other = image) ∧
          image.openable = true ∧ image.imageRole = described.report.imageRole ∧
            image.axes = described.report.axes) := by
  have hopened : (Dataset.opened store outages location).Keeps store outages :=
    Dataset.keeps_opened location
  have hkeeps := Dataset.Keeps.run hopen hout hopened actions
  have hlookup := Dataset.lookup_of_openImage h
  have hdescribed := (Dataset.Keeps.openImage hopen hout hkeeps imageId).described
    imageId described hlookup
  refine ⟨fun described' => ⟨hdescribed.unique hopen, fun heq => heq ▸ hdescribed⟩,
    fun more => ?_, ?_⟩
  · have hrun : (Dataset.opened store outages location).run store outages
      (actions ++ .openImage imageId :: more) =
        (((Dataset.opened store outages location).run store outages actions).openImage store outages
          imageId).2.run store outages more := by
      rw [Dataset.run, List.foldl_append, List.foldl_cons]
      rfl
    rw [hrun]
    exact Dataset.openImage_of_kept (Dataset.lookup_run hlookup more)
  · -- the listing is that of the inspection that the dataset was opened by
    have hsession : (probeDataset store outages location store.initial).2 = _ :=
      (probeDataset_run location _).1
    have hlisted : ∀ descriptor, (probeDataset store outages location store.initial).1 =
        .ok descriptor → _ :=
      (probeDataset_run location _).2
    obtain ⟨inspection, hinspection, himages⟩ := hlisted descriptor hdataset
    rw [Dataset.opened, hsession, himages]
    refine (right_inspectImages (openStore_filed hopen) hout store.initial
      (Reached.initial.sound hopen hout)).2.2.imp_right fun hinspects => ?_
    rw [hinspection] at hinspects
    generalize hanswer : store.inventoryAnswer = answer at hinspects
    cases hinspects with
    | decided hdecides =>
      obtain ⟨hopens, -, values, -, metadata, harray, hdescription⟩ := hdescribed
      exact hdecides.lists.as_reported hopen hanswer hopens harray hdescription.report

end Open

theorem openImage_agrees_wholeCube :
    ∃ (descriptor : DatasetDescriptor) (described : DescribedImage),
    (probeDataset wholeCubeStore (fun _ => none) "cube.zarr" wholeCubeStore.initial).1 =
      .ok descriptor ∧
      (∀ described', DescribedAs wholeCubeStore "SKY" described' ↔ described' = described) ∧
      (∀ more : List Dataset.Action,
        ((Dataset.opened wholeCubeStore (fun _ => none) "cube.zarr").run wholeCubeStore
        (fun _ => none)
            ([.ask (.numericArray "l")] ++ .openImage "SKY" :: more)).openImage wholeCubeStore
              (fun _ => none) "SKY" =
          (.ok described, (Dataset.opened wholeCubeStore
          (fun _ => none) "cube.zarr").run wholeCubeStore
            (fun _ => none) ([.ask (.numericArray "l")] ++ .openImage "SKY" :: more))) ∧
      (Outages.FailBetween (fun _ => none) wholeCubeStore.initial
          (Dataset.opened wholeCubeStore (fun _ => none) "cube.zarr").session ∨
        ∃ image ∈ descriptor.images, (∀ other ∈ descriptor.images,
          other.id = "SKY" ↔ other = image) ∧
          image.openable = true ∧ image.imageRole = described.report.imageRole ∧
            image.axes = described.report.axes) := by
  have hopen : openStore wholeCube = .ok wholeCubeStore := rfl
  obtain ⟨descriptor, hdataset⟩ : ∃ descriptor,
      (probeDataset wholeCubeStore (fun _ => none) "cube.zarr" wholeCubeStore.initial).1 =
          .ok descriptor :=
    exists_of_isSome_toOption (by decide +kernel)
  obtain ⟨described, hdescribed⟩ : ∃ described,
      (((Dataset.opened wholeCubeStore (fun _ => none) "cube.zarr").run wholeCubeStore
        (fun _ => none)
        [.ask (.numericArray "l")]).openImage wholeCubeStore
            (fun _ => none) "SKY").1 = .ok described :=
    exists_of_isSome_toOption (by decide +kernel)
  exact ⟨descriptor, described, hdataset,
    openImage_agrees hopen transient_none hdataset _ hdescribed⟩

end CartaZarr
