import CartaZarr.Store.Verbatim
import CartaZarr.Xradio.Steadfast

/-!
# What a listing offers opens

Of a store that is always read, an inspection lists as opening what opens by name, and nothing else;
and where it calls the store a match, each image that it lists so is described from any samples,
with the axes and the role of its entry, once the flag it is read with holds to its own document
(`inspectImages_offers`). What closes an image, a flag that cannot mask it or data groups that
contradict each other, is asked of its entry first.

An inspection can end without a listing where an image opens: a coordinate whose document is there
and cannot be read is no reason against the image, and stops the inspection
(`inspectImages_unparsedCube`).
-/

namespace CartaZarr

open Store

variable {store : Store}

/-- What is right unless a read failed is right where none does. -/
theorem Right.of_allMade {α β : Type} {right : α → β → Prop} {x : StateM Session α} {y : β}
    (h : store.Right allMade right x y) {s : Session} (hs : store.Sound True s) :
    right (x s).1 y :=
  (h s hs).2.2.resolve_left (not_failBetween_allMade _ _)

/-- What an inspection offers is what opens, and is described as it says. -/
structure Offers (store : Store) (inspection : SchemaInspection) : Prop where
  opens : ∀ imageId t, Reached store allMade t →
    ((requireQualified store allMade imageId t).1 = .ok () ↔
      ∃ entry ∈ inspection.discovery.images, entry.id = imageId ∧ entry.openable = true)
  /-- No declared flag closes an image that is offered, nor do its data groups. -/
  selects : ∀ entry ∈ inspection.discovery.images, entry.openable = true →
    ∀ t, Reached store allMade t → ∃ image flag,
      (store.readArrayMetadata allMade entry.id t).1 = .ok image ∧
      (determineFlag store allMade image entry.id [] t).1.1 = .ok flag
  describes : inspection.probe.kind = .isMatch →
    ∀ entry ∈ inspection.discovery.images, entry.openable = true →
      ∀ values t, Reached store allMade t →
        (∀ image flag, (store.readArrayMetadata allMade entry.id t).1 = .ok image →
          (determineFlag store allMade image entry.id [] t).1.1 = .ok flag → flag ≠ "" →
            ∃ own, (store.verifyArray allMade flag t).1 = .ok own) →
        ∃ described, (describeImageFrom store allMade entry.id values t).1 = .ok described ∧
          described.report.axes = entry.axes ∧ described.report.imageRole = entry.imageRole

section Offers

variable {backing : Backing} (hopen : openStore backing = .ok store)
include hopen

/-- The flag of a name that opens, as it is selected. -/
theorem selects_of_opens {imageId : String} (hopens : NameOpens store imageId) {t : Session}
    (ht : Reached store allMade t) :
    ∃ entries image, store.inventoryAnswer = .ok entries ∧ store.arrayAnswer imageId = .ok image ∧
      (store.readArrayMetadata allMade imageId t).1 = .ok image ∧
      (determineFlag store allMade image imageId [] t).1.1 =
        .ok (flagAnswer store image imageId entries).1 := by
  have hfiled := openStore_filed hopen
  have hsound := ht.sound hopen transient_none
  obtain ⟨entries, image, hanswer, himage, hopenable⟩ := hopens.image hfiled
  have hread := Right.of_allMade (right_readArrayMetadata hfiled transient_none imageId) hsound
  rw [himage] at hread
  exact ⟨entries, image, hanswer, himage, hread.symm.ok,
    (Right.of_allMade (right_determineFlag hfiled transient_none hopenable.flag hanswer)
      hsound).1⟩

theorem Decides.offers {entries : List NodeEntry} {inspection : SchemaInspection}
    (h : Decides store entries inspection) (hanswer : store.inventoryAnswer = .ok entries) :
    Offers store inspection := by
  have hfiled := openStore_filed hopen
  have hopens : ∀ entry ∈ inspection.discovery.images, entry.openable = true →
      NameOpens store entry.id := fun entry hentry hopenable =>
    (h.lists.opens_iff hanswer entry.id).1 ⟨entry, hentry, rfl, hopenable⟩
  refine ⟨fun imageId t ht => ?_, fun entry hentry hopenable t ht => ?_,
    fun hmatch entry hentry hopenable values t ht hverified => ?_⟩
  · rw [h.lists.opens_iff hanswer imageId]
    exact Right.of_allMade (right_requireQualified hfiled transient_none imageId)
      (ht.sound hopen transient_none)
  · obtain ⟨entries', image, -, -, hread, hselects⟩ :=
      selects_of_opens hopen (hopens entry hentry hopenable) ht
    exact ⟨image, _, hread, hselects⟩
  · have hname := hopens entry hentry hopenable
    have hsound := ht.sound hopen transient_none
    obtain ⟨entries', image, hanswer', himage, hread, hselects⟩ := selects_of_opens hopen hname ht
    -- the flag that is selected holds, and the root describes a direction
    have hflag : ∀ entries image, store.inventoryAnswer = .ok entries →
        store.arrayAnswer entry.id = .ok image →
        (flagAnswer store image entry.id entries).1 ≠ "" →
          ∃ own, store.verifyAnswer (flagAnswer store image entry.id entries).1 = .ok own := by
      intro entries₁ image₁ hanswer₁ himage₁ hne
      obtain rfl := Except.ok.inj (hanswer'.symm.trans hanswer₁)
      obtain rfl := Except.ok.inj (himage.symm.trans himage₁)
      obtain ⟨own, hown⟩ := hverified image _ hread hselects hne
      have hverify := Right.of_allMade (right_verifyArray hfiled transient_none
        (flagAnswer store image entry.id entries').1) hsound
      rw [hown] at hverify
      exact ⟨own, hverify.ok⟩
    obtain ⟨image₁, described, himage₁, hdescription⟩ :=
      exists_isDescription hfiled hname (h.isMatch.1 hmatch).2.direction hflag values
    have hdescribed := (Right.of_allMade (right_describeImageFrom hfiled transient_none entry.id
      values) hsound described).2 ⟨hname, image₁, himage₁, hdescription⟩
    obtain ⟨other, -, hsame, -, hrole, haxes⟩ :=
      h.lists.as_reported hopen hanswer hname himage₁ hdescription.report
    obtain rfl := (hsame entry hentry).1 rfl
    exact ⟨described, hdescribed, haxes.symm, hrole.symm⟩

/-- **What is offered is what opens**, of a store that is always read: an inspection lists as
opening the names that open, and those of a match are described as they are listed. One that ends
without a listing found no name that opens, or the document of a coordinate that it could not
read. -/
theorem inspectImages_offers {s : Session} (hs : Reached store allMade s) :
    (∀ inspection, (inspectImages store allMade s).1 = .ok inspection →
      Offers store inspection) ∧
    ∀ failure, (inspectImages store allMade s).1 = .error failure →
      (∀ imageId t, Reached store allMade t →
        (requireQualified store allMade imageId t).1 ≠ .ok ()) ∨
      ∃ coordinate ∈ skyCoordinates, ∃ e, store.nodeAnswer coordinate.name = .error e ∧
        e.code ≠ .notFound := by
  have hfiled := openStore_filed hopen
  have hinspects := Right.of_allMade (right_inspectImages hfiled transient_none)
    (hs.sound hopen transient_none)
  constructor
  · intro inspection hinspection
    rw [hinspection] at hinspects
    generalize hanswer : store.inventoryAnswer = answer at hinspects
    cases hinspects with
    | decided hdecides => exact hdecides.offers hopen hanswer
  · intro failure hfailure
    rw [hfailure] at hinspects
    generalize hanswer : store.inventoryAnswer = answer at hinspects
    cases hinspects with
    | unread hopens hunread =>
      obtain ⟨hcode, coordinate, hsky, e', hanswer', hsame⟩ := hunread
      exact .inr ⟨coordinate, hsky, e', hanswer', hsame.code ▸ hcode⟩
    | refused hsame =>
      refine .inl fun imageId t ht hqualified => ?_
      obtain ⟨entries, hentries, -⟩ := (Right.of_allMade
        (right_requireQualified hfiled transient_none imageId)
        (ht.sound hopen transient_none)).1 hqualified
      rw [hanswer] at hentries
      cases hentries

end Offers

/-- What is made of a store of an image with everything that describing it needs. -/
def wholeCubeInspection : SchemaInspection where
  probe := ⟨.isMatch, kXradioImageSchema, kVersion, []⟩
  discovery := ⟨[⟨"SKY", true, [], "sky", [⟨⟨"l", .spatialX, 3, 3⟩, ""⟩,
    ⟨⟨"m", .spatialY, 4, 4⟩, ""⟩, ⟨⟨"frequency", .spectral, 2, 1⟩, ""⟩,
    ⟨⟨"polarization", .polarization, 1, 2⟩, ""⟩, ⟨⟨"time", .time, 1, 0⟩, ""⟩]⟩], some "SKY", []⟩

theorem inspectImages_offers_wholeCube :
    (inspectImages wholeCubeStore allMade wholeCubeStore.initial).1 = .ok wholeCubeInspection ∧
    Offers wholeCubeStore wholeCubeInspection :=
  have hinspection : (inspectImages wholeCubeStore allMade wholeCubeStore.initial).1 =
      .ok wholeCubeInspection := by decide +kernel
  ⟨hinspection, (inspectImages_offers (show openStore wholeCube = .ok wholeCubeStore from rfl)
    .initial).1 _ hinspection⟩

/-- The whole cube with a document of `l` that is no JSON. -/
def unparsedCube : Backing :=
  { wholeCube with
    parseJson := fun bytes =>
      if bytes = [4] then .malformed "unexpected end of input" else wholeCube.parseJson bytes }

def unparsedCubeStore : Store := { wholeCubeStore with backing := unparsedCube }

/-- An image opens by name of which an inspection offers nothing, as it does not end in one. -/
theorem inspectImages_unparsedCube :
    openStore unparsedCube = .ok unparsedCubeStore ∧
    (requireQualified unparsedCubeStore allMade "SKY" unparsedCubeStore.initial).1 = .ok () ∧
    (inspectImages unparsedCubeStore allMade unparsedCubeStore.initial).1 =
      .error (.refused ⟨.invalidMetadata,
        "Invalid JSON in Zarr metadata: unexpected end of input", "l"⟩) :=
  ⟨rfl, by decide +kernel, by decide +kernel⟩

end CartaZarr
