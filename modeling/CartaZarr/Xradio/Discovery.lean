import Mathlib.Data.List.Sort
import CartaZarr.Xradio.Described

/-!
# The images of a store

`discoverImages` lists the images of a store: once each, those that are known by name first, and the
others by name; one that does not open with the reason, and one that opens with its axes. The
listing is what the store answers of each of its nodes (`right_discoverImages`), so that what is
listed as opening is what opens by name (`listed_iff_opens`).
-/

namespace CartaZarr

/-! ## The listing -/

/-- One image of a listing, and what can be said of it without opening it. -/
structure ImageEntry where
  id : String
  openable : Bool
  diagnostics : List Diagnostic
  imageRole : String
  axes : List ListedAxis
  deriving DecidableEq

/-- The images of a store, and what there was to say of the others. -/
structure ImageDiscovery where
  images : List ImageEntry := []
  defaultImageId : Option String := none
  diagnostics : List Diagnostic := []
  deriving DecidableEq

/-- What was found, with what deciding the match needs of it: the first diagnostic of what is
malformed, and whether anything is evidence of an image. -/
structure Discovered where
  discovery : ImageDiscovery := {}
  firstMalformation : Option ℕ := none
  imageEvidence : Bool := false

def kKnownImages : List String :=
  ["SKY", "MODEL", "RESIDUAL", "POINT_SPREAD_FUNCTION", "PRIMARY_BEAM", "MASK_DECONVOLVE"]

/-- The place of a name among those that are known, or after them. -/
def knownImageRank (imageId : String) : ℕ := kKnownImages.idxOf imageId

/-- An image comes before another, or is it: by rank, and then by name. -/
def ImageEntry.Before (left right : ImageEntry) : Prop :=
  knownImageRank left.id < knownImageRank right.id ∨
    knownImageRank left.id = knownImageRank right.id ∧ left.id ≤ right.id

instance : DecidableRel ImageEntry.Before := fun _ _ => inferInstanceAs (Decidable (_ ∨ _))

/-- Take in what qualifying a node said. -/
def Discovered.note (found : Discovered) (entry : NodeEntry)
    (qualified : NodeQualification) : Discovered :=
  { discovery :=
      { found.discovery with diagnostics := found.discovery.diagnostics ++
        qualified.diagnostic.toList }
    firstMalformation :=
      if qualified.diagnostic.isSome ∧ qualified.malformed ∧ found.firstMalformation.isNone then
        some found.discovery.diagnostics.length
      else found.firstMalformation
    imageEvidence :=
      found.imageEvidence || qualified.listed || knownImageRank entry.name < kKnownImages.length }

/-- Take in an image. -/
def Discovered.list (found : Discovered) (image : ImageEntry) : Discovered :=
  { found with discovery := { found.discovery with images := found.discovery.images ++ [image] } }

section Discover

variable (store : Store) (outages : Outages)

/-- The axes of an image that opens, and none of another. -/
def entryAxes (openable : Bool)
    (image : ArrayMetadata) : StateM Session (Except OpenFailure (List ListedAxis)) :=
  if openable then describeListedAxes store outages image else return .ok []

def discoverEntry (found : Discovered)
    (entry : NodeEntry) : StateM Session (Except OpenFailure Discovered) := do
  let qualified ← qualifyNode store outages entry
  let found := found.note entry qualified
  if qualified.listed then
    match entry.array with
    | some (.ok metadata) =>
      match ← entryAxes store outages qualified.openable metadata with
      | .error e => return .error e
      | .ok axes => return .ok (found.list
          ⟨entry.name, qualified.openable, qualified.diagnostic.toList, imageRoleOf metadata, axes⟩)
    | _ => return .error (.threw "bad_variant_access")
  else return .ok found

def discoverEntries : List NodeEntry → Discovered → StateM Session (Except OpenFailure Discovered)
  | [], found => return .ok found
  | entry :: entries, found => do
    match ← discoverEntry store outages found entry with
    | .error e => return .error e
    | .ok found => discoverEntries entries found

/-- Put the images in order, and name the first that opens. -/
def Discovered.sort (found : Discovered) : Discovered :=
  let images := found.discovery.images.insertionSort ImageEntry.Before
  { found with
    discovery :=
      { found.discovery with
        images := images
        defaultImageId := (images.find? ImageEntry.openable).map ImageEntry.id } }

/-- Which variables of a store are images. -/
def discoverImages : StateM Session (Except OpenFailure Discovered) := do
  match ← store.inventory outages with
  | .error e => return .error (.refused e)
  | .ok entries =>
    match ← discoverEntries store outages entries {} with
    | .error e => return .error e
    | .ok found => return .ok found.sort

end Discover

/-! ## What is listed -/

section Spec

variable (store : Store)

/-- What a listing says of an entry: whether it opens and, if it does, its axes as describing it
would report them. One that does not open says why. -/
@[mk_iff]
structure EntryOf (entry : NodeEntry) (image : ImageEntry) : Prop where
  id : image.id = entry.name
  openable : image.openable = true ↔ Opens store entry
  reason : image.openable = false → image.diagnostics ≠ [] ∧ image.axes = []
  described : ∃ metadata, entry.array = some (.ok metadata) ∧
    image.imageRole = imageRoleOf metadata ∧
    (image.openable = true → ∃ axes, describeAxes metadata = some axes ∧ AxesOf metadata axes ∧
      image.axes = axesAnswer store axes)

/-- There is something to say of an entry. -/
def IsReported (entry : NodeEntry) : Prop := IsMalformed store entry ∨
    IsImage entry ∧ ¬ Opens store entry

/-- Images that are those of some entries. -/
structure ImagesOf (entries : List NodeEntry) (images : List ImageEntry) : Prop where
  of : ∀ image ∈ images, ∃ entry ∈ entries, IsImage entry ∧ EntryOf store entry image
  all : ∀ entry ∈ entries, IsImage entry → ∃ image ∈ images, EntryOf store entry image

/-- What was found in some entries besides their images. -/
structure Noted (entries : List NodeEntry) (found : Discovered) : Prop where
  malformed : found.firstMalformation.isSome = true ↔ ∃ entry ∈ entries, IsMalformed store entry
  evidence : found.imageEvidence = true ↔
    ∃ entry ∈ entries, IsImage entry ∨ knownImageRank entry.name < kKnownImages.length
  /-- The diagnostic of what is malformed names it. -/
  first : ∀ i ∈ found.firstMalformation, ∃ d, found.discovery.diagnostics[i]? = some d ∧
    ∃ entry ∈ entries, IsMalformed store entry ∧ d.nodePath = entry.name
  said : ∀ entry ∈ entries, IsReported store entry →
    ∃ d ∈ found.discovery.diagnostics, d.nodePath = entry.name
  reported : ∀ d ∈ found.discovery.diagnostics, ∃ entry ∈ entries, IsReported store entry ∧
    d.nodePath = entry.name

/-- What was found in some entries. -/
structure Collected (entries : List NodeEntry) (found : Discovered) : Prop where
  ids : (found.discovery.images.map ImageEntry.id).Sublist (entries.map NodeEntry.name)
  images : ImagesOf store entries found.discovery.images
  noted : Noted store entries found

/-- A listing of some entries. -/
structure Lists (entries : List NodeEntry) (discovery : ImageDiscovery) : Prop where
  sorted : discovery.images.Pairwise ImageEntry.Before
  distinct : (discovery.images.map ImageEntry.id).Nodup
  images : ImagesOf store entries discovery.images
  first : discovery.defaultImageId = (discovery.images.find? ImageEntry.openable).map ImageEntry.id

/-- A computation that may be refused returned something of which a predicate holds. -/
def Returns {ε α : Type} (r : Except ε α) (p : α → Prop) : Prop := ∃ a, r = .ok a ∧ p a

end Spec

open Store

section Collect

variable {store : Store} {outages : Outages} {entries : List NodeEntry}
  {found : Discovered} {entry : NodeEntry}
  {qualified : NodeQualification} {image : ImageEntry}

theorem Qualifies.isReported_iff (hq : Qualifies store entry qualified) :
    IsReported store entry ↔ ∃ d, qualified.diagnostic = some d := by
  rw [← Option.isSome_iff_exists, hq.diagnostic, IsReported]

/-- Taking in what a node is. -/
theorem Noted.note (h : Noted store entries found) (hq : Qualifies store entry qualified)
    (hnames : ∀ d ∈ qualified.diagnostic, d.nodePath = entry.name) :
    Noted store (entries ++ [entry]) (found.note entry qualified) := by
  have hsaid : qualified.malformed = true → ∃ d, qualified.diagnostic = some d := fun hmalformed =>
    hq.isReported_iff.1 (.inl (hq.malformed.1 hmalformed))
  have hdiagnostics : (found.note entry qualified).discovery.diagnostics =
      found.discovery.diagnostics ++ qualified.diagnostic.toList := rfl
  refine ⟨?_, ?_, fun i hi => ?_, fun e he hreported => ?_, fun d hd => ?_⟩
  · simp only [List.mem_append, List.mem_singleton, or_and_right, exists_or,
      exists_eq_left, ← h.malformed,
      ← hq.malformed]
    unfold Discovered.note
    dsimp only
    cases hfirst : found.firstMalformation with
    | some i => simp
    | none =>
      cases hmalformed : qualified.malformed with
      | false => simp
      | true =>
        obtain ⟨d, hd⟩ := hsaid hmalformed
        simp [hd]
  · simp only [List.mem_append, List.mem_singleton, or_and_right, exists_or, exists_eq_left,
      ← h.evidence, ← hq.listed]
    unfold Discovered.note
    simp [or_assoc]
  · rw [hdiagnostics]
    change i ∈ (if qualified.diagnostic.isSome ∧ qualified.malformed ∧
        found.firstMalformation.isNone then
      some found.discovery.diagnostics.length else found.firstMalformation) at hi
    split_ifs at hi with hmalformed
    · obtain rfl := Option.mem_some_iff.1 hi
      obtain ⟨d, hd⟩ := Option.isSome_iff_exists.1 hmalformed.1
      exact ⟨d, by simp [hd], entry, by simp, hq.malformed.1 hmalformed.2.1, hnames d hd⟩
    · obtain ⟨d, hd, e, he, hof⟩ := h.first i hi
      exact ⟨d, List.getElem?_append_left (List.getElem?_eq_some_iff.1 hd).1 ▸ hd, e,
        List.mem_append_left _ he, hof⟩
  · rw [hdiagnostics]
    rcases List.mem_append.1 he with he | he
    · obtain ⟨d, hd, hname⟩ := h.said e he hreported
      exact ⟨d, List.mem_append_left _ hd, hname⟩
    · obtain rfl := List.mem_singleton.1 he
      obtain ⟨d, hd⟩ := hq.isReported_iff.1 hreported
      exact ⟨d, by simp [hd], hnames d hd⟩
  · rw [hdiagnostics] at hd
    rcases List.mem_append.1 hd with hd | hd
    · obtain ⟨e, he, hof⟩ := h.reported d hd
      exact ⟨e, List.mem_append_left _ he, hof⟩
    · have hd := Option.mem_toList.1 hd
      exact ⟨entry, by simp, hq.isReported_iff.2 ⟨d, hd⟩, hnames d hd⟩

/-- An image is taken in beside what was noted. -/
theorem Noted.list (h : Noted store entries found) : Noted store entries (found.list image) :=
  ⟨h.malformed, h.evidence, h.first, h.said, h.reported⟩

/-- An entry that is no image. -/
theorem Collected.pass (h : Collected store entries found) (hq : Qualifies store entry qualified)
    (hnames : ∀ d ∈ qualified.diagnostic, d.nodePath = entry.name) (hlisted : ¬ IsImage entry) :
    Collected store (entries ++ [entry]) (found.note entry qualified) where
  ids := by
    rw [List.map_append]
    exact h.ids.trans (List.sublist_append_left _ _)
  images := by
    refine ⟨fun image himage => ?_, fun e he hise => ?_⟩
    · obtain ⟨e, he, hof⟩ := h.images.of image himage
      exact ⟨e, List.mem_append_left _ he, hof⟩
    · rcases List.mem_append.1 he with he | he
      · exact h.images.all e he hise
      · obtain rfl := List.mem_singleton.1 he
        exact absurd hise hlisted
  noted := h.noted.note hq hnames

/-- An entry that is an image. -/
theorem Collected.list (h : Collected store entries found) (hq : Qualifies store entry qualified)
    (hnames : ∀ d ∈ qualified.diagnostic, d.nodePath = entry.name) (hlisted : IsImage entry)
    (himage : EntryOf store entry image) :
    Collected store (entries ++ [entry]) ((found.note entry qualified).list image) := by
  have himages : ((found.note entry qualified).list image).discovery.images =
    found.discovery.images ++ [image] := rfl
  refine ⟨?_, ⟨fun other hother => ?_, fun e he hise => ?_⟩, (h.noted.note hq hnames).list⟩
  · rw [himages, List.map_append, List.map_append, List.map_singleton,
      List.map_singleton, himage.id]
    exact h.ids.append (List.Sublist.refl _)
  · rw [himages] at hother
    rcases List.mem_append.1 hother with hother | hother
    · obtain ⟨e, he, hof⟩ := h.images.of other hother
      exact ⟨e, List.mem_append_left _ he, hof⟩
    · obtain rfl := List.mem_singleton.1 hother
      exact ⟨entry, by simp, hlisted, himage⟩
  · rw [himages]
    rcases List.mem_append.1 he with he | he
    · obtain ⟨other, hother, hof⟩ := h.images.all e he hise
      exact ⟨other, List.mem_append_left _ hother, hof⟩
    · obtain rfl := List.mem_singleton.1 he
      exact ⟨image, List.mem_append_right _ (List.mem_singleton_self _), himage⟩

theorem later_entryAxes (openable : Bool) (image : ArrayMetadata) :
    Moves (Later store outages) (entryAxes store outages openable image) := by
  unfold entryAxes
  split_ifs
  · exact later_describeListedAxes image
  · exact Moves.pure _

theorem later_discoverEntry (found : Discovered) (entry : NodeEntry) :
    Moves (Later store outages) (discoverEntry store outages found entry) := by
  refine (later_qualifyNode entry).bind fun q => ?_
  dsimp only
  split
  · split
    · exact (later_entryAxes _ _).bind fun r => by cases r <;> exact Moves.pure _
    · exact Moves.pure _
  · exact Moves.pure _

theorem later_discoverEntries (entries : List NodeEntry) (found : Discovered) :
    Moves (Later store outages) (discoverEntries store outages entries found) := by
  induction entries generalizing found with
  | nil => exact Moves.pure _
  | cons entry entries ih =>
    refine (later_discoverEntry found entry).bind fun r => ?_
    cases r with
    | error e => exact Moves.pure _
    | ok found => exact ih found

variable (hfiled : store.Filed) (hout : outages.Transient True)
include hfiled hout

theorem right_entryAxes (openable : Bool) {image : ArrayMetadata} {axes : List AxisDescriptor}
    (haxes : openable = true → describeAxes image = some axes) :
    store.Right outages Eq (entryAxes store outages openable image)
      (.ok (if openable = true then axesAnswer store axes else [])) := by
  unfold entryAxes describeListedAxes
  cases openable with
  | false => exact Right.pure rfl
  | true =>
    rw [if_pos rfl, haxes rfl]
    refine (right_listAxes hfiled hout axes).bind (fun _ => Keeps.pure _) fun listed hlisted =>
      Right.pure ?_
    rw [hlisted]
    rfl

/-- Taking in one entry. -/
theorem right_discoverEntry (h : Collected store entries found) (entry : NodeEntry)
    (hentry : ∀ image, entry.array = some (.ok image) → store.arrayAnswer entry.name = .ok image) :
    store.Right outages Returns (discoverEntry store outages found entry)
      (Collected store (entries ++ [entry])) := by
  refine ((right_qualifyNode hfiled hout entry).and (yields_qualifyNode entry)).bind
    (fun q => ?_) ?_
  · dsimp only
    split
    · split
      · exact (Keeps.of_moves hfiled hout (later_entryAxes _ _)).bind fun r => by
          cases r <;> exact Keeps.pure _
      · exact Keeps.pure _
    · exact Keeps.pure _
  · rintro q ⟨hq, hnames⟩
    dsimp only
    split_ifs with hlisted
    · have himage := hq.listed.1 hlisted
      obtain ⟨_, metadata, harray, _⟩ := id himage
      rw [harray]
      dsimp only
      have haxes : ∃ axes, q.openable = true → describeAxes metadata = some axes ∧
          AxesOf metadata axes := by
        by_cases hopenable : q.openable = true
        · obtain ⟨-, metadata', harray', hopen⟩ := hq.openable.1 hopenable
          obtain rfl := Except.ok.inj (Option.some.inj (harray.symm.trans harray'))
          obtain ⟨axes, hdescribe, hof⟩ := hopen.axes (hentry metadata harray)
          exact ⟨axes, fun _ => ⟨hdescribe, hof⟩⟩
        · exact ⟨[], fun h => absurd h hopenable⟩
      obtain ⟨axes, haxes⟩ := haxes
      refine (right_entryAxes hfiled hout q.openable fun h => (haxes h).1).bind
        (fun r => by cases r <;> exact Keeps.pure _) fun r hr => ?_
      rw [hr]
      refine Right.pure ⟨_, rfl, h.list hq hnames himage ⟨rfl, hq.openable,
        fun hopenable => ⟨?_, ?_⟩,
        metadata, harray, rfl, fun hopenable => ?_⟩⟩
      · have hcloses : ¬ Opens store entry := fun hopens => by
          rw [hq.openable.2 hopens] at hopenable
          cases hopenable
        obtain ⟨d, hd⟩ := hq.isReported_iff.1 (.inr ⟨himage, hcloses⟩)
        simp [hd]
      · have hclosed : q.openable = false := hopenable
        simp [hclosed]
      · exact ⟨axes, (haxes hopenable).1, (haxes hopenable).2, if_pos hopenable⟩
    · exact Right.pure ⟨_, rfl, h.pass hq hnames fun himage => hlisted (hq.listed.2 himage)⟩

/-- Taking in all of them. -/
theorem right_discoverEntries {done : List NodeEntry} (h : Collected store done found)
    (entries : List NodeEntry)
    (hentries : ∀ entry ∈ entries, ∀ image, entry.array = some (.ok image) →
      store.arrayAnswer entry.name = .ok image) :
    store.Right outages Returns (discoverEntries store outages entries found)
      (Collected store (done ++ entries)) := by
  induction entries generalizing done found with
  | nil =>
    rw [List.append_nil]
    exact Right.pure ⟨found, rfl, h⟩
  | cons entry entries ih =>
    refine (right_discoverEntry hfiled hout h entry (hentries entry List.mem_cons_self)).bind
      (fun r => ?_) fun r hr => ?_
    · cases r with
      | error e => exact Keeps.pure _
      | ok found => exact Keeps.of_moves hfiled hout (later_discoverEntries entries found)
    · obtain ⟨found', rfl, hfound'⟩ := hr
      rw [List.append_cons]
      exact ih hfound' fun e he => hentries e (List.mem_cons_of_mem _ he)

end Collect

/-! ## The order of a listing -/

instance : Std.Total ImageEntry.Before := ⟨fun left right => by
  unfold ImageEntry.Before
  rcases lt_trichotomy (knownImageRank left.id) (knownImageRank right.id) with hlt | heq | hgt
  · exact .inl (.inl hlt)
  · exact (le_total left.id right.id).imp (fun h => .inr ⟨heq, h⟩) fun h => .inr ⟨heq.symm, h⟩
  · exact .inr (.inl hgt)⟩

instance : IsTrans ImageEntry ImageEntry.Before := ⟨fun a b c => by
  rintro (hab | ⟨hab, hab'⟩) (hbc | ⟨hbc, hbc'⟩)
  · exact .inl (hab.trans hbc)
  · exact .inl (hab.trans_eq hbc)
  · exact .inl (hab.trans_lt hbc)
  · exact .inr ⟨hab.trans hbc, hab'.trans hbc'⟩⟩

variable {store : Store} {outages : Outages}

/-- What was collected, in order, is a listing. -/
theorem Collected.sort {entries : List NodeEntry} {found : Discovered}
    (h : Collected store entries found)
    (hnames : (entries.map NodeEntry.name).Nodup) :
    Lists store entries found.sort.discovery ∧ Noted store entries found.sort := by
  have hperm := List.perm_insertionSort ImageEntry.Before found.discovery.images
  refine ⟨⟨List.pairwise_insertionSort _ _, ?_,
    ⟨fun image himage => ?_, fun entry hentry himage => ?_⟩, rfl⟩,
    ⟨h.noted.malformed, h.noted.evidence, h.noted.first, h.noted.said, h.noted.reported⟩⟩
  · exact (hperm.map ImageEntry.id).nodup_iff.2 (h.ids.nodup hnames)
  · exact h.images.of image (hperm.mem_iff.1 himage)
  · obtain ⟨image, hmem, hof⟩ := h.images.all entry hentry himage
    exact ⟨image, hperm.mem_iff.2 hmem, hof⟩

/-! ## The listing of a store -/

theorem entryOf_unname (entry : NodeEntry) (image : ImageEntry) :
    EntryOf store (unname entry) image ↔ EntryOf store entry image := by
  simp only [entryOf_iff, opens_unname, array_unname]
  exact Iff.rfl

theorem isReported_unname (entry : NodeEntry) : IsReported store (unname entry) ↔
    IsReported store entry :=
  or_congr (isMalformed_unname entry)
    (and_congr (isImage_unname entry) (not_congr (opens_unname entry)))

/-- What discovery makes of a store, of the entries it answers with. -/
inductive Discovers (store : Store) : Except OpenFailure Discovered →
    Except Error (List NodeEntry) → Prop
  | found {found : Discovered} {entries : List NodeEntry}
    (hlists : Lists store entries found.discovery)
      (hnoted : Noted store entries found) : Discovers store (.ok found) (.ok entries)
  | refused {e e' : Error} (hsame : SameAnswer e e') :
      Discovers store (.error (.refused e)) (.error e')

section Transport

variable {entries entries' : List NodeEntry} (hsame : SameAnswer entries entries')
include hsame

/-- What does not depend on how nodes are spelled holds of the entries of a session as of the
store's. -/
theorem exists_mem_iff_of_sameAnswer {p : NodeEntry → Prop}
    (hp : ∀ entry, p (unname entry) ↔ p entry) :
    (∃ entry ∈ entries, p entry) ↔ ∃ entry ∈ entries', p entry := by
  have hmap : entries.map unname = entries'.map unname := hsame
  have hmapped : ∀ l : List NodeEntry, (∃ entry ∈ l, p entry) ↔
      ∃ entry ∈ l.map unname, p entry := fun l => by
    simp [hp]
  rw [hmapped entries, hmap, ← hmapped entries']

theorem forall_mem_iff_of_sameAnswer {p : NodeEntry → Prop}
    (hp : ∀ entry, p (unname entry) ↔ p entry) :
    (∀ entry ∈ entries, p entry) ↔ ∀ entry ∈ entries', p entry := by
  have hmap : entries.map unname = entries'.map unname := hsame
  have hmapped : ∀ l : List NodeEntry, (∀ entry ∈ l, p entry) ↔
      ∀ entry ∈ l.map unname, p entry := fun l => by
    simp [hp]
  rw [hmapped entries, hmap, ← hmapped entries']

theorem ImagesOf.of_sameAnswer {images : List ImageEntry} (h : ImagesOf store entries images) :
    ImagesOf store entries' images where
  of image himage := (exists_mem_iff_of_sameAnswer hsame fun entry =>
    and_congr (isImage_unname entry) (entryOf_unname entry image)).1 (h.of image himage)
  all := (forall_mem_iff_of_sameAnswer hsame fun entry => imp_congr (isImage_unname entry)
    (exists_congr fun image => and_congr_right fun _ => entryOf_unname entry image)).1 h.all

theorem Noted.of_sameAnswer {found : Discovered} (h : Noted store entries found) :
    Noted store entries' found where
  malformed := h.malformed.trans (exists_mem_iff_of_sameAnswer hsame isMalformed_unname)
  evidence := h.evidence.trans (exists_mem_iff_of_sameAnswer hsame fun entry =>
    or_congr (isImage_unname entry) Iff.rfl)
  first i hi := by
    obtain ⟨d, hd, hof⟩ := h.first i hi
    exact ⟨d, hd, (exists_mem_iff_of_sameAnswer hsame fun entry =>
      and_congr (isMalformed_unname entry) Iff.rfl).1 hof⟩
  said := (forall_mem_iff_of_sameAnswer hsame fun entry =>
    imp_congr (isReported_unname entry) Iff.rfl).1 h.said
  reported d hd := (exists_mem_iff_of_sameAnswer hsame fun entry =>
    and_congr (isReported_unname entry) Iff.rfl).1 (h.reported d hd)

end Transport

theorem later_discoverImages : Moves (Later store outages) (discoverImages store outages) := by
  refine later_inventory.bind fun r => ?_
  cases r with
  | error e => exact Moves.pure _
  | ok entries =>
    refine (later_discoverEntries entries {}).bind fun r => ?_
    cases r <;> exact Moves.pure _

section Discover

variable (hfiled : store.Filed) (hout : outages.Transient True)
include hfiled hout

/-- **What is discovered** is a listing of what the store answers with, unless a read of it
failed. -/
theorem right_discoverImages :
    store.Right outages (Discovers store) (discoverImages store outages) store.inventoryAnswer := by
  refine (right_inventory hfiled hout).bind (fun r => ?_) fun r hr => ?_
  · cases r with
    | error e => exact Keeps.pure _
    | ok entries =>
      exact (Keeps.of_moves hfiled hout (later_discoverEntries entries {})).bind fun r => by
        cases r <;> exact Keeps.pure _
  · cases r with
    | error e =>
      obtain ⟨e', hanswer, hsame⟩ := hr.exists_error
      rw [hanswer]
      exact Right.pure (.refused hsame)
    | ok entries =>
      obtain ⟨entries', hanswer, hsame⟩ := hr.exists_ok
      have hnames := inventoryAnswer_pairwise hanswer
      obtain ⟨-, -, hmap, hentries⟩ := entries_of_sameAnswer hfiled hanswer hsame
      have hempty : Collected store [] {} := by
        constructor
        · simp
        · constructor <;> simp
        · constructor <;> simp
      rw [hanswer]
      refine (right_discoverEntries hfiled hout hempty entries hentries).bind
        (fun r => by cases r <;> exact Keeps.pure _) ?_
      rintro r ⟨found, rfl, hfound⟩
      obtain ⟨hlists, hnoted⟩ := hfound.sort (by
        rw [List.nil_append, hmap]
        exact hnames.imp fun h => h.ne)
      exact Right.pure (.found ⟨hlists.sorted, hlists.distinct,
        hlists.images.of_sameAnswer hsame, hlists.first⟩
        (hnoted.of_sameAnswer hsame))

end Discover

end CartaZarr
