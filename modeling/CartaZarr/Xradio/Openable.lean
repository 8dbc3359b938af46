import CartaZarr.Store.Recovered
import CartaZarr.Xradio.Qualification

/-!
# Which images open

`Openable` says of an image, from what its store answers, that it opens: it lies on the sky plane
with no other dimension, its values are real, each of its dimensions is as long as the coordinate of
that name, where there is one to ask, and a flag that is declared for it can mask it. `qualifyNode`
decides it (`right_qualifyNode`), and so does `requireQualified` of a name
(`right_requireQualified`), in any session, unless a read that was made to decide it failed.
-/

namespace CartaZarr

section Require

variable (store : Store) (outages : Outages)

def imageNotFound (imageId : String) : Error := ⟨.notFound, "Image variable was not found", imageId⟩

/-- Why a node is refused that does not qualify. -/
def refusal (entry : NodeEntry) (qualified : NodeQualification) (imageId : String) : Error :=
  if qualified.listed then
    ⟨if qualified.malformed then .invalidMetadata else .unsupportedDataType,
      (qualified.diagnostic.map Diagnostic.message).getD "", imageId⟩
  else if qualified.diagnostic.isSome then
    -- the node is there and does not parse
    match entry.array, entry.reason with
    | some (.error e), _ => e
    | _, some e => e
    | _, none => imageNotFound imageId
  else imageNotFound imageId

/-- A name is that of an image that opens. -/
def requireQualified (imageId : String) : StateM Session (Except Error Unit) := do
  match ← store.inventory outages with
  | .error e => return .error e
  | .ok _ =>
    match ← store.findNode outages imageId with
    | none => return .error (imageNotFound imageId)
    | some entry =>
      let qualified ← qualifyNode store outages entry
      if qualified.openable then return .ok ()
      else return .error (refusal entry qualified imageId)

end Require

/-! ## What opens -/

section Spec

variable (store : Store) (image : ArrayMetadata) (imageId : String)

/-- A node is a flag that masks an image. -/
def CanMask (name : String) : Prop := ∃ flag, store.arrayAnswer name = .ok flag ∧ Masks flag image

/-- A flag that is declared for an image can mask it: by the image itself or, where it says nothing,
by the data groups of the image, which then agree. -/
structure FlagServes : Prop where
  ofImage : attributeString image.attributes "flag" ≠ "" →
    CanMask store image (canonical (attributeString image.attributes "flag"))
  ofGroups : attributeString image.attributes "flag" = "" →
    ∀ name, DeclaredFor store.rootAttributes imageId name →
      CanMask store image name ∧ ∀ other,
        DeclaredFor store.rootAttributes imageId other → other = name

/-- A dimension is as long as the coordinate of its name, where that can be asked. -/
def ExtentAgrees (dimension : String × UInt64) : Prop :=
  ∀ coordinate, store.arrayAnswer dimension.1 = .ok coordinate → coordinate.shape = [dimension.2]

/-- An image that opens. -/
structure Openable : Prop where
  notFlag : isFlag image = false
  sky : carriesPlane image .sky = true
  real : isRealDataType image.dataType = true
  dimensions : image.dimensionNames.length = 5
  extents : ∀ dimension ∈ image.dimensionNames.zip image.shape, ExtentAgrees store dimension
  flag : FlagServes store image imageId

/-- A node is an image that opens. -/
def Opens (entry : NodeEntry) : Prop :=
  entry.kind = .array ∧ ∃ image, entry.array = some (.ok image) ∧ Openable store image entry.name

/-- A node is an image, whether or not it opens: a variable on one of the two planes that is no
flag. -/
def IsImage (entry : NodeEntry) : Prop :=
  entry.kind = .array ∧ ∃ image, entry.array = some (.ok image) ∧ isFlag image = false ∧
    (carriesPlane image .sky = true ∨ carriesPlane image .aperture = true)

/-- Something is wrong with a node: it does not say what it is, or is an array that does not parse,
or a real image of the sky plane that does not open. -/
def IsMalformed (entry : NodeEntry) : Prop :=
  entry.kind = .unrecognised ∨ entry.kind = .array ∧ ((∃ e, entry.array = some (.error e)) ∨
    ∃ image, entry.array = some (.ok image) ∧ isFlag image = false ∧
      carriesPlane image .sky = true ∧
      isRealDataType image.dataType = true ∧ ¬ Openable store image entry.name)

/-- What qualifying a node is to say of it. -/
structure Qualifies (entry : NodeEntry) (qualified : NodeQualification) : Prop where
  listed : qualified.listed = true ↔ IsImage entry
  openable : qualified.openable = true ↔ Opens store entry
  malformed : qualified.malformed = true ↔ IsMalformed store entry
  /-- There is something to say of what is malformed, and of an image that does not open. -/
  diagnostic : qualified.diagnostic.isSome = true ↔ IsMalformed store entry ∨
    IsImage entry ∧ ¬ Opens store entry

end Spec

/-! ## It is decided -/

open Store

variable {store : Store} {outages : Outages}

theorem later_extentDisagreement (node : String) (dimensions : List (String × UInt64)) :
    Moves (Later store outages) (extentDisagreement store outages node dimensions) := by
  induction dimensions with
  | nil => exact Moves.pure _
  | cons dimension dimensions ih =>
    refine (later_readArrayMetadata _).bind fun r => ?_
    cases r with
    | error e => exact ih
    | ok coordinate => dsimp only; split; exacts [Moves.pure _, ih]

theorem later_declaredFlag (image : ArrayMetadata) (imageId : String) :
    Moves (Later store outages) (declaredFlag store outages image imageId) := by
  have hrequire : ∀ spelt, Moves (Later store outages)
      (requireDeclaredFlag store outages image spelt) := fun spelt =>
    (later_readArrayMetadata _).bind fun r => by cases r <;> exact Moves.pure _
  unfold declaredFlag
  dsimp only
  split
  · exact hrequire _
  · split
    exacts [Moves.pure _, hrequire _, Moves.pure _]

theorem later_qualifyNode (entry : NodeEntry) :
    Moves (Later store outages) (qualifyNode store outages entry) := by
  have himage : ∀ image node, Moves (Later store outages)
      (qualifyImage store outages image node) := by
    intro image node
    unfold qualifyImage
    split
    · exact Moves.pure _
    split
    · exact Moves.pure _
    refine (later_extentDisagreement node _).bind fun r => ?_
    cases r with
    | some disagreement => exact Moves.pure _
    | none =>
      refine Moves.bind ((later_declaredFlag image node).bind fun r => ?_) fun r => ?_
      · cases r <;> exact Moves.pure _
      · cases r <;> exact Moves.pure _
  unfold qualifyNode
  rcases entry with ⟨name, _ | _ | _, array, reason⟩
  · exact Moves.pure _
  · rcases array with _ | e | image
    · exact Moves.pure _
    · exact Moves.pure _
    · dsimp only
      split_ifs
      exacts [Moves.pure _, himage image name, Moves.pure _, Moves.pure _]
  · exact Moves.pure _

variable (hfiled : store.Filed) (hout : outages.Transient True)
include hfiled hout

theorem right_extentDisagreement (node : String) (dimensions : List (String × UInt64)) :
    store.Right outages (fun r p => r = none ↔ p) (extentDisagreement store outages node dimensions)
      (∀ dimension ∈ dimensions, ExtentAgrees store dimension) := by
  induction dimensions with
  | nil => exact Right.pure (by simp)
  | cons dimension dimensions ih =>
    have hkeeps : store.Keeps (extentDisagreement store outages node dimensions) :=
      Keeps.of_moves hfiled hout (later_extentDisagreement node dimensions)
    refine (right_readArrayMetadata hfiled hout dimension.1).bind (fun r => ?_) fun r hr => ?_
    · cases r with
      | error e => exact hkeeps
      | ok coordinate => dsimp only; split; exacts [Keeps.pure _, hkeeps]
    · rw [List.forall_mem_cons]
      cases r with
      | error e =>
        have hagrees : ExtentAgrees store dimension := fun coordinate hcoordinate => by
          rw [hcoordinate] at hr
          cases hr
        exact ih.mono fun a ha => by rw [ha, and_iff_right hagrees]
      | ok coordinate =>
        have hagrees : ExtentAgrees store dimension ↔ coordinate.shape = [dimension.2] := by
          rw [ExtentAgrees, hr.ok]
          simp
        rw [hagrees]
        dsimp only
        split_ifs with hshape
        · exact Right.pure (by simp [hshape])
        · push Not at hshape
          exact ih.mono fun a ha => by rw [ha, and_iff_right hshape]

theorem right_requireDeclaredFlag (image : ArrayMetadata) (spelt : String) :
    store.Right outages (fun r p => (∃ name, r = .ok name) ↔
      p) (requireDeclaredFlag store outages image spelt)
      (CanMask store image (canonical spelt)) := by
  refine (right_readArrayMetadata hfiled hout (canonical spelt)).bind
    (fun r => by cases r <;> exact Keeps.pure _) fun r hr => ?_
  cases r with
  | error e =>
    refine Right.pure (iff_of_false (by rintro ⟨_, h⟩; cases h) ?_)
    rintro ⟨flag, hflag, -⟩
    rw [hflag] at hr
    cases hr
  | ok flag =>
    refine Right.pure ?_
    rw [CanMask, hr.ok]
    simp only [Except.ok.injEq, exists_eq_left',
      ← @requireUsableFlag_eq_ok_iff flag image (canonical spelt)]
    cases requireUsableFlag flag image (canonical spelt) <;> simp [Except.map]

theorem right_declaredFlag (image : ArrayMetadata) (imageId : String) :
    store.Right outages (fun r p => (∃ name, r = .ok name) ↔
      p) (declaredFlag store outages image imageId)
      (FlagServes store image imageId) := by
  obtain ⟨hnodup, hown, -⟩ := flagsOfDataGroups_spec store.rootAttributes imageId
  unfold declaredFlag
  dsimp only
  split_ifs with hattribute
  · have hserves : FlagServes store image imageId ↔ _ := ⟨fun h => h.ofImage hattribute, fun h =>
      ⟨fun _ => h, fun hempty => absurd hempty hattribute⟩⟩
    rw [hserves]
    exact right_requireDeclaredFlag hfiled hout image _
  · push Not at hattribute
    split
    · rename_i hnone
      refine Right.pure (iff_of_true ⟨_, rfl⟩ ⟨fun h => absurd hattribute h,
        fun _ name hname => ?_⟩)
      have hmem := (hown name).2 hname
      rw [hnone] at hmem
      cases hmem
    · rename_i flag hone
      have hflag : DeclaredFor store.rootAttributes imageId flag :=
        (hown flag).1 (by rw [hone]; simp)
      have honly : ∀ other, DeclaredFor store.rootAttributes imageId other → other = flag :=
          fun other hother => by
        have hmem := (hown other).2 hother
        rwa [hone, List.mem_singleton] at hmem
      have hcanonical : canonical flag = flag := by
        obtain ⟨sky, spelt, -, -, rfl⟩ := hflag
        exact canonical_canonical spelt
      have hserves : FlagServes store image imageId ↔ CanMask store image flag :=
        ⟨fun h => (h.ofGroups hattribute flag hflag).1, fun h => ⟨fun hne => absurd hattribute hne,
          fun _ name hname => honly name hname ▸ ⟨h, honly⟩⟩⟩
      have hright := right_requireDeclaredFlag hfiled hout image flag
      rw [hcanonical] at hright
      rw [hserves]
      exact hright
    · rename_i hempty hmany
      refine Right.pure (iff_of_false (by rintro ⟨_, h⟩; cases h) fun hserves => ?_)
      rcases hlist : (flagsOfDataGroups store.rootAttributes imageId).own
        with _ | ⟨first, _ | ⟨second, rest⟩⟩
      · exact hempty hlist
      · exact hmany first hlist
      · have hfirst := (hown first).1 (by rw [hlist]; simp)
        have hsecond := (hown second).1 (by rw [hlist]; simp)
        have heq := (hserves.ofGroups hattribute first hfirst).2 second hsecond
        rw [hlist, heq] at hnodup
        simp at hnodup

theorem right_unusableDeclaredFlag (image : ArrayMetadata) (node : String) :
    store.Right outages (fun r p => r = none ↔ p) (unusableDeclaredFlag store outages image node)
      (FlagServes store image node) := by
  refine (right_declaredFlag hfiled hout image node).bind
    (fun r => by cases r <;> exact Keeps.pure _) fun r hr => ?_
  rw [← hr]
  cases r with
  | error e => exact Right.pure (by simp)
  | ok name => exact Right.pure (by simp)

/-- What qualifying a variable on the sky plane says of it. -/
theorem right_qualifyImage (image : ArrayMetadata) (node : String) :
    store.Right outages (fun q p => q.listed = true ∧ (q.openable = true ↔ p) ∧
        (q.malformed = true ↔ isRealDataType image.dataType = true ∧ ¬ p) ∧
        (q.diagnostic.isSome = true ↔ ¬ p))
      (qualifyImage store outages image node)
      (isRealDataType image.dataType = true ∧ image.dimensionNames.length = 5 ∧
        (∀ dimension ∈ image.dimensionNames.zip image.shape, ExtentAgrees store dimension) ∧
        FlagServes store image node) := by
  have hcount : axisCount .sky = 5 := rfl
  have hflag := right_unusableDeclaredFlag hfiled hout image node
  unfold qualifyImage
  rw [hcount]
  by_cases hreal : isRealDataType image.dataType = true
  swap
  · rw [if_pos hreal]
    exact Right.pure (by simp [hreal])
  rw [if_neg (not_not.2 hreal)]
  by_cases hdimensions : image.dimensionNames.length = 5
  swap
  · rw [if_pos hdimensions]
    exact Right.pure (by simp [hreal, hdimensions])
  rw [if_neg (not_not.2 hdimensions)]
  refine (right_extentDisagreement hfiled hout node _).bind (fun r => ?_) fun r hr => ?_
  · cases r with
    | some disagreement => exact Keeps.pure _
    | none => exact hflag.keeps.bind fun r => by cases r <;> exact Keeps.pure _
  · rw [← hr]
    cases r with
    | some disagreement => exact Right.pure (by simp [hreal])
    | none =>
      refine hflag.bind (fun r => by cases r <;> exact Keeps.pure _) fun r hr => ?_
      rw [← hr]
      cases r with
      | some unusable => exact Right.pure (by simp [hreal])
      | none => exact Right.pure (by simp [hreal, hdimensions])

/-- **What a node is**: listed, open, malformed or nothing, as its store answers. -/
theorem right_qualifyNode (entry : NodeEntry) :
    store.Right outages (fun q entry => Qualifies store entry q)
      (qualifyNode store outages entry) entry := by
  unfold qualifyNode
  rcases entry with ⟨name, kind, array, reason⟩
  cases kind with
  | group =>
    exact Right.pure ⟨by simp [IsImage], by simp [Opens], by simp [IsMalformed], by
      simp [IsMalformed, IsImage]⟩
  | unrecognised =>
    exact Right.pure ⟨by simp [IsImage], by simp [Opens], by
      simp [IsMalformed], by simp [IsMalformed]⟩
  | array =>
    rcases array with _ | e | image
    · exact Right.pure ⟨by simp [IsImage], by simp [Opens], by simp [IsMalformed], by
        simp [IsMalformed, IsImage]⟩
    · exact Right.pure ⟨by simp [IsImage], by simp [Opens], by
        simp [IsMalformed], by simp [IsMalformed]⟩
    · have hopens : Opens store ⟨name, .array, some (.ok image), reason⟩ ↔
          Openable store image name := by
        simp [Opens]
      have himage : IsImage ⟨name, .array, some (.ok image), reason⟩ ↔ isFlag image = false ∧
          (carriesPlane image .sky = true ∨ carriesPlane image .aperture = true) := by
        simp [IsImage]
      have hmalformed : IsMalformed store ⟨name, .array, some (.ok image), reason⟩ ↔
        isFlag image = false ∧
          carriesPlane image .sky = true ∧ isRealDataType image.dataType = true ∧
              ¬ Openable store image name := by
        simp [IsMalformed]
      dsimp only
      by_cases hflag : isFlag image = true
      · have hnot : ¬ Openable store image name := fun h => by rw [h.notFlag] at hflag; cases hflag
        rw [if_pos hflag]
        exact Right.pure ⟨by simp [himage,
          hflag], by simp [hopens, hnot], by simp [hmalformed, hflag],
          by simp [hmalformed, himage, hflag]⟩
      rw [if_neg hflag]
      rw [Bool.not_eq_true] at hflag
      by_cases hsky : carriesPlane image .sky = true
      · rw [if_pos hsky]
        have hopenable : Openable store image name ↔ isRealDataType image.dataType = true ∧
            image.dimensionNames.length = 5 ∧
            (∀ dimension ∈ image.dimensionNames.zip image.shape, ExtentAgrees store dimension) ∧
            FlagServes store image name :=
          ⟨fun h => ⟨h.real, h.dimensions, h.extents, h.flag⟩, fun h =>
            ⟨hflag, hsky, h.1, h.2.1, h.2.2.1, h.2.2.2⟩⟩
        refine (right_qualifyImage hfiled hout image name).mono ?_
        rintro q ⟨hlisted, hopen, hmal, hsaid⟩
        rw [← hopenable] at hopen hmal hsaid
        exact ⟨by simp [himage, hflag, hsky, hlisted],
          hopen.trans hopens.symm, by rw [hmal, hmalformed]; simp [hflag, hsky],
          by rw [hsaid, hmalformed, himage, hopens]; simp [hflag, hsky]⟩
      · have hnot : ¬ Openable store image name := fun h => hsky h.sky
        rw [if_neg hsky]
        rw [Bool.not_eq_true] at hsky
        split_ifs with haperture
        · exact Right.pure ⟨by simp [himage, hflag,
            haperture], by simp [hopens, hnot], by simp [hmalformed, hsky],
            by simp [himage, hopens, hnot, hflag, haperture]⟩
        · exact Right.pure ⟨by simp [himage, hsky,
            haperture], by simp [hopens, hnot], by simp [hmalformed, hsky],
            by simp [hmalformed, himage, hsky, haperture]⟩

omit hfiled hout in
/-- What is said of a node names it. -/
theorem yields_qualifyNode (entry : NodeEntry) :
    Yields (fun q => ∀ d ∈ q.diagnostic, d.nodePath = entry.name)
    (qualifyNode store outages entry) := by
  have hextent : ∀ node dimensions, Yields (fun r : Option Diagnostic => ∀ d ∈ r, d.nodePath = node)
      (extentDisagreement store outages node dimensions) := by
    intro node dimensions
    induction dimensions with
    | nil => exact Yields.pure (by simp)
    | cons dimension dimensions ih =>
      refine Yields.bind fun r => ?_
      cases r with
      | error e => exact ih
      | ok coordinate =>
        dsimp only
        split_ifs
        · exact Yields.pure (by simp)
        · exact ih
  have himage : ∀ image node, Yields (fun q => ∀ d ∈ q.diagnostic, d.nodePath = node)
      (qualifyImage store outages image node) := by
    intro image node
    unfold qualifyImage
    split
    · exact Yields.pure (by simp)
    split
    · exact Yields.pure (by simp)
    · refine (hextent node _).bind_of fun r hr => ?_
      cases r with
      | some disagreement => exact Yields.pure hr
      | none =>
        have hflag : Yields (fun r : Option Diagnostic => ∀ d ∈ r, d.nodePath = node)
            (unusableDeclaredFlag store outages image node) :=
          Yields.bind fun r => by cases r <;> exact Yields.pure (by simp)
        refine hflag.bind_of fun r hr => ?_
        cases r with
        | some unusable => exact Yields.pure hr
        | none => exact Yields.pure (by simp)
  unfold qualifyNode
  rcases entry with ⟨name, _ | _ | _, array, reason⟩
  · exact Yields.pure (by simp)
  · rcases array with _ | e | image
    · exact Yields.pure (by simp)
    · exact Yields.pure (by simp)
    · dsimp only
      split_ifs
      exacts [Yields.pure (by simp), himage image name, Yields.pure (by simp),
        Yields.pure (by simp)]
  · exact Yields.pure (by simp)

/-- A name is that of an image that opens. -/
def NameOpens (store : Store) (imageId : String) : Prop :=
  ∃ entries, store.inventoryAnswer = .ok entries ∧
    ∃ entry ∈ entries, entry.name = imageId ∧ Opens store entry

omit hfiled hout in
/-- The array of an entry that parsed is there however errors name their nodes. -/
theorem array_unname {entry : NodeEntry} {image : ArrayMetadata} :
    (unname entry).array = some (.ok image) ↔ entry.array = some (.ok image) := by
  rcases entry with ⟨name, kind, _ | e | image', reason⟩
  · exact Iff.rfl
  · exact iff_of_false (by rintro ⟨⟩) (by rintro ⟨⟩)
  · exact Iff.rfl

omit hfiled hout in
theorem opens_unname (entry : NodeEntry) : Opens store (unname entry) ↔ Opens store entry := by
  simp only [Opens, array_unname]
  exact Iff.rfl

omit hfiled hout in
theorem isImage_unname (entry : NodeEntry) : IsImage (unname entry) ↔ IsImage entry := by
  simp only [IsImage, array_unname]
  exact Iff.rfl

omit hfiled hout in
theorem isMalformed_unname (entry : NodeEntry) : IsMalformed store (unname entry) ↔
    IsMalformed store entry := by
  have herror : (∃ e, (unname entry).array = some (.error e)) ↔
      ∃ e, entry.array = some (.error e) := by
    rcases entry with ⟨name, kind, _ | e | image, reason⟩
    · exact Iff.rfl
    · exact iff_of_true ⟨_, rfl⟩ ⟨e, rfl⟩
    · exact iff_of_false (by rintro ⟨_, ⟨⟩⟩) (by rintro ⟨_, ⟨⟩⟩)
  simp only [IsMalformed, array_unname, herror]
  exact Iff.rfl

/-- **A name is accepted** exactly when it is that of an image that opens. -/
theorem right_requireQualified (imageId : String) :
    store.Right outages (fun r p => r = .ok () ↔ p) (requireQualified store outages imageId)
      (NameOpens store imageId) := by
  have hkeeps : ∀ entry, store.Keeps (do
      let qualified ← qualifyNode store outages entry
      if qualified.openable then return (.ok () : Except Error Unit)
      else return .error (refusal entry qualified imageId)) := fun entry =>
    (right_qualifyNode hfiled hout entry).keeps.bind fun q => by split <;> exact Keeps.pure _
  have hfind := right_findNode hfiled hout imageId
  refine (right_inventory hfiled hout).bind (fun r => ?_) fun r hr => ?_
  · cases r with
    | error e => exact Keeps.pure _
    | ok entries =>
      refine hfind.keeps.bind fun found => ?_
      cases found with
      | none => exact Keeps.pure _
      | some entry => exact hkeeps entry
  · cases r with
    | error e =>
      refine Right.pure (iff_of_false (by simp) ?_)
      rintro ⟨entries, hentries, -⟩
      rw [hentries] at hr
      cases hr
    | ok entries' =>
      obtain ⟨entries, hentries, -⟩ := hr.exists_ok
      have hopens : NameOpens store imageId ↔ ∃ entry, findEntry entries imageId = some entry ∧
          Opens store entry := by
        simp only [NameOpens, hentries, Except.ok.injEq, exists_eq_left',
          Store.findEntry_eq_some_iff (Store.inventoryAnswer_pairwise hentries), and_assoc]
      rw [hentries] at hfind
      rw [hopens]
      refine hfind.bind (fun found => ?_) fun found hfound => ?_
      · cases found with
        | none => exact Keeps.pure _
        | some entry => exact hkeeps entry
      · change unname found = unname (findEntry entries imageId) at hfound
        cases hentry : findEntry entries imageId with
        | none =>
          rw [hentry] at hfound
          obtain rfl := Option.map_eq_none_iff.1 hfound
          exact Right.pure (by simp)
        | some entry =>
          rw [hentry] at hfound
          obtain ⟨entry', rfl, hsame⟩ := Option.map_eq_some_iff.1 hfound
          have hsame' : Opens store entry' ↔
            Opens store entry := by rw [← opens_unname, hsame, opens_unname]
          refine (right_qualifyNode hfiled hout entry').bind
            (fun q => by split <;> exact Keeps.pure _)
            fun q hq => ?_
          simp only [Option.some.injEq, exists_eq_left', ← hsame', ← hq.openable]
          split_ifs with hopenable
          · exact Right.pure (by simp [hopenable])
          · exact Right.pure (by simp [hopenable])

omit hout in
/-- The entries a session has are those of the hierarchy, and each has the answer about its
array. -/
theorem entries_of_sameAnswer {entries entries' : List NodeEntry}
    (h : store.inventoryAnswer = .ok entries')
    (hsame : SameAnswer entries entries') :
    (∀ entry ∈ entries, ∃ entry' ∈ entries', unname entry = unname entry') ∧
    (∀ entry' ∈ entries', ∃ entry ∈ entries, unname entry = unname entry') ∧
    entries.map NodeEntry.name = entries'.map NodeEntry.name ∧
    ∀ entry ∈ entries, ∀ image, entry.array = some (.ok image) →
    store.arrayAnswer entry.name = .ok image := by
  have hmap : entries.map unname = entries'.map unname := hsame
  have hof : ∀ entry ∈ entries, ∃ entry' ∈ entries', unname entry = unname entry' :=
      fun entry hentry => by
    have hmem := List.mem_map_of_mem (f := unname) hentry
    rw [hmap] at hmem
    obtain ⟨entry', hentry', heq⟩ := List.mem_map.1 hmem
    exact ⟨entry', hentry', heq.symm⟩
  have hname : ∀ entry entry' : NodeEntry, unname entry = unname entry' →
      entry.name = entry'.name :=
    fun entry entry' heq => by
      have hnames : (unname entry).name = (unname entry').name := congrArg NodeEntry.name heq
      exact hnames
  refine ⟨hof, fun entry' hentry' => ?_, ?_, fun entry hentry image harray => ?_⟩
  · have hmem := List.mem_map_of_mem (f := unname) hentry'
    rw [← hmap] at hmem
    obtain ⟨entry, hentry, heq⟩ := List.mem_map.1 hmem
    exact ⟨entry, hentry, heq⟩
  · have hnames : (entries.map unname).map NodeEntry.name =
        (entries'.map unname).map NodeEntry.name :=
      congrArg (List.map NodeEntry.name) hmap
    rwa [List.map_map, List.map_map] at hnames
  · obtain ⟨entry', hentry', heq⟩ := hof entry hentry
    have harray' := array_unname.1 (heq ▸ array_unname.2 harray)
    rw [hname entry entry' heq,
      ← (((inventoryAnswer_eq_ok hfiled h).2 entry' hentry').2 _ harray').2]

omit hfiled hout in
/-- **An image that opens has its axes.** -/
theorem Openable.axes {image : ArrayMetadata} {node : String} (h : Openable store image node)
    (hanswer : store.arrayAnswer node = .ok image) : ∃ axes, describeAxes image = some axes ∧
    AxesOf image axes := by
  obtain ⟨document, hdocument⟩ := exists_document_of_arrayAnswer hanswer
  refine describeAxes_of h.dimensions ?_ h.sky
  rw [← length_dimensionNames hdocument (List.ne_nil_of_length_eq_add_one h.dimensions),
    h.dimensions]

end CartaZarr
