import CartaZarr.ReducibleImage
import CartaZarr.Xradio.Steadfast

/-!
# An image that opens is one that is reduced

An opened image keeps what it was described as, and every read and reduction of it is against that
description (`DescribedImage.reducible`). None fails for what the description left out: whichever
reads failed before, a description that is given has its axes stored in some order, elements of a
known size, a geometry of extents above zero and another of its flag where it has one, and its axes
are those that a plane is walked along (`describeImage_reducible`).
-/

namespace CartaZarr

open Store

namespace DescribedImage

/-- The chunks a flag is read by, none where there is no flag. -/
def flagChunks (described : DescribedImage) : ChunkGeometry :=
  (described.flagGeometry.map StoredGeometry.toChunkGeometry).getD ⟨.spatialX, []⟩

/-- What every reduction of an opened image is against. -/
def reducible {ω α : Type} (described : DescribedImage) (source : PixelSource ω α)
    (workers : TaskPool ω) :
    Except Error (ReducibleImage ω α) :=
  ReducibleImage.of source described.report.descriptor described.geometry.toChunkGeometry
    described.flagChunks workers

/-- What reading and reducing take of a description. -/
structure IsLaidOut (described : DescribedImage) : Prop where
  storedInOrder : described.report.descriptor.StoredInOrder
  elements : ∃ bytes, described.report.descriptor.storedType.elementBytes = some bytes
  geometry : described.geometry.toChunkGeometry.Of described.report.descriptor
  flag : described.report.descriptor.hasPixelMask = true →
    described.flagChunks.Of described.report.descriptor
  unflagged : described.report.descriptor.hasPixelMask = false → described.flagGeometry = none

end DescribedImage

/-- A real type is one whose elements have a size. -/
theorem exists_elementBytes {dataType : String} (h : isRealDataType dataType = true) :
    ∃ bytes, (parseDataType dataType).elementBytes = some bytes := by
  obtain ⟨info, hinfo, -⟩ := (Option.any_eq_true _ _).1 h
  refine ⟨info.elementBytes, ?_⟩
  rw [parseDataType, hinfo]
  exact elementBytes_of_mem (findDataType_mem hinfo).1

/-- An array of the rank of an image has no geometry but one of extents above zero. -/
theorem of_buildChunkGeometry {d : ImageDescriptor} (hd : d.StoredInOrder)
    {document : Json} {node : String}
    {m : ArrayMetadata} (hparse : parseArrayMetadata document node = .ok m)
    (hrank : m.shape.length = d.rank)
    {g : StoredGeometry} (h : buildChunkGeometry d (parseStorageLayout m) = some g) :
    g.toChunkGeometry.Of d := by
  obtain ⟨g', hg', hof, -⟩ := buildChunkGeometry_of hd (hrank ▸ parseStorageLayout_describes hparse)
  obtain rfl : g = g' := Option.some.inj (h.symm.trans hg')
  exact hof

/-- The axes of an image are all that a reducible image is refused for. -/
theorem ReducibleImage.of_eq_ok {ω α : Type} (source : PixelSource ω α) {d : ImageDescriptor}
    (geometry flagGeometry : ChunkGeometry) (workers : TaskPool ω) {map : AxisMap}
    (h : mapAxes d = .ok map) :
    ReducibleImage.of source d geometry flagGeometry workers =
      .ok ⟨source, d, geometry, flagGeometry, workers, map, h⟩ := by
  unfold ReducibleImage.of
  split
  · rename_i map' h'
    obtain rfl : map = map' := Except.ok.inj (h.symm.trans h')
    rfl
  · rename_i e he
    rw [h] at he
    cases he

section Opened

variable {store : Store} {outages : Outages} {imageId : String} {described : DescribedImage}

/-- The axes that a description reports are those of its image. -/
theorem IsReport.axesOf {image : ArrayMetadata} {values : CoordinateValues} {report : ImageReport}
    (h : IsReport store imageId image values report) (hopenable : Openable store image imageId)
    (himage : store.arrayAnswer imageId = .ok image) : AxesOf image report.descriptor.axes := by
  obtain ⟨axes, haxes, hof⟩ := hopenable.axes himage
  obtain ⟨axes', haxes', hreported⟩ := h.axes
  obtain rfl : axes' = axes := Option.some.inj (haxes'.symm.trans haxes)
  have hdescriptor : report.descriptor.axes = axes' := by
    rw [ImageReport.descriptor, hreported]
    exact map_axis_axesAnswer axes'
  exact hdescriptor ▸ hof

/-- The flag that a description reports is of the shape of its image. -/
theorem IsReport.canMask {image : ArrayMetadata} {values : CoordinateValues} {report : ImageReport}
    (hfiled : store.Filed) (h : IsReport store imageId image values report)
    (hopenable : Openable store image imageId) (hne : report.pixelMaskId ≠ "") :
    CanMask store image report.pixelMaskId := by
  obtain ⟨entries, hanswer, hmask⟩ := h.mask
  have hflag : report.pixelMaskId = _ := congrArg Prod.fst hmask
  rw [hflag] at hne ⊢
  exact flagAnswer_masks hfiled hopenable.flag hanswer hne

/-- A description is laid out on the axes of a plane walk. -/
theorem DescribedAs.isLaidOut (hfiled : store.Filed) (h : DescribedAs store imageId described) :
    described.IsLaidOut ∧ mapAxes described.report.descriptor = .ok ⟨0, 1, 2, some 3, some 4⟩ := by
  obtain ⟨hopens, -, values, -, image, himage, hdescription⟩ := h
  obtain ⟨entries, image', -, himage', hopenable⟩ := hopens.image hfiled
  obtain rfl : image' = image := Except.ok.inj (himage'.symm.trans himage)
  obtain ⟨document, hdocument⟩ := exists_document_of_arrayAnswer himage
  have hof := hdescription.report.axesOf hopenable himage
  have hshape : image'.shape.length = described.report.descriptor.rank := by
    rw [← length_dimensionNames hdocument (List.ne_nil_of_length_eq_add_one hopenable.dimensions),
      hopenable.dimensions, hof.rank_eq]
  refine ⟨⟨hof.storedInOrder, ?_,
    of_buildChunkGeometry hof.storedInOrder hdocument hshape hdescription.geometry,
    fun hmasked => ?_, fun hunmasked => ?_⟩, hof.mapAxes_eq⟩
  · have hstored : described.report.descriptor.storedType = parseDataType image'.dataType :=
      hdescription.report.storedType
    rw [hstored]
    exact exists_elementBytes hopenable.real
  · have hne : described.report.pixelMaskId ≠ "" := of_decide_eq_true hmasked
    obtain ⟨flag, hflag, hmasks⟩ := hdescription.report.canMask hfiled hopenable hne
    rcases hdescription.flagGeometry with ⟨hempty, -⟩ | ⟨-, own, g, hown, hgeometry, hbuilt⟩
    · exact absurd hempty hne
    · obtain ⟨hsame, document', name, hparse⟩ := verifyAnswer_shape hflag hown
      rw [DescribedImage.flagChunks, hgeometry]
      exact of_buildChunkGeometry hof.storedInOrder hparse
        (by rw [hsame, hmasks.shape, hshape]) hbuilt
  · have hempty : described.report.pixelMaskId = "" := not_not.1 (of_decide_eq_false hunmasked)
    rcases hdescription.flagGeometry with ⟨-, hnone⟩ | ⟨hne, -⟩
    · exact hnone
    · exact absurd hempty hne

/-- **What is described can be reduced**: whichever reads failed before, a description that is given
is laid out, and with any source of pixels and any pool it makes a reducible image, whose plane
walks go along the axes of its coordinates. -/
theorem describeImage_reducible {backing : Backing} (hopen : openStore backing = .ok store)
    (hout : outages.Transient True) {s : Session} (hs : Reached store outages s)
    (h : (describeImage store outages imageId s).1 = .ok described) :
    described.IsLaidOut ∧ ∀ (ω α : Type) (source : PixelSource ω α) (workers : TaskPool ω),
      ∃ image, described.reducible source workers = .ok image ∧ image.source = source ∧
        image.descriptor = described.report.descriptor ∧ image.geometry.Of image.descriptor ∧
        (image.descriptor.hasPixelMask = true → image.flagGeometry.Of image.descriptor) ∧
        image.map = ⟨0, 1, 2, some 3, some 4⟩ := by
  obtain ⟨hlaid, hmap⟩ := (describedAs_of_describeImage hopen hout hs h).isLaidOut
    (openStore_filed hopen)
  refine ⟨hlaid, fun ω α source workers =>
    ⟨_, ReducibleImage.of_eq_ok source _ _ workers hmap, rfl, rfl,
    hlaid.geometry, hlaid.flag, rfl⟩⟩

end Opened

theorem describeImage_reducible_wholeCube : ∃ described : DescribedImage,
    described.IsLaidOut ∧ ∀ (ω α : Type) (source : PixelSource ω α) (workers : TaskPool ω),
      ∃ image, described.reducible source workers = .ok image ∧ image.source = source ∧
        image.descriptor = described.report.descriptor ∧ image.geometry.Of image.descriptor ∧
        (image.descriptor.hasPixelMask = true → image.flagGeometry.Of image.descriptor) ∧
        image.map = ⟨0, 1, 2, some 3, some 4⟩ := by
  have hopen : openStore wholeCube = .ok wholeCubeStore := rfl
  obtain ⟨described, hdescribed⟩ : ∃ described,
      (describeImage wholeCubeStore (fun _ => none) "SKY" wholeCubeStore.initial).1 =
          .ok described :=
    exists_of_isSome_toOption (by decide +kernel)
  exact ⟨described, describeImage_reducible hopen transient_none .initial hdescribed⟩

end CartaZarr
