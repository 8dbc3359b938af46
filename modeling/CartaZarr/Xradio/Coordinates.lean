import Mathlib.Data.List.Perm.Subperm
import CartaZarr.Image.StoredGeometry
import CartaZarr.Zarr.NumericArray

/-!
# The coordinates of an image dataset

The coordinates an image has an axis of, each with the name its dimension is found by. A variable
with a dimension of each of the five of the sky plane, and no other, has an axis of each, wherever
the dimension is stored (`describeAxes_of`).
-/

namespace CartaZarr

/-- Which plane's variables carry a coordinate. -/
inductive Plane
  | both | sky | aperture
  deriving DecidableEq, Repr

/-- A coordinate: the name of its dimension, and the axis it is. -/
structure Coordinate where
  name : String
  role : AxisRole
  plane : Plane
  deriving DecidableEq, Repr

/-- Those of the sky plane come first, in the order of an image's axes. -/
def kCoordinates : List Coordinate :=
  [⟨"l", .spatialX, .sky⟩, ⟨"m", .spatialY, .sky⟩, ⟨"frequency", .spectral, .both⟩,
    ⟨"polarization", .polarization, .both⟩, ⟨"time", .time, .both⟩, ⟨"u", .other, .aperture⟩,
    ⟨"v", .other, .aperture⟩]

def onPlane (plane : Plane) (coordinate : Coordinate) : Bool :=
  coordinate.plane = .both || coordinate.plane = plane

def axisCount (plane : Plane) : ℕ := kCoordinates.countP (onPlane plane)

/-- A variable has a dimension of every coordinate of a plane. -/
def carriesPlane (metadata : ArrayMetadata) (plane : Plane) : Bool :=
  kCoordinates.all fun coordinate =>
    !onPlane plane coordinate || (findDimensionIndex metadata coordinate.name).isSome

/-- The axes of an image, in the order of the coordinates; nothing where the shape has no extent for
one. -/
def describeAxes (image : ArrayMetadata) : Option (List AxisDescriptor) :=
  ((kCoordinates.filter (onPlane .sky)).filterMap fun coordinate =>
    (findDimensionIndex image coordinate.name).map fun index =>
        (coordinate, index)).mapM fun found => do
      let length ← image.shape[found.2]?
      return ⟨found.1.name, found.1.role, length, found.2⟩

/-- Axes that are those of an image: one of each role, one of each dimension, as long as the
dimension is and called what it is. -/
structure AxesOf (image : ArrayMetadata) (axes : List AxisDescriptor) : Prop where
  role : axes.map AxisDescriptor.role = [.spatialX, .spatialY, .spectral, .polarization, .time]
  stored : (axes.map AxisDescriptor.storageIndex).Perm (List.range 5)
  length : ∀ axis ∈ axes, image.shape[axis.storageIndex]? = some axis.length
  name : ∀ axis ∈ axes, image.dimensionNames[axis.storageIndex]? = some axis.name

variable {image : ArrayMetadata}

/-- A coordinate is known by its name. -/
theorem eq_of_name_eq :
    ∀ c ∈ kCoordinates, ∀ c' ∈ kCoordinates, c.name = c'.name → c = c' := by decide

theorem findDimensionIndex_of_mem {name : String} (h : name ∈ image.dimensionNames) :
    findDimensionIndex image name = some (image.dimensionNames.idxOf name) := by
  rw [findDimensionIndex, List.idxOf?_eq_some_iff]
  have hlt := List.idxOf_lt_length_iff.2 h
  refine ⟨hlt, by simp, fun j hj => ?_⟩
  have := List.not_of_lt_findIdx hj
  simpa using this

/-- A variable on the sky plane has a dimension of each of its coordinates. -/
theorem mem_dimensionNames_of_carriesPlane {plane : Plane} (h : carriesPlane image plane = true)
    {coordinate : Coordinate} (hc : coordinate ∈ kCoordinates.filter (onPlane plane)) :
    coordinate.name ∈ image.dimensionNames := by
  obtain ⟨hmem, hon⟩ := List.mem_filter.1 hc
  have hfound := List.all_eq_true.1 h coordinate hmem
  rw [hon, Bool.not_true, Bool.false_or] at hfound
  simpa [findDimensionIndex] using hfound

/-- **An image of the five dimensions has its axes.** -/
theorem describeAxes_of (hnames : image.dimensionNames.length = 5)
    (hshape : image.shape.length = 5) (hcarries : carriesPlane image .sky = true) :
    ∃ axes, describeAxes image = some axes ∧ AxesOf image axes := by
  have hmem := fun coordinate hc =>
    @mem_dimensionNames_of_carriesPlane image .sky hcarries coordinate hc
  have hfound : ((kCoordinates.filter (onPlane .sky)).filterMap fun coordinate =>
      (findDimensionIndex image coordinate.name).map fun index => (coordinate, index)) =
      (kCoordinates.filter (onPlane .sky)).map fun coordinate =>
        (coordinate, image.dimensionNames.idxOf coordinate.name) := by
    rw [← List.filterMap_eq_map]
    refine List.filterMap_congr fun coordinate hc => ?_
    rw [findDimensionIndex_of_mem (hmem coordinate hc)]
    rfl
  have hlt : ∀ coordinate ∈ kCoordinates.filter (onPlane .sky),
      image.dimensionNames.idxOf coordinate.name < 5 := fun coordinate hc =>
    hnames ▸ List.idxOf_lt_length_iff.2 (hmem coordinate hc)
  have hextents : ((kCoordinates.filter (onPlane .sky)).map fun coordinate =>
      (coordinate, image.dimensionNames.idxOf coordinate.name)).mapM (fun found => do
        let length ← image.shape[found.2]?
        return (⟨found.1.name, found.1.role, length, found.2⟩ : AxisDescriptor)) = some _ :=
    @mapM_eq_some _ _ _ (fun found =>
      ⟨found.1.name, found.1.role, image.shape.getD found.2 0, found.2⟩) _
      fun found hc => by
        obtain ⟨coordinate, hmem, rfl⟩ := List.mem_map.1 hc
        rw [getElem?_eq_getD (hshape ▸ hlt coordinate hmem) 0]
        rfl
  refine ⟨_, by rw [describeAxes, hfound, hextents], ?_⟩
  rw [List.map_map]
  refine ⟨rfl, ?_, fun axis haxis => ?_, fun axis haxis => ?_⟩
  · rw [List.map_map]
    refine (List.Nodup.subperm (List.Nodup.map_on (fun c hc c' hc' h => ?_) (by decide))
      fun i hi => ?_).perm_of_length_le (le_of_eq rfl)
    · exact eq_of_name_eq c (List.mem_of_mem_filter hc) c' (List.mem_of_mem_filter hc')
        ((List.idxOf_inj (hmem c hc)).1 h)
    · obtain ⟨c, hc, rfl⟩ := List.mem_map.1 hi
      exact List.mem_range.2 (hlt c hc)
  · obtain ⟨c, hc, rfl⟩ := List.mem_map.1 haxis
    exact getElem?_eq_getD (hshape ▸ hlt c hc) 0
  · obtain ⟨c, hc, rfl⟩ := List.mem_map.1 haxis
    exact List.getElem?_idxOf (hmem c hc)

end CartaZarr
