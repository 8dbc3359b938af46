import Mathlib.Data.Rat.Defs
import CartaZarr.Foundations.Attempt
import CartaZarr.Zarr.PixelSelection

/-!
# Where pixels and flags come from

A `PixelSource` is a pixel and a flag for every image index, and calls that may fail. What decides
whether a call fails (storage, a deadline, another thread's cancellation) is outside the library: it
is a state `ω` of the world, which every call reads and changes.

A pixel read that fails may have written to its destination, though never past its selection; one
that returns has filled the front of it with the source's values. `maskedPixel` is the value a read
that folds in the flag is to produce.
-/

namespace CartaZarr

/-- A type of pixels: its not-a-number is what a flagged pixel becomes, and its zero what a buffer
is made of. -/
class Pixel (α : Type) where
  nan : α
  zero : α

/-- Pixels whose numbers are exact: what is not finite is `none`. -/
instance : Pixel (Option ℚ) := ⟨none, some 0⟩

/-- What may stop a read: a cancellation callback, when there is one, and a deadline. -/
structure ReadControl (ω : Type) where
  cancellationRequested : Option (ω → Bool × ω)
  deadlinePassed : ω → Bool × ω

/-- Ask the control whether a read may go on. -/
def checkReadControl {ω : Type} (control : ReadControl ω) (node : String) : Attempt Error ω Unit :=
  fun w =>
    let (cancelled, w) := match control.cancellationRequested with
      | some requested => requested w
      | none => (false, w)
    if cancelled then (.error ⟨.cancelled, "Pixel read was cancelled", node⟩, w)
    else
      let (expired, w) := control.deadlinePassed w
      if expired then (.error ⟨.cancelled, "Pixel read deadline expired", node⟩, w)
      else (.ok (), w)

/-- Where an image's pixels and its flag come from: the values at every image index, and for each
call the error it fails with, if it does, beside what a failing pixel read had written. -/
structure PixelSource (ω α : Type) where
  pixelAt : List ℕ → α
  flagAt : List ℕ → UInt8
  pixelFault : PixelSelection → ω → Option (Error × List α) × ω
  maskFault : PixelSelection → ω → Option Error × ω

/-- Write `values` over the front of a buffer. -/
def overwrite {α : Type} (destination values : List α) : List α :=
  values ++ destination.drop values.length

/-- Replace every pixel whose flag is set. -/
def applyPixelMask {α : Type} [Pixel α] (pixels : List α) (mask : List UInt8)
    (count : ℕ) : List α :=
  pixels.mapIdx fun i pixel => if i < count ∧ mask.getD i 0 ≠ 0 then Pixel.nan else pixel

namespace PixelSource

variable {ω α : Type}

/-- The pixels of a selection, in the order of its destination. -/
def pixels (source : PixelSource ω α) (d : ImageDescriptor) (s : PixelSelection) : List α :=
  (List.range s.elements).map fun k => source.pixelAt (d.logicalIndex (s.storedIndex k))

/-- The flags of a selection, in the order of its destination. -/
def flags (source : PixelSource ω α) (d : ImageDescriptor) (s : PixelSelection) : List UInt8 :=
  (List.range s.elements).map fun k => source.flagAt (d.logicalIndex (s.storedIndex k))

/-- Read a selection's pixels into the front of a buffer. -/
def readPixels (source : PixelSource ω α) (d : ImageDescriptor) (s : PixelSelection) :
    Attempt Error (ω × List α) Unit := fun (w, destination) =>
  if destination.length < s.elements then
    (.error ⟨.invalidArgument, "Destination buffer is too small", d.id⟩, (w, destination))
  else match source.pixelFault s w with
    | (some (e, written), w) =>
      (.error e, (w, overwrite destination (written.take s.elements)))
    | (none, w) => (.ok (), (w, overwrite destination (source.pixels d s)))

/-- Read a selection's flags into a buffer of `size` bytes. -/
def readMask (source : PixelSource ω α) (d : ImageDescriptor) (s : PixelSelection) (size : ℕ) :
    Attempt Error ω (List UInt8) := fun w =>
  if size < s.elements then
    (.error ⟨.invalidArgument, "Destination buffer is too small", d.id⟩, w)
  else match source.maskFault s w with
    | (some e, w) => (.error e, w)
    | (none, w) => (.ok (source.flags d s), w)

/-- The value of an image element as a read delivers it. -/
def maskedPixel [Pixel α] (source : PixelSource ω α) (applyMask : Bool) (index : List ℕ) : α :=
  if applyMask ∧ source.flagAt index ≠ 0 then Pixel.nan else source.pixelAt index

@[simp] theorem length_pixels (source : PixelSource ω α) (d : ImageDescriptor)
    (s : PixelSelection) :
    (source.pixels d s).length = s.elements := by
  simp [pixels]

@[simp] theorem length_flags (source : PixelSource ω α) (d : ImageDescriptor) (s : PixelSelection) :
    (source.flags d s).length = s.elements := by
  simp [flags]

end PixelSource

@[simp] theorem length_overwrite {α : Type} {destination values : List α}
    (h : values.length ≤ destination.length) :
    (overwrite destination values).length = destination.length := by
  simp only [overwrite, List.length_append, List.length_drop]
  omega

theorem getElem?_overwrite_of_lt {α : Type} (destination : List α) {values : List α} {k : ℕ}
    (h : k < values.length) : (overwrite destination values)[k]? = values[k]? := by
  rw [overwrite, List.getElem?_append_left h]

theorem getElem?_overwrite_of_le {α : Type} (destination : List α) {values : List α} {k : ℕ}
    (h : values.length ≤ k) : (overwrite destination values)[k]? = destination[k]? := by
  rw [overwrite, List.getElem?_append_right h, List.getElem?_drop]
  congr 1
  omega

@[simp] theorem length_applyPixelMask {α : Type} [Pixel α] (pixels : List α) (mask : List UInt8)
    (count : ℕ) : (applyPixelMask pixels mask count).length = pixels.length := by
  simp [applyPixelMask]

/-- Folding a selection's flags into its pixels gives the values a masked read delivers. -/
theorem PixelSource.applyPixelMask_pixels {ω α : Type} [Pixel α] (source : PixelSource ω α)
    (d : ImageDescriptor) (s : PixelSelection) :
    applyPixelMask (source.pixels d s) (source.flags d s) s.elements =
      (List.range s.elements).map fun k =>
        source.maskedPixel true (d.logicalIndex (s.storedIndex k)) := by
  apply List.ext_getElem
  · simp
  · intro k hk hk'
    have hlt : k < s.elements := by simpa using hk'
    simp [applyPixelMask, pixels, flags, maskedPixel, hlt]

/-- A source that never fails: the pixel at an index is the sum of its coordinates, and the pixels
at odd ones are flagged. -/
def steadySource {ω : Type} : PixelSource ω (Option ℚ) where
  pixelAt index := some index.sum
  flagAt index := if index.sum % 2 = 1 then 1 else 0
  pixelFault _ w := (none, w)
  maskFault _ w := (none, w)

/-- A control that lets everything go on. -/
def freeControl {ω : Type} : ReadControl ω := ⟨none, fun w => (false, w)⟩

end CartaZarr
