import CartaZarr.Reduce.ReadPixels
import CartaZarr.Reduce.TaskSplit

/-!
# Images that can be reduced

What every reduction takes from an image: where its pixels come from, how it is laid out, which of
its axes is which, and the pool that divides its reads. `ReducibleImage.plan` checks the planes of a
request and plans the pass over them; a pass over the whole plane that it planned reads the pixels
of the plane (`pixelsOf_plan`).
-/

namespace CartaZarr

/-- A pool: how many bodies it runs at once, and the order in which it comes to run the tasks of a
call. -/
structure TaskPool (ω : Type) where
  size : ℕ
  size_pos : 0 < size
  order : ℕ → ω → List ℕ × ω
  order_perm : ∀ tasks w, (order tasks w).1.Perm (List.range tasks)

namespace TaskPool

variable {ω : Type} (workers : TaskPool ω)

/-- The order that the tasks of a split are run in. The pool is not called for one task. -/
def orderOf (tasks : ℕ) (w : ω) : List ℕ × ω :=
  if tasks ≤ 1 then (List.range tasks, w) else workers.order tasks w

theorem orderOf_perm (tasks : ℕ) (w : ω) : (workers.orderOf tasks w).1.Perm (List.range tasks) := by
  unfold orderOf
  split_ifs
  · exact List.Perm.refl _
  · exact workers.order_perm tasks w

/-- The calls that a split body is run by. -/
def calls (tasks units : ℕ) (w : ω) : List BodyCall × ω :=
  let called := workers.orderOf tasks w
  (TaskSplit.run tasks units called.1, called.2)

theorem calls_spec {most tasks units : ℕ} (hmost : 0 < most) (hle : tasks ≤ most)
    (hfit : units + tasks < 2 ^ 64)
    (w : ω) : SplitCalls most tasks units (workers.calls tasks units w).1 :=
  TaskSplit.run_spec hmost hle hfit (workers.orderOf_perm tasks w)

end TaskPool

/-- An image whose axes are mapped. -/
structure ReducibleImage (ω α : Type) where
  source : PixelSource ω α
  descriptor : ImageDescriptor
  geometry : ChunkGeometry
  flagGeometry : ChunkGeometry
  workers : TaskPool ω
  map : AxisMap
  mapped : mapAxes descriptor = .ok map

namespace ReducibleImage

variable {ω α : Type}

/-- The only way to get a reducible image is to map its axes. -/
def of (source : PixelSource ω α) (descriptor : ImageDescriptor)
    (geometry flagGeometry : ChunkGeometry)
    (workers : TaskPool ω) : Except Error (ReducibleImage ω α) :=
  match h : mapAxes descriptor with
  | .ok map => .ok ⟨source, descriptor, geometry, flagGeometry, workers, map, h⟩
  | .error e => .error e

variable (image : ReducibleImage ω α)

/-- The pass a reduction makes over some planes, once they are checked. -/
def plan (planes : PlaneSelection) (sample : ℕ)
    (options : ReadOptions) : Except Error PassPlan := do
  let checked ← CheckedPlanes.of image.descriptor image.map planes
  pure (planPass image.descriptor image.geometry image.flagGeometry
    image.map checked sample options)

/-- How a reduction whose tasks each hold an accumulator of `accumulatorBytes` divides a read. -/
def split (budgetBytes accumulatorBytes : ℕ) : TaskSplit :=
  .of image.workers.size budgetBytes accumulatorBytes

/-- The pixels of a selected plane of the image, at a channel of the selection. -/
def planePixels [Pixel α] (planes : PlaneSelection) (options : ReadOptions)
    (channel : ℕ) : Multiset α :=
  image.source.planePixels (appliesPixelMask options image.descriptor) image.descriptor
    image.map planes channel

variable {image} {planes : PlaneSelection} {sample : ℕ} {options : ReadOptions} {plan : PassPlan}

/-- The plane of an image that is the same everywhere. -/
theorem planePixels_of_constant [Pixel α] {channel : ℕ} (pixel : α)
    (hpixel : ∀ index, image.source.maskedPixel (appliesPixelMask options image.descriptor) index =
      pixel) :
    image.planePixels planes options channel = Multiset.replicate
      (image.descriptor.length image.map.x * image.descriptor.length image.map.y) pixel := by
  unfold planePixels PixelSource.planePixels PixelSource.pixelsAt
  simp [hpixel]

/-- A plan is that of planes the image agreed to serve. -/
theorem plan_ok (h : image.plan planes sample options = .ok plan) :
    ∃ checked : CheckedPlanes image.descriptor image.map, checked.selection = planes ∧
      plan = planPass image.descriptor image.geometry image.flagGeometry
        image.map checked sample options := by
  unfold ReducibleImage.plan CheckedPlanes.of at h
  split at h
  · rename_i hchecked
    cases h
    exact ⟨⟨planes, hchecked⟩, rfl, rfl⟩
  · cases h

/-- What a plan keeps of its image and its request. -/
theorem plan_fields (h : image.plan planes sample options = .ok plan) :
    plan.descriptor = image.descriptor ∧ plan.map = image.map ∧ plan.planes = planes ∧
      plan.sample = max 1 sample ∧ plan.applyMask = appliesPixelMask options image.descriptor := by
  obtain ⟨checked, rfl, rfl⟩ := plan_ok h
  exact ⟨rfl, rfl, rfl, rfl, rfl⟩

theorem plan_placed (h : image.plan planes sample options = .ok plan) : plan.Placed := by
  obtain ⟨checked, -, rfl⟩ := plan_ok h
  exact planPass_placed _ _ (mapAxes_of image.mapped) checked sample options

theorem plan_inRange (h : image.plan planes sample options = .ok plan)
    (hlen : ∀ i, image.descriptor.length i ≤ 2 ^ 63) : plan.InRange := by
  obtain ⟨checked, -, rfl⟩ := plan_ok h
  exact planPass_inRange _ _ checked sample options hlen

/-- **A pass over the whole plane** reads the pixels of the plane. -/
theorem pixelsOf_plan {φ : Type} [Pixel α] [HasSlab φ] (h : image.plan planes 1 options = .ok plan)
    (hlen : ∀ i, image.descriptor.length i ≤ 2 ^ 63) (control : ReadControl ω)
    (cancelled : String) {b e : ℕ}
    (hbe : b ≤ e) (he : e ≤ planes.spectral.count) {channel : ℕ} (hb : b ≤ channel)
    (hlt : channel < e) :
    SlabWalk.pixelsOf ⟨image.source, plan, control⟩ (fun _ _ => true)
        ((passOverPlane φ ⟨image.source, plan, control⟩ cancelled).reads b e) channel =
      image.planePixels planes options channel := by
  obtain ⟨hd, hmap, hplanes, hsample, hmask⟩ := plan_fields h
  have hpixels := @pixelsOf_plane φ ω α _ _ ⟨image.source, plan, control⟩ (plan_placed h)
    (plan_inRange h hlen)
    hsample cancelled b e hbe (hplanes ▸ he) channel hb hlt
  rw [hpixels, planePixels, ← hmask, ← hd, ← hmap, ← hplanes]

end ReducibleImage

/-! ## A small image, and images of any size -/

/-- A pool that runs its tasks in order. -/
def TaskPool.inOrder {ω : Type} (size : ℕ) (h : 0 < size) : TaskPool ω where
  size := size
  size_pos := h
  order tasks w := (List.range tasks, w)
  order_perm _ _ := List.Perm.refl _

/-- The small cube, each pixel the sum of its index, in chunks of 2 by 2 pixels and 4 channels. -/
def smallImage : ReducibleImage Unit (Option ℚ) where
  source := ⟨fun index => some index.sum, fun _ => 0, fun _ w => (none, w), fun _ w => (none, w)⟩
  descriptor := smallCube
  geometry := ⟨.spatialY, [2, 2, 4]⟩
  flagGeometry := ⟨.spatialY, []⟩
  workers := .inOrder 4 (by decide)
  map := smallCubeMap
  mapped := rfl

/-- One channel that is 1 everywhere. -/
def constantImage (width height chunkWidth chunkHeight : UInt64) :
    ReducibleImage Unit (Option ℚ) where
  source := ⟨fun _ => some 1, fun _ => 0, fun _ w => (none, w), fun _ w => (none, w)⟩
  descriptor :=
    { id := "SKY"
      storedType := .float32
      axes := [⟨"l", .spatialX, width, 2⟩, ⟨"m", .spatialY, height, 1⟩,
        ⟨"frequency", .spectral, 1, 0⟩]
      hasPixelMask := false }
  geometry := ⟨.spatialX, [chunkWidth, chunkHeight, 1]⟩
  flagGeometry := ⟨.spatialX, []⟩
  workers := .inOrder 1 Nat.one_pos
  map := smallCubeMap
  mapped := rfl

end CartaZarr
