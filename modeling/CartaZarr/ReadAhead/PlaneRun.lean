import CartaZarr.Read.FlagCost
import CartaZarr.ReadAhead.Runs

/-!
# What one run of a plane holds

`planeRunBytes` is what a run of a whole plane is said to hold once decoded. The exact number is
`exactRunBytes`: no run of a plane holds more (`runBytes_le`) and some run holds as much
(`exists_runBytes_eq`), so that what is said is enough for every run exactly when the exact number
fits a word (`runBytes_le_iff`).
-/

namespace CartaZarr

open Word

/-- Chunks along one axis: one for an axis with no chunk shape to speak of. -/
def chunksAlong (length chunk : ℕ) : ℕ :=
  if chunk = 0 then 1 else max 1 (sub (add length chunk) 1 / chunk)

/-- The first axis with a role. -/
def axisIndex (axes : List AxisDescriptor) (role : AxisRole) : Option ℕ :=
  axes.findIdx? fun axis => axis.role = role

/-- The flag's layout; without a chunk shape it is taken to be the pixels'. -/
def flagOf (geometry flagGeometry : ChunkGeometry) : ChunkGeometry :=
  if flagGeometry.chunkShape.isEmpty then geometry else flagGeometry

/-- What one run of a whole plane holds once decoded; zero for an image with no two spatial axes. -/
def planeRunBytes (descriptor : ImageDescriptor) (geometry flagGeometry : ChunkGeometry)
    (applyMask : Bool) : ℕ :=
  match axisIndex descriptor.axes .spatialX, axisIndex descriptor.axes .spatialY with
  | some x, some y =>
    let chunks := mul (chunksAlong (descriptor.length x) (geometry.chunk x))
      (chunksAlong (descriptor.length y) (geometry.chunk y))
    let pixels := mul chunks (decodedChunkBytes descriptor geometry)
    if !applyMask then pixels
    else
      let flag := flagOf geometry flagGeometry
      let flagChunks := (List.range descriptor.rank).foldl (fun flagChunks axis =>
        mul flagChunks
          (if axis = x ∨ axis = y then chunksAlong (descriptor.length axis) (flag.chunk axis)
          else flagChunksAcross (descriptor.length axis) (geometry.chunk axis) (flag.chunk axis))) 1
      add pixels (mul flagChunks (chunkElements flag))
  | _, _ => 0

/-! ## The exact number -/

/-- The pixel chunks of a run of a plane. -/
def runPixelChunks (d : ImageDescriptor) (g : ChunkGeometry) (x y : ℕ) : ℕ :=
  ∏ i ∈ Finset.range d.rank, if i = x ∨ i = y then d.length i ⌈/⌉ g.chunk i else 1

/-- The most flag chunks of a run of a plane. -/
def runFlagChunks (d : ImageDescriptor) (g f : ChunkGeometry) (x y : ℕ) : ℕ :=
  ∏ i ∈ Finset.range d.rank, if i = x ∨ i = y then d.length i ⌈/⌉ f.chunk i
    else mostFlagChunks (d.length i) (g.chunk i) (f.chunk i)

/-- The most bytes that a run of a plane decodes to. -/
def exactRunBytes (d : ImageDescriptor) (g f : ChunkGeometry) (applyMask : Bool) (x y : ℕ) : ℕ :=
  runPixelChunks d g x y * pixelChunkBytes d g +
    if applyMask then runFlagChunks d g f x y * chunkVolume d f else 0

/-- What a read decodes: the chunks it touches of the pixels and, when the mask applies, of the
flag. -/
def touchedBytes (d : ImageDescriptor) (g f : ChunkGeometry) (applyMask : Bool)
    (r : ReadRequest) : ℕ :=
  (r.touched g).card * pixelChunkBytes d g +
    if applyMask then (r.touched f).card * chunkVolume d f else 0

/-- A read of one index on every axis but the two of a plane. -/
structure ReadRequest.IsPlane (p : ReadRequest) (d : ImageDescriptor) (x y : ℕ) : Prop
    extends p.Inside d where
  count_eq : ∀ i < d.rank, i ≠ x → i ≠ y → (p.axis i).count = 1

/-- An image and its flag, whose lengths and chunks are extents above zero that fit 63 bits. -/
structure PlaneFits (d : ImageDescriptor) (g f : ChunkGeometry) : Prop where
  pixels : g.Of d
  flags : f.Of d
  length_pos : ∀ i < d.rank, 0 < d.length i
  length_lt : ∀ i < d.rank, d.length i < 2 ^ 63
  chunk_lt : ∀ i < d.rank, g.chunk i < 2 ^ 63 ∧ f.chunk i < 2 ^ 63

section PlaneRun

variable {d : ImageDescriptor} {g f : ChunkGeometry} {p : ReadRequest} {x y : ℕ}

theorem axisIndex_lt {role : AxisRole} (h : axisIndex d.axes role = some x) :
    x < d.rank ∧ (d.axis x).role = role := by
  obtain ⟨hlt, hrole, -⟩ := List.findIdx?_eq_some_iff_getElem.1 h
  exact ⟨hlt, by rw [d.axis_eq_getElem hlt]; exact of_decide_eq_true hrole⟩

/-- A range of an axis touches no more chunks than the axis has. -/
theorem card_chunks_le_ceilDiv {range : Range} {length chunk : ℕ} (hchunk : 0 < chunk)
    (hlast : Strided.coord range.start range.stride (range.count - 1) < length) :
    (range.chunks chunk).card ≤ length ⌈/⌉ chunk := by
  have hsub : range.chunks chunk ⊆ Finset.range (length ⌈/⌉ chunk) := by
    intro k hk
    obtain ⟨i, -, hi, rfl⟩ := Strided.mem_chunksOf.1 hk
    rw [Finset.mem_range, lt_ceilDiv_iff hchunk]
    exact (Nat.div_mul_le_self _ _).trans_lt ((Strided.coord_mono (by omega)).trans_lt hlast)
  exact (Finset.card_le_card hsub).trans (by rw [Finset.card_range])

/-- The whole of an axis touches all its chunks. -/
theorem card_chunks_whole {length chunk : ℕ} (hlength : 0 < length) (hchunk : 0 < chunk) :
    ((⟨0, length, 1⟩ : Range).chunks chunk).card = length ⌈/⌉ chunk := by
  have hon := flagChunksOn_eq hchunk hlength (show 0 * length < length by rwa [Nat.zero_mul])
  rw [flagChunksOn, pixelRange, Nat.zero_mul, Nat.sub_zero, min_self, Nat.zero_add, min_self,
    Nat.zero_div, Nat.sub_zero] at hon
  rw [hon, Nat.ceilDiv_eq_add_pred_div, show length + chunk - 1 = length - 1 + chunk by omega,
    Nat.add_div_right _ hchunk]

theorem ceilDiv_pos {length chunk : ℕ} (hlength : 0 < length) (hchunk : 0 < chunk) :
    0 < length ⌈/⌉ chunk := by
  rw [← card_chunks_whole hlength hchunk]
  exact card_chunks_pos hlength

theorem chunksAlong_eq {length chunk : ℕ} (hlength : 0 < length) (hchunk : 0 < chunk)
    (hl : length < 2 ^ 63) (hc : chunk < 2 ^ 63) : chunksAlong length chunk = length ⌈/⌉ chunk := by
  have hsum : sub (add length chunk) 1 / chunk = length ⌈/⌉ chunk :=
    (ceil_sum_eq_iff (by omega) (by omega) hchunk).2 (by omega)
  rw [chunksAlong, if_neg hchunk.ne', hsum, max_eq_right (ceilDiv_pos hlength hchunk)]

/-- Of one index, a run has the whole of its pixel chunk. -/
theorem axis_runRequest_plane (hfits : PlaneFits d g f) (hp : p.IsPlane d x y)
    {i : ℕ} (hi : i < d.rank)
    (hx : i ≠ x) (hy : i ≠ y) : (runRequest d g p).axis i =
      pixelRange (d.length i) (g.chunk i) ((p.axis i).start / g.chunk i) ∧
      (p.axis i).start / g.chunk i * g.chunk i < d.length i := by
  have hlast := hp.last_lt i hi
  have hstart : (p.axis i).start / g.chunk i * g.chunk i ≤ (p.axis i).start :=
    Nat.div_mul_le_self _ _
  have hcoord : Strided.coord (p.axis i).start (p.axis i).stride 0 = (p.axis i).start := by
    simp [Strided.coord]
  rw [hp.count_eq i hi hx hy, hcoord] at hlast
  refine ⟨?_, by omega⟩
  rw [axis_runRequest hp.toInside hfits.pixels.chunk_pos hfits.length_lt hi, hp.count_eq i hi hx hy,
    pixelRange, Strided.chunkAt, hcoord]
  congr 1
  rw [Nat.add_mul, one_mul]
  omega

/-- **No run of a plane holds more.** -/
theorem runBytes_le (hfits : PlaneFits d g f) (hp : p.IsPlane d x y) (applyMask : Bool) :
    touchedBytes d g f applyMask (runRequest d g p) ≤ exactRunBytes d g f applyMask x y := by
  have hin := runRequest_inside hp.toInside hfits.pixels.chunk_pos hfits.length_lt
  have hpixels : ((runRequest d g p).touched g).card ≤ runPixelChunks d g x y := by
    rw [ReadRequest.card_touched hin]
    refine Finset.prod_le_prod (fun _ _ => Nat.zero_le _) fun i hi => ?_
    have hi := Finset.mem_range.1 hi
    split
    · exact card_chunks_le_ceilDiv (hfits.pixels.chunk_pos i hi) (hin.last_lt i hi)
    · next h =>
      obtain ⟨haxis, hlt⟩ := axis_runRequest_plane hfits hp hi (fun e => h (Or.inl e)) fun e =>
        h (Or.inr e)
      rw [haxis]
      exact (flagChunksOn_self (hfits.pixels.chunk_pos i hi) hlt).le
  have hflags : ((runRequest d g p).touched f).card ≤ runFlagChunks d g f x y := by
    rw [ReadRequest.card_touched hin]
    refine Finset.prod_le_prod (fun _ _ => Nat.zero_le _) fun i hi => ?_
    have hi := Finset.mem_range.1 hi
    split
    · exact card_chunks_le_ceilDiv (hfits.flags.chunk_pos i hi) (hin.last_lt i hi)
    · next h =>
      obtain ⟨haxis, hlt⟩ := axis_runRequest_plane hfits hp hi (fun e => h (Or.inl e)) fun e =>
        h (Or.inr e)
      rw [haxis]
      exact flagChunksOn_le_most (hfits.pixels.chunk_pos i hi) _ hlt
  refine Nat.add_le_add (Nat.mul_le_mul_right _ hpixels) ?_
  split
  · exact Nat.mul_le_mul_right _ hflags
  · exact le_rfl

/-- The plane that shows, of every other axis, one index of the chunk `c` of it. -/
def planeAt (d : ImageDescriptor) (g : ChunkGeometry) (x y : ℕ) (c : ℕ → ℕ) : ReadRequest :=
  ⟨(List.range d.rank).map fun i =>
    if i = x ∨ i = y then ⟨0, d.length i, 1⟩ else ⟨c i * g.chunk i, 1, 1⟩⟩

theorem axis_planeAt {c : ℕ → ℕ} {i : ℕ} (hi : i < d.rank) : (planeAt d g x y c).axis i =
    if i = x ∨ i = y then ⟨0, d.length i, 1⟩ else ⟨c i * g.chunk i, 1, 1⟩ := by
  rw [ReadRequest.axis_eq_getElem _ (by simpa [planeAt] using hi)]
  simp [planeAt]

theorem planeAt_isPlane (hlength : ∀ i < d.rank, 0 < d.length i) {c : ℕ → ℕ}
    (hc : ∀ i < d.rank, c i * g.chunk i < d.length i) : (planeAt d g x y c).IsPlane d x y where
  rank_eq := by simp [planeAt]
  stride_pos i hi := by
    rw [axis_planeAt hi]
    split <;> exact Nat.one_pos
  count_pos i hi := by
    rw [axis_planeAt hi]
    split
    · exact hlength i hi
    · exact Nat.one_pos
  last_lt i hi := by
    have hpos := hlength i hi
    have hlt := hc i hi
    rw [axis_planeAt hi]
    split <;> simp only [Strided.coord] <;> omega
  count_eq i hi hx hy := by rw [axis_planeAt hi, if_neg (not_or.2 ⟨hx, hy⟩)]

/-- **Some run of a plane holds as much.** -/
theorem exists_runBytes_eq (hfits : PlaneFits d g f) (x y : ℕ) (applyMask : Bool) :
    ∃ p, p.IsPlane d x y ∧
      touchedBytes d g f applyMask (runRequest d g p) = exactRunBytes d g f applyMask x y := by
  have hmost : ∀ i, ∃ c, i < d.rank → c * g.chunk i < d.length i ∧
      flagChunksOn (d.length i) (g.chunk i) (f.chunk i) c =
        mostFlagChunks (d.length i) (g.chunk i) (f.chunk i) := fun i => by
    by_cases hi : i < d.rank
    · obtain ⟨c, hc⟩ := exists_flagChunksOn_eq (hfits.flags.chunk_pos i hi)
        (hfits.pixels.chunk_pos i hi)
        (hfits.length_pos i hi)
      exact ⟨c, fun _ => hc⟩
    · exact ⟨0, fun h => absurd h hi⟩
  choose c hc using hmost
  have hp : (planeAt d g x y c).IsPlane d x y :=
    planeAt_isPlane hfits.length_pos fun i hi => (hc i hi).1
  have hin := runRequest_inside hp.toInside hfits.pixels.chunk_pos hfits.length_lt
  have hspatial : ∀ i < d.rank, i = x ∨ i = y →
      (runRequest d g (planeAt d g x y c)).axis i = ⟨0, d.length i, 1⟩ := by
    intro i hi h
    have hpos := hfits.length_pos i hi
    have hchunk := hfits.pixels.chunk_pos i hi
    have hend : d.length i ≤ (Strided.chunkAt 0 1 (g.chunk i) (d.length i - 1) + 1) *
        g.chunk i := by
      have := Nat.lt_div_mul_add hchunk (a := d.length i - 1)
      simp only [Strided.chunkAt, Strided.coord, Nat.zero_add, mul_one, Nat.add_mul, one_mul]
      omega
    rw [axis_runRequest hp.toInside hfits.pixels.chunk_pos hfits.length_lt hi,
      axis_planeAt hi, if_pos h]
    simp only [Nat.zero_div, Nat.zero_mul, Nat.sub_zero, min_eq_left hend]
  have hother : ∀ i < d.rank, ¬ (i = x ∨ i = y) →
      (runRequest d g (planeAt d g x y c)).axis i = pixelRange (d.length i) (g.chunk i) (c i) := by
    intro i hi h
    obtain ⟨haxis, -⟩ := axis_runRequest_plane hfits hp hi (fun e => h (Or.inl e)) fun e =>
      h (Or.inr e)
    rw [haxis, axis_planeAt hi, if_neg h, Nat.mul_div_cancel _ (hfits.pixels.chunk_pos i hi)]
  refine ⟨_, hp, ?_⟩
  have hpixels : ((runRequest d g (planeAt d g x y c)).touched g).card =
      runPixelChunks d g x y := by
    rw [ReadRequest.card_touched hin]
    refine Finset.prod_congr rfl fun i hi => ?_
    have hi := Finset.mem_range.1 hi
    split
    · next h => rw [hspatial i hi h,
        card_chunks_whole (hfits.length_pos i hi) (hfits.pixels.chunk_pos i hi)]
    · next h =>
      rw [hother i hi h]
      exact flagChunksOn_self (hfits.pixels.chunk_pos i hi) (hc i hi).1
  have hflags : ((runRequest d g (planeAt d g x y c)).touched f).card =
      runFlagChunks d g f x y := by
    rw [ReadRequest.card_touched hin]
    refine Finset.prod_congr rfl fun i hi => ?_
    have hi := Finset.mem_range.1 hi
    split
    · next h => rw [hspatial i hi h,
        card_chunks_whole (hfits.length_pos i hi) (hfits.flags.chunk_pos i hi)]
    · next h =>
      rw [hother i hi h]
      exact (hc i hi).2
  rw [touchedBytes, hpixels, hflags, exactRunBytes]

/-! ## What the code says -/

theorem runPixelChunks_eq (hx : x < d.rank) (hy : y < d.rank) (hne : x ≠ y) :
    runPixelChunks d g x y = d.length x ⌈/⌉ g.chunk x * (d.length y ⌈/⌉ g.chunk y) := by
  have hfilter : (Finset.range d.rank).filter (fun i => i = x ∨ i = y) = {x, y} := by
    ext i
    simp only [Finset.mem_filter, Finset.mem_range, Finset.mem_insert, Finset.mem_singleton]
    constructor
    · exact And.right
    · rintro (rfl | rfl)
      · exact ⟨hx, Or.inl rfl⟩
      · exact ⟨hy, Or.inr rfl⟩
  rw [runPixelChunks, ← Finset.prod_filter, hfilter, Finset.prod_pair hne]

theorem runPixelChunks_pos (hfits : PlaneFits d g f) (x y : ℕ) : 0 < runPixelChunks d g x y :=
  Finset.prod_pos fun i hi => by
    have hi := Finset.mem_range.1 hi
    split
    · exact ceilDiv_pos (hfits.length_pos i hi) (hfits.pixels.chunk_pos i hi)
    · exact Nat.one_pos

theorem runFlagChunks_pos (hfits : PlaneFits d g f) (x y : ℕ) : 0 < runFlagChunks d g f x y :=
  Finset.prod_pos fun i hi => by
    have hi := Finset.mem_range.1 hi
    split
    · exact ceilDiv_pos (hfits.length_pos i hi) (hfits.flags.chunk_pos i hi)
    · exact mostFlagChunks_pos

theorem exactRunBytes_pos (hfits : PlaneFits d g f) (applyMask : Bool) (x y : ℕ) :
    0 < exactRunBytes d g f applyMask x y :=
  (Nat.mul_pos (runPixelChunks_pos hfits x y) (pixelChunkBytes_pos hfits.pixels)).trans_le
    (Nat.le_add_right _ _)

/-- The code counts the flag chunks of a run modulo a word. -/
theorem foldl_runFlagChunks (hfits : PlaneFits d g f) (x y : ℕ) :
    (List.range d.rank).foldl (fun flagChunks axis => mul flagChunks
      (if axis = x ∨ axis = y then chunksAlong (d.length axis) (f.chunk axis)
      else flagChunksAcross (d.length axis) (g.chunk axis) (f.chunk axis))) 1 =
    runFlagChunks d g f x y % 2 ^ 64 := by
  have hfold := foldl_mul_mod (l := List.range d.rank) (g := fun flagChunks axis => mul flagChunks
      (if axis = x ∨ axis = y then chunksAlong (d.length axis) (f.chunk axis)
      else flagChunksAcross (d.length axis) (g.chunk axis) (f.chunk axis)))
    (f := fun i => if i = x ∨ i = y then d.length i ⌈/⌉ f.chunk i
      else mostFlagChunks (d.length i) (g.chunk i) (f.chunk i)) (fun i hi acc => by
    have hi := List.mem_range.1 hi
    have hl := hfits.length_lt i hi
    obtain ⟨hg, hf⟩ := hfits.chunk_lt i hi
    have hfpos := hfits.flags.chunk_pos i hi
    rw [chunksAlong_eq (hfits.length_pos i hi) hfpos hl hf,
      flagChunksAcross_eq hfpos (hfits.pixels.chunk_pos i hi) (by omega)]
    rfl) 1
  rw [prod_map_range, one_mul] at hfold
  exact hfold

/-- An exact number that fits a word is what the code says. -/
theorem planeRunBytes_eq (hfits : PlaneFits d g (flagOf g f))
    (hx : axisIndex d.axes .spatialX = some x)
    (hy : axisIndex d.axes .spatialY = some y) {applyMask : Bool}
    (hexact : exactRunBytes d g (flagOf g f) applyMask x y < 2 ^ 64) :
    planeRunBytes d g f applyMask = exactRunBytes d g (flagOf g f) applyMask x y := by
  obtain ⟨hxlt, hxrole⟩ := axisIndex_lt hx
  obtain ⟨hylt, hyrole⟩ := axisIndex_lt hy
  have hne : x ≠ y := by
    rintro rfl
    rw [hxrole] at hyrole
    cases hyrole
  have halong : ∀ i < d.rank, chunksAlong (d.length i) (g.chunk i) = d.length i ⌈/⌉ g.chunk i :=
    fun i hi => chunksAlong_eq (hfits.length_pos i hi) (hfits.pixels.chunk_pos i hi)
      (hfits.length_lt i hi) (hfits.chunk_lt i hi).1
  have hchunks := runPixelChunks_eq (g := g) hxlt hylt hne
  have hchunksPos := runPixelChunks_pos hfits x y
  have hbytes := pixelChunkBytes_pos hfits.pixels
  have hpixels : runPixelChunks d g x y * pixelChunkBytes d g < 2 ^ 64 :=
    (Nat.le_add_right _ _).trans_lt hexact
  have hdecoded : decodedChunkBytes d g = pixelChunkBytes d g := by
    rw [decodedChunkBytes_eq hfits.pixels,
      Nat.mod_eq_of_lt ((Nat.le_mul_of_pos_left _ hchunksPos).trans_lt hpixels),
      max_eq_right hbytes]
  have hcount : mul (chunksAlong (d.length x) (g.chunk x)) (chunksAlong (d.length y) (g.chunk y)) =
      runPixelChunks d g x y := by
    rw [halong x hxlt, halong y hylt, hchunks]
    exact mul_eq (hchunks ▸ (Nat.le_mul_of_pos_right _ hbytes).trans_lt hpixels)
  simp only [planeRunBytes, hx, hy, hcount, hdecoded, mul_eq hpixels]
  cases applyMask with
  | false => rfl
  | true =>
    have hvolume := chunkVolume_pos hfits.flags
    have hflags : runFlagChunks d g (flagOf g f) x y * chunkVolume d (flagOf g f) < 2 ^ 64 :=
      (Nat.le_add_left _ _).trans_lt hexact
    have hflagsPos := runFlagChunks_pos hfits x y
    have hmul : mul (runFlagChunks d g (flagOf g f) x y) (chunkElements (flagOf g f)) =
        runFlagChunks d g (flagOf g f) x y * chunkVolume d (flagOf g f) := by
      rw [chunkElements_eq hfits.flags,
        Nat.mod_eq_of_lt ((Nat.le_mul_of_pos_left _ hflagsPos).trans_lt hflags), mul_eq hflags]
    rw [foldl_runFlagChunks hfits,
      Nat.mod_eq_of_lt ((Nat.le_mul_of_pos_right _ hvolume).trans_lt hflags),
      hmul]
    exact add_eq hexact

theorem planeRunBytes_lt (d : ImageDescriptor) (g f : ChunkGeometry) (applyMask : Bool) :
    planeRunBytes d g f applyMask < 2 ^ 64 := by
  unfold planeRunBytes
  split
  · cases applyMask
    · exact mul_lt _ _
    · exact add_lt _ _
  · norm_num

/-- **What is said is enough for every run** exactly when the most a run holds fits a word. -/
theorem runBytes_le_iff (hfits : PlaneFits d g (flagOf g f))
    (hx : axisIndex d.axes .spatialX = some x)
    (hy : axisIndex d.axes .spatialY = some y) (applyMask : Bool) :
    (∀ p, p.IsPlane d x y →
        touchedBytes d g (flagOf g f) applyMask (runRequest d g p) ≤
          planeRunBytes d g f applyMask) ↔
      exactRunBytes d g (flagOf g f) applyMask x y < 2 ^ 64 := by
  constructor
  · intro h
    obtain ⟨p, hp, hmost⟩ := exists_runBytes_eq hfits x y applyMask
    rw [← hmost]
    exact (h p hp).trans_lt (planeRunBytes_lt d g f applyMask)
  · intro hexact p hp
    rw [planeRunBytes_eq hfits hx hy hexact]
    exact runBytes_le hfits hp applyMask

end PlaneRun

end CartaZarr
