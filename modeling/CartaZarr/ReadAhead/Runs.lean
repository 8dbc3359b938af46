import CartaZarr.Read.Touched

/-!
# The runs of an image

The run of a read is the box of chunks it touches (`runOf`), and `runRequest` is the read of the
whole of those chunks, clipped to the axes: what a prefetch asks for, since decoding the plane alone
decodes every other plane of its chunks too.

`runRequest_inside` and `runOf_runRequest` say that this is a read of the image and of the same run;
`has_runRequest`, that it holds every element of every read of that run.
-/

namespace CartaZarr

open Word

/-- The first and the last chunk of a read along every axis. -/
structure Run where
  first : List ℕ
  last : List ℕ
  deriving DecidableEq, Repr

/-- The run a read is in. An axis with no chunk shape to speak of is one chunk. -/
def runOf (geometry : ChunkGeometry) (request : ReadRequest) : Run where
  first := request.axes.mapIdx fun axis range =>
    if geometry.chunk axis = 0 then 0 else range.start / geometry.chunk axis
  last := request.axes.mapIdx fun axis range =>
    let step := max 1 range.stride
    let last := add range.start (if range.count = 0 then 0 else mul (sub range.count 1) step)
    if geometry.chunk axis = 0 then 0 else last / geometry.chunk axis

/-- The read that covers the run a plane is in. -/
def runRequest (descriptor : ImageDescriptor) (geometry : ChunkGeometry) (plane : ReadRequest) :
    ReadRequest :=
  let run := runOf geometry plane
  ⟨plane.axes.mapIdx fun axis range =>
    if axis < descriptor.axes.length then
      let length := descriptor.length axis
      let chunk := geometry.chunk axis
      let first := if chunk = 0 then 0 else min length (mul (run.first.getD axis 0) chunk)
      let end_ := if chunk = 0 then length
        else min length (mul (add (run.last.getD axis 0) 1) chunk)
      ⟨first, sub end_ first, 1⟩
    else range⟩

section Runs

variable {d : ImageDescriptor} {g : ChunkGeometry} {p q : ReadRequest}

/-- The chunks of a run along one axis. -/
theorem runOf_getD (hin : p.Inside d) (hpos : ∀ i < d.rank, 0 < g.chunk i)
    {i : ℕ} (hi : i < d.rank) :
    (runOf g p).first.getD i 0 = (p.axis i).start / g.chunk i ∧
    (runOf g p).last.getD i 0 =
      Strided.chunkAt (p.axis i).start (p.axis i).stride (g.chunk i) ((p.axis i).count - 1) := by
  have hi' : i < p.axes.length := hin.rank_eq ▸ hi
  have hlast := (hin.last_lt i hi).trans (d.length_lt i)
  have hcount := (hin.count_le hi).trans_lt (d.length_lt i)
  have hc := hin.count_pos i hi
  have hlast' : add (p.axis i).start (mul (sub (p.axis i).count 1) (p.axis i).stride) =
      Strided.coord (p.axis i).start (p.axis i).stride ((p.axis i).count - 1) := by
    unfold Strided.coord at hlast ⊢
    rw [sub_eq (show 1 ≤ _ from hc) hcount, mul_eq (by omega), add_eq hlast]
  constructor
  · simp only [runOf, List.getD_eq_getElem?_getD, List.getElem?_mapIdx,
      List.getElem?_eq_getElem hi', Option.map_some, Option.getD_some, (hpos i hi).ne', if_false]
    rw [ReadRequest.axis_eq_getElem _ hi']
  · simp only [runOf, List.getD_eq_getElem?_getD, List.getElem?_mapIdx,
      List.getElem?_eq_getElem hi', Option.map_some, Option.getD_some, (hpos i hi).ne', if_false]
    rw [← ReadRequest.axis_eq_getElem _ hi', if_neg hc.ne',
      max_eq_right (show 1 ≤ _ from hin.stride_pos i hi), hlast']
    rfl

/-- The last selected coordinate lies in the run, which begins before the first. -/
theorem lt_runEnd (hin : p.Inside d) (hpos : ∀ i < d.rank, 0 < g.chunk i)
    {i : ℕ} (hi : i < d.rank) :
    (p.axis i).start / g.chunk i * g.chunk i ≤
        Strided.coord (p.axis i).start (p.axis i).stride ((p.axis i).count - 1) ∧
      Strided.coord (p.axis i).start (p.axis i).stride ((p.axis i).count - 1) <
        min (d.length i) ((Strided.chunkAt (p.axis i).start (p.axis i).stride (g.chunk i)
          ((p.axis i).count - 1) + 1) * g.chunk i) := by
  refine ⟨(Nat.div_mul_le_self _ _).trans (Nat.le_add_right _ _), lt_min (hin.last_lt i hi) ?_⟩
  rw [Nat.add_mul, one_mul]
  exact Nat.lt_div_mul_add (hpos i hi)

theorem length_runRequest (d : ImageDescriptor) (g : ChunkGeometry) (p : ReadRequest) :
    (runRequest d g p).axes.length = p.axes.length := by
  simp [runRequest]

/-- The range of a run along one axis: its chunks, clipped to the axis. -/
theorem axis_runRequest (hin : p.Inside d) (hpos : ∀ i < d.rank, 0 < g.chunk i)
    (hlen : ∀ i < d.rank, d.length i < 2 ^ 63) {i : ℕ} (hi : i < d.rank) :
    (runRequest d g p).axis i =
      ⟨(p.axis i).start / g.chunk i * g.chunk i,
        min (d.length i) ((Strided.chunkAt (p.axis i).start (p.axis i).stride (g.chunk i)
          ((p.axis i).count - 1) + 1) * g.chunk i) - (p.axis i).start /
            g.chunk i * g.chunk i, 1⟩ := by
  have hi' : i < p.axes.length := hin.rank_eq ▸ hi
  have hlast := hin.last_lt i hi
  have hl := hlen i hi
  obtain ⟨hf, hl'⟩ := runOf_getD hin hpos hi
  have hstart : (p.axis i).start / g.chunk i * g.chunk i ≤ (p.axis i).start :=
    Nat.div_mul_le_self _ _
  have hle : (p.axis i).start ≤
      Strided.coord (p.axis i).start (p.axis i).stride ((p.axis i).count - 1) :=
        Nat.le_add_right _ _
  have hend : (Strided.chunkAt (p.axis i).start (p.axis i).stride (g.chunk i)
      ((p.axis i).count - 1) + 1) * g.chunk i < 2 ^ 64 :=
    succ_mul_chunk_lt (by omega) (g.chunk_lt i)
  have hchunk : Strided.chunkAt (p.axis i).start (p.axis i).stride (g.chunk i)
      ((p.axis i).count - 1) < 2 ^ 63 := lt_of_le_of_lt (Nat.div_le_self _ _) (by omega)
  obtain ⟨hle', hlt⟩ := lt_runEnd hin hpos hi
  rw [ReadRequest.axis_eq_getElem _ (by rwa [length_runRequest])]
  simp only [runRequest, List.getElem_mapIdx, hf, hl', (hpos i hi).ne', if_false,
    show i < d.axes.length from hi, if_true]
  rw [mul_eq (by omega), add_eq (by omega), mul_eq hend, min_eq_right (by omega),
    sub_eq (by omega) (by omega)]

/-- The run of a read lies inside the image. -/
theorem runRequest_inside (hin : p.Inside d) (hpos : ∀ i < d.rank, 0 < g.chunk i)
    (hlen : ∀ i < d.rank, d.length i < 2 ^ 63) : (runRequest d g p).Inside d where
  rank_eq := by rw [length_runRequest, hin.rank_eq]
  stride_pos i hi := by
    rw [axis_runRequest hin hpos hlen hi]
    exact Nat.one_pos
  count_pos i hi := by
    obtain ⟨h1, h2⟩ := lt_runEnd hin hpos hi
    rw [axis_runRequest hin hpos hlen hi]
    exact Nat.sub_pos_of_lt (by omega)
  last_lt i hi := by
    obtain ⟨h1, h2⟩ := lt_runEnd hin hpos hi
    rw [axis_runRequest hin hpos hlen hi]
    unfold Strided.coord
    simp only [mul_one]
    omega

/-- **The run of a run.** -/
theorem runOf_runRequest (hin : p.Inside d) (hpos : ∀ i < d.rank, 0 < g.chunk i)
    (hlen : ∀ i < d.rank, d.length i < 2 ^ 63) : runOf g (runRequest d g p) = runOf g p := by
  have hrin := runRequest_inside hin hpos hlen
  have hext : ∀ xs ys : List ℕ, xs.length = d.rank → ys.length = d.rank →
      (∀ i < d.rank, xs.getD i 0 = ys.getD i 0) → xs = ys := by
    intro xs ys hx hy h
    apply List.ext_getElem (by omega)
    intro i h1 h2
    have := h i (by omega)
    rwa [List.getD_eq_getElem _ _ h1, List.getD_eq_getElem _ _ h2] at this
  have hfirst : (runOf g (runRequest d g p)).first = (runOf g p).first := by
    refine hext _ _ (by simp [runOf, hrin.rank_eq]) (by simp [runOf, hin.rank_eq]) fun i hi => ?_
    rw [(runOf_getD hrin hpos hi).1, (runOf_getD hin hpos hi).1, axis_runRequest hin hpos hlen hi]
    exact Nat.mul_div_cancel _ (hpos i hi)
  have hlast : (runOf g (runRequest d g p)).last = (runOf g p).last := by
    refine hext _ _ (by simp [runOf, hrin.rank_eq]) (by simp [runOf, hin.rank_eq]) fun i hi => ?_
    obtain ⟨h1, h2⟩ := lt_runEnd hin hpos hi
    have hL : Strided.chunkAt (p.axis i).start (p.axis i).stride (g.chunk i)
      ((p.axis i).count - 1) *
        g.chunk i ≤ Strided.coord (p.axis i).start (p.axis i).stride ((p.axis i).count - 1) :=
      Nat.div_mul_le_self _ _
    rw [(runOf_getD hrin hpos hi).2, (runOf_getD hin hpos hi).2, axis_runRequest hin hpos hlen hi]
    refine Nat.div_eq_of_lt_le ?_ ?_ <;> simp only [Strided.coord, mul_one] at * <;> omega
  cases hr : runOf g (runRequest d g p)
  cases hr' : runOf g p
  rw [hr, hr'] at hfirst hlast
  simp only at hfirst hlast
  rw [hfirst, hlast]

/-- A read of the same run lies in the run's request. -/
theorem has_runRequest (hp : p.Inside d) (hq : q.Inside d) (hpos : ∀ i < d.rank, 0 < g.chunk i)
    (hlen : ∀ i < d.rank, d.length i < 2 ^ 63) (hrun : runOf g q = runOf g p) {index : List ℕ}
    (h : q.Has index) : (runRequest d g p).Has index := by
  obtain ⟨n, hn, rfl⟩ := h
  rw [hq.rank_eq] at hn
  have hbounds : ∀ i < d.rank,
      (p.axis i).start / g.chunk i * g.chunk i ≤
        Strided.coord (q.axis i).start (q.axis i).stride (n i) ∧
      Strided.coord (q.axis i).start (q.axis i).stride (n i) <
        min (d.length i) ((Strided.chunkAt (p.axis i).start (p.axis i).stride (g.chunk i)
          ((p.axis i).count - 1) + 1) * g.chunk i) := by
    intro i hi
    have hfirst := (runOf_getD hq hpos hi).1
    have hlast := (runOf_getD hq hpos hi).2
    rw [hrun, (runOf_getD hp hpos hi).1] at hfirst
    rw [hrun, (runOf_getD hp hpos hi).2] at hlast
    have hle : Strided.coord (q.axis i).start (q.axis i).stride (n i) ≤
        Strided.coord (q.axis i).start (q.axis i).stride ((q.axis i).count - 1) :=
      Strided.coord_mono (by have := hn i hi; omega)
    rw [hfirst, hlast]
    exact ⟨(Nat.div_mul_le_self _ _).trans (Nat.le_add_right _ _),
      lt_of_le_of_lt hle (lt_runEnd hq hpos hi).2⟩
  refine ⟨fun i => Strided.coord (q.axis i).start (q.axis i).stride (n i) -
    (p.axis i).start / g.chunk i * g.chunk i, fun i hi => ?_, ?_⟩
  · rw [length_runRequest, hp.rank_eq] at hi
    obtain ⟨h1, h2⟩ := hbounds i hi
    rw [axis_runRequest hp hpos hlen hi]
    simp only
    omega
  · unfold ReadRequest.indexAt
    rw [length_runRequest, hp.rank_eq, hq.rank_eq]
    refine List.map_congr_left fun i hi => ?_
    rw [List.mem_range] at hi
    obtain ⟨h1, -⟩ := hbounds i hi
    rw [axis_runRequest hp hpos hlen hi]
    simp only [Strided.coord, mul_one] at h1 ⊢
    omega

/-- **Reading ahead decodes what the next frames need.** The request of a run whose elements can be
counted is a read of the image and of that run, and a prefetch of it that returns has read an
element of every pixel chunk, and of every flag chunk when the mask applies, that any read of the
run touches. -/
theorem prefetchChunks_runRequest {ω α : Type} [Pixel α] (source : PixelSource ω α)
    {f : ChunkGeometry} {o : ReadOptions} {s : PixelSelection}
    (hp : buildSelection d p .logical = .ok s) (hpos : ∀ i < d.rank, 0 < g.chunk i)
    (hpos' : ∀ i < d.rank, 0 < f.chunk i) (hlen : ∀ i < d.rank, d.length i < 2 ^ 63)
    (hrun : (runRequest d g p).elements < 2 ^ 64) (hbudget : o.readBudgetBytes < 2 ^ 64) :
    (∃ s, buildSelection d (runRequest d g p) .logical = .ok s) ∧
    runOf g (runRequest d g p) = runOf g p ∧
    ∀ (fuel : ℕ) (control : ReadControl ω) (w : ω) (n : ℕ) (after : ReadState ω α),
      prefetchChunks fuel source d g f (runRequest d g p) o control (.start w []) = (.ok n, after) →
      ∀ q t, buildSelection d q .logical = .ok t → runOf g q = runOf g p → ∀ index, q.Has index →
        (∃ index', Covers d after.pixelReads index' ∧ SameChunk g d.rank index' index) ∧
        (appliesPixelMask o d = true →
          ∃ index', Covers d after.maskReads index' ∧ SameChunk f d.rank index' index) := by
  have hd := buildSelection_storedInOrder hp
  have hin := buildSelection_inside hp
  have hrin := runRequest_inside hin hpos hlen
  refine ⟨buildSelection_of_valid hd ⟨hrin, hrun⟩ .logical, runOf_runRequest hin hpos hlen, ?_⟩
  intro fuel control w n after hreturned q t hq hsame index hindex
  have hall := (prefetchChunks_covers hlen hpos hpos' hbudget fuel control).of_ok trivial hreturned
  exact hall index (has_runRequest hin (buildSelection_inside hq) hpos hlen hsame hindex)

end Runs

/-- The plane of the cube at one channel. -/
def planeRequest (channel : ℕ) : ReadRequest := ⟨[⟨0, 4, 1⟩, ⟨0, 4, 1⟩, ⟨channel, 1, 1⟩]⟩

/-- The cube with a flag. -/
def flaggedCube : ImageDescriptor := { smallCube with hasPixelMask := true }

/-- Reading ahead of channel 5 decodes what channel 6 needs, with the flag chunked out of phase. -/
theorem prefetchChunks_runRequest_planeRequest :
    ∃ n after, prefetchChunks 8 steadySource flaggedCube smallCubeChunks ⟨.spatialX, [3, 4, 3]⟩
        (runRequest flaggedCube smallCubeChunks (planeRequest 5)) ⟨true, 0⟩ freeControl
        (.start () []) = (.ok n, after) ∧
      ∀ index, (planeRequest 6).Has index →
        (∃ index', Covers flaggedCube after.pixelReads index' ∧
          SameChunk smallCubeChunks 3 index' index) ∧
        ∃ index', Covers flaggedCube after.maskReads index' ∧
          SameChunk ⟨.spatialX, [3, 4, 3]⟩ 3 index' index := by
  have hok : (prefetchChunks 8 steadySource flaggedCube smallCubeChunks ⟨.spatialX, [3, 4, 3]⟩
      (runRequest flaggedCube smallCubeChunks (planeRequest 5)) ⟨true, 0⟩ freeControl
      (.start () [])).1.toOption = some 5 := by decide +kernel
  have hcover := (prefetchChunks_runRequest (steadySource (ω := Unit))
    (show buildSelection flaggedCube (planeRequest 5) .logical = .ok _ from rfl)
    (show ∀ i < 3, 0 < smallCubeChunks.chunk i by decide)
    (show ∀ i < 3, 0 < ChunkGeometry.chunk ⟨.spatialX, [3, 4, 3]⟩ i by decide) (by decide)
    (by decide)
    (show ReadOptions.readBudgetBytes ⟨true, 0⟩ < 2 ^ 64 by decide)).2.2
  rcases hrun : prefetchChunks 8 steadySource flaggedCube smallCubeChunks ⟨.spatialX, [3, 4, 3]⟩
      (runRequest flaggedCube smallCubeChunks (planeRequest 5)) ⟨true, 0⟩ freeControl
      (.start () []) with ⟨e | n, after⟩
  · rw [hrun] at hok
    simp [Except.toOption] at hok
  · refine ⟨n, after, rfl, fun index hindex => ?_⟩
    obtain ⟨h1, h2⟩ := hcover 8 freeControl () n after hrun (planeRequest 6) _
      (show buildSelection flaggedCube (planeRequest 6) .logical = .ok _ from rfl) (by decide) index
      hindex
    exact ⟨h1, h2 rfl⟩

/-! ## Runs that are no request -/

/-- A plane of `2 ^ 40` pixels a side, in chunks of fewer than `2 ^ 63`. -/
def broadPlane : ImageDescriptor where
  id := "SKY"
  storedType := .float32
  axes := [⟨"l", .spatialX, 2 ^ 40, 1⟩, ⟨"m", .spatialY, 2 ^ 40, 0⟩]
  hasPixelMask := false

/-- An axis whose last chunk would end at `2 ^ 64`. -/
def longLine : ImageDescriptor where
  id := "SKY"
  storedType := .float32
  axes := [⟨"frequency", .spectral, 3 * 2 ^ 62 + 1, 0⟩]
  hasPixelMask := false

/-- **The run of a request may be none itself**: that of one row of the plane has `2 ^ 70` elements,
and the end of the last chunk of the line wraps to nothing, before the chunk begins. -/
theorem runRequest_refused :
    ((∃ s, buildSelection broadPlane ⟨[⟨0, 2 ^ 40, 1⟩, ⟨0, 1, 1⟩]⟩ .logical = .ok s) ∧
      (buildSelection broadPlane (runRequest broadPlane ⟨.spatialX, [2 ^ 12, 2 ^ 30]⟩
        ⟨[⟨0, 2 ^ 40, 1⟩, ⟨0, 1, 1⟩]⟩) .logical).toOption = none) ∧
    (∃ s, buildSelection longLine ⟨[⟨3 * 2 ^ 62, 1, 1⟩]⟩ .logical = .ok s) ∧
      (buildSelection longLine (runRequest longLine ⟨.spatialX, [2 ^ 62]⟩
        ⟨[⟨3 * 2 ^ 62, 1, 1⟩]⟩) .logical).toOption = none :=
  ⟨⟨⟨_, rfl⟩, by decide +kernel⟩, ⟨_, rfl⟩, by decide +kernel⟩

end CartaZarr
