import CartaZarr.Foundations.Quotient
import CartaZarr.Read.PiecesRead

/-!
# Reading one element of every chunk

`prefetchChunks` decodes the chunks of a request by reading one element of each, of the pixels and,
when the mask applies, of the flag in the flag's own layout, through a buffer that the budget holds.

`forEachPiece` cuts such a sample into pieces: the axes before a cut are taken an element at a time,
by an odometer, the cut axis in runs, and the axes after it whole. When it ends, every element of
the sample was read (`forEachPiece_covers`); so when `prefetchChunks` succeeds, the elements it read
meet every chunk the request meets (`prefetchPixels_covers`, `prefetchFlags_covers`).
-/

namespace CartaZarr

open Word

/-- The elements of a request, as a word counts them. -/
def countedElements (request : ReadRequest) : ℕ :=
  request.axes.foldl (fun elements range => mul elements range.count) 1

def kSampleElements : ℕ := 2 ^ 16

/-- The most elements of `elementBytes` each that one piece of a sample may hold. -/
def sampleElements (options : ReadOptions) (elementBytes : ℕ) : ℕ :=
  if options.readBudgetBytes = 0 then kSampleElements
  else max 1 (options.readBudgetBytes / elementBytes)

/-- The first axis whose followers fit together, and how many elements these select. -/
def sampleCut (most : ℕ) : List ℕ → ℕ → ℕ × ℕ
  | [], inner => (0, inner)
  | count :: counts, inner =>
    let inner := inner / max 1 count
    if inner ≤ most then (0, inner)
    else
      let (cut, inner) := sampleCut most counts inner
      (cut + 1, inner)

/-- The piece at the position `position` of the axes before the cut, with the run of the cut axis
that begins at `first`. -/
def samplePiece (request : ReadRequest) (cut run : ℕ) (position : List ℕ)
    (first : ℕ) : ReadRequest :=
  ⟨request.axes.mapIdx fun axis range =>
    if axis < cut then
      ⟨add range.start (mul (position.getD axis 0) range.stride), 1, range.stride⟩
    else if axis = cut then
      ⟨add range.start (mul first range.stride), min run (sub range.count first), range.stride⟩
    else range⟩

section Loop

variable {ε σ : Type}

/-- Do something at each position, the last axis fastest, from `position` on. -/
def forEachPosition (counts : List ℕ) (body : List ℕ → Attempt (Halt ε) σ Unit) :
    ℕ → List ℕ → Attempt (Halt ε) σ Unit
  | 0, _ => .fail .outOfFuel
  | fuel + 1, position => do
    body position
    match MixedRadix.advance counts.reverse position.reverse with
    | some next => forEachPosition counts body fuel next.reverse
    | none => pure ()

/-- Call `read` with the runs of the cut axis, at a position of the axes before it. -/
def readRuns (fuel : ℕ) (request : ReadRequest) (cut run : ℕ)
    (read : ReadRequest → Attempt (Halt ε) σ Unit)
    (position : List ℕ) : Attempt (Halt ε) σ Unit := do
  let runs ← .ofFuel (walk (fun first => add first run) (request.axis cut).count fuel 0)
  .forEach (fun block => read (samplePiece request cut run position block.1)) runs

/-- Call `read` with a request cut into pieces of at most `most` elements, in turn. -/
def forEachPiece (fuel : ℕ) (request : ReadRequest) (most : ℕ)
    (read : ReadRequest → Attempt (Halt ε) σ Unit) : Attempt (Halt ε) σ Unit :=
  let (cut, inner) := sampleCut most request.counts (countedElements request)
  if cut = request.axes.length then read request
  else
    let run := max 1 (most / max 1 inner)
    forEachPosition (request.counts.take cut) (readRuns fuel request cut run read) fuel
      (List.replicate cut 0)

end Loop

section Prefetch

variable {ω α : Type} [Pixel α]

/-- Read one piece of a sample of the flag. -/
def readFlagPiece (source : PixelSource ω α) (descriptor : ImageDescriptor) (size : ℕ)
    (piece : ReadRequest) : Reading ω α Unit := do
  let selection ← .ofExcept (buildSelection descriptor piece .logical)
  let _ ← readFlags source descriptor selection size
  pure ()

/-- Read one piece of a sample of the pixels, over the buffer that is thrown away. -/
def readPixelPiece (fuel : ℕ) (source : PixelSource ω α) (descriptor : ImageDescriptor)
    (geometry flagGeometry : ChunkGeometry) (options : ReadOptions) (control : ReadControl ω)
    (piece : ReadRequest) : Reading ω α Unit := do
  let _ ← readInPieces fuel source descriptor geometry flagGeometry piece
    { options with applyPixelMask := false } control none
  pure ()

/-- The bytes of one chunk of the flag, which is chunked like the pixels when no layout is given. -/
def flagChunkBytes (geometry flagGeometry : ChunkGeometry) : ℕ :=
  chunkElements (if flagGeometry.chunkShape.isEmpty then geometry else flagGeometry)

/-- The chunks of the flag that one piece of its sample may decode; none where the bytes of one are
counted as zero. -/
def flagPieceElements (geometry flagGeometry : ChunkGeometry) (options : ReadOptions)
    (size : ℕ) : Option ℕ := do
  let bytes := flagChunkBytes geometry flagGeometry
  let budget := if options.readBudgetBytes ≠ 0 then options.readBudgetBytes
    else defaultReadBytes bytes
  let chunks ← divide budget bytes
  some (min size (max 1 chunks))

theorem flagPieceElements_le {geometry flagGeometry : ChunkGeometry} {options : ReadOptions}
    {size most : ℕ} (h : flagPieceElements geometry flagGeometry options size = some most) :
    most ≤ size := by
  obtain ⟨chunks, -, hmost⟩ := Option.bind_eq_some_iff.1 h
  rw [← Option.some.inj hmost]
  exact min_le_left _ _

/-- A piece of the flag has a chunk at the least, where the bytes of one are not counted as zero. -/
theorem exists_flagPieceElements {geometry flagGeometry : ChunkGeometry} (options : ReadOptions)
    {size : ℕ} (hbytes : flagChunkBytes geometry flagGeometry ≠ 0) (hsize : 0 < size) :
    ∃ most, flagPieceElements geometry flagGeometry options size = some most ∧ 0 < most := by
  refine ⟨_, by rw [flagPieceElements, divide_of_ne hbytes]; rfl, ?_⟩
  exact lt_min hsize (lt_of_lt_of_le Nat.one_pos (le_max_left _ _))

/-- Decode the chunks of the pixels that a request touches. -/
def prefetchPixels (fuel : ℕ) (source : PixelSource ω α) (descriptor : ImageDescriptor)
    (geometry flagGeometry : ChunkGeometry) (request : ReadRequest) (options : ReadOptions)
    (control : ReadControl ω) : Reading ω α ℕ := do
  let sample := oneElementPerChunk geometry request
  let chunks := countedElements sample
  let size := min chunks (sampleElements options 4)
  .modify fun state => { state with destination := List.replicate size Pixel.zero }
  forEachPiece fuel sample size
    (readPixelPiece fuel source descriptor geometry flagGeometry options control)
  pure chunks

/-- Decode the chunks of the flag that a request touches. -/
def prefetchFlags (fuel : ℕ) (source : PixelSource ω α) (descriptor : ImageDescriptor)
    (geometry flagGeometry : ChunkGeometry) (request : ReadRequest) (options : ReadOptions) :
    Reading ω α ℕ := do
  let sample := oneElementPerChunk flagGeometry request
  let chunks := countedElements sample
  let size := min chunks (sampleElements options 1)
  let most ← .ofQuotient (flagPieceElements geometry flagGeometry options size)
  forEachPiece fuel sample most (readFlagPiece source descriptor size)
  pure chunks

/-- Decode the chunks a request touches, and return how many were asked for. -/
def prefetchChunks (fuel : ℕ) (source : PixelSource ω α) (descriptor : ImageDescriptor)
    (geometry flagGeometry : ChunkGeometry) (request : ReadRequest) (options : ReadOptions)
    (control : ReadControl ω) : Reading ω α ℕ := do
  let _ ← .ofExcept (buildSelection descriptor request .logical)
  askControl control descriptor.id
  let chunks ← prefetchPixels fuel source descriptor geometry flagGeometry request options control
  if appliesPixelMask options descriptor then
    let flagChunks ← prefetchFlags fuel source descriptor geometry flagGeometry request options
    pure (add chunks flagChunks)
  else pure chunks

end Prefetch

/-! ## What a read covers -/

/-- The image index of an element of a request. -/
def ReadRequest.Has (r : ReadRequest) (index : List ℕ) : Prop :=
  ∃ n : ℕ → ℕ, (∀ i < r.axes.length, n i < (r.axis i).count) ∧ r.indexAt n = index

/-- Some of the selections read holds the element at an image index. -/
def Covers (d : ImageDescriptor) (reads : List PixelSelection) (index : List ℕ) : Prop :=
  ∃ s ∈ reads, ∃ k < s.elements, d.logicalIndex (s.storedIndex k) = index

theorem Covers.append_left {d : ImageDescriptor} {reads : List PixelSelection} {index : List ℕ}
    (h : Covers d reads index) (s : PixelSelection) : Covers d (reads ++ [s]) index := by
  obtain ⟨t, ht, k, hk⟩ := h
  exact ⟨t, List.mem_append_left _ ht, k, hk⟩

/-- A selection covers the elements of its request. -/
theorem PixelSelection.Selects.covers {d : ImageDescriptor} {r : ReadRequest} {s : PixelSelection}
    {order : DestinationOrder} (h : s.Selects d r order) (hd : d.StoredInOrder) {index : List ℕ}
    (hindex : r.Has index) (reads : List PixelSelection) : Covers d (reads ++ [s]) index := by
  obtain ⟨n, hn, rfl⟩ := hindex
  rw [h.valid.rank_eq] at hn
  obtain ⟨hk, hidx⟩ := h.storedIndex_position hd hn rfl
  exact ⟨s, by simp, _, hk, hidx⟩

theorem ReadRequest.has_elementIndex {d : ImageDescriptor} {r : ReadRequest} (hin : r.Inside d)
    (k : ℕ) : r.Has (r.elementIndex k) := by
  refine ⟨MixedRadix.digit r.counts k, fun i hi => ?_, rfl⟩
  have hpos : 0 < r.counts.getD i 1 := by
    rw [r.counts_getD hi]
    exact hin.count_pos i (hin.rank_eq ▸ hi)
  have := MixedRadix.digit_lt hpos k
  rwa [r.counts_getD hi] at this

/-- Every element of a request has a place in its order. -/
theorem ReadRequest.Has.exists_elementIndex {r : ReadRequest} {index : List ℕ} (h : r.Has index) :
    ∃ k < r.elements, r.elementIndex k = index := by
  obtain ⟨n, hn, rfl⟩ := h
  have hlt : ∀ i < r.counts.length, n i < r.counts.getD i 1 := fun i hi => by
    have hi' : i < r.axes.length := by simpa using hi
    rw [r.counts_getD hi']
    exact hn i hi'
  refine ⟨MixedRadix.number r.counts n, MixedRadix.number_lt hlt, ?_⟩
  refine List.map_congr_left fun i hi => ?_
  rw [MixedRadix.digit_number hlt (by simpa using hi)]

/-! ## What was read stays read -/

section Grows

variable {ω α β γ : Type}

/-- The computation only adds to what was read. -/
def Grows (x : Reading ω α β) : Prop :=
  ∀ state, state.pixelReads <+: (x state).2.pixelReads ∧ state.maskReads <+: (x state).2.maskReads

namespace Grows

theorem pure (b : β) : Grows (Pure.pure b : Reading ω α β) :=
  fun _ => ⟨List.prefix_rfl, List.prefix_rfl⟩

theorem fail (e : Halt Error) : Grows (Attempt.fail e : Reading ω α β) := fun _ =>
  ⟨List.prefix_rfl, List.prefix_rfl⟩

theorem ofExcept (r : Except Error β) : Grows (Attempt.ofExcept r : Reading ω α β) := fun _ =>
  ⟨List.prefix_rfl, List.prefix_rfl⟩

theorem ofFuel (r : Option β) : Grows (Attempt.ofFuel r : Reading ω α β) := fun _ =>
  ⟨List.prefix_rfl, List.prefix_rfl⟩

theorem get : Grows (Attempt.get : Reading ω α (ReadState ω α)) := fun _ =>
  ⟨List.prefix_rfl, List.prefix_rfl⟩

theorem ite {c : Prop} [Decidable c] {x y : Reading ω α β} (hx : Grows x) (hy : Grows y) :
    Grows (if c then x else y) := by
  split
  · exact hx
  · exact hy

theorem bind {x : Reading ω α β} {f : β → Reading ω α γ} (hx : Grows x) (hf : ∀ b, Grows (f b)) :
    Grows (x >>= f) := by
  intro st
  have h := hx st
  rw [Attempt.bind_apply]
  rcases hxs : x st with ⟨e | b, st'⟩
  · rw [hxs] at h
    exact h
  · rw [hxs] at h
    exact ⟨h.1.trans (hf b st').1, h.2.trans (hf b st').2⟩

theorem forEach {body : β → Reading ω α Unit} (h : ∀ b, Grows (body b)) (bs : List β) :
    Grows (Attempt.forEach body bs) := by
  induction bs with
  | nil => exact pure ()
  | cons b bs ih => exact bind (h b) fun _ => ih

/-- Whatever more reads leave true stays true. -/
theorem keeps {x : Reading ω α β} (h : Grows x) {P : ReadState ω α → Prop}
    (hP : ∀ st st' : ReadState ω α, st.pixelReads <+: st'.pixelReads →
      st.maskReads <+: st'.maskReads → P st → P st') :
    Attempt.Ensures P x (fun _ => P) (fun _ _ => True) := by
  intro st hst
  have hg := h st
  rcases hxs : x st with ⟨e | b, st'⟩
  · trivial
  · rw [hxs] at hg
    exact hP st st' hg.1 hg.2 hst

end Grows

end Grows

section Primitives

variable {ω α : Type}

theorem askControl_grows (control : ReadControl ω) (node : String) :
    Grows (askControl control node : Reading ω α Unit) := by
  intro st
  unfold askControl
  rcases checkReadControl control node st.world with ⟨e | _, w⟩ <;>
    exact ⟨List.prefix_rfl, List.prefix_rfl⟩

theorem checkRead_grows (d : ImageDescriptor) (r : ReadRequest) (control : ReadControl ω) :
    Grows (checkRead d r control : Reading ω α PixelSelection) :=
  .bind (.ofExcept _) fun _ => .bind .get fun _ => .ite (.fail _)
    (.bind (askControl_grows _ _) fun _ => .pure _)

theorem readFlags_grows (source : PixelSource ω α) (d : ImageDescriptor) (s : PixelSelection)
    (size : ℕ) : Grows (readFlags source d s size) := by
  intro st
  unfold readFlags
  simp only
  rcases source.readMask d s size st.world with ⟨e | _, w⟩ <;>
    exact ⟨List.prefix_rfl, List.prefix_append _ _⟩

theorem readPixelsAt_grows (source : PixelSource ω α) (d : ImageDescriptor) (s : PixelSelection)
    (first : ℕ) : Grows (readPixelsAt source d s first) := by
  intro st
  unfold readPixelsAt
  simp only
  rcases source.readPixels d s (st.world, st.destination.drop first) with ⟨e | _, w, rest⟩ <;>
    exact ⟨List.prefix_append _ _, List.prefix_rfl⟩

theorem reportProgress_grows (progress : ProgressCallback ω α) (d : ImageDescriptor)
    (finished total : ℕ) : Grows (reportProgress progress d finished total) := by
  intro st
  unfold reportProgress
  cases progress with
  | none => exact ⟨List.prefix_rfl, List.prefix_rfl⟩
  | some callback =>
    simp only
    rcases callback finished total st.destination st.world with ⟨_ | _, w⟩ <;>
      exact ⟨List.prefix_rfl, List.prefix_rfl⟩

theorem pieceMask_grows (source : PixelSource ω α) (d : ImageDescriptor) (o : ReadOptions)
    (s : PixelSelection) : Grows (pieceMask source d o s) :=
  .ite (.ite (.fail _) (readFlags_grows source d s _)) (.pure _)

variable [Pixel α]

theorem maskAt_grows (d : ImageDescriptor) (o : ReadOptions) (mask : List UInt8) (first count : ℕ) :
    Grows (maskAt d o mask first count : Reading ω α Unit) :=
  .ite (fun _ => ⟨List.prefix_rfl, List.prefix_rfl⟩) (.pure _)

theorem readPiece_grows (source : PixelSource ω α) (d : ImageDescriptor) (o : ReadOptions)
    (progress : ProgressCallback ω α) (elements : ℕ) (piece : Piece) :
    Grows (readPiece source d o progress elements piece) :=
  .bind (.ofExcept _) fun s => .bind (pieceMask_grows source d o s) fun mask =>
    .bind (readPixelsAt_grows source d s _) fun _ => .bind (maskAt_grows d o mask _ _) fun _ =>
      reportProgress_grows progress d _ _

theorem readInPieces_grows (fuel : ℕ) (source : PixelSource ω α) (d : ImageDescriptor)
    (g f : ChunkGeometry) (r : ReadRequest) (o : ReadOptions) (control : ReadControl ω)
    (progress : ProgressCallback ω α) :
    Grows (readInPieces fuel source d g f r o control progress) :=
  .bind (checkRead_grows d r control) fun _ => .bind (.ofFuel _) fun pieces =>
    .bind (.forEach (readPiece_grows source d o progress _) pieces) fun _ => .pure _

end Primitives

/-! ## A read covers its request -/

section Covering

variable {ω α β : Type} {source : PixelSource ω α} {d : ImageDescriptor}

/-- A return leaves `Q`, from any state. -/
abbrev Leaves (x : Reading ω α β) (Q : ReadState ω α → Prop) : Prop :=
  Attempt.Ensures (fun _ => True) x (fun _ => Q) (fun _ _ => True)

theorem Covers.mono {reads reads' : List PixelSelection} {index : List ℕ}
    (h : reads <+: reads') (hc : Covers d reads index) : Covers d reads' index := by
  obtain ⟨s, hs, k, hk⟩ := hc
  exact ⟨s, h.subset hs, k, hk⟩

/-- What a set of elements needs to stay covered is that nothing read is forgotten. -/
theorem Grows.keeps_pixels {x : Reading ω α β} (h : Grows x) (I : List ℕ → Prop) :
    Attempt.Ensures (fun st => ∀ index, I index → Covers d st.pixelReads index) x
      (fun _ st => ∀ index, I index → Covers d st.pixelReads index) (fun _ _ => True) :=
  h.keeps fun _ _ hp _ hc index hI => (hc index hI).mono hp

theorem Grows.keeps_flags {x : Reading ω α β} (h : Grows x) (I : List ℕ → Prop) :
    Attempt.Ensures (fun st => ∀ index, I index → Covers d st.maskReads index) x
      (fun _ st => ∀ index, I index → Covers d st.maskReads index) (fun _ _ => True) :=
  h.keeps fun _ _ _ hm hc index hI => (hc index hI).mono hm

theorem readPixelsAt_covers (hd : d.StoredInOrder) {r : ReadRequest} {s : PixelSelection}
    (hs : buildSelection d r .logical = .ok s) (first : ℕ) :
    Leaves (readPixelsAt source d s first)
      (fun st => ∀ index, r.Has index → Covers d st.pixelReads index) := by
  have hsel := buildSelection_selects hd hs
  intro st _
  unfold readPixelsAt
  simp only
  rcases source.readPixels d s (st.world, st.destination.drop first) with ⟨e | _, w, rest⟩
  · trivial
  · exact fun index hindex => hsel.covers hd hindex _

theorem readFlagPiece_covers (hd : d.StoredInOrder) (size : ℕ) (r : ReadRequest) :
    Leaves (readFlagPiece source d size r)
      (fun st => ∀ index, r.Has index → Covers d st.maskReads index) := by
  refine .bind (.ofExcept (Q := fun s _ => buildSelection d r .logical = .ok s)
    (fun s hs _ _ => hs) fun _ _ _ _ => trivial) fun s => ?_
  refine .bind (Q := fun _ st => ∀ index, r.Has index → Covers d st.maskReads index) ?_
    fun _ => .pure fun _ h => h
  intro st hs
  have hsel := buildSelection_selects hd hs
  unfold readFlags
  simp only
  rcases source.readMask d s size st.world with ⟨e | _, w⟩
  · trivial
  · exact fun index hindex => hsel.covers hd hindex _

variable [Pixel α] {o : ReadOptions} {progress : ProgressCallback ω α}

theorem readPiece_covers (hd : d.StoredInOrder) (elements : ℕ) (piece : Piece) :
    Leaves (readPiece source d o progress elements piece)
      (fun st => ∀ index, piece.request.Has index → Covers d st.pixelReads index) := by
  refine .bind (.ofExcept (Q := fun s _ => True ∧ buildSelection d piece.request .logical = .ok s)
    (fun s hs _ _ => ⟨trivial, hs⟩) fun _ _ _ _ => trivial) fun s => .of_and fun hs => ?_
  refine .bind (Q := fun _ _ => True) (fun st _ => by split <;> trivial) fun mask => ?_
  refine .bind (readPixelsAt_covers hd hs _) fun _ => ?_
  exact .bind ((maskAt_grows d o mask _ _).keeps_pixels _)
    fun _ => (reportProgress_grows progress d _ _).keeps_pixels _

theorem readPieces_covers (hd : d.StoredInOrder) {r : ReadRequest} {m : ℕ} {pieces : List Piece}
    (hfill : Fills d r m pieces) (elements : ℕ) :
    Leaves (Attempt.forEach (readPiece source d o progress elements) pieces)
      (fun st => ∀ k, m ≤ k → k < r.elements → Covers d st.pixelReads (r.elementIndex k)) := by
  induction hfill with
  | done => exact .pure fun st _ k h h' => absurd h' (by omega)
  | @refused m p rest _ h =>
    intro st _
    cases hs : buildSelection d p.request .logical with
    | ok s => exact absurd hs (h s)
    | error e =>
      have hrun : readPiece source d o progress elements p st = (.error (.error e), st) := by
        rw [readPiece, hs]
        rfl
      rw [Attempt.forEach, Attempt.bind_of_error hrun]
      trivial
  | @piece m p rest valid first le same next ih =>
    refine .bind (readPiece_covers hd elements p) fun _ => ?_
    refine (ih.and ((Grows.forEach (readPiece_grows source d o progress elements) rest).keeps_pixels
      _)).imp (fun st h => ⟨trivial, h⟩) (fun _ st hkept k hk hk' => ?_) fun _ _ h => h
    obtain ⟨hrest, hp⟩ := hkept
    rcases lt_or_ge k (m + p.request.elements) with h | h
    · rw [show k = m + (k - m) by omega, ← same _ (by omega)]
      exact hp _ (ReadRequest.has_elementIndex valid.toInside _)
    · exact hrest k h hk'

/-- A read that returns has read every element of its request. -/
theorem readInPieces_covers (hd : d.StoredInOrder) (fuel : ℕ)
    (g f : ChunkGeometry) (r : ReadRequest)
    (control : ReadControl ω) :
    Leaves (readInPieces fuel source d g f r o control progress)
      (fun st => ∀ index, r.Has index → Covers d st.pixelReads index) := by
  have hcheck : Attempt.Ensures (fun _ => True) (checkRead d r control : Reading ω α PixelSelection)
      (fun s _ => True ∧ buildSelection d r .logical = .ok s) (fun _ _ => True) :=
    .bind (.ofExcept (Q := fun s _ => True ∧ buildSelection d r .logical = .ok s)
      (fun s hs _ _ => ⟨trivial, hs⟩) fun _ _ _ _ => trivial) fun s => .of_and fun hs =>
      .get_bind fun st _ => .ite (fun _ => .fail fun _ _ => trivial) fun _ =>
        .bind (Q := fun _ _ => True) (fun st _ => by split <;> trivial)
          fun _ => .pure fun _ _ => ⟨trivial, hs⟩
  refine .bind hcheck fun s => .of_and fun hs => ?_
  have hv := (buildSelection_selects hd hs).valid
  refine .bind (.ofFuel (Q := fun pieces _ =>
    True ∧ planPieces fuel d g f r o progress.isSome = some pieces)
    (fun pieces hp _ _ => ⟨trivial, hp⟩) fun _ _ _ => trivial) fun pieces => .of_and fun hp => ?_
  refine .bind (readPieces_covers hd (planPieces_fills hv hp) _) fun _ =>
    .pure fun st hst index h => ?_
  obtain ⟨k, hk, rfl⟩ := h.exists_elementIndex
  exact hst k (Nat.zero_le _) hk

end Covering

/-! ## The pieces of a sample cover it -/

section ForEachPiece

variable {ε σ : Type}

theorem forEachPosition_keep {P : σ → Prop} {body : List ℕ → Attempt (Halt ε) σ Unit}
    {F : Halt ε → σ → Prop} (hF : ∀ s, P s → F .outOfFuel s)
    (h : ∀ b, Attempt.Ensures P (body b) (fun _ => P) F) (counts : List ℕ) (fuel : ℕ)
    (position : List ℕ) :
    Attempt.Ensures P (forEachPosition counts body fuel position) (fun _ => P) F := by
  induction fuel generalizing position with
  | zero => exact .fail hF
  | succ fuel ih =>
    refine .bind (h position) fun _ => ?_
    cases MixedRadix.advance counts.reverse position.reverse with
    | none => exact .pure fun _ hs => hs
    | some next => exact ih next.reverse

/-- The odometer comes to every position from the one it begins at. -/
theorem forEachPosition_ensures {I : List ℕ → σ → Prop} {body : List ℕ → Attempt (Halt ε) σ Unit}
    {F : Halt ε → σ → Prop} (hF : ∀ e s, F e s)
    (hkeep : ∀ a b, Attempt.Ensures (I a) (body b) (fun _ => I a) F)
    (hbody : ∀ b, Attempt.Ensures (fun _ => True) (body b) (fun _ => I b) F) (counts : List ℕ)
    (fuel : ℕ) {position : List ℕ} (hbox : MixedRadix.InBox counts.reverse position.reverse) :
    Attempt.Ensures (fun _ => True) (forEachPosition counts body fuel position)
      (fun _ s => ∀ t, MixedRadix.InBox counts.reverse t.reverse →
        MixedRadix.position counts.reverse position.reverse ≤
          MixedRadix.position counts.reverse t.reverse → I t s) F := by
  induction fuel generalizing position with
  | zero => exact .fail fun s _ => hF _ s
  | succ fuel ih =>
    refine .bind (hbody position) fun _ => ?_
    rcases hadv : MixedRadix.advance counts.reverse position.reverse with _ | next
    · -- the last position
      refine .pure fun s hs t ht hle => ?_
      have hlast := MixedRadix.advance_none hbox hadv
      have hlt := ht.position_lt
      rw [List.reverse_injective (ht.position_inj hbox (by omega))]
      exact hs
    · obtain ⟨hnext, hpos⟩ := MixedRadix.advance_some hbox hadv
      have hbox' : MixedRadix.InBox counts.reverse next.reverse.reverse := by simpa using hnext
      have hrest := ih hbox'
      refine (hrest.and (forEachPosition_keep (fun s _ => hF _ s) (hkeep position) counts fuel
        next.reverse)).imp
        (fun s hs => ⟨trivial, hs⟩) (fun _ s ⟨hall, hI⟩ t ht hle => ?_) fun _ _ h => h
      rcases hle.lt_or_eq with h | h
      · exact hall t ht (by rw [List.reverse_reverse]; omega)
      · rw [← List.reverse_injective (hbox.position_inj ht h)]
        exact hI

/-- The runs of an axis, the last of which may reach past its end. -/
theorem runs_tiling {run count fuel : ℕ} {runs : List (ℕ × ℕ)} (hrun : 0 < run)
    (hrun' : run < 2 ^ 64)
    (hcount : count ≤ 2 ^ 63) (h : walk (fun first => add first run) count fuel 0 = some runs) :
    (∃ e, count ≤ e ∧ Tiling 0 runs e) ∧ ∀ b ∈ runs, b.1 < count ∧ b.2 = b.1 + run := by
  obtain ⟨⟨e, he, hlinked⟩, hall⟩ := walk_linked h
  have hP := walk_invariant (P := fun b => b = 0 ∨ run < count) h (Or.inl rfl) fun b hb hP hn => by
    rcases hP with rfl | hP
    · rw [add_eq (by omega), zero_add] at hn
      exact Or.inr hn
    · exact Or.inr hP
  have hforward : ∀ b ∈ runs, b.2 = b.1 + run := fun b hb => by
    obtain ⟨hlt, hnext⟩ := hall b hb
    rw [hnext, add_eq]
    rcases hP b hb with h0 | h0 <;> omega
  exact ⟨⟨e, he, hlinked, fun b hb => by rw [hforward b hb]; omega⟩,
    fun b hb => ⟨(hall b hb).1, hforward b hb⟩⟩

/-- The runs of an axis cover it. -/
theorem runs_cover {run count fuel : ℕ} {runs : List (ℕ × ℕ)} (hrun : 0 < run)
    (hrun' : run < 2 ^ 64)
    (hcount : count ≤ 2 ^ 63) (h : walk (fun first => add first run) count fuel 0 = some runs)
    {x : ℕ}
    (hx : x < count) : ∃ block ∈ runs, block.1 ≤ x ∧ x < block.1 + run := by
  obtain ⟨⟨e, he, htile⟩, hforward⟩ := runs_tiling hrun hrun' hcount h
  obtain ⟨b, hb, h1, h2⟩ := (htile.mem_iff x).2 ⟨Nat.zero_le _, by omega⟩
  exact ⟨b, hb, h1, (hforward b hb).2 ▸ h2⟩

theorem sampleCut_le (most : ℕ) (counts : List ℕ) (inner : ℕ) :
    (sampleCut most counts inner).1 ≤ counts.length := by
  induction counts generalizing inner with
  | nil => simp [sampleCut]
  | cons c cs ih =>
    simp only [sampleCut]
    split_ifs
    · simp
    · simpa using ih _

theorem axis_samplePiece (r : ReadRequest) (cut run : ℕ) (position : List ℕ) (first : ℕ) {i : ℕ}
    (hi : i < r.axes.length) : (samplePiece r cut run position first).axis i =
      if i < cut then
        ⟨add (r.axis i).start (mul (position.getD i 0) (r.axis i).stride), 1, (r.axis i).stride⟩
      else if i = cut then
        ⟨add (r.axis i).start (mul first (r.axis i).stride), min run (sub (r.axis i).count first),
          (r.axis i).stride⟩
      else r.axis i := by
  have hlen : i < (samplePiece r cut run position first).axes.length := by
    simpa [samplePiece] using hi
  rw [ReadRequest.axis_eq_getElem _ hlen, ReadRequest.axis_eq_getElem _ hi]
  simp only [samplePiece, List.getElem_mapIdx]

/-- The piece at a position, with a run that holds the number along the cut, holds the element. -/
theorem samplePiece_has {d : ImageDescriptor} {r : ReadRequest}
    (hin : r.Inside d) {cut run first : ℕ}
    {n : ℕ → ℕ} (hn : ∀ i < r.axes.length, n i < (r.axis i).count) (hfirst : first ≤ n cut)
    (hrun : n cut < first + run) :
    (samplePiece r cut run ((List.range cut).map n) first).Has (r.indexAt n) := by
  have hco : ∀ i < r.axes.length, ∀ j ≤ n i,
      Strided.coord (r.axis i).start (r.axis i).stride j < 2 ^ 64 := fun i hi j hj => by
    have hi' : i < d.rank := hin.rank_eq ▸ hi
    refine lt_of_le_of_lt (Strided.coord_mono ?_) ((hin.last_lt i hi').trans (d.length_lt i))
    have := hn i hi
    omega
  have hstart : ∀ i < r.axes.length, ∀ j ≤ n i,
      add (r.axis i).start (mul j (r.axis i).stride) =
        Strided.coord (r.axis i).start (r.axis i).stride j := fun i hi j hj => by
    have h := hco i hi j hj
    unfold Strided.coord at h ⊢
    rw [mul_eq (by omega), add_eq h]
  have hlen : (samplePiece r cut run ((List.range cut).map n) first).axes.length =
      r.axes.length := by
    simp [samplePiece]
  refine ⟨fun i => if i < cut then 0 else if i = cut then n i - first else n i, ?_, ?_⟩
  · intro i hi
    rw [hlen] at hi
    have hi' : i < d.rank := hin.rank_eq ▸ hi
    have := hn i hi
    rw [axis_samplePiece r cut run _ first hi]
    rcases lt_trichotomy i cut with h | rfl | h
    · simp only [h, if_true, Nat.one_pos]
    · have hc : (r.axis i).count < 2 ^ 64 := (hin.count_le hi').trans_lt (d.length_lt i)
      simp only [lt_irrefl, if_false, if_true]
      rw [sub_eq (by omega) hc]
      omega
    · simpa only [not_lt.2 h.le, h.ne', if_false] using this
  · unfold ReadRequest.indexAt
    rw [hlen]
    refine List.map_congr_left fun i hi => ?_
    rw [List.mem_range] at hi
    rw [axis_samplePiece r cut run _ first hi]
    rcases lt_trichotomy i cut with h | rfl | h
    · have hget : ((List.range cut).map n).getD i 0 = n i := by
        simp [List.getD_eq_getElem?_getD, h]
      simp only [h, if_true, hget, hstart i hi (n i) le_rfl]
      simp [Strided.coord]
    · simp only [lt_irrefl, if_false, if_true, hstart i hi first hfirst]
      conv_rhs => rw [show n i = first + (n i - first) by omega, Strided.coord_add]
      rfl
    · simp only [not_lt.2 h.le, h.ne', if_false]

section Keep

variable {P : σ → Prop} {F : Halt ε → σ → Prop} {read : ReadRequest → Attempt (Halt ε) σ Unit}
  (hF : ∀ s, P s → F .outOfFuel s) (h : ∀ p, Attempt.Ensures P (read p) (fun _ => P) F)
include hF h

theorem readRuns_keep (fuel : ℕ) (r : ReadRequest) (cut run : ℕ) (position : List ℕ) :
    Attempt.Ensures P (readRuns fuel r cut run read position) (fun _ => P) F :=
  .bind (.ofFuel (Q := fun _ => P) (fun _ _ _ h => h) fun _ => hF)
    fun _ => .forEach_keep fun _ _ => h _

theorem forEachPiece_keep (fuel : ℕ) (r : ReadRequest) (most : ℕ) :
    Attempt.Ensures P (forEachPiece fuel r most read) (fun _ => P) F :=
  .ite (fun _ => h r) fun _ => forEachPosition_keep hF (readRuns_keep hF h fuel r _ _) _ fuel _

end Keep

section Covers

variable {d : ImageDescriptor} {r : ReadRequest} (hin : r.Inside d)
  (hlen : ∀ i < d.rank, d.length i < 2 ^ 63)
  {read : ReadRequest → Attempt (Halt ε) σ Unit} {C : List ℕ → σ → Prop}
  (hkeep : ∀ I : List ℕ → Prop, ∀ p,
    Attempt.Ensures (fun s => ∀ index, I index → C index s) (read p)
    (fun _ s => ∀ index, I index → C index s) (fun _ _ => True))
  (hread : ∀ p, Attempt.Ensures (fun _ => True) (read p)
    (fun _ s => ∀ index, p.Has index → C index s) (fun _ _ => True))
include hin hlen hkeep hread

/-- The runs at a position cover the elements with its numbers before the cut. -/
theorem readRuns_covers (fuel : ℕ) {cut run : ℕ} (hcut : cut < r.axes.length) (hrun : 0 < run)
    (hrun' : run < 2 ^ 64) (position : List ℕ) :
    Attempt.Ensures (fun _ => True) (readRuns fuel r cut run read position)
      (fun _ s => ∀ n : ℕ → ℕ, (∀ i < r.axes.length, n i < (r.axis i).count) →
        position = (List.range cut).map n → C (r.indexAt n) s) (fun _ _ => True) := by
  have hcount : (r.axis cut).count ≤ 2 ^ 63 :=
    (hin.count_le (hin.rank_eq ▸ hcut)).trans (hlen cut (hin.rank_eq ▸ hcut)).le
  refine .bind (.ofFuel (Q := fun runs _ => True ∧
    walk (fun first => add first run) (r.axis cut).count fuel 0 = some runs)
    (fun runs h _ _ => ⟨trivial, h⟩) fun _ _ _ => trivial) fun runs => .of_and fun hruns => ?_
  refine (Attempt.Ensures.forEach (P := fun _ => True) (I := fun block s => ∀ index,
    (samplePiece r cut run position block.1).Has index → C index s) (fun block b _ => hkeep _ _)
    fun b _ => (hread _).imp (fun _ h => h) (fun _ _ h => ⟨trivial, h⟩) fun _ _ h => h).imp
    (fun _ h => h) (fun _ s hs n hn hpos => ?_) fun _ _ h => h
  obtain ⟨block, hblock, h1, h2⟩ := runs_cover hrun hrun' hcount hruns (hn cut hcut)
  refine hs.2 block hblock _ ?_
  rw [hpos]
  exact samplePiece_has hin hn h1 h2

/-- **A sample cut into pieces is covered by them.** -/
theorem forEachPiece_covers {most : ℕ} (hmost : most < 2 ^ 64) (fuel : ℕ) :
    Attempt.Ensures (fun _ => True) (forEachPiece fuel r most read)
      (fun _ s => ∀ index, r.Has index → C index s) (fun _ _ => True) := by
  unfold forEachPiece
  rcases hcut : sampleCut most r.counts (countedElements r) with ⟨cut, inner⟩
  have hle : cut ≤ r.axes.length := by
    have := sampleCut_le most r.counts (countedElements r)
    rw [hcut] at this
    simpa using this
  refine .ite (fun _ => hread r) fun hne => ?_
  have hclt : cut < r.axes.length := by omega
  have hrun : max 1 (most / max 1 inner) < 2 ^ 64 := by
    have := Nat.div_le_self most (max 1 inner)
    omega
  have hrun0 : 0 < max 1 (most / max 1 inner) := lt_of_lt_of_le Nat.one_pos (le_max_left _ _)
  have hbox : ∀ n : ℕ → ℕ, (∀ i < r.axes.length, n i < (r.axis i).count) →
      MixedRadix.InBox (r.counts.take cut).reverse ((List.range cut).map n).reverse := by
    intro n hn
    rw [MixedRadix.InBox, List.forall₂_reverse_iff, List.forall₂_iff_get]
    refine ⟨by simp [hle], fun i h1 h2 => ?_⟩
    have hi : i < cut := by simpa using h1
    have hget := r.counts_getD (show i < r.axes.length by omega) 0
    rw [List.getD_eq_getElem _ _ (by simp; omega)] at hget
    simpa [hget] using hn i (by omega)
  have hzero : List.replicate cut 0 = (List.range cut).map fun _ => 0 := by
    simp [List.map_const']
  have hloop := forEachPosition_ensures (I := fun position s => ∀ n : ℕ → ℕ,
      (∀ i < r.axes.length, n i < (r.axis i).count) → position = (List.range cut).map n →
        C (r.indexAt n) s) (fun _ _ => trivial)
    (fun a b => (readRuns_keep (fun _ _ => trivial) (hkeep fun index => ∃ n : ℕ → ℕ,
      (∀ i < r.axes.length, n i < (r.axis i).count) ∧ a = (List.range cut).map n ∧
        r.indexAt n = index) fuel r cut _ b).imp
      (fun s h index ⟨n, hn, ha, hi⟩ => hi ▸ h n hn ha)
      (fun _ s h n hn ha => h _ ⟨n, hn, ha, rfl⟩) fun _ _ h => h)
    (readRuns_covers hin hlen hkeep hread fuel hclt hrun0 hrun) (r.counts.take cut) fuel
    (hzero ▸ hbox (fun _ => 0) fun i hi => hin.count_pos i (hin.rank_eq ▸ hi))
  refine hloop.imp (fun _ h => h) (fun _ s hs index ⟨n, hn, hindex⟩ => ?_) fun _ _ h => h
  rw [← hindex]
  exact hs _ (hbox n hn) (by simp) n hn rfl

end Covers

end ForEachPiece

/-! ## A sample meets the chunks of its request -/

/-- Two image indices lie in the same chunk. -/
def SameChunk (g : ChunkGeometry) (rank : ℕ) (index index' : List ℕ) : Prop :=
  ∀ i < rank, index.getD i 0 / g.chunk i = index'.getD i 0 / g.chunk i

section Sample

variable {d : ImageDescriptor} {g : ChunkGeometry} {r : ReadRequest}

theorem axis_oneElementPerChunk (hin : r.Inside d) (hpos : ∀ i < d.rank, 0 < g.chunk i) {i : ℕ}
    (hi : i < d.rank) : (oneElementPerChunk g r).axis i =
      if g.chunk i ≤ (r.axis i).stride then r.axis i
      else ⟨(r.axis i).start / g.chunk i * g.chunk i,
        Strided.chunkAt (r.axis i).start (r.axis i).stride (g.chunk i) ((r.axis i).count - 1) -
          (r.axis i).start / g.chunk i + 1, g.chunk i⟩ := by
  have hi' : i < r.axes.length := hin.rank_eq ▸ hi
  have hlen : i < (oneElementPerChunk g r).axes.length := by simpa [oneElementPerChunk] using hi'
  have hlast := (hin.last_lt i hi).trans (d.length_lt i)
  have hcount := (hin.count_le hi).trans_lt (d.length_lt i)
  have hc := hin.count_pos i hi
  rw [ReadRequest.axis_eq_getElem _ hlen, ReadRequest.axis_eq_getElem _ hi']
  simp only [oneElementPerChunk, List.getElem_mapIdx, (hpos i hi).ne', false_or]
  rw [← ReadRequest.axis_eq_getElem _ hi']
  split_ifs with h
  · rfl
  · have hstart : (r.axis i).start / g.chunk i * g.chunk i ≤ (r.axis i).start :=
      Nat.div_mul_le_self _ _
    have hlast' : add (r.axis i).start (mul (sub (r.axis i).count 1) (r.axis i).stride) =
        Strided.coord (r.axis i).start (r.axis i).stride ((r.axis i).count - 1) := by
      unfold Strided.coord at hlast ⊢
      rw [sub_eq (show 1 ≤ _ from hc) hcount, mul_eq (by omega), add_eq hlast]
    have hle : (r.axis i).start / g.chunk i ≤
        Strided.chunkAt (r.axis i).start (r.axis i).stride (g.chunk i) ((r.axis i).count - 1) :=
      Nat.div_le_div_right (Nat.le_add_right _ _)
    have hlt : Strided.chunkAt (r.axis i).start (r.axis i).stride (g.chunk i)
        ((r.axis i).count - 1) < 2 ^ 63 := by
      -- a chunk is longer than a stride here, so longer than one element
      have h2 : 2 ≤ g.chunk i := by
        have := hin.stride_pos i hi
        omega
      have : Strided.chunkAt (r.axis i).start (r.axis i).stride (g.chunk i) ((r.axis i).count - 1) ≤
          Strided.coord (r.axis i).start (r.axis i).stride ((r.axis i).count - 1) / 2 :=
        Nat.div_le_div_left h2 (by omega)
      omega
    have hstart' : (r.axis i).start < 2 ^ 64 := lt_of_le_of_lt (Nat.le_add_right _ _) hlast
    rw [hlast', mul_eq (by omega)]
    change Range.mk _ (add (sub (Strided.chunkAt (r.axis i).start (r.axis i).stride (g.chunk i)
      ((r.axis i).count - 1)) _) 1) _ = _
    rw [sub_eq hle (by omega), add_eq
      (lt_of_le_of_lt (Nat.succ_le_succ (Nat.sub_le _ _)) (by omega))]

theorem length_oneElementPerChunk (g : ChunkGeometry) (r : ReadRequest) :
    (oneElementPerChunk g r).axes.length = r.axes.length := by
  simp [oneElementPerChunk]

/-- A sample of a request lies inside the image. -/
theorem oneElementPerChunk_inside (hin : r.Inside d) (hpos : ∀ i < d.rank, 0 < g.chunk i) :
    (oneElementPerChunk g r).Inside d where
  rank_eq := by rw [length_oneElementPerChunk, hin.rank_eq]
  stride_pos i hi := by
    rw [axis_oneElementPerChunk hin hpos hi]
    split_ifs
    · exact hin.stride_pos i hi
    · exact hpos i hi
  count_pos i hi := by
    rw [axis_oneElementPerChunk hin hpos hi]
    split_ifs
    · exact hin.count_pos i hi
    · exact Nat.succ_pos _
  last_lt i hi := by
    rw [axis_oneElementPerChunk hin hpos hi]
    split_ifs
    · exact hin.last_lt i hi
    · refine lt_of_le_of_lt ?_ (hin.last_lt i hi)
      have hle : (r.axis i).start / g.chunk i ≤
          Strided.chunkAt (r.axis i).start (r.axis i).stride (g.chunk i) ((r.axis i).count - 1) :=
        Nat.div_le_div_right (Nat.le_add_right _ _)
      rw [Nat.add_sub_cancel, Strided.coord, ← Nat.add_mul, Nat.add_sub_cancel' hle]
      exact Nat.div_mul_le_self _ _

/-- **A sample meets every chunk its request meets.** -/
theorem oneElementPerChunk_meets (hin : r.Inside d) (hpos : ∀ i < d.rank, 0 < g.chunk i)
    {index : List ℕ} (h : r.Has index) :
    ∃ index', (oneElementPerChunk g r).Has index' ∧ SameChunk g d.rank index' index := by
  obtain ⟨n, hn, rfl⟩ := h
  rw [hin.rank_eq] at hn
  let n' : ℕ → ℕ := fun i => if g.chunk i ≤ (r.axis i).stride then n i
    else Strided.chunkAt (r.axis i).start (r.axis i).stride (g.chunk i) (n i) -
      (r.axis i).start / g.chunk i
  have hle : ∀ i, (r.axis i).start / g.chunk i ≤
      Strided.chunkAt (r.axis i).start (r.axis i).stride (g.chunk i) (n i) := fun i =>
    Nat.div_le_div_right (Nat.le_add_right _ _)
  refine ⟨(oneElementPerChunk g r).indexAt n', ⟨n', fun i hi => ?_, rfl⟩, fun i hi => ?_⟩
  · rw [length_oneElementPerChunk, hin.rank_eq] at hi
    rw [axis_oneElementPerChunk hin hpos hi]
    have hlt := hn i hi
    simp only [n']
    split_ifs
    · exact hlt
    · have : Strided.chunkAt (r.axis i).start (r.axis i).stride (g.chunk i) (n i) ≤
          Strided.chunkAt (r.axis i).start (r.axis i).stride (g.chunk i) ((r.axis i).count - 1) :=
        Strided.chunkAt_mono (by omega)
      exact Nat.lt_succ_of_le (Nat.sub_le_sub_right this _)
  · have hi' : i < r.axes.length := hin.rank_eq ▸ hi
    have hget : ∀ (q : ReadRequest) (m : ℕ → ℕ), i < q.axes.length →
        (q.indexAt m).getD i 0 = Strided.coord (q.axis i).start (q.axis i).stride (m i) :=
      fun q m hq => by simp [ReadRequest.indexAt, List.getD_eq_getElem?_getD, hq]
    rw [hget r n hi', hget _ n' (by rwa [length_oneElementPerChunk]),
      axis_oneElementPerChunk hin hpos hi]
    simp only [n']
    split_ifs with h
    · rfl
    · rw [Strided.coord, ← Nat.add_mul, Nat.add_sub_cancel' (hle i),
        Nat.mul_div_cancel _ (hpos i hi)]
      rfl

end Sample

/-! ## What a prefetch decodes -/

section Decoded

variable {ω α : Type} [Pixel α] {source : PixelSource ω α} {d : ImageDescriptor}
  {g f : ChunkGeometry}
  {r : ReadRequest} {o : ReadOptions}

theorem sampleElements_lt (hbudget : o.readBudgetBytes < 2 ^ 64) (bytes : ℕ) :
    sampleElements o bytes < 2 ^ 64 := by
  have := Nat.div_le_self o.readBudgetBytes bytes
  unfold sampleElements kSampleElements
  split_ifs <;> omega

theorem readPixelPiece_grows (fuel : ℕ) (control : ReadControl ω) (p : ReadRequest) :
    Grows (readPixelPiece fuel source d g f o control p) :=
  .bind (readInPieces_grows fuel source d g f p _ control none) fun _ => .pure _

omit [Pixel α] in
theorem readFlagPiece_grows (size : ℕ) (p : ReadRequest) : Grows (readFlagPiece source d size p) :=
  .bind (.ofExcept _) fun s => .bind (readFlags_grows source d s size) fun _ => .pure _

/-- The pixels a prefetch reads meet every chunk of its request. -/
theorem prefetchPixels_covers (hd : d.StoredInOrder) (hin : r.Inside d)
    (hlen : ∀ i < d.rank, d.length i < 2 ^ 63) (hpos : ∀ i < d.rank, 0 < g.chunk i)
    (hbudget : o.readBudgetBytes < 2 ^ 64) (fuel : ℕ) (control : ReadControl ω) :
    Leaves (prefetchPixels fuel source d g f r o control) (fun st => ∀ index, r.Has index →
      ∃ index', Covers d st.pixelReads index' ∧ SameChunk g d.rank index' index) := by
  have hlt := sampleElements_lt hbudget 4
  refine .bind (Q := fun _ _ => True) (.modify fun _ _ => trivial) fun _ => ?_
  refine .bind (forEachPiece_covers (oneElementPerChunk_inside hin hpos) hlen
    (C := fun index st => Covers d st.pixelReads index)
    (fun I p => (readPixelPiece_grows fuel control p).keeps_pixels I)
    (fun p => .bind (readInPieces_covers hd fuel g f p control) fun _ => .pure fun _ h => h)
    (lt_of_le_of_lt (min_le_right _ _) hlt) fuel) fun _ => .pure fun st hst index hindex => ?_
  obtain ⟨index', hindex', hsame⟩ := oneElementPerChunk_meets hin hpos hindex
  exact ⟨index', hst index' hindex', hsame⟩

omit [Pixel α] in
/-- The flags a prefetch reads meet every flag chunk of its request. -/
theorem prefetchFlags_covers (hd : d.StoredInOrder) (hin : r.Inside d)
    (hlen : ∀ i < d.rank, d.length i < 2 ^ 63) (hpos : ∀ i < d.rank, 0 < f.chunk i)
    (hbudget : o.readBudgetBytes < 2 ^ 64) (fuel : ℕ) :
    Leaves (prefetchFlags fuel source d g f r o) (fun st => ∀ index, r.Has index →
      ∃ index', Covers d st.maskReads index' ∧ SameChunk f d.rank index' index) := by
  have hlt := sampleElements_lt hbudget 1
  refine .bind (Attempt.Ensures.ofQuotient (Q := fun most _ => True ∧ most < 2 ^ 64)
    (fun most hmost _ _ => ⟨trivial, ?_⟩) fun _ _ _ => trivial) fun most => .of_and fun hmost => ?_
  · exact (flagPieceElements_le hmost).trans_lt ((min_le_right _ _).trans_lt hlt)
  refine .bind (forEachPiece_covers (oneElementPerChunk_inside hin hpos) hlen
    (C := fun index st => Covers d st.maskReads index)
    (fun I p => (readFlagPiece_grows _ p).keeps_flags I) (readFlagPiece_covers hd _) hmost fuel)
    fun _ => .pure fun st hst index hindex => ?_
  · obtain ⟨index', hindex', hsame⟩ := oneElementPerChunk_meets hin hpos hindex
    exact ⟨index', hst index' hindex', hsame⟩

omit [Pixel α] in
theorem prefetchFlags_keep (source : PixelSource ω α) (d : ImageDescriptor) (g f : ChunkGeometry)
    (r : ReadRequest) (o : ReadOptions) (fuel : ℕ) {P : ReadState ω α → Prop}
    (hP : ∀ st st' : ReadState ω α, st.pixelReads <+: st'.pixelReads →
      st.maskReads <+: st'.maskReads → P st → P st') :
    Attempt.Ensures P (prefetchFlags fuel source d g f r o) (fun _ => P) (fun _ _ => True) :=
  .bind (Attempt.Ensures.ofQuotient (Q := fun _ => P) (fun _ _ _ h => h) fun _ _ _ =>
      trivial) fun _ =>
  .bind (forEachPiece_keep (fun _ _ => trivial)
    (fun p => (readFlagPiece_grows _ p).keeps hP) fuel _ _)
    fun _ => .pure fun _ h => h

/-- **A prefetch that returns has met every chunk of its request**, of the pixels and, when the mask
applies, of the flag in its own layout. -/
theorem prefetchChunks_covers (hlen : ∀ i < d.rank, d.length i < 2 ^ 63)
    (hpos : ∀ i < d.rank, 0 < g.chunk i) (hpos' : ∀ i < d.rank, 0 < f.chunk i)
    (hbudget : o.readBudgetBytes < 2 ^ 64) (fuel : ℕ) (control : ReadControl ω) :
    Leaves (prefetchChunks fuel source d g f r o control) (fun st => ∀ index, r.Has index →
      (∃ index', Covers d st.pixelReads index' ∧ SameChunk g d.rank index' index) ∧
      (appliesPixelMask o d = true →
        ∃ index', Covers d st.maskReads index' ∧ SameChunk f d.rank index' index)) := by
  refine .bind (.ofExcept (Q := fun s _ => True ∧ buildSelection d r .logical = .ok s)
    (fun s hs _ _ => ⟨trivial, hs⟩) fun _ _ _ _ => trivial) fun s => .of_and fun hs => ?_
  have hd := buildSelection_storedInOrder hs
  have hin := buildSelection_inside hs
  refine .bind (Q := fun _ _ => True) (fun st _ => by split <;> trivial) fun _ => ?_
  refine .bind (prefetchPixels_covers hd hin hlen hpos hbudget fuel control) fun chunks => ?_
  refine .ite (fun happ => ?_) fun happ => .pure fun st hst index hindex =>
    ⟨hst index hindex, fun h => absurd h happ⟩
  -- reading the flags forgets no pixels
  have hkept := prefetchFlags_keep source d g f r o fuel
    (P := fun st => ∀ index, r.Has index →
      ∃ index', Covers d st.pixelReads index' ∧ SameChunk g d.rank index' index)
    fun st st' hpre _ hc index hindex =>
      (hc index hindex).imp fun _ h => ⟨h.1.mono hpre, h.2⟩
  refine .bind ((hkept.and (prefetchFlags_covers hd hin hlen hpos' hbudget fuel)).imp
    (fun _ h => ⟨h, trivial⟩) (fun _ _ h => h) fun _ _ h => h) fun _ =>
      .pure fun st hst index hindex => ?_
  exact ⟨hst.1 index hindex, fun _ => hst.2 index hindex⟩

end Decoded

end CartaZarr
