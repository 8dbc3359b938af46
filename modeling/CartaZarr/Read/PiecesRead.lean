import CartaZarr.PixelSource
import CartaZarr.Read.Pieces

/-!
# Reading in pieces

`readInPieces` is an ordinary read: what it checks first, its pieces one after another, the mask
before the pixels of each, and a report to the progress callback after it. `prefetchChunks` reads
one element of every chunk that a request touches, of the pixels and of the flag in its own layout.

The state of a read is the world, the caller's destination, and what was done so far: the reports
made and the selections asked for. The last two are there to be reasoned about, and no read looks at
them.
-/

namespace CartaZarr

open Word

/-- One call of a progress callback, with the destination as it was then. -/
structure Report (α : Type) where
  finished : ℕ
  total : ℕ
  destination : List α

/-- The state of a read. -/
structure ReadState (ω α : Type) where
  world : ω
  destination : List α
  reports : List (Report α)
  pixelReads : List PixelSelection
  maskReads : List PixelSelection

/-- What is told of a read as it advances, if anything is, and whether it may go on. -/
abbrev ProgressCallback (ω α : Type) : Type := Option (ℕ → ℕ → List α → ω → Bool × ω)

/-- A step of a read: it returns, or halts, and leaves its state. -/
abbrev Reading (ω α β : Type) : Type := Attempt (Halt Error) (ReadState ω α) β

section Read

variable {ω α : Type} [Pixel α]

/-- Ask the control, in the course of a read. -/
def askControl (control : ReadControl ω) (node : String) : Reading ω α Unit := fun state =>
  match checkReadControl control node state.world with
  | (.ok (), w) => (.ok (), { state with world := w })
  | (.error e, w) => (.error (.error e), { state with world := w })

/-- What every pixel read of an image asks before it touches storage. -/
def checkRead (descriptor : ImageDescriptor) (request : ReadRequest) (control : ReadControl ω) :
    Reading ω α PixelSelection := do
  let selection ← .ofExcept (buildSelection descriptor request .logical)
  let state ← .get
  if state.destination.length < selection.elements then
    .fail (.error ⟨.invalidArgument, "Destination buffer is too small for the request",
      descriptor.id⟩)
  else
    askControl control descriptor.id
    pure selection

/-- Read the flags of a selection, into a buffer of `size` bytes. -/
def readFlags (source : PixelSource ω α) (descriptor : ImageDescriptor) (selection : PixelSelection)
    (size : ℕ) : Reading ω α (List UInt8) := fun state =>
  let state := { state with maskReads := state.maskReads ++ [selection] }
  match source.readMask descriptor selection size state.world with
  | (.ok mask, w) => (.ok mask, { state with world := w })
  | (.error e, w) => (.error (.error e), { state with world := w })

/-- Read the pixels of a selection into the destination from `first` on. -/
def readPixelsAt (source : PixelSource ω α) (descriptor : ImageDescriptor)
    (selection : PixelSelection) (first : ℕ) : Reading ω α Unit := fun state =>
  let state := { state with pixelReads := state.pixelReads ++ [selection] }
  match source.readPixels descriptor selection (state.world, state.destination.drop first) with
  | (.ok (), w, rest) =>
    (.ok (), { state with world := w, destination := state.destination.take first ++ rest })
  | (.error e, w, rest) =>
    (.error (.error e), { state with world := w,
                                     destination := state.destination.take first ++ rest })

/-- Fold a piece's mask, when the read applies one, into the destination from `first` on. -/
def maskAt (descriptor : ImageDescriptor) (options : ReadOptions) (mask : List UInt8)
    (first count : ℕ) : Reading ω α Unit :=
  if appliesPixelMask options descriptor then
    .modify fun state => { state with
      destination :=
        state.destination.take first ++ applyPixelMask (state.destination.drop first) mask count }
  else pure ()

/-- Tell the callback, if there is one, how far the read is. -/
def reportProgress (progress : ProgressCallback ω α) (descriptor : ImageDescriptor)
    (finished total : ℕ) : Reading ω α Unit := fun state =>
  match progress with
  | none => (.ok (), state)
  | some callback =>
    let (goOn, w) := callback finished total state.destination state.world
    let state := { state with
      world := w
      reports := state.reports ++ [⟨finished, total, state.destination⟩] }
    if goOn then (.ok (), state)
    else (.error (.error ⟨.cancelled, "The read was cancelled by its progress callback",
      descriptor.id⟩), state)

/-- The mask of a piece, when the read applies one: read before the pixels, so that an unavailable
one leaves the destination as it was. -/
def pieceMask (source : PixelSource ω α) (descriptor : ImageDescriptor) (options : ReadOptions)
    (selection : PixelSelection) : Reading ω α (List UInt8) :=
  if appliesPixelMask options descriptor then
    if options.readBudgetBytes ≠ 0 ∧ options.readBudgetBytes < selection.elements then
      .fail (.error ⟨.bufferTooSmall, "Pixel mask temporary buffer exceeds the read budget",
        descriptor.id⟩)
    else readFlags source descriptor selection selection.elements
  else pure []

/-- Read one piece of a read of `elements` elements, and report it. -/
def readPiece (source : PixelSource ω α) (descriptor : ImageDescriptor) (options : ReadOptions)
    (progress : ProgressCallback ω α) (elements : ℕ) (piece : Piece) : Reading ω α Unit := do
  let selection ← .ofExcept (buildSelection descriptor piece.request .logical)
  let mask ← pieceMask source descriptor options selection
  readPixelsAt source descriptor selection piece.firstElement
  maskAt descriptor options mask piece.firstElement selection.elements
  reportProgress progress descriptor (add piece.firstElement selection.elements) elements

/-- Read a request in pieces, and return the number of elements it produced. -/
def readInPieces (fuel : ℕ) (source : PixelSource ω α) (descriptor : ImageDescriptor)
    (geometry flagGeometry : ChunkGeometry) (request : ReadRequest) (options : ReadOptions)
    (control : ReadControl ω) (progress : ProgressCallback ω α) : Reading ω α ℕ := do
  let checked ← checkRead descriptor request control
  let pieces ← .ofFuel
    (planPieces fuel descriptor geometry flagGeometry request options progress.isSome)
  .forEach (readPiece source descriptor options progress checked.elements) pieces
  pure checked.elements

end Read

/-! ## What a read has written -/

/-- The first `m` elements of a destination hold their final values, and from `n` on it is as it was
before. -/
structure WrittenTo {α : Type} (final : ℕ → α) (before after : List α) (m n : ℕ) : Prop where
  length_eq : after.length = before.length
  final_lt : ∀ k < m, after[k]? = some (final k)
  unchanged : ∀ k, n ≤ k → after[k]? = before[k]?

/-- What the progress callback was told while the first `m` of `total` elements became final. -/
structure Reported {α : Type} (final : ℕ → α) (total m : ℕ) (watched : Bool)
    (reports : List (Report α)) : Prop where
  total_eq : ∀ report ∈ reports, report.total = total
  le : ∀ report ∈ reports, report.finished ≤ m
  final_lt : ∀ report ∈ reports, ∀ k < report.finished, report.destination[k]? = some (final k)
  increasing : (reports.map Report.finished).Pairwise (· < ·)
  last : watched = true → m ≠ 0 → ∃ report, reports.getLast? = some report ∧ report.finished = m

section Spec

variable {ω α : Type} [Pixel α] {source : PixelSource ω α} {d : ImageDescriptor} {o : ReadOptions}
  {progress : ProgressCallback ω α} {r : ReadRequest}

variable (source d o r) in
/-- The final value of element `k` of a read: the pixel the request selects there, in logical order,
or not-a-number where it is flagged and the read applies the flag. -/
def finalPixel (k : ℕ) : α := source.maskedPixel (appliesPixelMask o d) (r.elementIndex k)

variable (source d o r progress) in
/-- What holds between two pieces, with `m` elements final. -/
structure Between (before : List α) (m : ℕ) (state : ReadState ω α) : Prop where
  written : WrittenTo (finalPixel source d o r) before state.destination m m
  reported : Reported (finalPixel source d o r) r.elements m progress.isSome state.reports

variable (source d o) in
/-- How the world goes from the selection of a piece to its pixels: past its flags, when the read
applies them. -/
def MaskRead (s : PixelSelection) (w w' : ω) : Prop :=
  if appliesPixelMask o d then
    ¬ (o.readBudgetBytes ≠ 0 ∧ o.readBudgetBytes < s.elements) ∧ source.maskFault s w = (none, w')
  else w' = w

variable (source d o r progress) in
/-- Why a read in the state `mid` stopped at a piece, and how that left it: the piece could not be
selected, its flags exceed the budget or could not be read, its pixels could not be read, or the
callback asked to stop when it was told that the piece is final. -/
inductive StoppedAt (before : List α) (mid : ReadState ω α) (piece : Piece) :
    Error → ReadState ω α → Prop
  | request {e : Error} (refused : buildSelection d piece.request .logical = .error e) :
      StoppedAt before mid piece e mid
  | budget {s : PixelSelection} (selection : buildSelection d piece.request .logical = .ok s)
      (applies : appliesPixelMask o d) (nonzero : o.readBudgetBytes ≠ 0)
      (exceeds : o.readBudgetBytes < s.elements) :
      StoppedAt before mid piece
        ⟨.bufferTooSmall, "Pixel mask temporary buffer exceeds the read budget", d.id⟩ mid
  | mask {e : Error} {after : ReadState ω α} {s : PixelSelection}
      (selection : buildSelection d piece.request .logical = .ok s) (applies : appliesPixelMask o d)
      (fault : source.maskFault s mid.world = (some e, after.world))
      (destination : after.destination = mid.destination) (reports : after.reports = mid.reports) :
      StoppedAt before mid piece e after
  | pixels {e : Error} {after : ReadState ω α} {s : PixelSelection} {w : ω} {garbage : List α}
      (selection : buildSelection d piece.request .logical = .ok s)
      (masked : MaskRead source d o s mid.world w)
      (fault : source.pixelFault s w = (some (e, garbage), after.world))
      (written : WrittenTo (finalPixel source d o r) before after.destination piece.firstElement
        (piece.firstElement + s.elements)) (reports : after.reports = mid.reports) :
      StoppedAt before mid piece e after
  | progress {after : ReadState ω α} {callback : ℕ → ℕ → List α → ω → Bool × ω} {w : ω} {n : ℕ}
      (last : n = piece.firstElement + piece.request.elements) (called : progress = some callback)
      (refused : callback n r.elements after.destination w = (false, after.world))
      (written : WrittenTo (finalPixel source d o r) before after.destination n n)
      (reports : after.reports = mid.reports ++ [⟨n, r.elements, after.destination⟩]) :
      StoppedAt before mid piece
        ⟨.cancelled, "The read was cancelled by its progress callback", d.id⟩ after

omit [Pixel α] in
theorem getElem?_take_append {destination rest : List α} {first : ℕ}
    (h : first ≤ destination.length) (k : ℕ) :
    (destination.take first ++ rest)[k]? =
      if k < first then destination[k]? else rest[k - first]? := by
  have hlen : (destination.take first).length = first := by simpa using h
  split_ifs with hk
  · rw [List.getElem?_append_left (by omega), List.getElem?_take_of_lt hk]
  · rw [List.getElem?_append_right (by omega), hlen]

omit [Pixel α] in
/-- What a read of pixels into the tail of a destination leaves, when the tail has room for it. -/
theorem readPixelsAt_spec (source : PixelSource ω α) (d : ImageDescriptor) (s : PixelSelection)
    {first : ℕ} {state : ReadState ω α} (hroom : first + s.elements ≤ state.destination.length) :
    (∃ e garbage after, source.pixelFault s state.world = (some (e, garbage), after.world) ∧
        readPixelsAt source d s first state = (.error (.error e), after) ∧
        after.reports = state.reports ∧ after.destination.length = state.destination.length ∧
        ∀ k, k < first ∨ first + s.elements ≤ k → after.destination[k]? = state.destination[k]?) ∨
    ∃ after, readPixelsAt source d s first state = (.ok (), after) ∧
      after.reports = state.reports ∧ after.pixelReads = state.pixelReads ++ [s] ∧
      after.maskReads = state.maskReads ∧
      after.destination.length = state.destination.length ∧
      ∀ k, after.destination[k]? =
        if first ≤ k ∧ k < first + s.elements then
          some (source.pixelAt (d.logicalIndex (s.storedIndex (k - first))))
        else state.destination[k]? := by
  have hdrop : ¬ (state.destination.drop first).length < s.elements := by
    rw [List.length_drop]
    omega
  have htail : ∀ k, ¬ k < first →
      (state.destination.drop first)[k - first]? = state.destination[k]? := fun k hk => by
    rw [List.getElem?_drop]
    congr 1
    omega
  rcases hfault : source.pixelFault s state.world with ⟨_ | ⟨e, garbage⟩, w'⟩
  · right
    have hrun : readPixelsAt source d s first state = (.ok (), { state with
        world := w'
        destination := state.destination.take first ++
          overwrite (state.destination.drop first) (source.pixels d s)
        pixelReads := state.pixelReads ++ [s] }) := by
      simp only [readPixelsAt, PixelSource.readPixels, hdrop, if_false, hfault]
    refine ⟨_, hrun, rfl, rfl, rfl, ?_, fun k => ?_⟩
    · simp only [List.length_append, List.length_take]
      rw [length_overwrite (by simpa using not_lt.1 hdrop), List.length_drop]
      omega
    · simp only
      rw [getElem?_take_append (by omega)]
      by_cases hk : k < first
      · rw [if_pos hk, if_neg (by omega)]
      · rw [if_neg hk]
        by_cases hk' : k < first + s.elements
        · rw [if_pos ⟨by omega, hk'⟩, getElem?_overwrite_of_lt _ (by simp; omega),
            PixelSource.pixels, List.getElem?_map, List.getElem?_range (by omega)]
          rfl
        · rw [if_neg (by omega), getElem?_overwrite_of_le _ (by simp; omega), htail k hk]
  · left
    have hlen : (garbage.take s.elements).length ≤ s.elements := by simp
    have hrun : readPixelsAt source d s first state = (.error (.error e), { state with
        world := w'
        destination := state.destination.take first ++
          overwrite (state.destination.drop first) (garbage.take s.elements)
        pixelReads := state.pixelReads ++ [s] }) := by
      simp only [readPixelsAt, PixelSource.readPixels, hdrop, if_false, hfault]
    refine ⟨e, garbage, _, ?_, hrun, rfl, ?_, ?_⟩
    · rfl
    · simp only [List.length_append, List.length_take]
      rw [length_overwrite (by omega), List.length_drop]
      omega
    · intro k hk
      simp only
      rw [getElem?_take_append (by omega)]
      by_cases hk' : k < first
      · rw [if_pos hk']
      · rw [if_neg hk', getElem?_overwrite_of_le _ (by omega), htail k hk']

/-- Folding in the flags makes the pixels of a piece final. -/
theorem maskedPixel_eq (source : PixelSource ω α) (applyMask : Bool) (index : List ℕ) :
    source.maskedPixel applyMask index =
      if applyMask = true then
        (if source.flagAt index ≠ 0 then Pixel.nan else source.pixelAt index)
      else source.pixelAt index := by
  unfold PixelSource.maskedPixel
  cases applyMask <;> simp

variable (source d o r progress) in
/-- What holds when the `n` pixels of a piece after `m` final elements were read, and no flag was
folded in yet. -/
structure Unmasked (before : List α) (m n : ℕ) (state : ReadState ω α) : Prop where
  length_eq : state.destination.length = before.length
  pixel : ∀ k, m ≤ k → k < m + n → state.destination[k]? = some (source.pixelAt (r.elementIndex k))
  final_lt : ∀ k < m, state.destination[k]? = some (finalPixel source d o r k)
  unchanged : ∀ k, m + n ≤ k → state.destination[k]? = before[k]?
  reported : Reported (finalPixel source d o r) r.elements m progress.isSome state.reports

section Piece

variable {before : List α} {m : ℕ} {piece : Piece} {s : PixelSelection}
  (hd : d.StoredInOrder) (hs : buildSelection d piece.request .logical = .ok s)
  (hfirst : piece.firstElement = m) (hle : m + piece.request.elements ≤ r.elements)
  (hroom : r.elements ≤ before.length)
  (hsame : ∀ k < piece.request.elements, piece.request.elementIndex k = r.elementIndex (m + k))
include hd hs hfirst hle hroom hsame

omit hfirst hle hroom hsame hd in
/-- The mask of a piece is the source's flags, and reading it leaves the destination alone. -/
theorem pieceMask_ensures (mid : ReadState ω α) :
    Attempt.Ensures (· = mid) (pieceMask source d o s)
      (fun mask state => (MaskRead source d o s mid.world state.world ∧
        state.destination = mid.destination ∧ state.reports = mid.reports) ∧
        (appliesPixelMask o d = true → mask = source.flags d s))
      (fun e state => ∃ err, e = .error err ∧
        StoppedAt source d o progress r before mid piece err state ∧
        state.reports = mid.reports) := by
  unfold pieceMask
  refine .ite (fun happ => .ite (fun hexceeds => .fail ?_) fun hfits => ?_) fun happ => .pure ?_
  · rintro _ rfl
    exact ⟨_, rfl, .budget hs happ hexceeds.1 hexceeds.2, rfl⟩
  · rintro st rfl
    simp only [readFlags, PixelSource.readMask, lt_irrefl, if_false]
    rcases hfault : source.maskFault s st.world with ⟨_ | e, w⟩
    · exact ⟨⟨by rw [MaskRead, if_pos happ]; exact ⟨hfits, hfault⟩, rfl, rfl⟩, fun _ => rfl⟩
    · exact ⟨e, rfl, .mask hs happ hfault rfl rfl, rfl⟩
  · rintro _ rfl
    exact ⟨⟨by rw [MaskRead, if_neg happ], rfl, rfl⟩, fun h => absurd h happ⟩

theorem readPixelsAt_ensures {mid : ReadState ω α}
    (hmid : Between source d o progress r before m mid) :
    Attempt.Ensures (fun state => MaskRead source d o s mid.world state.world ∧
        state.destination = mid.destination ∧ state.reports = mid.reports)
      (readPixelsAt source d s piece.firstElement)
      (fun _ state => Unmasked source d o progress r before m s.elements state ∧
        state.reports = mid.reports)
      (fun e state => ∃ err, e = .error err ∧
        StoppedAt source d o progress r before mid piece err state ∧
        state.reports = mid.reports) := by
  have hsel := buildSelection_selects hd hs
  rintro st ⟨hmask, hdest, hreports⟩
  have hwritten : WrittenTo (finalPixel source d o r) before st.destination m m :=
    hdest ▸ hmid.written
  have hlen := hwritten.length_eq
  have helements := hsel.elements_eq
  have hroom' : piece.firstElement + s.elements ≤ st.destination.length := by omega
  rcases readPixelsAt_spec source d s hroom' with
    ⟨e, garbage, after, hfault, hrun, hrep, hlen', hsame'⟩ |
    ⟨after, hrun, hrep, -, -, hlen', hval⟩
  · rw [hrun]
    refine ⟨e, rfl, .pixels hs hmask hfault ⟨by omega, fun k hk => ?_, fun k hk => ?_⟩
      (hrep.trans hreports), hrep.trans hreports⟩
    · rw [hsame' k (Or.inl hk)]
      exact hwritten.final_lt k (by omega)
    · rw [hsame' k (Or.inr hk)]
      exact hwritten.unchanged k (by omega)
  · rw [hrun]
    refine ⟨⟨by omega, fun k hk hk' => ?_, fun k hk => ?_, fun k hk => ?_, ?_⟩, hrep.trans hreports⟩
    · rw [hval, if_pos (by omega), hsel.logicalIndex_logical hd, hsame _ (by omega)]
      congr 3
      omega
    · rw [hval, if_neg (by omega)]
      exact hwritten.final_lt k hk
    · rw [hval, if_neg (by omega)]
      exact hwritten.unchanged k (by omega)
    · rw [hrep, hreports]
      exact hmid.reported

/-- Folding in the flags makes the pixels of a piece final. -/
theorem maskAt_ensures {mask : List UInt8} {reports : List (Report α)}
    {E : Halt Error → ReadState ω α → Prop}
    (hmask : appliesPixelMask o d = true → mask = source.flags d s) :
    Attempt.Ensures (fun state => Unmasked source d o progress r before m s.elements state ∧
        state.reports = reports)
      (maskAt d o mask piece.firstElement s.elements)
      (fun _ state => WrittenTo (finalPixel source d o r) before state.destination
          (m + s.elements) (m + s.elements) ∧ state.reports = reports) E := by
  have hsel := buildSelection_selects hd hs
  have helements := hsel.elements_eq
  unfold maskAt
  refine .ite (fun happ => ?_) fun happ => .pure fun st ⟨hst, hreports⟩ => ?_
  · refine .modify fun st ⟨hst, hreports⟩ => ?_
    have hlen := hst.length_eq
    refine ⟨⟨?_, fun k hk => ?_, fun k hk => ?_⟩, hreports⟩
    · simp only [List.length_append, List.length_take, length_applyPixelMask, List.length_drop]
      omega
    · simp only
      rw [getElem?_take_append (by omega)]
      by_cases hk' : k < piece.firstElement
      · rw [if_pos hk']
        exact hst.final_lt k (by omega)
      · rw [if_neg hk', applyPixelMask, List.getElem?_mapIdx, List.getElem?_drop,
          show piece.firstElement + (k - piece.firstElement) = k by omega,
          hst.pixel k (by omega) hk, Option.map_some, hmask happ, PixelSource.flags,
          List.getD_eq_getElem?_getD, List.getElem?_map, List.getElem?_range (by omega),
          Option.map_some, Option.getD_some, hsel.logicalIndex_logical hd, hsame _ (by omega),
          show m + (k - piece.firstElement) = k by omega, finalPixel, maskedPixel_eq, if_pos happ]
        simp only [show k - piece.firstElement < s.elements by omega, true_and]
    · simp only
      rw [getElem?_take_append (by omega), if_neg (by omega), applyPixelMask, List.getElem?_mapIdx,
        List.getElem?_drop, show piece.firstElement + (k - piece.firstElement) = k by omega,
        hst.unchanged k (by omega)]
      simp only [show ¬ k - piece.firstElement < s.elements by omega, false_and, if_false,
        Option.map_id_fun', id_eq]
  · refine ⟨⟨hst.length_eq, fun k hk => ?_, hst.unchanged⟩, hreports⟩
    rcases lt_or_ge k m with hk' | hk'
    · exact hst.final_lt k hk'
    · rw [hst.pixel k hk' hk, finalPixel, maskedPixel_eq, if_neg happ]

omit [Pixel α] hd hs hfirst hle hroom hsame in
/-- A report of the elements that became final. -/
theorem Reported.append {final : ℕ → α} {total n : ℕ} {watched : Bool} {reports : List (Report α)}
    {destination : List α} (h : Reported final total m watched reports) (hn : 0 < n)
    (hfinal : ∀ k < m + n, destination[k]? = some (final k)) :
    Reported final total (m + n) watched (reports ++ [⟨m + n, total, destination⟩]) where
  total_eq report hmem := by
    rcases List.mem_append.1 hmem with hmem | hmem
    · exact h.total_eq report hmem
    · rw [List.mem_singleton.1 hmem]
  le report hmem := by
    rcases List.mem_append.1 hmem with hmem | hmem
    · exact (h.le report hmem).trans (Nat.le_add_right _ _)
    · rw [List.mem_singleton.1 hmem]
  final_lt report hmem k hk := by
    rcases List.mem_append.1 hmem with hmem | hmem
    · exact h.final_lt report hmem k hk
    · rw [List.mem_singleton.1 hmem] at hk ⊢
      exact hfinal k hk
  increasing := by
    rw [List.map_append, List.pairwise_append]
    refine ⟨h.increasing, List.pairwise_singleton _ _, fun x hx y hy => ?_⟩
    obtain ⟨report, hmem, rfl⟩ := List.mem_map.1 hx
    have := h.le report hmem
    rw [List.map_singleton, List.mem_singleton] at hy
    simp only at hy
    omega
  last _ _ := ⟨_, List.getLast?_concat, rfl⟩

/-- **One piece of a read.** From `m` final elements it goes to as many more as the piece has, or
stops the read at the piece. -/
theorem readPiece_ensures (hlt : r.elements < 2 ^ 64) {mid : ReadState ω α}
    (hmid : Between source d o progress r before m mid) :
    Attempt.Ensures (· = mid) (readPiece source d o progress r.elements piece)
      (fun _ => Between source d o progress r before (m + piece.request.elements))
      (fun e state => ∃ err m', e = .error err ∧
        StoppedAt source d o progress r before mid piece err state ∧
        Reported (finalPixel source d o r) r.elements m' progress.isSome state.reports) := by
  have hsel := buildSelection_selects hd hs
  have helements := hsel.elements_eq
  have hpos : 0 < piece.request.elements := List.prod_pos
    (prod_counts_pos hsel.valid.count_pos hsel.valid.rank_eq)
  have hstop : ∀ e (state : ReadState ω α), (∃ err, e = Halt.error err ∧
      StoppedAt source d o progress r before mid piece err state ∧ state.reports = mid.reports) →
      ∃ err m', e = .error err ∧ StoppedAt source d o progress r before mid piece err state ∧
        Reported (finalPixel source d o r) r.elements m' progress.isSome state.reports :=
    fun e state ⟨err, he, hstopped, hrep⟩ => ⟨err, m, he, hstopped, hrep ▸ hmid.reported⟩
  unfold readPiece
  rw [hs, Attempt.ofExcept_ok, pure_bind]
  refine .bind ((pieceMask_ensures hs mid).imp (fun _ h => h) (fun _ _ h => h) hstop)
    fun mask => .of_and fun hmask => ?_
  refine .bind ((readPixelsAt_ensures hd hs hfirst hle hroom hsame hmid).imp (fun _ h => h)
    (fun _ _ h => h) hstop) fun _ => ?_
  refine .bind (maskAt_ensures hd hs hfirst hle hroom hsame hmask) fun _ => ?_
  -- the piece is final; what is left is to say so
  rintro st ⟨hwritten, hreports⟩
  subst hfirst
  rw [helements] at hwritten
  have hrep := hreports ▸ hmid.reported
  have happend := hrep.append hpos hwritten.final_lt
  unfold reportProgress
  rw [helements, add_eq (by omega)]
  cases hcalled : progress with
  | none =>
    rw [hcalled] at hrep
    exact ⟨hwritten, hrep.total_eq, fun rep h => (hrep.le rep h).trans (Nat.le_add_right _ _),
      hrep.final_lt, hrep.increasing, fun h => absurd h (by simp)⟩
  | some callback =>
    simp only
    rcases hanswer : callback (piece.firstElement + piece.request.elements)
      r.elements st.destination
      st.world with ⟨_ | _, w⟩
    · rw [hcalled] at happend
      exact ⟨_, piece.firstElement + piece.request.elements, rfl,
        .progress rfl rfl hanswer hwritten (by rw [hreports]), happend⟩
    · rw [hcalled] at happend
      exact ⟨hwritten, happend⟩

end Piece

/-- The pieces of a read that were read, one after another, leave the rest to extend what is
final. -/
theorem readPieces_upTo (hd : d.StoredInOrder) {before : List α}
    (hroom : r.elements ≤ before.length)
    (hlt : r.elements < 2 ^ 64) {m : ℕ} {done rest : List Piece}
    (hfill : Fills d r m (done ++ rest))
    {st mid : ReadState ω α} (hst : Between source d o progress r before m st)
    (hrun : Attempt.forEach (readPiece source d o progress r.elements) done st = (.ok (), mid)) :
    ∃ m', Fills d r m' rest ∧ Between source d o progress r before m' mid := by
  induction done generalizing m st with
  | nil =>
    cases hrun
    exact ⟨m, hfill, hst⟩
  | cons p done ih =>
    cases hfill with
    | refused _ first h =>
      cases hs : buildSelection d p.request .logical with
      | ok s => exact absurd hs (h s)
      | error e =>
        have hp : readPiece source d o progress r.elements p st = (.error (.error e), st) := by
          rw [readPiece, hs]
          rfl
        rw [Attempt.forEach, Attempt.bind_of_error hp] at hrun
        cases hrun
    | piece valid first le same next =>
      obtain ⟨s, hs⟩ := buildSelection_of_valid hd valid .logical
      rcases hp : readPiece source d o progress r.elements p st with ⟨e | _, st'⟩
      · rw [Attempt.forEach, Attempt.bind_of_error hp] at hrun
        cases hrun
      · rw [Attempt.forEach, Attempt.bind_of_ok hp] at hrun
        exact ih next ((readPiece_ensures hd hs first le hroom same hlt hst).of_ok rfl hp) hrun

/-- **The pieces of a read, one after another**, make every element of it final. -/
theorem readPieces_ok (hd : d.StoredInOrder) {before : List α} (hroom : r.elements ≤ before.length)
    (hlt : r.elements < 2 ^ 64) {pieces : List Piece} (hfill : Fills d r 0 pieces)
    {st after : ReadState ω α} (hst : Between source d o progress r before 0 st)
    (hrun : Attempt.forEach (readPiece source d o progress r.elements) pieces st =
    (.ok (), after)) :
    Between source d o progress r before r.elements after := by
  obtain ⟨m, hdone, hafter⟩ :=
    readPieces_upTo hd hroom hlt (show Fills d r 0 (pieces ++ []) by rwa [List.append_nil]) hst hrun
  cases hdone
  exact hafter

/-- A piece that fails, after those before it were read, finds what they hold final. -/
theorem readPieces_error (hd : d.StoredInOrder) {before : List α}
    (hroom : r.elements ≤ before.length)
    (hlt : r.elements < 2 ^ 64) {m : ℕ} {piece : Piece} {rest : List Piece}
    (hfill : Fills d r m (piece :: rest)) {mid after : ReadState ω α} {e : Halt Error}
    (hmid : Between source d o progress r before m mid)
    (hrun : readPiece source d o progress r.elements piece mid = (.error e, after)) :
    ∃ err m', e = .error err ∧ piece.firstElement = m ∧
      StoppedAt source d o progress r before mid piece err after ∧
      Reported (finalPixel source d o r) r.elements m' progress.isSome after.reports := by
  cases hfill with
  | refused _ first h =>
    cases hs : buildSelection d piece.request .logical with
    | ok s => exact absurd hs (h s)
    | error err =>
      have hp : readPiece source d o progress r.elements piece mid =
          (.error (.error err), mid) := by
        rw [readPiece, hs]
        rfl
      rw [hp] at hrun
      cases hrun
      exact ⟨err, m, rfl, first, .request hs, hmid.reported⟩
  | piece valid first le same next =>
    obtain ⟨s, hs⟩ := buildSelection_of_valid hd valid .logical
    obtain ⟨err, m', he, hstop, hrep⟩ :=
      (readPiece_ensures hd hs first le hroom same hlt hmid).of_error rfl hrun
    exact ⟨err, m', he, first, hstop, hrep⟩

/-- The state a read begins in. -/
def ReadState.start (world : ω) (destination : List α) : ReadState ω α :=
  { world, destination, reports := [], pixelReads := [], maskReads := [] }

omit [Pixel α] in
theorem askControl_ensures (control : ReadControl ω) (node : String) (state : ReadState ω α) :
    Attempt.Ensures (· = state) (askControl control node)
      (fun _ after => ∃ w, checkReadControl control node state.world = (.ok (), w) ∧
        after = { state with world := w })
      (fun e after => ∃ err w, e = .error err ∧
        checkReadControl control node state.world = (.error err, w) ∧
        after = { state with world := w }) := by
  rintro st rfl
  unfold askControl
  rcases hcheck : checkReadControl control node st.world with ⟨e | _, w⟩
  · exact ⟨e, w, rfl, rfl, rfl⟩
  · exact ⟨w, rfl, rfl⟩

variable (d r) in
/-- Why a read into a buffer of `size` elements is refused before it reads anything: for its
request, for the room, or by its control. -/
inductive Refused (size : ℕ) (control : ReadControl ω) (w : ω) : Error → Prop
  | request {e : Error} (refused : buildSelection d r .logical = .error e) :
    Refused size control w e
  | room {s : PixelSelection} (selection : buildSelection d r .logical = .ok s)
      (short : size < s.elements) :
      Refused size control w
        ⟨.invalidArgument, "Destination buffer is too small for the request", d.id⟩
  | control {e : Error} {s : PixelSelection} {w' : ω}
      (selection : buildSelection d r .logical = .ok s) (fits : s.elements ≤ size)
      (asked : checkReadControl control d.id w = (.error e, w')) : Refused size control w e

omit [Pixel α] in
/-- Before anything is read: what a read checks, and the destination it leaves alone. -/
theorem checkRead_ensures (control : ReadControl ω) (w : ω) (before : List α) :
    Attempt.Ensures (· = ReadState.start w before) (checkRead d r control)
      (fun s state => (∃ w', checkReadControl control d.id w = (.ok (), w') ∧
        state = ReadState.start w' before) ∧
        buildSelection d r .logical = .ok s ∧ s.elements ≤ before.length)
      (fun e state => ∃ err, e = .error err ∧ Refused d r before.length control w err ∧
        ∃ w', state = ReadState.start w' before) := by
  unfold checkRead
  refine .bind (.ofExcept (Q := fun s state => state = ReadState.start w before ∧
    buildSelection d r .logical = .ok s) (fun s hs st hst => ⟨hst, hs⟩)
    fun err herr st hst => ⟨err, rfl, .request herr, w, hst⟩) fun s => .of_and fun hs => ?_
  refine .get_bind fun st hst => .ite (fun hshort => .fail fun st' hst' =>
    ⟨_, rfl, .room hs (by rwa [hst] at hshort), w, hst'.trans hst⟩) fun hroom => ?_
  subst hst
  refine .bind ((askControl_ensures control d.id _).imp (fun _ h => h) (fun _ _ h => h)
    fun e after ⟨err, w', he, hasked, hafter⟩ =>
      ⟨err, he, .control hs (not_lt.1 hroom) hasked, w', hafter⟩) fun _ =>
        .pure fun after hafter => ?_
  obtain ⟨w', hasked, hafter⟩ := hafter
  exact ⟨⟨w', hasked, hafter⟩, hs, not_lt.1 hroom⟩

variable (source d o r progress) in
/-- Where a read of some pieces stopped: those of `done` were all read, so that every element before
the next one is final, and that one stopped the read. -/
structure StoppedIn (pieces : List Piece) (w : ω) (before : List α) (e : Error)
    (after : ReadState ω α) (done : List Piece) (piece : Piece) (rest : List Piece)
    (mid : ReadState ω α) : Prop where
  pieces_eq : pieces = done ++ piece :: rest
  read : Attempt.forEach (readPiece source d o progress r.elements) done (.start w before) =
    (.ok (), mid)
  final : WrittenTo (finalPixel source d o r) before mid.destination piece.firstElement
    piece.firstElement
  stopped : StoppedAt source d o progress r before mid piece e after

variable (source d o r progress) in
/-- How a read in pieces ends. It returned the number of elements requested, all of them final; or
it was refused before it read anything, and left the destination as it was; or it was let begin and
stopped at one of its pieces, with the error of that piece, every element before it final and none
behind it written. Every report said how far the read was, of how much, and found what it said was
finished final. The loop that cuts the pieces runs out of fuel only when that is less than the
elements requested, or for an axis of `2 ^ 63` elements or more. -/
def ReadEnds (g f : ChunkGeometry) (control : ReadControl ω) (fuel : ℕ) (w : ω) (before : List α) :
    Except (Halt Error) ℕ × ReadState ω α → Prop
  | (.ok n, after) =>
    r.Valid d ∧ n = r.elements ∧
    WrittenTo (finalPixel source d o r) before after.destination n n ∧
    Reported (finalPixel source d o r) n n progress.isSome after.reports
  | (.error (.error e), after) =>
    (Refused d r before.length control w e ∧ after.destination = before ∧ after.reports = []) ∨
    (r.Valid d ∧ r.elements ≤ before.length ∧ ∃ w' pieces,
      checkReadControl control d.id w = (.ok (), w') ∧
      planPieces fuel d g f r o progress.isSome = some pieces ∧
      (∃ done piece rest mid,
        StoppedIn source d o progress r pieces w' before e after done piece rest mid) ∧
      ∃ m, Reported (finalPixel source d o r) r.elements m progress.isSome after.reports)
  | (.error .outOfFuel, after) =>
    after.destination = before ∧ (fuel < r.elements ∨ ∃ i < d.rank, 2 ^ 63 ≤ d.length i)
  | (.error .dividedByZero, _) => False

theorem between_start (w : ω) (before : List α) :
    Between source d o progress r before 0 (.start w before) :=
  ⟨⟨rfl, by simp, fun _ _ => rfl⟩, by simp [ReadState.start], by simp [ReadState.start],
    by simp [ReadState.start], List.Pairwise.nil, by simp⟩

/-- **A read in pieces ends as it should**, whatever the source, the control and the callback do. -/
theorem readInPieces_ends (hd : d.StoredInOrder) (g f : ChunkGeometry) (control : ReadControl ω)
    (hbudget : o.readBudgetBytes < 2 ^ 64) (fuel : ℕ) (w : ω) (before : List α) :
    ReadEnds source d o progress r g f control fuel w before
      (readInPieces fuel source d g f r o control progress (.start w before)) := by
  rcases hcheck : (checkRead d r control : Reading ω α _) (.start w before) with ⟨e | s, st⟩
  · obtain ⟨err, rfl, hrefused, w', rfl⟩ := (checkRead_ensures control w before).of_error rfl hcheck
    rw [readInPieces, Attempt.bind_of_error hcheck]
    exact Or.inl ⟨hrefused, rfl, rfl⟩
  obtain ⟨⟨w', hasked, rfl⟩, hs, hroom⟩ := (checkRead_ensures control w before).of_ok rfl hcheck
  have hsel := buildSelection_selects hd hs
  have hv := hsel.valid
  rw [hsel.elements_eq] at hroom
  rw [readInPieces, Attempt.bind_of_ok hcheck]
  cases hpieces : planPieces fuel d g f r o progress.isSome with
  | none =>
    refine ⟨rfl, ?_⟩
    by_contra hcon
    push Not at hcon
    obtain ⟨pieces, hp⟩ := planPieces_returns (g := g) (f := f) (o := o) hv hcon.2 hbudget hcon.1
    rw [hp] at hpieces
    cases hpieces
  | some pieces =>
    have hfill := planPieces_fills hv hpieces
    have hstart : Between source d o progress r before 0 (.start w' before) :=
      between_start w' before
    rw [Attempt.ofFuel_some, pure_bind, hsel.elements_eq]
    rcases hrun : Attempt.forEach (readPiece source d o progress r.elements) pieces
      (.start w' before) with ⟨e | _, after⟩
    · rw [Attempt.bind_of_error hrun]
      obtain ⟨done, piece, rest, mid, rfl, hdone, hpiece⟩ := Attempt.exists_of_forEach_error hrun
      obtain ⟨m, hfill', hmid⟩ := readPieces_upTo hd hroom hv.elements_lt hfill hstart hdone
      obtain ⟨err, m', rfl, hfirst, hstop, hrep⟩ :=
        readPieces_error hd hroom hv.elements_lt hfill' hmid hpiece
      exact Or.inr ⟨hv, hroom, w', _, hasked, hpieces,
        ⟨done, piece, rest, mid, rfl, hdone, hfirst ▸ hmid.written, hstop⟩, m', hrep⟩
    · rw [Attempt.bind_of_ok hrun]
      have hafter := readPieces_ok hd hroom hv.elements_lt hfill hstart hrun
      exact ⟨hv, rfl, hafter.written, hafter.reported⟩

end Spec

/-- Half of the cube's spectrum, watched, and read with its flags in pieces of one chunk. -/
theorem readInPieces_ends_midChunkRequest :
    ReadEnds steadySource { smallCube with hasPixelMask := true } ⟨true, 320⟩
      (some fun _ _ _ w => (true, w)) midChunkRequest smallCubeChunks
        smallCubeChunks freeControl 64 ()
      (List.replicate 64 none)
      (readInPieces 64 steadySource { smallCube with hasPixelMask := true } smallCubeChunks
        smallCubeChunks midChunkRequest ⟨true, 320⟩ freeControl (some fun _ _ _ w => (true, w))
        (.start () (List.replicate 64 none))) :=
  readInPieces_ends (by decide) _ _ freeControl (by decide) 64 () _

end CartaZarr
