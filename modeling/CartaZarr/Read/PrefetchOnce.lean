import CartaZarr.Read.SamplePieces

/-!
# A prefetch reads every chunk once

A prefetch of a source whose reads succeed reads exactly one element of every chunk its request
touches, of the pixels and, when the mask applies, of the flag in its own layout, and returns how
many chunks these are (`prefetchChunks_reads`). One whose reads may fail stops at the first that
does, with its error (`prefetchChunks_stops`).
-/

namespace CartaZarr

open Word

/-- The image indices of a selection, in the order of its destination. -/
def PixelSelection.indices (d : ImageDescriptor) (s : PixelSelection) : List (List ℕ) :=
  (List.range s.elements).map fun k => d.logicalIndex (s.storedIndex k)

theorem PixelSelection.Selects.indices_eq {d : ImageDescriptor} {r : ReadRequest}
    {s : PixelSelection}
    (h : s.Selects d r .logical) (hd : d.StoredInOrder) : s.indices d = r.indices := by
  rw [PixelSelection.indices, ReadRequest.indices, h.elements_eq]
  exact List.map_congr_left fun k _ => h.logicalIndex_logical hd k

/-! ## A source whose reads succeed -/

section Succeeds

variable {ω α : Type}

/-- The reads of a source succeed, and the control lets them go on. -/
structure Succeeds (source : PixelSource ω α) (control : ReadControl ω) : Prop where
  pixels : ∀ s w, (source.pixelFault s w).1 = none
  flags : ∀ s w, (source.maskFault s w).1 = none
  control : ∀ node w, (checkReadControl control node w).1 = .ok ()

/-- What a prefetch has read: the elements of the pixels and of the flag, in turn, through buffers
of `pixelMost` and `flagMost` elements. -/
structure HasRead (d : ImageDescriptor) (pixelMost flagMost : ℕ) (pixels flags : List (List ℕ))
    (st : ReadState ω α) : Prop where
  pixels_eq : st.pixelReads.flatMap (PixelSelection.indices d) = pixels
  flags_eq : st.maskReads.flatMap (PixelSelection.indices d) = flags
  pixels_le : ∀ s ∈ st.pixelReads, s.elements ≤ pixelMost
  flags_le : ∀ s ∈ st.maskReads, s.elements ≤ flagMost
  flags_pos : ∀ s ∈ st.maskReads, 0 < s.elements

/-- The computation returns, and has read more pixels, through the buffer. -/
abbrev ReadsPixels (d : ImageDescriptor) (pixelMost flagMost : ℕ)
    (indices : List (List ℕ)) {β : Type}
    (x : Reading ω α β) : Prop :=
  ∀ pixels flags, Attempt.Ensures
    (fun st => HasRead d pixelMost flagMost pixels flags st ∧ st.destination.length = pixelMost) x
    (fun _ st => HasRead d pixelMost flagMost (pixels ++ indices) flags st ∧
      st.destination.length = pixelMost) (fun _ _ => False)

/-- The computation returns, and has read more flags. -/
abbrev ReadsFlags (d : ImageDescriptor) (pixelMost flagMost : ℕ)
    (indices : List (List ℕ)) {β : Type}
    (x : Reading ω α β) : Prop :=
  ∀ pixels flags, Attempt.Ensures (HasRead d pixelMost flagMost pixels flags) x
    (fun _ => HasRead d pixelMost flagMost pixels (flags ++ indices)) (fun _ _ => False)

variable {source : PixelSource ω α} {control : ReadControl ω}
  {d : ImageDescriptor} {r : ReadRequest}
  {pixelMost flagMost : ℕ}

theorem HasRead.pixels_append {pixels flags : List (List ℕ)} {st st' : ReadState ω α}
    {s : PixelSelection}
    (h : HasRead d pixelMost flagMost pixels flags st)
    (hpixels : st'.pixelReads = st.pixelReads ++ [s])
    (hflags : st'.maskReads = st.maskReads) (hle : s.elements ≤ pixelMost) :
    HasRead d pixelMost flagMost (pixels ++ s.indices d) flags st' where
  pixels_eq := by rw [hpixels, List.flatMap_append, h.pixels_eq, List.flatMap_singleton]
  flags_eq := by rw [hflags, h.flags_eq]
  pixels_le t ht := by
    rw [hpixels, List.mem_append, List.mem_singleton] at ht
    rcases ht with ht | rfl
    · exact h.pixels_le t ht
    · exact hle
  flags_le t ht := h.flags_le t (hflags ▸ ht)
  flags_pos t ht := h.flags_pos t (hflags ▸ ht)

theorem HasRead.flags_append {pixels flags : List (List ℕ)} {st st' : ReadState ω α}
    {s : PixelSelection}
    (h : HasRead d pixelMost flagMost pixels flags st) (hpixels : st'.pixelReads = st.pixelReads)
    (hflags : st'.maskReads = st.maskReads ++ [s]) (hpos : 0 < s.elements)
    (hle : s.elements ≤ flagMost) :
    HasRead d pixelMost flagMost pixels (flags ++ s.indices d) st' where
  pixels_eq := by rw [hpixels, h.pixels_eq]
  flags_eq := by rw [hflags, List.flatMap_append, h.flags_eq, List.flatMap_singleton]
  pixels_le t ht := h.pixels_le t (hpixels ▸ ht)
  flags_le t ht := by
    rw [hflags, List.mem_append, List.mem_singleton] at ht
    rcases ht with ht | rfl
    · exact h.flags_le t ht
    · exact hle
  flags_pos t ht := by
    rw [hflags, List.mem_append, List.mem_singleton] at ht
    rcases ht with ht | rfl
    · exact h.flags_pos t ht
    · exact hpos

/-- No flag was read when no element of it was. -/
theorem HasRead.no_flags {pixels : List (List ℕ)} {st : ReadState ω α}
    (h : HasRead d pixelMost flagMost pixels [] st) : st.maskReads = [] := by
  refine List.eq_nil_iff_forall_not_mem.2 fun s hs => ?_
  have hindices := List.flatMap_eq_nil_iff.1 h.flags_eq s hs
  have hpos := h.flags_pos s hs
  rw [PixelSelection.indices, List.map_eq_nil_iff, List.range_eq_nil] at hindices
  omega

theorem askControl_succeeds (hsource : Succeeds source control) (node : String)
    (st : ReadState ω α) :
    ∃ w, askControl control node st = (.ok (), { st with world := w }) := by
  have h := hsource.control node st.world
  unfold askControl
  rcases hcheck : checkReadControl control node st.world with ⟨e | _, w⟩
  · rw [hcheck] at h
    cases h
  · exact ⟨w, rfl⟩

section Pixels

variable [Pixel α] {o : ReadOptions} (hsource : Succeeds source control) (hd : d.StoredInOrder)
include hsource hd

/-- One piece of a read of pixels alone, of a source whose reads succeed. -/
theorem readPiece_reads (hplain : appliesPixelMask o d = false) (elements : ℕ) {piece : Piece}
    (hvalid : piece.request.Valid d)
    (hroom : piece.firstElement + piece.request.elements ≤ pixelMost) :
    ReadsPixels d pixelMost flagMost piece.request.indices
      (readPiece source d o none elements piece) := by
  rintro pixels flags st ⟨hread, hlen⟩
  obtain ⟨s, hs⟩ := buildSelection_of_valid hd hvalid .logical
  have hsel := buildSelection_selects hd hs
  have hrun : readPiece source d o none elements piece st =
      readPixelsAt source d s piece.firstElement st := by
    rw [readPiece, hs, Attempt.ofExcept_ok, pure_bind, pieceMask, hplain]
    simp only [Bool.false_eq_true, if_false, pure_bind, maskAt, hplain]
    rw [Attempt.bind_apply]
    rcases readPixelsAt source d s piece.firstElement st with ⟨_ | _, _⟩ <;> rfl
  rw [hrun]
  have hwithin : piece.firstElement + s.elements ≤ st.destination.length := by
    rw [hsel.elements_eq]
    omega
  rcases readPixelsAt_spec source d s hwithin with
    ⟨e, garbage, after, hfault, -⟩ | ⟨after, hafter, -, hpix, hmask, hl, -⟩
  · have h := hsource.pixels s st.world
    rw [hfault] at h
    cases h
  · rw [hafter]
    refine ⟨?_, hl.trans hlen⟩
    rw [← hsel.indices_eq hd]
    exact hread.pixels_append hpix hmask (by rw [hsel.elements_eq]; omega)

/-- The pieces of a read of pixels alone, one after another, from `m` elements on. -/
theorem readPieces_reads (hplain : appliesPixelMask o d = false) (elements : ℕ) {m : ℕ}
    {pieces : List Piece} (hfill : Fills d r m pieces) (hvalid : ∀ p ∈ pieces, p.request.Valid d)
    (hroom : r.elements ≤ pixelMost) :
    ReadsPixels d pixelMost flagMost ((List.range' m (r.elements - m)).map r.elementIndex)
      (Attempt.forEach (readPiece source d o none elements) pieces) := by
  induction hfill with
  | done =>
    intro pixels flags
    simp only [Nat.sub_self, List.range'_zero, List.map_nil, List.append_nil]
    exact .pure fun _ h => h
  | @refused m p rest _ h =>
    obtain ⟨s, hs⟩ := buildSelection_of_valid hd (hvalid p (by simp)) .logical
    exact absurd hs (h s)
  | @piece m p rest valid first le same next ih =>
    intro pixels flags
    have hrange : (List.range' m (r.elements - m)).map r.elementIndex = p.request.indices ++
        (List.range' (m + p.request.elements) (r.elements - (m + p.request.elements))).map
          r.elementIndex := by
      rw [show r.elements - m = p.request.elements +
        (r.elements - (m + p.request.elements)) by omega,
        ← List.range'_append_1, List.map_append, ReadRequest.indices,
        List.map_congr_left fun k hk => same k (List.mem_range.1 hk),
        List.range'_eq_map_range (s := m), List.map_map]
      simp only [Function.comp_def]
    rw [hrange, ← List.append_assoc]
    exact .bind (readPiece_reads hsource hd hplain elements valid (by omega) pixels flags)
      fun _ => ih (fun q hq => hvalid q (by simp [hq])) _ flags

/-- One piece of a sample of the pixels reads its elements, when it is planned. -/
theorem readPixelPiece_reads {g f : ChunkGeometry} {fuel : ℕ} {p : ReadRequest} (hv : p.Valid d)
    (hplan : ∃ pieces, planPieces fuel d g f p
    { o with applyPixelMask := false } false = some pieces ∧
      ∀ q ∈ pieces, q.request.Valid d) (hroom : p.elements ≤ pixelMost) :
    ReadsPixels d pixelMost flagMost p.indices (readPixelPiece fuel source d g f o control p) := by
  rintro pixels flags st ⟨hread, hst⟩
  obtain ⟨s, hs⟩ := buildSelection_of_valid hd hv .logical
  have hsel := buildSelection_selects hd hs
  obtain ⟨pieces, hpieces, hvalid⟩ := hplan
  obtain ⟨w, hw⟩ := askControl_succeeds hsource d.id st
  have hfit : ¬ st.destination.length < s.elements := by rw [hsel.elements_eq]; omega
  have hcheck : checkRead d p control st = (.ok s, { st with world := w }) := by
    rw [checkRead, hs, Attempt.ofExcept_ok, pure_bind, Attempt.bind_apply]
    simp only [Attempt.get, hfit, if_false]
    rw [Attempt.bind_apply, hw]
    rfl
  have hpieces' : planPieces fuel d g f p { o with applyPixelMask := false }
      (none : ProgressCallback ω α).isSome = some pieces := hpieces
  have hrun : readPixelPiece fuel source d g f o control p st =
      Attempt.forEach (readPiece source d { o with applyPixelMask := false } none s.elements) pieces
        { st with world := w } := by
    rw [readPixelPiece, readInPieces, bind_assoc, Attempt.bind_of_ok hcheck, hpieces',
      Attempt.ofFuel_some, pure_bind, bind_assoc]
    exact congrFun bind_pure_unit _
  rw [hrun]
  have hplain : appliesPixelMask { o with applyPixelMask := false } d = false := by
    simp [appliesPixelMask]
  have hreads : ReadsPixels d pixelMost flagMost _ _ :=
    readPieces_reads hsource hd hplain s.elements (planPieces_fills hv hpieces) hvalid hroom
  have hall := hreads pixels flags { st with world := w }
    ⟨⟨hread.pixels_eq, hread.flags_eq, hread.pixels_le, hread.flags_le, hread.flags_pos⟩, hst⟩
  rwa [Nat.sub_zero, ← List.range_eq_range'] at hall

end Pixels

/-- One piece of a sample of the flag reads its elements. -/
theorem readFlagPiece_reads (hsource : Succeeds source control)
    (hd : d.StoredInOrder) {p : ReadRequest}
    (hv : p.Valid d) (hroom : p.elements ≤ flagMost) :
    ReadsFlags d pixelMost flagMost p.indices (readFlagPiece source d flagMost p) := by
  intro pixels flags st hread
  obtain ⟨s, hs⟩ := buildSelection_of_valid hd hv .logical
  have hsel := buildSelection_selects hd hs
  have hfit : ¬ flagMost < s.elements := by rw [hsel.elements_eq]; omega
  have hok := hsource.flags s st.world
  have hpos : 0 < p.elements := List.prod_pos (prod_counts_pos hv.count_pos hv.rank_eq)
  rw [readFlagPiece, hs, Attempt.ofExcept_ok, pure_bind, Attempt.bind_apply]
  unfold readFlags
  simp only [PixelSource.readMask, hfit, if_false]
  rcases hfault : source.maskFault s st.world with ⟨_ | e, w⟩
  · rw [← hsel.indices_eq hd]
    exact hread.flags_append rfl rfl (hsel.elements_eq ▸ hpos) (by rw [hsel.elements_eq]; omega)
  · rw [hfault] at hok
    cases hok

end Succeeds

/-! ## What a prefetch reads -/

section Samples

variable {ω α : Type} {d : ImageDescriptor} {r : ReadRequest}
  {g f : ChunkGeometry} {o : ReadOptions}
  {pixelMost flagMost : ℕ}

/-- Of every chunk that a request touches, one element. -/
structure OnePerChunk (r : ReadRequest) (g : ChunkGeometry) (indices : List (List ℕ)) : Prop where
  nodup : (indices.map g.chunkIndex).Nodup
  chunks : (indices.map g.chunkIndex).toFinset = r.touched g

theorem onePerChunk_of_perm (hin : r.Inside d) (hpos : ∀ i < d.rank, 0 < g.chunk i)
    {indices : List (List ℕ)} (h : indices.Perm (oneElementPerChunk g r).indices) :
    OnePerChunk r g indices where
  nodup := (h.map g.chunkIndex).nodup_iff.2 (sample_chunks_nodup hin hpos)
  chunks := by
    rw [List.toFinset_eq_of_perm _ _ (h.map g.chunkIndex)]
    exact touched_sample hin hpos

theorem ReadsPixels.forEach {body : ReadRequest → Reading ω α Unit} {pieces : List ReadRequest}
    (h : ∀ p ∈ pieces, ReadsPixels d pixelMost flagMost p.indices (body p)) :
    ReadsPixels d pixelMost flagMost (pieces.flatMap ReadRequest.indices)
      (Attempt.forEach body pieces) := by
  induction pieces with
  | nil =>
    intro pixels flags
    simp only [List.flatMap_nil, List.append_nil]
    exact .pure fun _ h => h
  | cons p pieces ih =>
    intro pixels flags
    rw [List.flatMap_cons, ← List.append_assoc]
    exact .bind (h p (by simp) pixels flags) fun _ => ih (fun q hq => h q (by simp [hq])) _ flags

theorem ReadsFlags.forEach {body : ReadRequest → Reading ω α Unit} {pieces : List ReadRequest}
    (h : ∀ p ∈ pieces, ReadsFlags d pixelMost flagMost p.indices (body p)) :
    ReadsFlags d pixelMost flagMost (pieces.flatMap ReadRequest.indices)
      (Attempt.forEach body pieces) := by
  induction pieces with
  | nil =>
    intro pixels flags
    simp only [List.flatMap_nil, List.append_nil]
    exact .pure fun _ h => h
  | cons p pieces ih =>
    intro pixels flags
    rw [List.flatMap_cons, ← List.append_assoc]
    exact .bind (h p (by simp) pixels flags) fun _ => ih (fun q hq => h q (by simp [hq])) pixels _

theorem sampleElements_pos (o : ReadOptions) (bytes : ℕ) : 0 < sampleElements o bytes := by
  unfold sampleElements kSampleElements
  split_ifs
  · decide
  · exact lt_of_lt_of_le Nat.one_pos (le_max_left _ _)

theorem card_touched_pos (hv : r.Valid d) (hpos : ∀ i < d.rank, 0 < g.chunk i) :
    0 < (r.touched g).card := by
  rw [← elements_sample hv.toInside hpos]
  have hsv := oneElementPerChunk_valid hv hpos
  exact List.prod_pos (prod_counts_pos hsv.count_pos hsv.rank_eq)

variable {source : PixelSource ω α} {control : ReadControl ω} (hsource : Succeeds source control)
  (hd : d.StoredInOrder) (hv : r.Valid d) (hbudget : o.readBudgetBytes < 2 ^ 64) {fuel : ℕ}
  (hfuel : r.elements ≤ fuel)
include hsource hd hv hbudget hfuel

/-- **The pixels of a prefetch**, when its pieces are planned. -/
theorem prefetchPixels_reads [Pixel α] (hpos : ∀ i < d.rank, 0 < g.chunk i) {f : ChunkGeometry}
    (hcount : ∀ i < d.rank, ((oneElementPerChunk g r).axis i).count ≤ 2 ^ 63)
    (hplan : ∀ p : ReadRequest, p.Valid d → p.elements ≤ (r.touched g).card → ∃ pieces,
      planPieces fuel d g f p { o with applyPixelMask := false } false = some pieces ∧
        ∀ q ∈ pieces, q.request.Valid d) :
    Attempt.Ensures (HasRead d (min (r.touched g).card (sampleElements o 4)) flagMost [] [])
      (prefetchPixels fuel source d g f r o control)
      (fun n st => n = (r.touched g).card ∧ ∃ indices, OnePerChunk r g indices ∧
        HasRead d (min (r.touched g).card (sampleElements o 4)) flagMost indices [] st)
      (fun _ _ => False) := by
  have hsv := oneElementPerChunk_valid hv hpos
  have hcard := elements_sample hv.toInside hpos
  have hcard0 := card_touched_pos hv hpos
  have hcardFuel := (card_touched_le r g).trans hfuel
  have hbuffer : 0 < min (r.touched g).card (sampleElements o 4) :=
    lt_min hcard0 (sampleElements_pos o 4)
  obtain ⟨pieces, hloop, hperm, hpieces⟩ := forEachPiece_eq hsv hcount hbuffer
    ((min_le_right _ _).trans_lt (sampleElements_lt hbudget 4)) (hcard.trans_le hcardFuel)
    (readPixelPiece fuel source d g f o control)
  unfold prefetchPixels
  simp only [countedElements_eq hsv, hcard, hloop]
  refine .bind (Q := fun _ st =>
    HasRead d (min (r.touched g).card (sampleElements o 4)) flagMost [] [] st ∧
      st.destination.length = min (r.touched g).card (sampleElements o 4))
    (.modify fun st h => ⟨⟨h.pixels_eq, h.flags_eq, h.pixels_le, h.flags_le, h.flags_pos⟩, by simp⟩)
      fun _ => ?_
  refine .bind (ReadsPixels.forEach (fun p hp => ?_) [] []) fun _ => .pure fun st hst =>
    ⟨rfl, _, onePerChunk_of_perm hv.toInside hpos hperm, hst.1⟩
  have hle := (hpieces p hp).2
  exact readPixelPiece_reads hsource hd (hpieces p hp).1
    (hplan p (hpieces p hp).1 (hle.trans (min_le_left _ _))) hle

/-- **The flags of a prefetch.** -/
theorem prefetchFlags_reads (hlen : ∀ i < d.rank, d.length i < 2 ^ 63)
    (hpos : ∀ i < d.rank, 0 < f.chunk i) {g : ChunkGeometry} (hbytes : flagChunkBytes g f ≠ 0)
    (pixels : List (List ℕ)) :
    Attempt.Ensures (HasRead d pixelMost (min (r.touched f).card (sampleElements o 1)) pixels [])
      (prefetchFlags fuel source d g f r o)
      (fun n st => n = (r.touched f).card ∧ ∃ indices, OnePerChunk r f indices ∧
        HasRead d pixelMost (min (r.touched f).card (sampleElements o 1)) pixels indices st)
      (fun _ _ => False) := by
  have hsv := oneElementPerChunk_valid hv hpos
  have hcard := elements_sample hv.toInside hpos
  have hcard0 := card_touched_pos hv hpos
  have hbuffer : 0 < min (r.touched f).card (sampleElements o 1) :=
    lt_min hcard0 (sampleElements_pos o 1)
  obtain ⟨most, hsome, hmost0⟩ := exists_flagPieceElements o hbytes hbuffer
  have hmost := flagPieceElements_le hsome
  obtain ⟨pieces, hloop, hperm, hpieces⟩ := forEachPiece_eq hsv
    (fun i hi => (hsv.count_le hi).trans (hlen i hi).le) hmost0
    (hmost.trans_lt ((min_le_right _ _).trans_lt (sampleElements_lt hbudget 1)))
    (hcard.trans_le ((card_touched_le r f).trans hfuel))
    (readFlagPiece source d (min (r.touched f).card (sampleElements o 1)))
  unfold prefetchFlags
  simp only [countedElements_eq hsv, hcard, hsome, Attempt.ofQuotient_some, pure_bind, hloop]
  exact .bind (ReadsFlags.forEach (fun p hp => readFlagPiece_reads hsource hd (hpieces p hp).1
      ((hpieces p hp).2.trans hmost)) pixels []) fun _ => .pure fun st hst =>
    ⟨rfl, _, onePerChunk_of_perm hv.toInside hpos hperm, hst⟩

end Samples

/-! ## The first read that fails -/

section Faults

variable {ω α β : Type}

/-- A source that notes down how each of its reads went. -/
def PixelSource.logged (source : PixelSource ω α) : PixelSource (ω × List (Option Error)) α where
  pixelAt := source.pixelAt
  flagAt := source.flagAt
  pixelFault s := fun (w, log) =>
    let (fault, w) := source.pixelFault s w
    (fault, w, log ++ [fault.map Prod.fst])
  maskFault s := fun (w, log) =>
    let (fault, w) := source.maskFault s w
    (fault, w, log ++ [fault])

theorem PixelSource.pixelFault_logged (source : PixelSource ω α) (s : PixelSelection)
    (w : ω × List (Option Error)) : source.logged.pixelFault s w =
      ((source.pixelFault s w.1).1, (source.pixelFault s w.1).2,
        w.2 ++ [(source.pixelFault s w.1).1.map Prod.fst]) := rfl

theorem PixelSource.maskFault_logged (source : PixelSource ω α) (s : PixelSelection)
    (w : ω × List (Option Error)) : source.logged.maskFault s w =
      ((source.maskFault s w.1).1, (source.maskFault s w.1).2,
        w.2 ++ [(source.maskFault s w.1).1]) := rfl

/-- A control beside such a source. -/
def ReadControl.logged (control : ReadControl ω) : ReadControl (ω × List (Option Error)) where
  cancellationRequested := control.cancellationRequested.map fun requested => fun (w, log) =>
    let (cancelled, w) := requested w
    (cancelled, w, log)
  deadlinePassed := fun (w, log) =>
    let (passed, w) := control.deadlinePassed w
    (passed, w, log)

/-- No read has failed. -/
def AllWell (st : ReadState (ω × List (Option Error)) α) : Prop :=
  ∀ fault ∈ st.world.2, fault = none

/-- At most the last read has failed, and then it is what the computation halted with. -/
def StoppedAtFault (e : Halt Error) (st : ReadState (ω × List (Option Error)) α) : Prop :=
  AllWell st ∨ ∃ well err, (∀ fault ∈ well, fault = none) ∧ st.world.2 = well ++ [some err] ∧
    e = .error err

/-- The computation goes on past no failing read. -/
abbrev StopsAtFault (x : Reading (ω × List (Option Error)) α β) : Prop :=
  Attempt.Ensures AllWell x (fun _ => AllWell) StoppedAtFault

theorem ofExcept_stops (r : Except Error β) :
    StopsAtFault (Attempt.ofExcept r : Reading (ω × List (Option Error)) α β) :=
  Attempt.Ensures.ofExcept (fun _ _ _ h => h) fun _ _ _ h => .inl h

theorem ofFuel_stops (r : Option β) :
    StopsAtFault (Attempt.ofFuel r : Reading (ω × List (Option Error)) α β) :=
  Attempt.Ensures.ofFuel (fun _ _ _ h => h) fun _ _ h => .inl h

theorem ofQuotient_stops (r : Option β) :
    StopsAtFault (Attempt.ofQuotient r : Reading (ω × List (Option Error)) α β) :=
  Attempt.Ensures.ofQuotient (fun _ _ _ h => h) fun _ _ h => .inl h

theorem get_stops : StopsAtFault
    (Attempt.get : Reading (ω × List (Option Error)) α (ReadState (ω × List (Option Error)) α)) :=
  fun _ h => h

theorem checkReadControl_logged (control : ReadControl ω) (node : String) (w : ω)
    (log : List (Option Error)) :
    (checkReadControl control.logged node (w, log)).2.2 = log := by
  unfold checkReadControl ReadControl.logged
  cases control.cancellationRequested with
  | none =>
    simp only [Option.map_none, Bool.false_eq_true, if_false]
    split <;> rfl
  | some requested =>
    simp only [Option.map_some]
    split
    · rfl
    · split <;> rfl

theorem askControl_stops (control : ReadControl ω) (node : String) :
    StopsAtFault (askControl control.logged node : Reading (ω × List (Option Error)) α Unit) := by
  intro st hst
  have hlog := checkReadControl_logged control node st.world.1 st.world.2
  unfold askControl
  rcases hcheck : checkReadControl control.logged node st.world with ⟨e | _, w⟩
  · have hw : w.2 = st.world.2 := by rw [← hlog, hcheck]
    exact .inl fun fault hfault => hst fault (hw ▸ hfault)
  · have hw : w.2 = st.world.2 := by rw [← hlog, hcheck]
    exact fun fault hfault => hst fault (hw ▸ hfault)

theorem allWell_append {log : List (Option Error)} (h : ∀ fault ∈ log, fault = none) :
    ∀ fault ∈ log ++ [none], fault = none := by
  simpa [or_imp, forall_and] using h

variable (source : PixelSource ω α) (control : ReadControl ω) (d : ImageDescriptor)

theorem readFlags_stops (s : PixelSelection) (size : ℕ) :
    StopsAtFault (readFlags source.logged d s size) := by
  intro st hst
  unfold readFlags PixelSource.readMask
  by_cases hfit : size < s.elements
  · simp only [hfit, if_true]
    exact .inl hst
  · simp only [hfit, if_false, source.maskFault_logged]
    rcases (source.maskFault s st.world.1).1 with _ | e
    · exact allWell_append hst
    · exact .inr ⟨st.world.2, e, hst, rfl, rfl⟩

theorem readPixelsAt_stops (s : PixelSelection) (first : ℕ) :
    StopsAtFault (readPixelsAt source.logged d s first) := by
  intro st hst
  unfold readPixelsAt PixelSource.readPixels
  by_cases hfit : (st.destination.drop first).length < s.elements
  · simp only [hfit, if_true]
    exact .inl hst
  · simp only [hfit, if_false, source.pixelFault_logged]
    rcases (source.pixelFault s st.world.1).1 with _ | ⟨e, garbage⟩
    · exact allWell_append hst
    · exact .inr ⟨st.world.2, e, hst, rfl, rfl⟩

variable [Pixel α] (o : ReadOptions)

theorem readPiece_stops (elements : ℕ) (piece : Piece) :
    StopsAtFault (readPiece source.logged d o none elements piece) := by
  refine .bind (ofExcept_stops _) fun s => .bind ?_ fun mask =>
    .bind (readPixelsAt_stops source d s _)
    fun _ => .bind ?_ fun _ => fun _ h => h
  · exact .ite (fun _ => .ite (fun _ => .fail fun _ h => .inl h) fun _ =>
      readFlags_stops source d s _)
      fun _ => .pure fun _ h => h
  · exact .ite (fun _ => .modify fun _ h => h) fun _ => .pure fun _ h => h

theorem readInPieces_stops (fuel : ℕ) (g f : ChunkGeometry) (r : ReadRequest) :
    StopsAtFault (readInPieces fuel source.logged d g f r o control.logged none) := by
  have hcheck : StopsAtFault (checkRead d r control.logged :
      Reading (ω × List (Option Error)) α PixelSelection) :=
    .bind (ofExcept_stops _) fun _ => .bind get_stops fun _ =>
      .ite (fun _ => .fail fun _ h => .inl h)
      fun _ => .bind (askControl_stops control d.id) fun _ => .pure fun _ h => h
  exact .bind hcheck fun _ => .bind (ofFuel_stops _) fun pieces =>
    .bind (.forEach_keep fun piece _ => readPiece_stops source d o _ piece) fun _ =>
      .pure fun _ h => h

/-- **A prefetch stops at the first read that fails**, with its error. -/
theorem prefetchChunks_stops (fuel : ℕ) (g f : ChunkGeometry) (r : ReadRequest) :
    StopsAtFault (prefetchChunks fuel source.logged d g f r o control.logged) := by
  have hpixel : ∀ p, StopsAtFault (readPixelPiece fuel source.logged d g f o control.logged p) :=
    fun p => .bind (readInPieces_stops source control d _ fuel g f p) fun _ => .pure fun _ h => h
  have hflag : ∀ size p, StopsAtFault (readFlagPiece source.logged d size p) := fun size p =>
    .bind (ofExcept_stops _) fun s =>
      .bind (readFlags_stops source d s size) fun _ => .pure fun _ h => h
  have hpixels : StopsAtFault (prefetchPixels fuel source.logged d g f r o control.logged) :=
    .bind (.modify fun _ h => h) fun _ =>
      .bind (forEachPiece_keep (fun _ h => .inl h) hpixel fuel _ _) fun _ => .pure fun _ h => h
  have hflags : StopsAtFault (prefetchFlags fuel source.logged d g f r o) :=
    .bind (ofQuotient_stops _) fun _ =>
      .bind (forEachPiece_keep (fun _ h => .inl h) (hflag _) fuel _ _) fun _ => .pure fun _ h => h
  exact .bind (ofExcept_stops _) fun _ => .bind (askControl_stops control d.id) fun _ =>
    .bind hpixels fun _ => .ite (fun _ => .bind hflags fun _ => .pure fun _ h => h)
      fun _ => .pure fun _ h => h

end Faults

/-! ## A prefetch -/

section Prefetch

variable {ω α : Type} [Pixel α] {d : ImageDescriptor} {r : ReadRequest} {g f : ChunkGeometry}
  {o : ReadOptions}

/-- What a prefetch that returned `n` has read: one element of every chunk its request touches, of
the pixels and, when the mask applies, of the flag, through buffers that hold what the budget
allows. -/
structure Prefetched (d : ImageDescriptor) (g f : ChunkGeometry) (r : ReadRequest) (o : ReadOptions)
    (n : ℕ) (after : ReadState ω α) : Prop where
  pixels : OnePerChunk r g (after.pixelReads.flatMap (PixelSelection.indices d))
  pixels_le : ∀ s ∈ after.pixelReads, s.elements ≤ min (r.touched g).card (sampleElements o 4)
  flags : if appliesPixelMask o d then
    OnePerChunk r f (after.maskReads.flatMap (PixelSelection.indices d)) else after.maskReads = []
  flags_le : ∀ s ∈ after.maskReads, s.elements ≤ min (r.touched f).card (sampleElements o 1)
  count : n = ((r.touched g).card + if appliesPixelMask o d then (r.touched f).card else 0) % 2 ^ 64

section Reads

variable {source : PixelSource ω α} {control : ReadControl ω} {s : PixelSelection}
  (hr : buildSelection d r .logical = .ok s) (hlen : ∀ i < d.rank, d.length i < 2 ^ 63)
  (hpos : ∀ i < d.rank, 0 < g.chunk i) (hpos' : ∀ i < d.rank, 0 < f.chunk i)
  (hbytes : appliesPixelMask o d = true → flagChunkBytes g f ≠ 0)
  (hbudget : o.readBudgetBytes < 2 ^ 64) {fuel : ℕ} (hfuel : r.elements ≤ fuel)
include hr hlen hpos hpos' hbytes hbudget hfuel

/-- **A prefetch that no read fails** reads one element of every chunk its request touches. -/
theorem prefetchChunks_reads (hsource : Succeeds source control) (w : ω) (destination : List α) :
    ∃ n after, prefetchChunks fuel source d g f r o control
      (.start w destination) = (.ok n, after) ∧
      Prefetched d g f r o n after := by
  have hd := buildSelection_storedInOrder hr
  have hv := (buildSelection_selects hd hr).valid
  have hcard : ∀ h : ChunkGeometry, (r.touched h).card < 2 ^ 64 := fun h =>
    (card_touched_le r h).trans_lt hv.elements_lt
  have hcount : ∀ i < d.rank, ((oneElementPerChunk g r).axis i).count ≤ 2 ^ 63 := fun i hi =>
    ((oneElementPerChunk_inside hv.toInside hpos).count_le hi).trans (hlen i hi).le
  have hplan : ∀ p : ReadRequest, p.Valid d → p.elements ≤ (r.touched g).card → ∃ pieces,
      planPieces fuel d g f p { o with applyPixelMask := false } false = some pieces ∧
        ∀ q ∈ pieces, q.request.Valid d := fun p hp hle =>
    @planPieces_valid d g f p { o with applyPixelMask := false } hp hlen hbudget false fuel
      ((hle.trans (card_touched_le r g)).trans hfuel)
  have hpixels : Attempt.Ensures (HasRead d _ (min (r.touched f).card (sampleElements o 1)) [] [])
      (prefetchPixels fuel source d g f r o control) _ _ :=
    prefetchPixels_reads hsource hd hv hbudget hfuel hpos hcount hplan
  obtain ⟨w', hw⟩ := askControl_succeeds (α := α) hsource d.id (.start w destination)
  have hall : Attempt.Ensures (· = ReadState.start w destination)
      (prefetchChunks fuel source d g f r o control) (Prefetched d g f r o) (fun _ _ => False) := by
    rintro _ rfl
    rw [prefetchChunks, hr, Attempt.ofExcept_ok, pure_bind, Attempt.bind_of_ok hw]
    refine (Attempt.Ensures.bind hpixels fun n => ?_) _
      ⟨rfl, rfl, by simp [ReadState.start], by simp [ReadState.start], by simp [ReadState.start]⟩
    refine .ite (fun happ => ?_) fun happ => .pure ?_
    · rintro st ⟨rfl, indices, hone, hread⟩
      refine (Attempt.Ensures.bind
        (prefetchFlags_reads hsource hd hv hbudget hfuel hlen hpos' (hbytes happ) indices)
        fun n => .pure ?_) st hread
      rintro st ⟨rfl, flags, hone', hread⟩
      refine ⟨by rwa [hread.pixels_eq], hread.pixels_le, ?_, hread.flags_le, ?_⟩
      · rwa [if_pos happ, hread.flags_eq]
      · rw [if_pos happ, add]
    · rintro st ⟨rfl, indices, hone, hread⟩
      refine ⟨by rwa [hread.pixels_eq], hread.pixels_le, ?_, hread.flags_le, ?_⟩
      · rw [if_neg happ]
        exact hread.no_flags
      · rw [if_neg happ, Nat.add_zero, Nat.mod_eq_of_lt (hcard g)]
  rcases hrun : prefetchChunks fuel source d g f r o control
    (.start w destination) with ⟨e | n, after⟩
  · exact (hall.of_error rfl hrun).elim
  · exact ⟨n, after, rfl, hall.of_ok rfl hrun⟩

/-- **A prefetch reads every chunk its request touches once**, and stops at the first read that
fails. -/
theorem prefetchChunks_once (w : ω) (destination : List α) :
    (Succeeds source control → ∃ n after,
      prefetchChunks fuel source d g f r o control (.start w destination) = (.ok n, after) ∧
        Prefetched d g f r o n after) ∧
    Attempt.Ensures (· = ReadState.start (w, []) destination)
      (prefetchChunks fuel source.logged d g f r o control.logged) (fun _ => AllWell)
      StoppedAtFault := by
  refine ⟨fun hsource => prefetchChunks_reads hr hlen hpos hpos' hbytes hbudget hfuel hsource w
    destination,
    (prefetchChunks_stops source control d o fuel g f r).imp ?_ (fun _ _ h => h) fun _ _ h => h⟩
  rintro _ rfl
  simp [AllWell, ReadState.start]

end Reads

/-- Half of the cube's spectrum, with its flags. -/
theorem prefetchChunks_once_midChunkRequest : ∃ n after,
    prefetchChunks 64 steadySource { smallCube with hasPixelMask := true } smallCubeChunks
      smallCubeChunks midChunkRequest ⟨true, 320⟩ freeControl (.start () []) = (.ok n, after) ∧
      Prefetched { smallCube with hasPixelMask := true } smallCubeChunks
        smallCubeChunks midChunkRequest
        ⟨true, 320⟩ n after :=
  (prefetchChunks_once (d := { smallCube with hasPixelMask := true }) rfl (by decide +kernel)
    (by decide +kernel) (by decide +kernel) (by decide +kernel) (by decide)
      (by decide +kernel) () []).1
    ⟨fun _ _ => rfl, fun _ _ => rfl, fun _ _ => rfl⟩

/-! ## Prefetches past a word -/

/-- An axis of which a run of the sample would end at `2 ^ 64`. -/
def endlessLine : ImageDescriptor where
  id := "SKY"
  storedType := .float32
  axes := [⟨"frequency", .spectral, 2 ^ 64 - 1, 0⟩]
  hasPixelMask := false

/-- A plane with as many chunks of a pixel, and as many of a flag, as half the words. -/
def crowdedPlane : ImageDescriptor where
  id := "SKY"
  storedType := .float32
  axes := [⟨"l", .spatialX, 2 ^ 32, 1⟩, ⟨"m", .spatialY, 2 ^ 31, 0⟩]
  hasPixelMask := true

/-- The whole plane. -/
def crowdedRequest : ReadRequest := ⟨[⟨0, 2 ^ 32, 1⟩, ⟨0, 2 ^ 31, 1⟩]⟩

/-- The runs of the line never get to its end: the one that should wraps to its beginning. -/
theorem walk_endlessLine (fuel : ℕ) :
    walk (fun first => add first kSampleElements) (2 ^ 64 - 1) fuel 0 = none := by
  refine walk_eq_none (I := fun b => b % 2 ^ 16 = 0 ∧ b < 2 ^ 64) (fun b hb => ?_) fuel (by decide)
  simp only [add, kSampleElements]
  omega

/-- The pixels of the whole line, one of every chunk. -/
def endlessRequest : ReadRequest := ⟨[⟨0, 2 ^ 64 - 1, 1⟩]⟩

theorem readRuns_endlessLine {ω : Type} (fuel : ℕ) (read : ReadRequest → Reading ω (Option ℚ) Unit)
    (position : List ℕ) (st : ReadState ω (Option ℚ)) :
    readRuns fuel endlessRequest 0 kSampleElements read position st = (.error .outOfFuel, st) := by
  rw [readRuns, show (endlessRequest.axis 0).count = 2 ^ 64 - 1 by decide +kernel, walk_endlessLine]
  rfl

theorem forEachPiece_endlessLine {ω : Type} (fuel : ℕ)
    (read : ReadRequest → Reading ω (Option ℚ) Unit)
    (st : ReadState ω (Option ℚ)) :
    forEachPiece fuel endlessRequest kSampleElements read st = (.error .outOfFuel, st) := by
  have hcut : sampleCut kSampleElements endlessRequest.counts (countedElements endlessRequest) =
      (0, 1) := by
    decide +kernel
  rw [forEachPiece, hcut]
  simp only [show ¬ (0 = endlessRequest.axes.length) by decide +kernel, if_false,
    max_self, Nat.div_one,
    show max 1 kSampleElements = kSampleElements by decide]
  cases fuel with
  | zero => rfl
  | succ fuel =>
    rw [forEachPosition]
    exact Attempt.bind_of_error (readRuns_endlessLine (fuel + 1) read _ st)

theorem endlessRequest_valid : endlessRequest.Valid endlessLine where
  rank_eq := rfl
  stride_pos := by decide +kernel
  count_pos := by decide +kernel
  last_lt := by decide +kernel
  elements_lt := by decide +kernel

theorem prefetchChunks_endlessLine (fuel : ℕ) :
    (prefetchChunks fuel steadySource endlessLine ⟨.spatialX, [1]⟩ ⟨.spatialX, [1]⟩ endlessRequest
      ⟨false, 0⟩ freeControl (.start () [])).1 = .error .outOfFuel := by
  have hsample : oneElementPerChunk ⟨.spatialX, [1]⟩ endlessRequest = endlessRequest := by
    decide +kernel
  have hsize : min (countedElements endlessRequest) (sampleElements ⟨false, 0⟩ 4) =
      kSampleElements := by
    decide +kernel
  have hpixels : ∀ st : ReadState Unit (Option ℚ), (prefetchPixels fuel steadySource endlessLine
      ⟨.spatialX, [1]⟩ ⟨.spatialX, [1]⟩ endlessRequest ⟨false, 0⟩ freeControl st).1 =
        .error .outOfFuel := by
    intro st
    rw [prefetchPixels, hsample, hsize]
    rw [Attempt.bind_of_ok (x := Attempt.modify _) rfl,
      Attempt.bind_of_error (forEachPiece_endlessLine fuel _ _)]
  obtain ⟨s, hs⟩ := buildSelection_of_valid (by decide +kernel) endlessRequest_valid .logical
  rw [prefetchChunks, hs, Attempt.ofExcept_ok, pure_bind,
    Attempt.bind_of_ok (x := askControl _ _) rfl]
  rcases hrun : prefetchPixels fuel steadySource endlessLine ⟨.spatialX, [1]⟩ ⟨.spatialX, [1]⟩
    endlessRequest ⟨false, 0⟩ freeControl (.start () []) with ⟨r, after⟩
  obtain rfl : r = .error .outOfFuel := by rw [← hpixels (.start () []), hrun]
  rw [Attempt.bind_of_error hrun]

theorem crowdedRequest_valid : crowdedRequest.Valid crowdedPlane where
  rank_eq := rfl
  stride_pos := by decide +kernel
  count_pos := by decide +kernel
  last_lt := by decide +kernel
  elements_lt := by decide +kernel

theorem card_touched_crowdedPlane : (crowdedRequest.touched ⟨.spatialX, [1, 1]⟩).card = 2 ^ 63 := by
  have hone : ∀ i < 2, ((crowdedRequest.axis i).chunks
    (ChunkGeometry.chunk ⟨.spatialX, [1, 1]⟩ i)).card =
      (crowdedRequest.axis i).count := by
    intro i hi
    have hchunk : ∀ i < 2, ChunkGeometry.chunk ⟨.spatialX, [1, 1]⟩ i = 1 := by decide
    have hstride : 1 ≤ (crowdedRequest.axis i).stride := crowdedRequest_valid.stride_pos i hi
    have hcount : 0 < (crowdedRequest.axis i).count := crowdedRequest_valid.count_pos i hi
    rw [hchunk i hi, Range.chunks, Strided.card_chunksOf Nat.one_pos,
      if_neg (by omega), if_pos hstride,
      Nat.sub_zero]
  rw [ReadRequest.card_touched crowdedRequest_valid.toInside, show crowdedPlane.rank = 2 from rfl,
    Finset.prod_congr rfl fun i hi => hone i (Finset.mem_range.1 hi)]
  decide +kernel

/-- **A prefetch past a word**: that of the line never returns, and that of the plane returns that
it has asked for no chunk. -/
theorem prefetchChunks_wraps :
    ((∃ s, buildSelection endlessLine endlessRequest .logical = .ok s) ∧
      ∀ fuel, (prefetchChunks fuel steadySource endlessLine ⟨.spatialX, [1]⟩ ⟨.spatialX, [1]⟩
        endlessRequest ⟨false, 0⟩ freeControl (.start () [])).1 = .error .outOfFuel) ∧
    (∃ s, buildSelection crowdedPlane crowdedRequest .logical = .ok s) ∧
      ∃ after, prefetchChunks (2 ^ 63) steadySource crowdedPlane ⟨.spatialX, [1, 1]⟩
        ⟨.spatialX, [1, 1]⟩ crowdedRequest ⟨true, 0⟩ freeControl (.start () []) =
          (.ok 0, after) := by
  obtain ⟨s, hs⟩ := buildSelection_of_valid (by decide +kernel) crowdedRequest_valid .logical
  refine ⟨⟨buildSelection_of_valid (by decide +kernel) endlessRequest_valid .logical,
    prefetchChunks_endlessLine⟩, ⟨s, hs⟩, ?_⟩
  have hsteady : Succeeds (steadySource : PixelSource Unit (Option ℚ)) freeControl :=
    ⟨fun _ _ => rfl, fun _ _ => rfl, fun _ _ => rfl⟩
  obtain ⟨n, after, hrun, hprefetched⟩ := prefetchChunks_reads (g := ⟨.spatialX, [1, 1]⟩)
    (f := ⟨.spatialX, [1, 1]⟩) (o := ⟨true, 0⟩) hs (by decide +kernel) (by decide +kernel)
    (by decide +kernel) (by decide +kernel) (by decide)
      (show _ ≤ 2 ^ 63 by decide +kernel) hsteady () []
  have hcount := hprefetched.count
  rw [card_touched_crowdedPlane, if_pos (by decide)] at hcount
  obtain rfl : n = 0 := hcount
  exact ⟨after, hrun⟩

end Prefetch

end CartaZarr
