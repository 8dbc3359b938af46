import Mathlib.Algebra.Order.BigOperators.Group.List
import CartaZarr.Reduce.PassCover

/-!
# What a pass says, and when it stops

Before every read but the first of a walk, the caller is told what part of the walk's chunks is
read; a block that is finished is handed over once, complete. `walkSteps_eq` lists the steps of a
walk so, with the chunks counted exactly: the counters of the walk do not wrap, for they count no
more chunks than its total (`sum_amount`). Whatever refuses is the last thing a pass does
(`forEach_outcome`), and a pass over the plane that nothing refuses ends (`Willing.planeBlocks`).
-/

namespace CartaZarr

open Word

/-- The chunks of a read, as its footprint counts them. -/
def SlabRead.amount {φ : Type} (plan : PassPlan) (read : SlabRead φ) : ℕ :=
  read.slab.chunks * (plan.spectralChunks read.slabBegin read.slabEnd).card

/-- Reads, each after asking the control, and before every one but the first a word of what was
read. -/
def pacedReads {φ : Type} (tell : ℕ → PassStep φ) (amount : SlabRead φ → ℕ)
    (reads : List (SlabRead φ)) : List (PassStep φ) :=
  reads.zipIdx.flatMap fun x =>
    (if x.2 = 0 then [] else [tell ((reads.take x.2).map amount).sum]) ++ [.ask, .read x.1]

/-- The steps of reads whose counters do not wrap. -/
theorem steps_eq_pacedReads {φ : Type} {plan : PassPlan} (tell : ℕ → PassStep φ)
    {reads : List (SlabRead φ)}
    (hcounted : ∀ read ∈ reads, read.counted plan = read.amount plan)
    (hlen : reads.length < 2 ^ 64) (hsum : (reads.map (SlabRead.amount plan)).sum < 2 ^ 64) :
    Attempt.steps (Counters.stepsOf tell) (Counters.after plan) ⟨0, 0⟩ reads =
      pacedReads tell (SlabRead.amount plan) reads := by
  -- the reads done so far are `before`, and the counters count them
  have hrest : ∀ rest before : List (SlabRead φ), reads = before ++ rest →
      Attempt.steps (Counters.stepsOf tell) (Counters.after plan)
        ⟨before.length, (before.map (SlabRead.amount plan)).sum⟩ rest =
      (rest.zipIdx before.length).flatMap fun x =>
        (if x.2 = 0 then [] else [tell ((reads.take x.2).map (SlabRead.amount plan)).sum]) ++
          [.ask, .read x.1] := by
    intro rest
    induction rest with
    | nil => exact fun _ _ => rfl
    | cons read rest ih =>
      intro before hreads
      have hlen' : before.length + 1 < 2 ^ 64 := by
        rw [hreads, List.length_append, List.length_cons] at hlen
        omega
      have hsum' : (before.map (SlabRead.amount plan)).sum + read.amount plan < 2 ^ 64 := by
        rw [hreads, List.map_append, List.sum_append, List.map_cons, List.sum_cons] at hsum
        omega
      have hafter : Counters.after plan ⟨before.length,
        (before.map (SlabRead.amount plan)).sum⟩ read =
          ⟨(before ++ [read]).length, ((before ++ [read]).map (SlabRead.amount plan)).sum⟩ := by
        have hc : mul read.slab.chunks (plan.chunksTouched read.slabBegin read.slabEnd) =
            read.amount plan := hcounted read (by simp [hreads])
        simp only [Counters.after, hc, add_eq hlen', add_eq hsum', List.length_append,
          List.length_singleton, List.map_append, List.sum_append, List.map_singleton,
          List.sum_singleton]
      have htake : reads.take before.length = before := by
        rw [hreads, List.take_left]
      rw [Attempt.steps, hafter, ih (before ++ [read]) (by simp [hreads]), List.zipIdx_cons,
        List.flatMap_cons, htake, Counters.stepsOf, List.length_append, List.length_singleton]
      simp only [Nat.pos_iff_ne_zero, ite_not]
  exact hrest reads [] rfl

/-! ## Counting -/

namespace PassPlan

variable {plan : PassPlan} (h : plan.InRange)
include h

/-- The slabs of a footprint touch, together, the chunks along the spectrum that its channels do. -/
theorem InRange.sum_slabs (chunks : ℕ) {b e : ℕ} (hbe : b ≤ e)
    (he : e ≤ plan.planes.spectral.count) :
    ((plan.slabs chunks b e).map fun x => (plan.spectralChunks x.1 x.2).card).sum =
      (plan.spectralChunks b e).card := by
  obtain ⟨htile, hspec⟩ := h.slabs_spec chunks hbe he
  refine htile.sum_eq (f := fun x y => (plan.spectralChunks x y).card) ?_ fun x hx => ?_
  · simp [spectralChunks, Strided.chunksOf]
  · obtain ⟨-, hlt, hle⟩ := htile.bounds x hx
    -- a slab ends with the channels, or where no chunk is shared
    have hd : 0 < max 1 (min (plan.slabChannels chunks) (sub e x.1)) :=
      lt_of_lt_of_le Nat.one_pos (le_max_left _ _)
    have hend : x.2 = e ∨ plan.Boundary x.2 := by
      rw [(hspec x hx).2]
      exact Strided.blockEnd_boundary h.stride_pos h.depth_pos hd (by omega)
    rcases hend with hend | hend
    · simp [hend, spectralChunks, Strided.chunksOf]
    · exact Strided.card_chunksOf_append hend hlt.le hle

end PassPlan

namespace Pass

variable {φ ω α : Type} [HasSlab φ] {pass : Pass φ ω α}

/-- The layer of a pass is what its footprints occupy, each at least one chunk, and the chunks of
the whole selection are few enough to be counted. -/
structure Counted (pass : Pass φ ω α) : Prop where
  chunks_pos : ∀ f ∈ pass.footprints, 0 < f.2.chunks
  layer_eq : pass.layerChunks = (pass.footprints.map fun f => f.2.chunks).sum
  total_lt : pass.layerChunks *
    (pass.plan.spectralChunks 0 pass.plan.planes.spectral.count).card < 2 ^ 64

section Sum

variable (h : pass.plan.InRange) {b e : ℕ} (hbe : b ≤ e) (he : e ≤ pass.plan.planes.spectral.count)
include h hbe he

/-- **The reads of a walk decode its chunks.** -/
theorem sum_amount :
    ((pass.reads b e).map (SlabRead.amount pass.plan)).sum =
      (pass.footprints.map fun f => f.2.chunks).sum * (pass.plan.spectralChunks b e).card := by
  rw [reads]
  generalize pass.footprints = footprints
  induction footprints with
  | nil => simp
  | cons f footprints ih =>
    have hf : ((pass.readsOver b e f).map (SlabRead.amount pass.plan)).sum =
        f.2.chunks * (pass.plan.spectralChunks b e).card := by
      rw [← h.sum_slabs f.2.chunks hbe he, ← List.sum_map_mul_left, readsOver, List.map_map]
      rfl
    rw [List.flatMap_cons, List.map_append, List.sum_append, ih, hf, List.map_cons, List.sum_cons,
      add_mul]

omit [HasSlab φ] h hbe in
theorem card_spectralChunks_le :
    (pass.plan.spectralChunks b e).card ≤
      (pass.plan.spectralChunks 0 pass.plan.planes.spectral.count).card :=
  Finset.card_le_card (Finset.image_subset_image (Finset.Ico_subset_Ico (Nat.zero_le _) he))

theorem amount_pos (hc : pass.Counted) {read : SlabRead φ} (hr : read ∈ pass.reads b e) :
    0 < read.amount pass.plan := by
  obtain ⟨hf, -, -, -, hlt, -, -⟩ := mem_reads h hbe he hr
  exact Nat.mul_pos (hc.chunks_pos _ hf) (PassPlan.spectralChunks_pos hlt)

variable (hc : pass.Counted)
include hc

/-- Some of the reads of a walk have no more chunks than all of them. -/
theorem sum_amount_lt : ((pass.reads b e).map (SlabRead.amount pass.plan)).sum < 2 ^ 64 := by
  rw [sum_amount h hbe he, ← hc.layer_eq]
  exact lt_of_le_of_lt (Nat.mul_le_mul_left _ (card_spectralChunks_le he)) hc.total_lt

/-- The chunks of a read are counted exactly. -/
theorem counted_eq_amount {read : SlabRead φ} (hr : read ∈ pass.reads b e) :
    read.counted pass.plan = read.amount pass.plan := by
  obtain ⟨-, -, -, -, hlt, hle', -⟩ := mem_reads h hbe he hr
  have hamount : read.amount pass.plan ≤ ((pass.reads b e).map (SlabRead.amount pass.plan)).sum :=
    List.le_sum_of_mem (List.mem_map_of_mem hr)
  rw [SlabRead.counted, h.chunksTouched_eq hlt.le (by omega)]
  exact mul_eq (lt_of_le_of_lt hamount (sum_amount_lt h hbe he hc))

/-- **The steps of a walk, with the chunks counted exactly.** -/
theorem walkSteps_eq (tell : ℕ → PassStep φ) :
    pass.walkSteps tell b e =
      .ask :: pacedReads tell (SlabRead.amount pass.plan) (pass.reads b e) := by
  have hsum := sum_amount_lt h hbe he hc
  have hle : (pass.reads b e).length ≤ ((pass.reads b e).map (SlabRead.amount pass.plan)).sum := by
    have := List.length_le_sum_of_one_le ((pass.reads b e).map (SlabRead.amount pass.plan))
      fun n hn => by
        obtain ⟨read, hr, rfl⟩ := List.mem_map.1 hn
        exact amount_pos h hbe he hc hr
    simpa using this
  rw [walkSteps, steps_eq_pacedReads tell (fun read hr =>
    counted_eq_amount h hbe he hc hr) (by omega)
    hsum]

end Sum

/-! ## Fractions -/

theorem fraction_pos {a b : ℕ} (ha : 0 < a) (hb : 0 < b) : 0 < fraction a b := by
  have ha' : 0 < Double.ofNat a := Double.nearest_pos (by exact_mod_cast ha)
  have hb' : 0 < Double.ofNat b := Double.nearest_pos (by exact_mod_cast hb)
  exact Double.nearest_pos (div_pos ha' hb')

theorem fraction_mono {a a' b : ℕ} (ha : 0 < a) (haa : a ≤ a') (hb : 0 < b) :
    fraction a b ≤ fraction a' b := by
  have ha' : 0 < Double.ofNat a := Double.nearest_pos (by exact_mod_cast ha)
  have hb' : 0 < Double.ofNat b := Double.nearest_pos (by exact_mod_cast hb)
  have haa' : Double.ofNat a ≤ Double.ofNat a' :=
    Double.nearest_mono (by exact_mod_cast ha) (by exact_mod_cast haa)
  exact Double.nearest_mono (div_pos ha' hb') (div_le_div_of_nonneg_right haa' hb'.le)

theorem fraction_le_one {a b : ℕ} (ha : 0 < a) (hab : a ≤ b) : fraction a b ≤ 1 := by
  have hb' : 0 < Double.ofNat b := Double.nearest_pos (by exact_mod_cast ha.trans_le hab)
  calc fraction a b ≤ fraction b b := fraction_mono ha hab (ha.trans_le hab)
    _ = Double.ofNat 1 := by
      rw [fraction, Double.div, div_self hb'.ne', Double.ofNat, Nat.cast_one]
    _ = 1 := Double.ofNat_eq (by norm_num)

/-- The chunks of the first `k` reads of the channels `[b, e)`. -/
def done (pass : Pass φ ω α) (b e k : ℕ) : ℕ :=
  (((pass.reads b e).take k).map (SlabRead.amount pass.plan)).sum

/-- What is told before read `k` of the channels `[b, e)`. -/
def completeness (pass : Pass φ ω α) (b e k : ℕ) : ℚ :=
  fraction (pass.done b e k) (pass.plan.chunksCovering (max 1 pass.layerChunks) b e)

section Fractions

variable (h : pass.plan.InRange) (hc : pass.Counted) {b e : ℕ} (hbe : b < e)
  (he : e ≤ pass.plan.planes.spectral.count)

theorem done_mono (pass : Pass φ ω α) (b e : ℕ) {k l : ℕ} (hkl : k ≤ l) :
    pass.done b e k ≤ pass.done b e l := by
  have hsub : ((pass.reads b e).take k).Sublist ((pass.reads b e).take l) :=
    (List.take_prefix_take_left hkl).sublist
  exact (hsub.map _).sum_le_sum fun _ _ => Nat.zero_le _

include h hc hbe he

theorem done_pos {k : ℕ} (hk : 0 < k) (hk' : k < (pass.reads b e).length) :
    0 < pass.done b e k := by
  refine lt_of_lt_of_le ?_ (done_mono pass b e hk)
  have hne : 0 < (pass.reads b e).length := by omega
  rw [done, List.take_one, List.head?_eq_getElem?, List.getElem?_eq_getElem hne]
  simpa using amount_pos h hbe.le he hc (List.getElem_mem hne)

theorem done_lt {k : ℕ} (hk : k < (pass.reads b e).length) :
    pass.done b e k < ((pass.reads b e).map (SlabRead.amount pass.plan)).sum := by
  have hsplit : ((pass.reads b e).map (SlabRead.amount pass.plan)).sum = pass.done b e k +
      (((pass.reads b e).drop k).map (SlabRead.amount pass.plan)).sum := by
    rw [done, ← List.sum_append, ← List.map_append, List.take_append_drop]
  have hrest : 0 < (((pass.reads b e).drop k).map (SlabRead.amount pass.plan)).sum := by
    rw [List.drop_eq_getElem_cons hk, List.map_cons, List.sum_cons]
    have := amount_pos h hbe.le he hc (List.getElem_mem hk)
    omega
  omega

/-- The chunks that a walk with a read covers are those of its reads. -/
theorem chunksCovering_eq (hr : 0 < (pass.reads b e).length) :
    pass.plan.chunksCovering (max 1 pass.layerChunks) b e =
      ((pass.reads b e).map (SlabRead.amount pass.plan)).sum := by
  have hsum := sum_amount h hbe.le he
  have hlt := sum_amount_lt h hbe.le he hc
  have hpos : 0 < ((pass.reads b e).map (SlabRead.amount pass.plan)).sum :=
    lt_of_le_of_lt (Nat.zero_le _) (done_lt h hc hbe he hr)
  rw [← hc.layer_eq] at hsum
  have hlayer : 0 < pass.layerChunks := by
    by_contra h0
    rw [show pass.layerChunks = 0 by omega, zero_mul] at hsum
    omega
  rw [PassPlan.chunksCovering, max_eq_right (show 1 ≤ pass.layerChunks from hlayer),
    h.chunksTouched_eq hbe.le he, mul_eq (hsum ▸ hlt), ← hsum, max_eq_right hpos]

/-- **What is told lies between zero and one, and grows**; rounding makes it one only where there
are more chunks than a double counts. -/
theorem completeness_spec :
    (∀ k, 0 < k → k < (pass.reads b e).length →
      0 < pass.completeness b e k ∧ pass.completeness b e k ≤ 1 ∧
      (pass.layerChunks * pass.plan.chunksTouched b e ≤ 2 ^ 53 → pass.completeness b e k < 1)) ∧
    ∀ k l, 0 < k → k ≤ l → l < (pass.reads b e).length →
      pass.completeness b e k ≤ pass.completeness b e l := by
  have htotal : ((pass.reads b e).map (SlabRead.amount pass.plan)).sum =
      pass.layerChunks * pass.plan.chunksTouched b e := by
    rw [sum_amount h hbe.le he, ← hc.layer_eq, h.chunksTouched_eq hbe.le he]
  refine ⟨fun k hk hk' => ?_, fun k l hk hkl hl => ?_⟩
  · have hlt := done_lt h hc hbe he hk'
    have hpos := done_pos h hc hbe he hk hk'
    rw [completeness, chunksCovering_eq h hc hbe he (by omega)]
    refine ⟨fraction_pos hpos (by omega), fraction_le_one hpos hlt.le, fun hsmall => ?_⟩
    exact Double.quotient_lt_one hlt (htotal.trans_le hsmall)
  · have hlt := done_lt h hc hbe he hl
    rw [completeness, completeness, chunksCovering_eq h hc hbe he (by omega)]
    exact fraction_mono (done_pos h hc hbe he hk (by omega)) (done_mono pass b e hkl) (by omega)

end Fractions

/-! ## Stopping -/

section Stop

variable [Pixel α]

/-- A step that refuses, with what: the control's error, the pass's own when a callback said no, or
the error of the read, in which case nothing was visited. -/
def Refuses (pass : Pass φ ω α) (callbacks : Callbacks φ ω α) (step : PassStep φ) (w : ω)
    (e : Halt Error) (w' : ω) : Prop :=
  match step with
  | .reset _ => False
  | .ask => pass.allowed w = (.error e, w')
  | .handOver b n complete q => callbacks.handOver b n complete q w = (false, w') ∧
      e = .error ⟨.cancelled, pass.cancelled, pass.plan.descriptor.id⟩
  | .progress q => callbacks.progress q w = (false, w') ∧
      e = .error ⟨.cancelled, pass.cancelled, pass.plan.descriptor.id⟩
  | .read r =>
    pass.readSlab (r.slab.request r.slabBegin (sub r.slabEnd r.slabBegin)) w = (.error e, w')

/-- The outcome of a pass with these steps: all of them are done, or those before the first that
refuses, and the pass ends there with its error. -/
def Outcome (pass : Pass φ ω α) (callbacks : Callbacks φ ω α) (steps : List (PassStep φ)) (w : ω)
    (outcome : Except (Halt Error) Unit × ω) : Prop :=
  (∃ w', Attempt.forEach (pass.perform callbacks) steps w = (.ok (), w') ∧ outcome = (.ok (), w')) ∨
  ∃ before step after w₁ e w₂, steps = before ++ step :: after ∧
    Attempt.forEach (pass.perform callbacks) before w = (.ok (), w₁) ∧
    pass.Refuses callbacks step w₁ e w₂ ∧ outcome = (.error e, w₂)

omit [HasSlab φ] [Pixel α] in
theorem unlessCancelled_error {say : ω → Bool × ω} {w w' : ω} {e : Halt Error}
    (h : pass.unlessCancelled say w = (.error e, w')) :
    say w = (false, w') ∧ e = .error ⟨.cancelled, pass.cancelled, pass.plan.descriptor.id⟩ := by
  unfold unlessCancelled at h
  rcases hs : say w with ⟨_ | _, w₁⟩
  · rw [hs] at h
    simp only [Prod.mk.injEq, Except.error.injEq] at h
    exact ⟨by rw [h.2], h.1.symm⟩
  · rw [hs] at h
    cases h

omit [HasSlab φ] in
theorem perform_error {callbacks : Callbacks φ ω α} {step : PassStep φ} {w w' : ω} {e : Halt Error}
    (h : pass.perform callbacks step w = (.error e, w')) : pass.Refuses callbacks step w e w' := by
  cases step with
  | reset n => cases h
  | ask => exact h
  | handOver b n complete q => exact unlessCancelled_error h
  | progress q => exact unlessCancelled_error h
  | read r =>
    rcases hs : pass.readSlab (r.slab.request r.slabBegin (sub r.slabEnd r.slabBegin)) w with
      ⟨e' | slab, w₁⟩
    · have h' : pass.perform callbacks (.read r) w = (.error e', w₁) := Attempt.bind_of_error hs
      rw [h'] at h
      simp only [Prod.mk.injEq, Except.error.injEq] at h
      rw [Refuses, hs, h.1, h.2]
    · have h' : pass.perform callbacks (.read r) w = (.ok (), _) := Attempt.bind_of_ok hs
      rw [h'] at h
      cases h

omit [HasSlab φ] in
/-- **Whatever refuses is the last thing a pass does.** -/
theorem forEach_outcome (pass : Pass φ ω α) (callbacks : Callbacks φ ω α)
    (steps : List (PassStep φ))
    (w : ω) :
    pass.Outcome callbacks steps w (Attempt.forEach (pass.perform callbacks) steps w) := by
  rcases Attempt.forEach_cases (pass.perform callbacks) steps w with
    ⟨w', h⟩ | ⟨before, step, after, w₁, e, w₂, hsteps, h₁, h₂, h₃⟩
  · exact Or.inl ⟨w', h, h⟩
  · exact Or.inr ⟨before, step, after, w₁, e, w₂, hsteps, h₁, perform_error h₂, h₃⟩

variable {callbacks : Callbacks φ ω α} (hw : pass.Willing callbacks)
include hw

omit [HasSlab φ] [Pixel α] in
theorem Willing.allowed (w : ω) : (pass.allowed w).1 = .ok () := by
  unfold SlabWalk.allowed Attempt.halting checkReadControl
  cases hc : pass.control.cancellationRequested with
  | none => simp [hw.deadline]
  | some requested => simp [hw.cancellation requested hc, hw.deadline]

omit [HasSlab φ] in
/-- A read that the image accepts returns. -/
theorem Willing.readSlab {request : SlabRequest} {s : PixelSelection}
    (hs : buildSelection pass.plan.descriptor (pass.plan.readRequest request) .stored = .ok s)
    (w : ω) : ∃ slab w', pass.readSlab request w = (.ok slab, w') := by
  obtain ⟨w', hbuffer, -⟩ := readBuffer_of_willing hw s w
  have hhalt : Attempt.halting (pass.readBuffer s) w = (.ok (pass.maskedPixels s), w') := by
    rw [Attempt.halting, hbuffer]
  unfold SlabWalk.readSlab
  rw [hs, Attempt.ofExcept_ok, pure_bind, Attempt.bind_of_ok hhalt]
  exact ⟨_, _, rfl⟩

omit [HasSlab φ] in
/-- A step that the image does not refuse, nothing refuses. -/
theorem Willing.not_refuses {step : PassStep φ} (hread : ∀ r, step = .read r → ∃ s,
    buildSelection pass.plan.descriptor (pass.plan.readRequest r.request) .stored = .ok s)
    {w w' : ω} {e : Halt Error} : ¬ pass.Refuses callbacks step w e w' := by
  intro hrefuses
  cases step with
  | reset n => exact hrefuses
  | ask =>
    have hallowed := hw.allowed w
    rw [show pass.allowed w = _ from hrefuses] at hallowed
    cases hallowed
  | handOver b n complete q =>
    have hgoes := hw.handOver b n complete q w
    rw [hrefuses.1] at hgoes
    cases hgoes
  | progress q =>
    have hgoes := hw.progress q w
    rw [hrefuses.1] at hgoes
    cases hgoes
  | read r =>
    obtain ⟨s, hs⟩ := hread r rfl
    obtain ⟨slab, w₁, hreads⟩ := hw.readSlab hs w
    cases hreads.symm.trans hrefuses

omit [HasSlab φ] in
/-- **A pass that nothing refuses** does all its steps. -/
theorem Willing.forEach {steps : List (PassStep φ)} (hread : ∀ r, .read r ∈ steps → ∃ s,
    buildSelection pass.plan.descriptor (pass.plan.readRequest r.request) .stored = .ok s) (w : ω) :
    ∃ w', Attempt.forEach (pass.perform callbacks) steps w = (.ok (), w') := by
  obtain ⟨w', hrun, -⟩ | ⟨before, step, after, w₁, e, w₂, rfl, -, hrefuses, -⟩ :=
    forEach_outcome pass callbacks steps w
  · exact ⟨w', hrun⟩
  · exact absurd hrefuses (hw.not_refuses fun r hr => hread r (by simp [hr]))

/-- **A pass over the plane that nothing refuses** ends, when no slab of it has `2 ^ 64` pixels. -/
theorem Willing.planeBlocks (hs : pass.shape = .planeBands) (h : pass.plan.InRange)
    (hd : pass.plan.descriptor.StoredInOrder) (hp : pass.plan.Placed)
    (hother : ∀ i < pass.plan.descriptor.rank, i ≠ pass.plan.axisU → i ≠ pass.plan.axisV →
      0 < pass.plan.descriptor.length i)
    {fuel : ℕ} (hfuel : pass.plan.planes.spectral.count ≤ fuel) {bytesPerChannel hint : ℕ}
    (hfit : ∀ read ∈ pass.blockReads bytesPerChannel hint, read.request.elements < 2 ^ 64) (w : ω) :
    ∃ w', pass.inBlocks fuel callbacks bytesPerChannel hint w = (.ok (), w') := by
  have haccepted : ∀ r, .read r ∈ pass.blockSteps bytesPerChannel hint → ∃ s, buildSelection
      pass.plan.descriptor (pass.plan.readRequest r.request) .stored = .ok s := by
    intro r hstep
    have hread := Pass.read_mem_blockSteps hstep
    obtain ⟨block, hblock, hmem⟩ := List.mem_flatMap.1 hread
    obtain ⟨-, hlt, hle⟩ := (h.blocks_spec _ _ _).1.bounds block hblock
    exact planeRead_accepted hs h hd hp hother hlt.le hle hmem (hfit r hread)
  obtain ⟨w', hrun⟩ := hw.forEach haccepted w
  exact ⟨w', by rw [Pass.inBlocks_eq h callbacks bytesPerChannel hint hfuel, hrun]⟩

end Stop

/-! ## The protocol -/

/-- What a pass does for the block `[b, e)`. -/
structure BlockProtocol (pass : Pass φ ω α) (b e : ℕ) : Prop where
  steps_eq : pass.stepsOfBlock b e = .reset (e - b) :: .ask ::
    (pass.reads b e).zipIdx.flatMap (fun x =>
      (if x.2 = 0 then [] else [.handOver b (e - b) false (pass.completeness b e x.2)]) ++
        [.ask, .read x.1]) ++ [.handOver b (e - b) true 1]
  between : ∀ k, 0 < k → k < (pass.reads b e).length →
    0 < pass.completeness b e k ∧ pass.completeness b e k ≤ 1 ∧
    (pass.layerChunks * pass.plan.chunksTouched b e ≤ 2 ^ 53 → pass.completeness b e k < 1)
  growing : ∀ k l, 0 < k → k ≤ l → l < (pass.reads b e).length →
    pass.completeness b e k ≤ pass.completeness b e l
  sum_eq : ((pass.reads b e).map (SlabRead.counted pass.plan)).sum =
    pass.layerChunks * pass.plan.chunksTouched b e

/-- What a pass does as one run over `count` channels. -/
structure WholeProtocol (pass : Pass φ ω α) (count : ℕ) : Prop where
  steps_eq : pass.wholeSteps = .ask ::
    (pass.reads 0 count).zipIdx.flatMap (fun x =>
      (if x.2 = 0 then [] else [.progress (pass.completeness 0 count x.2)]) ++ [.ask, .read x.1])
  between : ∀ k, 0 < k → k < (pass.reads 0 count).length →
    0 < pass.completeness 0 count k ∧ pass.completeness 0 count k ≤ 1 ∧
    (pass.layerChunks * pass.plan.chunksTouched 0 count ≤ 2 ^ 53 → pass.completeness 0 count k < 1)
  growing : ∀ k l, 0 < k → k ≤ l → l < (pass.reads 0 count).length →
    pass.completeness 0 count k ≤ pass.completeness 0 count l

section Protocol

variable (h : pass.plan.InRange) (hc : pass.Counted)
include h hc

theorem block_protocol {b e : ℕ} (hbe : b < e) (he : e ≤ pass.plan.planes.spectral.count) :
    pass.BlockProtocol b e := by
  have hcount := h.count_le
  have hsub : sub e b = e - b := sub_eq hbe.le (by omega)
  obtain ⟨hbetween, hgrowing⟩ := completeness_spec h hc hbe he
  refine ⟨?_, hbetween, hgrowing, ?_⟩
  · rw [stepsOfBlock, walkSteps_eq h hbe.le he hc, pacedReads, hsub]
    simp only [tellBlock, hsub, List.cons_append]
    rfl
  · rw [List.map_congr_left fun read hr => counted_eq_amount h hbe.le he hc hr,
      sum_amount h hbe.le he, ← hc.layer_eq, h.chunksTouched_eq hbe.le he]

theorem whole_protocol : pass.WholeProtocol pass.plan.planes.spectral.count := by
  obtain ⟨hbetween, hgrowing⟩ := completeness_spec h hc h.count_pos le_rfl
  refine ⟨?_, hbetween, hgrowing⟩
  rw [wholeSteps, walkSteps_eq h (Nat.zero_le _) le_rfl hc, pacedReads]
  rfl

end Protocol

end Pass

/-! ## Passes that count their chunks -/

/-- The bands occupy the chunks sampled. -/
theorem PassPlan.InRange.sum_bands {plan : PassPlan} (h : plan.InRange)
    (hfit : plan.rows.size * plan.columns.size < 2 ^ 64) :
    (plan.bands.map SlabFootprint.chunks).sum = plan.rows.size * plan.columns.size ∧
      ∀ f ∈ plan.bands, 0 < f.chunks := by
  have hchunks : ∀ row ∈ plan.bandCuts, ∀ column ∈ plan.segmentCuts (row.2 - row.1),
      (plan.bandSegment row column).chunks = (row.2 - row.1) * (column.2 - column.1) := by
    intro row hrow column hcolumn
    obtain ⟨-, hr, hr'⟩ := h.bandCuts_tiling.bounds row hrow
    obtain ⟨-, hc, hc'⟩ := (segmentCuts_tiling plan (row.2 - row.1)).bounds column hcolumn
    have hle : (row.2 - row.1) * (column.2 - column.1) ≤ plan.rows.size * plan.columns.size :=
      Nat.mul_le_mul (by omega) (by omega)
    rw [Nat.mul_comm]
    rw [Nat.mul_comm] at hle
    exact mul_eq (by omega)
  have hsum : ∀ {size : ℕ} {cuts : List (ℕ × ℕ)}, Tiling 0 cuts size →
      (cuts.map fun x => x.2 - x.1).sum = size := fun htile =>
    htile.sum_eq (f := fun x y => y - x) (Nat.sub_self _) fun x hx => by
      obtain ⟨-, hlt, hle⟩ := htile.bounds x hx
      omega
  constructor
  · have hrow : ∀ row ∈ plan.bandCuts,
        (((plan.segmentCuts (row.2 - row.1)).map (plan.bandSegment row)).map
          SlabFootprint.chunks).sum =
          (row.2 - row.1) * plan.columns.size := by
      intro row hrow
      rw [← hsum (segmentCuts_tiling plan (row.2 - row.1)), ← List.sum_map_mul_left, List.map_map]
      refine congrArg List.sum (List.map_congr_left fun column hcolumn =>
        hchunks row hrow column hcolumn)
    have hlist : (plan.bands.map SlabFootprint.chunks).sum =
        (plan.bandCuts.map fun row => (row.2 - row.1) * plan.columns.size).sum := by
      rw [PassPlan.bands, List.flatMap_def, List.map_flatten, List.sum_flatten,
        List.map_map, List.map_map]
      exact congrArg List.sum (List.map_congr_left hrow)
    rw [hlist, List.sum_map_mul_right, hsum h.bandCuts_tiling]
  · intro f hf
    obtain ⟨row, hrow, column, hcolumn, rfl, hr, -, hc, -⟩ := h.mem_bands hf
    rw [hchunks row hrow column hcolumn]
    exact Nat.mul_pos (by omega) (by omega)

section Counted

variable {φ ω α : Type} [HasSlab φ] {walk : SlabWalk ω α}

/-- A pass over a plane with a pixel counts its chunks. -/
theorem planePass_counted {d : ImageDescriptor} (hlen : ∀ i, d.length i ≤ 2 ^ 63)
    (g f : ChunkGeometry)
    {map : AxisMap} (p : CheckedPlanes d map) (sample : ℕ) (o : ReadOptions)
    (hplan : walk.plan = planPass d g f map p sample o) (hu : 0 < walk.plan.uLength)
    (hv : 0 < walk.plan.vLength)
    (hfit : walk.plan.rows.size * walk.plan.columns.size *
      walk.plan.chunksTouched 0 walk.plan.planes.spectral.count < 2 ^ 64) (cancelled : String) :
    (passOverPlane φ walk cancelled).Counted := by
  have h : walk.plan.InRange := hplan ▸ planPass_inRange g f p sample o hlen
  rw [h.chunksTouched_eq (Nat.zero_le _) le_rfl] at hfit
  have hrows : 0 < walk.plan.rows.size := by
    rw [PassPlan.rows, chunksSampled_size h.chunkV_pos h.sample_pos]
    exact Finset.card_pos.2 ⟨_, Strided.chunkAt_mem le_rfl
      ((lt_samplesIn_iff h.sample_pos).2 (by simpa using hv))⟩
  have hcolumns : 0 < walk.plan.columns.size := by
    rw [PassPlan.columns, chunksSampled_size h.chunkU_pos h.sample_pos]
    exact Finset.card_pos.2 ⟨_, Strided.chunkAt_mem le_rfl
      ((lt_samplesIn_iff h.sample_pos).2 (by simpa using hu))⟩
  have hspectral : 0 < (walk.plan.spectralChunks 0 walk.plan.planes.spectral.count).card :=
    PassPlan.spectralChunks_pos h.count_pos
  have hplane : walk.plan.rows.size * walk.plan.columns.size < 2 ^ 64 :=
    lt_of_le_of_lt (Nat.le_mul_of_pos_right _ hspectral) hfit
  have hlayer : walk.plan.layerChunks = walk.plan.rows.size * walk.plan.columns.size := by
    have hr : chunksUnderSample walk.plan.uLength walk.plan.chunkU walk.plan.sample =
        walk.plan.columns.size :=
      chunksUnderSample_eq (h.uLength_le.trans (by norm_num)) h.chunkU_pos h.sample_pos
    have hc : chunksUnderSample walk.plan.vLength walk.plan.chunkV walk.plan.sample =
        walk.plan.rows.size :=
      chunksUnderSample_eq (h.vLength_le.trans (by norm_num)) h.chunkV_pos h.sample_pos
    have hdef : walk.plan.layerChunks =
        max 1 (mul (max 1 (chunksUnderSample walk.plan.uLength walk.plan.chunkU walk.plan.sample))
          (max 1 (chunksUnderSample walk.plan.vLength walk.plan.chunkV walk.plan.sample))) := by
      rw [hplan]
      rfl
    rw [hdef, hr, hc, max_eq_right (show 1 ≤ walk.plan.columns.size from hcolumns),
      max_eq_right (show 1 ≤ walk.plan.rows.size from hrows), Nat.mul_comm, mul_eq (by
        rwa [Nat.mul_comm]), max_eq_right (Nat.mul_pos hcolumns hrows), Nat.mul_comm]
  obtain ⟨hsum, hpos⟩ := h.sum_bands hplane
  refine ⟨fun x hx => ?_, ?_, ?_⟩
  · obtain ⟨slab, hslab, rfl⟩ := List.mem_map.1 hx
    exact hpos slab hslab
  · change walk.plan.layerChunks = ((walk.plan.bands.map fun slab => ((none : Option φ), slab)).map
      fun x => x.2.chunks).sum
    rw [List.map_map, hlayer, ← hsum]
    rfl
  · change walk.plan.layerChunks * _ < 2 ^ 64
    rw [hlayer]
    exact hfit

/-- A pass over footprints that each occupy a chunk counts them. -/
theorem footprintPass_counted (h : walk.plan.InRange) {footprints : List φ}
    (hpos : ∀ x ∈ footprints, 0 < (HasSlab.slab x).chunks)
    (hfit : (footprints.map fun x => (HasSlab.slab x).chunks).sum *
      walk.plan.chunksTouched 0 walk.plan.planes.spectral.count < 2 ^ 64) (cancelled : String) :
    (passOverFootprints walk footprints cancelled).Counted := by
  rw [h.chunksTouched_eq (Nat.zero_le _) le_rfl] at hfit
  have hspectral : 0 < (walk.plan.spectralChunks 0 walk.plan.planes.spectral.count).card :=
    PassPlan.spectralChunks_pos h.count_pos
  have hsum : (footprints.map fun x => (HasSlab.slab x).chunks).sum < 2 ^ 64 :=
    lt_of_le_of_lt (Nat.le_mul_of_pos_right _ hspectral) hfit
  -- the sum so far is `layer`, and what is left still fits
  have hfold : ∀ (rest : List φ) (layer : ℕ),
      layer + (rest.map fun x => (HasSlab.slab x).chunks).sum < 2 ^ 64 →
      rest.foldl (fun layer x => add layer (HasSlab.slab x).chunks) layer =
        layer + (rest.map fun x => (HasSlab.slab x).chunks).sum := by
    intro rest
    induction rest with
    | nil => exact fun _ _ => rfl
    | cons x rest ih =>
      intro layer hlt
      rw [List.map_cons, List.sum_cons] at hlt ⊢
      rw [List.foldl_cons, add_eq (by omega), ih _ (by omega), Nat.add_assoc]
  have hlayer : (passOverFootprints walk footprints cancelled).layerChunks =
      (footprints.map fun x => (HasSlab.slab x).chunks).sum :=
    (hfold footprints 0 (by omega)).trans (Nat.zero_add _)
  refine ⟨fun x hx => ?_, ?_, ?_⟩
  · obtain ⟨y, hy, rfl⟩ := List.mem_map.1 hx
    exact hpos y hy
  · rw [hlayer]
    change _ = ((footprints.map fun y => (some y, HasSlab.slab y)).map fun x => x.2.chunks).sum
    rw [List.map_map]
    rfl
  · rw [hlayer]
    exact hfit

end Counted

/-! ## The protocol of a pass -/

/-- What a pass does, in blocks and as one run, whatever the source, the control and the callbacks
do. -/
structure Pass.Protocol {φ ω α : Type} [Pixel α] [HasSlab φ] (pass : Pass φ ω α)
    (callbacks : Callbacks φ ω α) (fuel count : ℕ) : Prop where
  tiling : ∀ bytesPerChannel hint, Tiling 0 (pass.blocks bytesPerChannel hint) count
  block : ∀ bytesPerChannel hint, ∀ x ∈ pass.blocks bytesPerChannel hint, pass.BlockProtocol x.1 x.2
  inBlocks : ∀ bytesPerChannel hint w,
    pass.Outcome callbacks (pass.blockSteps bytesPerChannel hint) w
    (pass.inBlocks fuel callbacks bytesPerChannel hint w)
  run : pass.WholeProtocol count
  whole : ∀ w, pass.Outcome callbacks pass.wholeSteps w (pass.whole fuel callbacks w)
  idle : pass.footprints = [] → pass.wholeSteps = [.ask] ∧
    ∀ b e, pass.stepsOfBlock b e = [.reset (sub e b), .ask, .handOver b (sub e b) true 1]

/-- **Hand-over and progress**, of a pass over a plane with a pixel, or over footprints that each
occupy a chunk, whose chunks are fewer than `2 ^ 64`. -/
theorem pass_protocol {φ ω α : Type} [Pixel α] [HasSlab φ] {d : ImageDescriptor}
    (hlen : ∀ i < d.rank, d.length i ≤ 2 ^ 63) (g f : ChunkGeometry) {map : AxisMap}
    (p : CheckedPlanes d map) (sample : ℕ) (o : ReadOptions) {walk : SlabWalk ω α}
    (hplan : walk.plan = planPass d g f map p sample o) (cancelled : String) {pass : Pass φ ω α}
    (hpass : (pass = passOverPlane φ walk cancelled ∧
        0 < walk.plan.uLength ∧ 0 < walk.plan.vLength ∧
        walk.plan.rows.size * walk.plan.columns.size *
          walk.plan.chunksTouched 0 p.selection.spectral.count < 2 ^ 64) ∨
      ∃ footprints : List φ, pass = passOverFootprints walk footprints cancelled ∧
        (∀ x ∈ footprints, 0 < (HasSlab.slab x).chunks) ∧
        (footprints.map fun x => (HasSlab.slab x).chunks).sum *
          walk.plan.chunksTouched 0 p.selection.spectral.count < 2 ^ 64)
    (callbacks : Callbacks φ ω α) {fuel : ℕ} (hfuel : p.selection.spectral.count ≤ fuel) :
    pass.Protocol callbacks fuel p.selection.spectral.count := by
  have hlen' := d.length_le_of_lt hlen
  have hwalk : walk.plan.InRange := hplan ▸ planPass_inRange g f p sample o hlen'
  have hcount : p.selection.spectral.count = walk.plan.planes.spectral.count := by rw [hplan]; rfl
  rw [hcount] at hpass hfuel ⊢
  obtain ⟨hto, hc⟩ : pass.toSlabWalk = walk ∧ pass.Counted := by
    rcases hpass with ⟨rfl, hu, hv, hfit⟩ | ⟨footprints, rfl, hpos, hfit⟩
    · exact ⟨rfl, planePass_counted hlen' g f p sample o hplan hu hv hfit cancelled⟩
    · exact ⟨rfl, footprintPass_counted hwalk hpos hfit cancelled⟩
  have h : pass.plan.InRange := by rw [hto]; exact hwalk
  rw [← hto] at hfuel ⊢
  refine
    { tiling := fun bytesPerChannel hint => (h.blocks_spec _ _ _).1
      block := fun bytesPerChannel hint x hx => ?_
      inBlocks := fun bytesPerChannel hint w => ?_
      run := Pass.whole_protocol h hc
      whole := fun w => ?_
      idle := fun hnone => ?_ }
  · obtain ⟨-, hlt, hle⟩ := (h.blocks_spec _ _ _).1.bounds x hx
    exact Pass.block_protocol h hc hlt hle
  · rw [Pass.inBlocks_eq h callbacks bytesPerChannel hint hfuel]
    exact pass.forEach_outcome callbacks _ w
  · rw [Pass.whole_eq h callbacks hfuel]
    exact pass.forEach_outcome callbacks _ w
  · have hreads : ∀ b e, pass.reads b e = [] := fun b e => by rw [Pass.reads, hnone]; rfl
    have hwalk : ∀ tell b e, pass.walkSteps tell b e = [.ask] := fun tell b e => by
      rw [Pass.walkSteps, hreads, Attempt.steps]
    refine ⟨hwalk _ _ _, fun b e => ?_⟩
    rw [Pass.stepsOfBlock, hwalk]
    rfl

theorem pass_protocol_smallPass :
    smallPass.Protocol recorder 4 4 ∧ smallPass.footprints ≠ [] :=
  ⟨pass_protocol (by decide) _ _ evenChannels _ _ rfl "stopped"
    (Or.inl ⟨rfl, by decide +kernel, by decide +kernel, by decide +kernel⟩) recorder (by decide),
    by decide +kernel⟩

/-- A plane without a pixel. -/
def emptyPlane : ImageDescriptor where
  id := "SKY"
  storedType := .float32
  axes := [⟨"l", .spatialX, 0, 2⟩, ⟨"m", .spatialY, 4, 1⟩, ⟨"frequency", .spectral, 1, 0⟩]
  hasPixelMask := false

def emptyPass : Pass SlabFootprint (List (ℕ × ℕ × Bool × ℚ)) (Option ℚ) :=
  passOverPlane SlabFootprint
    ⟨steadySource, planPass emptyPlane ⟨.spatialX, [2, 2, 1]⟩ ⟨.spatialX, []⟩ smallCubeMap
      ⟨⟨⟨0, 1, 1⟩, 0, 0⟩, rfl⟩ 1 ⟨false, 64⟩, freeControl⟩ "stopped"

/-- Callbacks that refuse nothing and write down what is handed over. -/
def handOvers {φ α : Type} : Callbacks φ (List (ℕ × ℕ × Bool × ℚ)) α where
  reset _ w := w
  visit _ _ w := w
  handOver b n complete q w := (true, w ++ [(b, n, complete, q)])
  progress _ w := (true, w)

/-- One more than `2 ^ 54` is `2 ^ 54` to a double. -/
theorem one_le_fraction_pow : 1 ≤ Pass.fraction (2 ^ 54) (2 ^ 54 + 1) := by
  have hlog : ∀ n : ℕ, 2 ^ 54 ≤ n → n < 2 ^ 55 → Int.log 2 (n : ℚ) = 54 := fun n hn hn' => by
    rw [Int.log_natCast, (Nat.log_eq_iff (by simp)).2 ⟨hn, hn'⟩]
    rfl
  have hnearest : Double.ofNat (2 ^ 54 + 1) = Double.ofNat (2 ^ 54) := by
    rw [Double.ofNat, Double.ofNat, Double.nearest_of_pos (by norm_num),
      Double.nearest_of_pos (by norm_num), Double.spacing, Double.spacing,
      hlog _ (by norm_num) (by norm_num), hlog _ (by norm_num) (by norm_num)]
    have h₁ : Double.roundEven (((2 ^ 54 + 1 : ℕ) : ℚ) / 2 ^ ((54 : ℤ) - 52)) = 2 ^ 52 := by
      norm_num [Double.roundEven]
    have h₂ : Double.roundEven (((2 ^ 54 : ℕ) : ℚ) / 2 ^ ((54 : ℤ) - 52)) = 2 ^ 52 := by
      norm_num [Double.roundEven]
    rw [h₁, h₂]
  have hpos : 0 < Double.ofNat (2 ^ 54) := Double.nearest_pos (by norm_num)
  have hone : Double.nearest 1 = 1 := by
    rw [← Nat.cast_one]
    exact Double.ofNat_eq (by norm_num)
  rw [Pass.fraction, Double.div, hnearest, div_self hpos.ne', hone]

/-- A column of `2 ^ 54 + 1` chunks of one pixel. -/
def longPlane : ImageDescriptor where
  id := "SKY"
  storedType := .float32
  axes := [⟨"l", .spatialX, 1, 2⟩, ⟨"m", .spatialY, 2 ^ 54 + 1, 1⟩, ⟨"frequency", .spectral, 1, 0⟩]
  hasPixelMask := false

def longPass : Pass SlabFootprint (List (ℕ × ℕ × Bool × ℚ)) (Option ℚ) :=
  passOverPlane SlabFootprint
    ⟨steadySource, planPass longPlane ⟨.spatialX, [1, 1, 1]⟩ ⟨.spatialX, []⟩ smallCubeMap
      ⟨⟨⟨0, 1, 1⟩, 0, 0⟩, rfl⟩ 1 ⟨false, 2 ^ 56⟩, freeControl⟩ "stopped"

/-- An axis that ends at the last word. -/
def lastLine : ImageDescriptor where
  id := "SKY"
  storedType := .float32
  axes := [⟨"l", .spatialX, 2, 2⟩, ⟨"m", .spatialY, 1, 1⟩, ⟨"frequency", .spectral, 2 ^ 64 - 1, 0⟩]
  hasPixelMask := false

theorem lastLine_checked :
    checkPlanes lastLine smallCubeMap ⟨⟨2 ^ 64 - 17, 6, 3⟩, 0, 0⟩ = .ok () := by
  decide +kernel

/-- Every third of the line's last channels. -/
def lastPass : Pass SlabFootprint (List (ℕ × ℕ × Bool × ℚ)) (Option ℚ) :=
  passOverPlane SlabFootprint
    ⟨steadySource, planPass lastLine ⟨.spatialX, [1, 1, 8]⟩ ⟨.spatialX, []⟩ smallCubeMap
      ⟨⟨⟨2 ^ 64 - 17, 6, 3⟩, 0, 0⟩, lastLine_checked⟩ 1 ⟨false, 32⟩, freeControl⟩ "stopped"

/-- The chunk after the line's last channels begins at `0` to a word, and so does the block after
them: the loop over blocks begins again. -/
theorem blocks_lastPass (fuel : ℕ) :
    walk (fun b => lastPass.plan.alignedSlabEnd b
      (lastPass.plan.emitChannels lastPass.layerChunks 8 1) 6) 6 fuel 0 = none := by
  have hstep : ∀ b ∈ [0, 1, 3], b < 6 ∧ lastPass.plan.alignedSlabEnd b
      (lastPass.plan.emitChannels lastPass.layerChunks 8 1) 6 ∈ [0, 1, 3] := by decide +kernel
  exact walk_eq_none hstep fuel (by simp)

/-- A plane of `2 ^ 64` chunks of one pixel. -/
def finePlane : ImageDescriptor where
  id := "SKY"
  storedType := .float32
  axes := [⟨"l", .spatialX, 2 ^ 32, 2⟩, ⟨"m", .spatialY, 2 ^ 32, 1⟩, ⟨"frequency", .spectral, 1, 0⟩]
  hasPixelMask := false

def finePass : Pass SlabFootprint (List (ℕ × ℕ × Bool × ℚ)) (Option ℚ) :=
  passOverPlane SlabFootprint
    ⟨steadySource, planPass finePlane ⟨.spatialX, [1, 1, 1]⟩ ⟨.spatialX, []⟩ smallCubeMap
      ⟨⟨⟨0, 1, 1⟩, 0, 0⟩, rfl⟩ 1 ⟨false, 2 ^ 62⟩, freeControl⟩ "stopped"

/-- A plane without a pixel has a layer of one chunk that no read counts. What is told of one with
more chunks than a double counts can be one before its last read, and of one with more than a word
counts above one after its first. On an axis past `2 ^ 63` the blocks need not end, and one handed
over can be said to have nearly `2 ^ 64` channels. -/
theorem pass_protocol_emptyPass :
    (emptyPass.inBlocks 1 handOvers 0 0 [] = (.ok (), [(0, 1, true, 1)]) ∧
      ((emptyPass.reads 0 1).map (SlabRead.counted emptyPass.plan)).sum ≠
        emptyPass.layerChunks * emptyPass.plan.chunksTouched 0 1) ∧
    ((longPass.reads 0 1).length = 2 ∧ ¬ longPass.completeness 0 1 1 < 1) ∧
    ((finePass.reads 0 1).length = 16 ∧ 1 < finePass.completeness 0 1 1) ∧
    (∀ fuel, walk (fun b => lastPass.plan.alignedSlabEnd b
      (lastPass.plan.emitChannels lastPass.layerChunks 8 1) 6) 6 fuel 0 = none) ∧
    (3, 2 ^ 64 - 3, true, 1) ∈ (lastPass.inBlocks 3 handOvers 8 1 []).2 := by
  refine ⟨by decide +kernel, ⟨by decide +kernel, ?_⟩, ⟨by decide +kernel, ?_⟩, blocks_lastPass,
    by decide +kernel⟩
  · have hdone : longPass.done 0 1 1 = 2 ^ 54 := by decide +kernel
    have htotal : longPass.plan.chunksCovering (max 1 longPass.layerChunks) 0 1 = 2 ^ 54 + 1 := by
      decide +kernel
    rw [Pass.completeness, hdone, htotal]
    exact not_lt.2 one_le_fraction_pow
  · have hdone : finePass.done 0 1 1 = 2 ^ 60 := by decide +kernel
    -- the layer's chunks are `2 ^ 64`, which is none
    have htotal : finePass.plan.chunksCovering (max 1 finePass.layerChunks) 0 1 = 1 := by
      decide +kernel
    rw [Pass.completeness, hdone, htotal]
    decide +kernel

end CartaZarr
