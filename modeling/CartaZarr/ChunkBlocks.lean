import CartaZarr.Foundations.Strided
import CartaZarr.Foundations.Walk
import CartaZarr.Image.Descriptor

/-!
# Cutting along chunks

What a read costs in decoded chunks, and where a walk may be cut so that no chunk is decoded twice.
Everything here is arithmetic on a descriptor and a geometry, in 64-bit words.

`alignedBlockEnd` is `Strided.blockEnd` (`alignedBlockEnd_eq`) and `chunksTouched` the number of
chunks a strided selection meets (`chunksTouched_eq_card`), for selections whose coordinates are
below `2 ^ 63`; `SampledChunks` names the chunks that every `stride`th element of an axis meets
(`chunksSampled_get_of_sample`, `exists_sample_of_lt_size`), so that a run of them holds the samples
between its ends (`sample_mem_run_iff`).
-/

namespace CartaZarr

open Word

def kDecodedBytesPerRead : ℕ := 64 * 2 ^ 20

def kMinChunksPerRead : ℕ := 8

def kMaxDecodedBytesPerRead : ℕ := 256 * 2 ^ 20

/-- What one request may decode when the caller has not said otherwise. -/
def defaultReadBytes (chunkBytes : ℕ) : ℕ :=
  min kMaxDecodedBytesPerRead (max kDecodedBytesPerRead (mul (max 1 chunkBytes) kMinChunksPerRead))

/-- How many units of `chunksPerUnit` chunks a read that may decode `chunksPerRead` affords. -/
def unitsAffordable (chunksPerRead chunksPerUnit : ℕ) : ℕ :=
  max 1 (chunksPerRead / max 1 chunksPerUnit)

theorem unitsAffordable_pos (r u : ℕ) : 0 < unitsAffordable r u :=
  lt_of_lt_of_le Nat.one_pos (le_max_left _ _)

/-- Units that are affordable together fit the read, or are a single one. -/
theorem unitsAffordable_mul_le (r u : ℕ) : unitsAffordable r u * u ≤ max u r := by
  unfold unitsAffordable
  rcases Nat.eq_zero_or_pos u with rfl | hu
  · simp
  rw [max_eq_right (show 1 ≤ u from hu)]
  rcases le_total (r / u) 1 with h | h
  · rw [max_eq_left h, one_mul]
    exact le_max_left _ _
  · rw [max_eq_right h]
    exact (Nat.div_mul_le_self r u).trans (le_max_right _ _)

/-- Elements in one chunk. -/
def chunkElements (geometry : ChunkGeometry) : ℕ :=
  geometry.chunkShape.foldl (fun elements length => mul elements (max 1 length.toNat)) 1

/-- Bytes one chunk of this image decompresses to. -/
def decodedChunkBytes (descriptor : ImageDescriptor) (geometry : ChunkGeometry) : ℕ :=
  max 1 (mul (chunkElements geometry) (descriptor.storedType.elementBytes.getD 4))

/-- The walk of `flagChunksAcross`: one pixel chunk from `first` on, and the rest of the axis,
unless it has not ended after `fuel` of them. -/
def flagChunksWalk (length step flagChunk : ℕ) : ℕ → ℕ → ℕ → Option ℕ
  | 0, first, most => if first < length then none else some most
  | fuel + 1, first, most =>
    if first < length then
      let last := sub (min (add first step) length) 1
      flagChunksWalk length step flagChunk fuel (add first step)
        (max most (add (sub (last / flagChunk) (first / flagChunk)) 1))
    else some most

/-- The most flag chunks one pixel chunk along an axis of `length` elements lies across. A walk that
ends begins no two steps at one element, so it takes at most `length`; one that wraps and never ends
is counted as one chunk here. -/
def flagChunksAcross (length pixelChunk flagChunk : ℕ) : ℕ :=
  if flagChunk = 0 ∨ length = 0 ∨ flagChunk = pixelChunk then 1
  else
    let step := if pixelChunk = 0 then length else pixelChunk
    (flagChunksWalk length step flagChunk length 0 1).getD 1

/-- Bytes of flag that decoding one pixel chunk decodes beside it. -/
def decodedFlagBytes (descriptor : ImageDescriptor) (geometry flagGeometry : ChunkGeometry) : ℕ :=
  let flag := if flagGeometry.chunkShape.isEmpty then geometry else flagGeometry
  (List.range descriptor.rank).foldl (fun bytes axis =>
    mul bytes (mul (flagChunksAcross (descriptor.length axis)
      (geometry.chunk axis) (flag.chunk axis))
      (max 1 (flag.chunk axis)))) 1

/-- What one read of an image costs, and how much of that it may spend at once. -/
structure ReadCost where
  applyMask : Bool
  chunkBytes : ℕ
  budgetBytes : ℕ
  deriving DecidableEq, Repr

/-- The cost of a read with these options. -/
def ReadCost.of (descriptor : ImageDescriptor) (geometry flagGeometry : ChunkGeometry)
    (options : ReadOptions) : ReadCost :=
  let applyMask := appliesPixelMask options descriptor
  let chunkBytes := add (decodedChunkBytes descriptor geometry)
    (if applyMask then decodedFlagBytes descriptor geometry flagGeometry else 0)
  { applyMask := applyMask
    chunkBytes := chunkBytes
    budgetBytes :=
      if options.readBudgetBytes ≠ 0 then options.readBudgetBytes else defaultReadBytes chunkBytes }

theorem ReadCost.budgetBytes_lt (d : ImageDescriptor) (g f : ChunkGeometry) {o : ReadOptions}
    (h : o.readBudgetBytes < 2 ^ 64) : (ReadCost.of d g f o).budgetBytes < 2 ^ 64 := by
  have hdefault : ∀ bytes, defaultReadBytes bytes < 2 ^ 64 := fun bytes =>
    lt_of_le_of_lt (min_le_left _ _) (by decide)
  simp only [ReadCost.of]
  split
  · exact h
  · exact hdefault _

/-! ## The end of a block -/

/-- The chunk of a selected index. -/
def chunkOf (axisStart stride chunk index : ℕ) : ℕ := add axisStart (mul index stride) / chunk

/-- The first selected index at or after an absolute coordinate. -/
def firstAt (axisStart stride absolute : ℕ) : ℕ :=
  if absolute ≤ axisStart then 0 else ceilQuot (sub absolute axisStart) stride

/-- The end of a block of selected indices that begins at `begin_` and would like to be `desired`
long, moved so that it lands on a chunk boundary. -/
def alignedBlockEnd (begin_ desired total axisStart stride chunk : ℕ) : ℕ :=
  let desired := if desired = 0 then 1 else desired
  let target := min (add begin_ desired) total
  if total ≤ target ∨ chunk = 0 ∨ stride = 0 then target
  else
    let chunkIndex := chunkOf axisStart stride chunk target
    if chunkOf axisStart stride chunk (sub target 1) ≠ chunkIndex then target
    else
      let chunkFirst := firstAt axisStart stride (mul chunkIndex chunk)
      if begin_ < chunkFirst then chunkFirst
      else min (firstAt axisStart stride (mul (add chunkIndex 1) chunk)) total

theorem chunkOf_eq {start stride chunk i : ℕ} (h : Strided.coord start stride i < 2 ^ 64) :
    chunkOf start stride chunk i = Strided.chunkAt start stride chunk i := by
  unfold Strided.coord at h
  rw [chunkOf, mul_eq (by omega), add_eq h]
  rfl

theorem firstAt_eq {start stride x : ℕ} (hx : x < 2 ^ 64) (hs : 0 < stride) :
    firstAt start stride x = Strided.firstAt start stride x := by
  unfold firstAt Strided.firstAt
  by_cases h : x ≤ start
  · rw [if_pos h, Nat.sub_eq_zero_of_le h, zero_ceilDiv]
  · rw [if_neg h, sub_eq (by omega) hx, ceilQuot_eq (by omega) hs]

/-- The chunk after that of a coordinate below `2 ^ 63` begins below `2 ^ 64`. -/
theorem succ_mul_chunk_lt {x chunk : ℕ} (hx : x < 2 ^ 63) (hc : chunk < 2 ^ 64) :
    (x / chunk + 1) * chunk < 2 ^ 64 := by
  have h := Nat.div_mul_le_self x chunk
  rw [Nat.add_mul, one_mul]
  rcases Nat.eq_zero_or_pos (x / chunk) with h0 | h0
  · rw [h0]
    omega
  · have : chunk ≤ x / chunk * chunk := Nat.le_mul_of_pos_left _ h0
    omega

/-- A selection whose coordinates are below `2 ^ 63` has no more indices than that. -/
theorem total_le_of_coord_lt {start stride total : ℕ} (hs : 0 < stride)
    (hlast : Strided.coord start stride (total - 1) < 2 ^ 63) : total ≤ 2 ^ 63 := by
  have : (total - 1) * 1 ≤ (total - 1) * stride := Nat.mul_le_mul_left _ hs
  unfold Strided.coord at hlast
  omega

/-- **In range, the aligned end is the exact one.** -/
theorem alignedBlockEnd_eq {b desired total start stride chunk : ℕ} (hs : 0 < stride)
    (hc : 0 < chunk) (hc' : chunk < 2 ^ 64) (hb : b < total)
    (hlast : Strided.coord start stride (total - 1) < 2 ^ 63) (hd : b + desired < 2 ^ 64) :
    alignedBlockEnd b desired total start stride chunk =
      Strided.blockEnd start stride chunk b (max 1 desired) total := by
  have htotal := total_le_of_coord_lt hs hlast
  have hde : (if desired = 0 then 1 else desired) = max 1 desired := by
    split <;> omega
  unfold alignedBlockEnd Strided.blockEnd
  simp only [hde, add_eq (show b + max 1 desired < 2 ^ 64 by omega)]
  by_cases ht : total ≤ b + max 1 desired
  · rw [min_eq_right ht, if_pos (Or.inl le_rfl), if_pos ht]
  · push Not at ht
    set t := b + max 1 desired with htdef
    have hco : ∀ i, i ≤ t → Strided.coord start stride i < 2 ^ 63 := fun i hi =>
      lt_of_le_of_lt (Strided.coord_mono (by omega)) hlast
    have h₁ : chunkOf start stride chunk t = Strided.chunkAt start stride chunk t :=
      chunkOf_eq (by have := hco t le_rfl; omega)
    have h₂ : chunkOf start stride chunk (sub t 1) =
        Strided.chunkAt start stride chunk (t - 1) := by
      rw [sub_eq (by omega) (by omega), chunkOf_eq (by have := hco (t - 1) (by omega); omega)]
    have hk : (Strided.chunkAt start stride chunk t + 1) * chunk < 2 ^ 64 :=
      succ_mul_chunk_lt (hco t le_rfl) hc'
    have hk' : Strided.chunkAt start stride chunk t * chunk ≤ Strided.coord start stride t :=
      Nat.div_mul_le_self _ _
    have hk'' : Strided.chunkAt start stride chunk t < 2 ^ 63 :=
      lt_of_le_of_lt (Nat.div_le_self _ _) (hco t le_rfl)
    have hcot := hco t le_rfl
    rw [min_eq_left ht.le, if_neg (by omega), if_neg (not_le.2 ht), h₁, h₂,
      mul_eq (by omega), add_eq (by omega), mul_eq hk, firstAt_eq (by omega) hs, firstAt_eq hk hs]

/-- Whatever wraps, the aligned end does not pass the end of the selection. -/
theorem alignedBlockEnd_le {b desired total start stride chunk : ℕ} (hs : 0 < stride)
    (hlast : Strided.coord start stride (total - 1) < 2 ^ 64) :
    alignedBlockEnd b desired total start stride chunk ≤ total := by
  unfold alignedBlockEnd
  generalize (if desired = 0 then 1 else desired) = length
  simp only
  split_ifs with h1 h2 h3
  · exact min_le_right _ _
  · exact min_le_right _ _
  · set target := min (add b length) total
    have hco : Strided.coord start stride target ≤ Strided.coord start stride (total - 1) :=
      Strided.coord_mono (by omega)
    have hle : Strided.chunkAt start stride chunk target * chunk ≤
        Strided.coord start stride target :=
      Nat.div_mul_le_self _ _
    rw [chunkOf_eq (by omega), mul_eq (by omega), firstAt_eq (by omega) hs]
    exact ((Strided.firstAt_le_iff hs).2 hle).trans (by omega)
  · exact min_le_right _ _

/-- **A walk in aligned blocks** ends and tiles what it walks; its blocks are the exact ones, and
all but the first begin at a boundary. -/
theorem alignedWalk_tiling {desired total start stride chunk b₀ fuel : ℕ} (hs : 0 < stride)
    (hc : 0 < chunk) (hc' : chunk < 2 ^ 64) (hb : b₀ ≤ total)
    (hlast : Strided.coord start stride (total - 1) < 2 ^ 63) (hd : b₀ + desired < 2 ^ 64)
    (hfuel : total - b₀ ≤ fuel) :
    ∃ blocks, walk (fun b => alignedBlockEnd b desired total start stride chunk) total fuel b₀ =
        some blocks ∧ Tiling b₀ blocks total ∧
      ∀ x ∈ blocks, (x.1 = b₀ ∨ Strided.Boundary start stride chunk x.1) ∧
        x.2 = Strided.blockEnd start stride chunk x.1 (max 1 desired) total := by
  have hd1 : 0 < max 1 desired := lt_of_lt_of_le Nat.one_pos (le_max_left _ _)
  have htotal := total_le_of_coord_lt hs hlast
  -- a second block begins only when the first did not reach the end, so that its length fits
  have heq : ∀ b, b < total → (b = b₀ ∨ Strided.Boundary start stride chunk b ∧ desired < total) →
      alignedBlockEnd b desired total start stride chunk =
        Strided.blockEnd start stride chunk b (max 1 desired) total := fun b hlt hP =>
    alignedBlockEnd_eq hs hc hc' hlt hlast (by omega)
  have hstep : ∀ b, b < total →
      (b = b₀ ∨ Strided.Boundary start stride chunk b ∧ desired < total) →
      b < alignedBlockEnd b desired total start stride chunk ∧
      alignedBlockEnd b desired total start stride chunk ≤ total ∧
      (alignedBlockEnd b desired total start stride chunk < total →
        (alignedBlockEnd b desired total start stride chunk = b₀ ∨
          Strided.Boundary start stride chunk (alignedBlockEnd b desired total start stride chunk) ∧
            desired < total)) := by
    intro b hlt hP
    rw [heq b hlt hP]
    refine ⟨Strided.lt_blockEnd hs hc hd1 hlt, Strided.blockEnd_le hs hc hd1 hlt, fun h => ?_⟩
    refine Or.inr ⟨(Strided.blockEnd_boundary hs hc hd1 hlt).resolve_left h.ne, ?_⟩
    by_contra hge
    rw [Strided.blockEnd] at h
    simp only [show total ≤ b + max 1 desired by omega, if_true] at h
    omega
  obtain ⟨blocks, hw, ht⟩ := walk_tiling (Or.inl rfl) hb hstep hfuel
  refine ⟨blocks, hw, ht, fun x hx => ?_⟩
  have hP := walk_invariant hw (Or.inl rfl) (fun b hlt hP h => (hstep b hlt hP).2.2 h) x hx
  obtain ⟨hlt, hnext⟩ := (walk_linked hw).2 x hx
  exact ⟨hP.imp_right And.left, by rw [hnext, heq _ hlt hP]⟩

/-- A walk whose blocks would each like a length of their own, which fits, ends in the same way. -/
theorem alignedWalk_tiling_of_fit {desired : ℕ → ℕ} {total start stride chunk b₀ fuel : ℕ}
    (hs : 0 < stride) (hc : 0 < chunk) (hc' : chunk < 2 ^ 64) (hb : b₀ ≤ total)
    (hlast : Strided.coord start stride (total - 1) < 2 ^ 63)
    (hd : ∀ b < total, b + desired b < 2 ^ 64) (hfuel : total - b₀ ≤ fuel) :
    ∃ blocks, walk (fun b => alignedBlockEnd b (desired b) total start stride chunk) total fuel b₀ =
        some blocks ∧ Tiling b₀ blocks total ∧
      ∀ x ∈ blocks, (x.1 = b₀ ∨ Strided.Boundary start stride chunk x.1) ∧
        x.2 = Strided.blockEnd start stride chunk x.1 (max 1 (desired x.1)) total := by
  have hd1 : ∀ b, 0 < max 1 (desired b) := fun b => lt_of_lt_of_le Nat.one_pos (le_max_left _ _)
  have heq : ∀ b, b < total → alignedBlockEnd b (desired b) total start stride chunk =
      Strided.blockEnd start stride chunk b (max 1 (desired b)) total := fun b hlt =>
    alignedBlockEnd_eq hs hc hc' hlt hlast (hd b hlt)
  have hstep : ∀ b, b < total → (b = b₀ ∨ Strided.Boundary start stride chunk b) →
      b < alignedBlockEnd b (desired b) total start stride chunk ∧
      alignedBlockEnd b (desired b) total start stride chunk ≤ total ∧
      (alignedBlockEnd b (desired b) total start stride chunk < total →
        (alignedBlockEnd b (desired b) total start stride chunk = b₀ ∨
          Strided.Boundary start stride chunk
            (alignedBlockEnd b (desired b) total start stride chunk))) := by
    intro b hlt _
    rw [heq b hlt]
    exact ⟨Strided.lt_blockEnd hs hc (hd1 b) hlt, Strided.blockEnd_le hs hc (hd1 b) hlt, fun h =>
      Or.inr ((Strided.blockEnd_boundary hs hc (hd1 b) hlt).resolve_left h.ne)⟩
  obtain ⟨blocks, hw, ht⟩ := walk_tiling (Or.inl rfl) hb hstep hfuel
  refine ⟨blocks, hw, ht, fun x hx => ?_⟩
  have hP := walk_invariant hw (Or.inl rfl) (fun b hlt hP h => (hstep b hlt hP).2.2 h) x hx
  obtain ⟨hlt, hnext⟩ := (walk_linked hw).2 x hx
  exact ⟨hP, by rw [hnext, heq _ hlt]⟩

/-- A walk along an axis that has no chunks ends as well. -/
theorem unalignedWalk_tiling {desired total fuel : ℕ} (start stride : ℕ) (htotal : total ≤ 2 ^ 63)
    (hd : desired < 2 ^ 64) (hfuel : total ≤ fuel) :
    ∃ blocks, walk (fun b => alignedBlockEnd b desired total start stride 0) total fuel 0 =
      some blocks ∧ Tiling 0 blocks total := by
  have hnext : ∀ b, b < total → (b = 0 ∨ desired < total) →
      alignedBlockEnd b desired total start stride 0 = min (b + max 1 desired) total := by
    intro b hb hP
    have hde : (if desired = 0 then 1 else desired) = max 1 desired := by
      split <;> omega
    simp only [alignedBlockEnd, true_or, or_true, if_true, hde]
    rw [add_eq (by omega)]
  have hstep : ∀ b, b < total → (b = 0 ∨ desired < total) →
      b < alignedBlockEnd b desired total start stride 0 ∧
      alignedBlockEnd b desired total start stride 0 ≤ total ∧
      (alignedBlockEnd b desired total start stride 0 < total →
        (alignedBlockEnd b desired total start stride 0 = 0 ∨ desired < total)) := by
    intro b hb hP
    rw [hnext b hb hP]
    omega
  exact walk_tiling (Or.inl rfl) (Nat.zero_le _) hstep (by omega)

/-! ## The chunks a selection touches -/

/-- How many chunks a strided selection touches along one axis. -/
def chunksTouched (start count stride chunk : ℕ) : ℕ :=
  if count = 0 then 0
  else if chunk = 0 ∨ chunk ≤ stride then count
  else
    let last := add start (mul (sub count 1) (if stride = 0 then 1 else stride))
    add (sub (last / chunk) (start / chunk)) 1

/-- The chunks along an axis that a range of it touches. -/
def Range.chunks (range : Range) (chunk : ℕ) : Finset ℕ :=
  Strided.chunksOf range.start range.stride chunk 0 range.count

/-- **The chunks touched, counted.** -/
theorem chunksTouched_eq_card {start count stride chunk : ℕ} (hs : 0 < stride) (hc : 0 < chunk)
    (hlast : Strided.coord start stride (count - 1) < 2 ^ 64) :
    chunksTouched start count stride chunk =
      (Strided.chunksOf start stride chunk 0 count).card := by
  rw [Strided.card_chunksOf hc]
  unfold chunksTouched
  by_cases h0 : count = 0
  · simp [h0]
  rw [if_neg h0, if_neg (show ¬ count ≤ 0 by omega)]
  by_cases hcs : chunk ≤ stride
  · rw [if_pos (Or.inr hcs), if_pos hcs, Nat.sub_zero]
  have hmul : (count - 1) * stride < 2 ^ 64 := by
    unfold Strided.coord at hlast
    omega
  have hsub : sub count 1 = count - 1 := by
    have : (count - 1) * 1 ≤ (count - 1) * stride := Nat.mul_le_mul_left _ hs
    unfold sub
    omega
  have h₁ : start / chunk ≤ Strided.coord start stride (count - 1) / chunk :=
    Nat.div_le_div_right (Nat.le_add_right _ _)
  have h₂ : Strided.coord start stride (count - 1) / chunk + 1 < 2 ^ 64 := by
    -- a chunk is longer than the stride here, so longer than one element
    have : Strided.coord start stride (count - 1) / chunk ≤
        Strided.coord start stride (count - 1) / 2 := Nat.div_le_div_left (by omega) (by omega)
    omega
  have hlast' : add start (mul (sub count 1) stride) = Strided.coord start stride (count - 1) := by
    rw [hsub, mul_eq hmul, add_eq hlast]
    rfl
  rw [if_neg (show ¬ (chunk = 0 ∨ chunk ≤ stride) by omega), if_neg hcs, if_neg hs.ne']
  simp only [hlast']
  rw [sub_eq h₁ (by omega), add_eq (lt_of_le_of_lt (Nat.succ_le_succ (Nat.sub_le _ _)) h₂)]
  simp [Strided.chunkAt, Strided.coord]

/-- The chunks touched by the indices `[b, e)` of a selection. -/
theorem chunksTouched_run {start stride chunk b e : ℕ} (hs : 0 < stride) (hc : 0 < chunk)
    (hbe : b ≤ e) (hlast : Strided.coord start stride (e - 1) < 2 ^ 64) :
    chunksTouched (Strided.coord start stride b) (e - b) stride chunk =
      (Strided.chunksOf start stride chunk b e).card := by
  rcases eq_or_lt_of_le hbe with rfl | h
  · simp [chunksTouched, Strided.chunksOf]
  · rw [← Strided.chunksOf_shift hbe]
    refine chunksTouched_eq_card hs hc ?_
    have : Strided.coord (Strided.coord start stride b) stride (e - b - 1) =
        Strided.coord start stride (e - 1) := by
      rw [show e - 1 = b + (e - b - 1) by omega, Strided.coord_add]
      rfl
    omega

/-! ## The chunks a sample has an element in -/

/-- The chunks that every `stride`th element of an axis has an element in, worked out as they are
asked for. Nothing in it wraps, for an axis has less than `2 ^ 64` elements. -/
structure SampledChunks where
  chunk : ℕ
  stride : ℕ
  size : ℕ
  every : Bool
  deriving DecidableEq, Repr

/-- The chunks sampled along an axis of `length` elements. -/
def chunksSampled (length chunk stride : ℕ) : SampledChunks :=
  let chunk := max 1 chunk
  let stride := max 1 stride
  if length = 0 then ⟨chunk, stride, 0, true⟩
  else
    let samples := (length - 1) / stride + 1
    let every := decide (stride < chunk)
    ⟨chunk, stride, if every then (samples - 1) * stride / chunk + 1 else samples, every⟩

/-- The `index`th of them. -/
def SampledChunks.get (s : SampledChunks) (index : ℕ) : ℕ :=
  if s.every then index else index * s.stride / s.chunk

/-- How many elements a sample of every `stride`th element has. -/
def samplesIn (length stride : ℕ) : ℕ := if length = 0 then 0 else (length - 1) / stride + 1

theorem lt_samplesIn_iff {length stride k : ℕ} (hs : 0 < stride) :
    k < samplesIn length stride ↔ k * stride < length := by
  unfold samplesIn
  split
  · omega
  · rw [Nat.lt_succ_iff, Nat.le_div_iff_mul_le hs]
    omega

section Sampled

variable {length chunk stride : ℕ}

/-- The chunks sampled are as many as the chunks touched. -/
theorem chunksSampled_size (hc : 0 < chunk) (hs : 0 < stride) :
    (chunksSampled length chunk stride).size =
      (Strided.chunksOf 0 stride chunk 0 (samplesIn length stride)).card := by
  rw [Strided.card_chunksOf hc]
  unfold chunksSampled samplesIn
  by_cases h0 : length = 0
  · simp [h0]
  · simp only [h0, if_false, max_eq_right (show 1 ≤ chunk from hc),
      max_eq_right (show 1 ≤ stride from hs)]
    by_cases h : stride < chunk
    · simp [h, not_le.2 h, Strided.chunkAt, Strided.coord]
    · simp [h, not_lt.1 h]

/-- No more chunks are sampled than the axis has elements. -/
theorem chunksSampled_size_le (hc : 0 < chunk) (hs : 0 < stride) :
    (chunksSampled length chunk stride).size ≤ length := by
  have hcard : (Strided.chunksOf 0 stride chunk 0 (samplesIn length stride)).card ≤
      samplesIn length stride := by
    rw [Strided.chunksOf]
    exact Finset.card_image_le.trans (by rw [Nat.card_Ico]; omega)
  have hsamples : samplesIn length stride ≤ length := by
    unfold samplesIn
    have := Nat.div_le_self (length - 1) stride
    split <;> omega
  rw [chunksSampled_size hc hs]
  exact hcard.trans hsamples

/-- Every sample lies in one of the chunks named. -/
theorem chunksSampled_get_of_sample (hc : 0 < chunk) (hs : 0 < stride) {k : ℕ}
    (hk : k < samplesIn length stride) :
    ∃ i < (chunksSampled length chunk stride).size,
      (chunksSampled length chunk stride).get i = Strided.chunkAt 0 stride chunk k := by
  rw [chunksSampled_size hc hs, Strided.card_chunksOf hc]
  have h0 : length ≠ 0 := by
    rintro rfl
    simp [samplesIn] at hk
  have hmono : Strided.chunkAt 0 stride chunk k ≤
      Strided.chunkAt 0 stride chunk (samplesIn length stride - 1) :=
    Strided.chunkAt_mono (by omega)
  simp only [chunksSampled, SampledChunks.get, h0, if_false, max_eq_right (show 1 ≤ chunk from hc),
      max_eq_right (show 1 ≤ stride from hs), show ¬ samplesIn length stride ≤ 0 by omega]
  by_cases h : stride < chunk
  · refine ⟨Strided.chunkAt 0 stride chunk k, ?_, by simp [h]⟩
    rw [if_neg (not_le.2 h)]
    simp only [Strided.chunkAt, Strided.coord, Nat.zero_mul, Nat.zero_add, Nat.zero_div] at hmono ⊢
    omega
  · refine ⟨k, ?_, by simp [h, Strided.chunkAt, Strided.coord]⟩
    rw [if_pos (not_lt.1 h)]
    exact hk

/-- Every chunk named has a sample in it. -/
theorem exists_sample_of_lt_size (hc : 0 < chunk) (hs : 0 < stride) {i : ℕ}
    (hi : i < (chunksSampled length chunk stride).size) :
    ∃ k < samplesIn length stride,
      (chunksSampled length chunk stride).get i = Strided.chunkAt 0 stride chunk k := by
  have h0 : length ≠ 0 := by
    rintro rfl
    simp [chunksSampled] at hi
  have hsamples : 0 < samplesIn length stride := by simp [samplesIn, h0]
  rw [chunksSampled_size hc hs] at hi
  simp only [chunksSampled, SampledChunks.get, h0, if_false, max_eq_right (show 1 ≤ chunk from hc),
      max_eq_right (show 1 ≤ stride from hs)]
  by_cases h : stride < chunk
  · rw [Strided.card_chunksOf hc, if_neg (by omega), if_neg (not_le.2 h)] at hi
    have hmem : i ∈ Strided.chunksOf 0 stride chunk 0 (samplesIn length stride) := by
      rw [Strided.chunksOf_eq_Icc hc h.le hsamples, Finset.mem_Icc]
      simp only [Strided.chunkAt, Strided.coord, Nat.zero_mul, Nat.zero_add, Nat.zero_div] at hi ⊢
      exact ⟨Nat.zero_le _, Nat.lt_succ_iff.1 hi⟩
    obtain ⟨k, -, hk, e⟩ := Strided.mem_chunksOf.1 hmem
    exact ⟨k, hk, by simp [h, e]⟩
  · rw [Strided.card_chunksOf hc, if_neg (by omega), if_pos (not_lt.1 h)] at hi
    exact ⟨i, hi, by simp [h, Strided.chunkAt, Strided.coord]⟩

/-- They are named in order. -/
theorem chunksSampled_get_strictMono (hc : 0 < chunk) (hs : 0 < stride) :
    StrictMono (chunksSampled length chunk stride).get := by
  unfold chunksSampled
  by_cases h0 : length = 0
  · intro i j hij
    simpa [h0, SampledChunks.get] using hij
  · simp only [h0, if_false, max_eq_right (show 1 ≤ chunk from hc),
      max_eq_right (show 1 ≤ stride from hs)]
    intro i j hij
    by_cases h : stride < chunk
    · simpa [SampledChunks.get, h] using hij
    · have : Strided.chunkAt 0 stride chunk i < Strided.chunkAt 0 stride chunk j :=
        Strided.chunkAt_strictMono hc (not_lt.1 h) hij
      simpa [SampledChunks.get, h, Strided.chunkAt, Strided.coord] using this

/-- **The samples of a run of the chunks named** are those between the beginning of its first chunk
and the end of its last. -/
theorem sample_mem_run_iff (hc : 0 < chunk) (hs : 0 < stride) {b e k : ℕ} (hbe : b < e)
    (hk : k < samplesIn length stride) :
    ((chunksSampled length chunk stride).get b * chunk ≤ k * stride ∧
      k * stride < ((chunksSampled length chunk stride).get (e - 1) + 1) * chunk) ↔
    ∃ i, b ≤ i ∧ i < e ∧
      (chunksSampled length chunk stride).get i = Strided.chunkAt 0 stride chunk k := by
  have hmono : StrictMono (chunksSampled length chunk stride).get :=
    chunksSampled_get_strictMono hc hs
  have hcoord : Strided.chunkAt 0 stride chunk k = k * stride / chunk := by
    simp [Strided.chunkAt, Strided.coord]
  rw [← Nat.le_div_iff_mul_le hc, ← Nat.div_lt_iff_lt_mul hc, ← hcoord]
  constructor
  · rintro ⟨h₁, h₂⟩
    obtain ⟨i, -, hi⟩ := chunksSampled_get_of_sample hc hs hk
    rw [← hi] at h₁ h₂
    have hb := hmono.le_iff_le.1 h₁
    have he := hmono.le_iff_le.1 (Nat.lt_succ_iff.1 h₂)
    exact ⟨i, hb, by omega, hi⟩
  · rintro ⟨i, hb, he, hi⟩
    rw [← hi]
    exact ⟨hmono.monotone hb, Nat.lt_succ_iff.2 (hmono.monotone (by omega))⟩

end Sampled

end CartaZarr
