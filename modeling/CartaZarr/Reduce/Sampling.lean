import CartaZarr.Reduce.Bands

/-!
# The chunks of a sample

A plan counts the chunks a sample touches and a walk asks for them one at a time, each by a closed
form of its own: one for a stride below a chunk, one for a stride of a chunk or more. Both are about
the same set, the chunks that hold a selected element (`sampling_agrees`), for strides up to the
largest word: what `chunksSampled` works out does not wrap (`chunksSampledWord_eq`, `getWord_eq`).
-/

namespace CartaZarr

open Word

/-! ## Chunks counted -/

section Touched

variable {start count stride chunk : ℕ}

/-- The chunks that hold an element of a selection. -/
theorem chunksOf_eq_image (start stride chunk count : ℕ) :
    Strided.chunksOf start stride chunk 0 count =
      (Finset.range count).image fun i => (start + i * stride) / chunk := by
  rw [Strided.chunksOf, ← Finset.range_eq_Ico]
  rfl

/-- The chunks counted are those that hold a selected element. -/
theorem chunksTouched_eq_card_image (hs : 0 < stride) (hc : 0 < chunk)
    (hlt : ∀ i < count, start + i * stride < 2 ^ 64) :
    chunksTouched start count stride chunk =
      ((Finset.range count).image fun i => (start + i * stride) / chunk).card := by
  rcases Nat.eq_zero_or_pos count with rfl | hpos
  · rfl
  · rw [chunksTouched_eq_card hs hc (hlt (count - 1) (by omega)), chunksOf_eq_image]

/-- **The counts on the two sides of a cut add up**, where no chunk is on both. -/
theorem chunksTouched_cut (hs : 0 < stride) (hc : 0 < chunk) (hcount : count < 2 ^ 64)
    (hlt : ∀ i < count, start + i * stride < 2 ^ 64) {m : ℕ} (hm : m ≤ count)
    (hcut : ∀ i < m, ∀ j, m ≤ j → j < count →
      (start + i * stride) / chunk ≠ (start + j * stride) / chunk) :
    chunksTouched start count stride chunk = chunksTouched start m stride chunk +
      chunksTouched (add start (mul m stride)) (sub count m) stride chunk := by
  have hsub : sub count m = count - m := sub_eq hm hcount
  rcases eq_or_lt_of_le hm with rfl | hm'
  · rw [hsub, Nat.sub_self]
    rfl
  -- the last chunk before the cut is not the first one after it, so it comes before it
  have hboundary : Strided.Boundary start stride chunk m := by
    rcases Nat.eq_zero_or_pos m with rfl | hpos
    · exact Or.inl rfl
    · have hle : Strided.chunkAt start stride chunk (m - 1) ≤
          Strided.chunkAt start stride chunk m :=
        Strided.chunkAt_mono (Nat.sub_le _ _)
      exact Or.inr (lt_of_le_of_ne hle (hcut (m - 1) (by omega) m le_rfl hm'))
  have hcoord : add start (mul m stride) = Strided.coord start stride m := by
    have hm := hlt m hm'
    rw [mul_eq (by omega), add_eq hm]
    rfl
  have hbefore : ∀ i < m, start + i * stride < 2 ^ 64 := fun i hi => hlt i (hi.trans hm')
  rw [hsub, hcoord, chunksTouched_run hs hc hm (hlt (count - 1) (by omega)),
    chunksTouched_eq_card_image hs hc hlt, chunksTouched_eq_card_image hs hc hbefore,
    ← chunksOf_eq_image, ← chunksOf_eq_image,
    Strided.card_chunksOf_append hboundary (Nat.zero_le _) hm]

end Touched

/-! ## Chunks named -/

/-- `chunksSampled` in 64-bit words. -/
def chunksSampledWord (length chunk stride : ℕ) : SampledChunks :=
  let chunk := max 1 chunk
  let stride := max 1 stride
  if length = 0 then ⟨chunk, stride, 0, true⟩
  else
    let samples := add (sub length 1 / stride) 1
    let every := decide (stride < chunk)
    let size := if every then add (mul (sub samples 1) stride / chunk) 1 else samples
    ⟨chunk, stride, size, every⟩

namespace SampledChunks

/-- `get` in 64-bit words. -/
def getWord (s : SampledChunks) (index : ℕ) : ℕ :=
  if s.every then index else mul index s.stride / s.chunk

/-- All of them, in the order they are asked for. -/
def listed (s : SampledChunks) : List ℕ := (List.range s.size).map s.getWord

end SampledChunks

section Named

variable {length chunk stride : ℕ}

theorem chunksSampledWord_eq (hl : length < 2 ^ 64) :
    chunksSampledWord length chunk stride = chunksSampled length chunk stride := by
  unfold chunksSampledWord chunksSampled
  by_cases h0 : length = 0
  · simp only [if_pos h0]
  have hs : 0 < max 1 stride := by omega
  simp only [if_neg h0]
  generalize max 1 stride = stride at hs ⊢
  generalize max 1 chunk = chunk
  have hmul : (length - 1) / stride * stride ≤ length - 1 := Nat.div_mul_le_self _ _
  have hdiv : (length - 1) / stride ≤ length - 1 := Nat.div_le_self _ _
  have hsamples : add (sub length 1 / stride) 1 = (length - 1) / stride + 1 := by
    rw [sub_eq (by omega) hl, add_eq (by omega)]
  rw [hsamples]
  by_cases hevery : stride < chunk
  · -- a chunk has two elements at least, so there are fewer chunks than words
    have hlast : (length - 1) / stride * stride / chunk ≤ (length - 1) / 2 :=
      (Nat.div_le_div_left (by omega) (by omega)).trans (Nat.div_le_div_right hmul)
    have hsub : sub ((length - 1) / stride + 1) 1 = (length - 1) / stride := by
      rw [sub_eq (Nat.le_add_left 1 _) (by omega), Nat.add_sub_cancel]
    have hword : (length - 1) / stride * stride < 2 ^ 64 := by omega
    rw [hsub, mul_eq hword, add_eq (by omega), Nat.add_sub_cancel]
  · simp [hevery]

/-- The number of a chunk that is asked for does not wrap. -/
theorem getWord_eq (hl : length < 2 ^ 64) (hc : 0 < chunk) (hs : 0 < stride) {i : ℕ}
    (hi : i < (chunksSampled length chunk stride).size) :
    (chunksSampled length chunk stride).getWord i = (chunksSampled length chunk stride).get i := by
  have h0 : length ≠ 0 := by
    rintro rfl
    simp [chunksSampled] at hi
  rw [chunksSampled_size hc hs, Strided.card_chunksOf hc] at hi
  simp only [chunksSampled, SampledChunks.getWord, SampledChunks.get, h0, if_false,
    max_eq_right (show 1 ≤ chunk from hc), max_eq_right (show 1 ≤ stride from hs)]
  by_cases hevery : stride < chunk
  · simp [hevery]
  · -- every sample is in a chunk of its own
    rw [if_neg (by split at hi <;> omega), if_pos (by omega), Nat.sub_zero] at hi
    have hlt : i * stride < length := (lt_samplesIn_iff hs).1 hi
    simp [hevery, mul_eq (hlt.trans hl)]

/-- **The chunks named are those that hold a sample**, in ascending order. -/
theorem listed_spec (hl : length < 2 ^ 64) (hc : 0 < chunk) (hs : 0 < stride) :
    (chunksSampledWord length chunk stride).listed.Pairwise (· < ·) ∧
      ∀ c, c ∈ (chunksSampledWord length chunk stride).listed ↔
        ∃ i, i * stride < length ∧ i * stride / chunk = c := by
  rw [chunksSampledWord_eq hl]
  have hlisted : (chunksSampled length chunk stride).listed =
      (List.range (chunksSampled length chunk stride).size).map
        (chunksSampled length chunk stride).get :=
    List.map_congr_left fun i hi => getWord_eq hl hc hs (List.mem_range.1 hi)
  have hat : ∀ k, Strided.chunkAt 0 stride chunk k = k * stride / chunk := fun k => by
    rw [Strided.chunkAt, Strided.coord, Nat.zero_add]
  rw [hlisted]
  constructor
  · exact List.pairwise_lt_range.map _ fun _ _ h => chunksSampled_get_strictMono hc hs h
  · intro c
    simp only [List.mem_map, List.mem_range]
    constructor
    · rintro ⟨i, hi, rfl⟩
      obtain ⟨k, hk, hik⟩ := exists_sample_of_lt_size hc hs hi
      exact ⟨k, (lt_samplesIn_iff hs).1 hk, by rw [hik, hat]⟩
    · rintro ⟨k, hk, rfl⟩
      obtain ⟨i, hi, hik⟩ := chunksSampled_get_of_sample hc hs ((lt_samplesIn_iff hs).2 hk)
      exact ⟨i, hi, by rw [hik, hat]⟩

end Named

/-! ## Counting and naming agree -/

/-- **Counting and naming agree.** The chunks touched are counted as the set they are, so the counts
on the two sides of a cut that shares no chunk add up; the chunks sampled are listed in ascending
order, each that holds a sample and no other, as many as a plan counts; and the samples of an
interval are the multiples of the stride in it. -/
theorem sampling_agrees {stride chunk : ℕ} (hs : 0 < stride) (hc : 0 < chunk) :
    (∀ start count, count < 2 ^ 64 → (∀ i < count, start + i * stride < 2 ^ 64) →
      chunksTouched start count stride chunk =
        ((Finset.range count).image fun i => (start + i * stride) / chunk).card ∧
      ∀ m ≤ count, (∀ i < m, ∀ j, m ≤ j → j < count →
          (start + i * stride) / chunk ≠ (start + j * stride) / chunk) →
        chunksTouched start count stride chunk = chunksTouched start m stride chunk +
          chunksTouched (add start (mul m stride)) (sub count m) stride chunk) ∧
    (∀ length < 2 ^ 64,
      (chunksSampledWord length chunk stride).listed.Pairwise (· < ·) ∧
      (∀ c, c ∈ (chunksSampledWord length chunk stride).listed ↔
        ∃ i, i * stride < length ∧ i * stride / chunk = c) ∧
      (chunksSampledWord length chunk stride).size = chunksUnderSample length chunk stride) ∧
    ∀ begin_ < 2 ^ 64, ∀ end_ < 2 ^ 64, ∀ x,
      (∃ j < (sampledRange begin_ end_ stride).2,
        x = (sampledRange begin_ end_ stride).1 + j * stride) ↔
      begin_ ≤ x ∧ x < end_ ∧ stride ∣ x := by
  refine ⟨fun start count hcount hlt => ⟨chunksTouched_eq_card_image hs hc hlt, fun m hm hcut =>
    chunksTouched_cut hs hc hcount hlt hm hcut⟩, fun length hl => ?_, fun b hb e he x => ?_⟩
  · obtain ⟨hascending, hmem⟩ := listed_spec hl hc hs
    refine ⟨hascending, hmem, ?_⟩
    rw [chunksSampledWord_eq hl, chunksUnderSample_eq hl.le hc hs]
  · refine (mem_sampledRange hs hb he).trans ⟨?_, ?_⟩
    · rintro ⟨k, rfl, h₁, h₂⟩
      exact ⟨h₁, h₂, Dvd.intro_left k rfl⟩
    · rintro ⟨h₁, h₂, k, rfl⟩
      exact ⟨k, Nat.mul_comm _ _, h₁, h₂⟩

/-- Every eighth of sixteen elements in chunks of four, which no chunk has two of. -/
theorem sampling_agrees_everyEighth :
    chunksTouched 0 2 8 4 =
      chunksTouched 0 1 8 4 + chunksTouched (add 0 (mul 1 8)) (sub 2 1) 8 4 ∧
    (chunksSampledWord 16 4 8).listed.Pairwise (· < ·) ∧
    (chunksSampledWord 16 4 8).size = chunksUnderSample 16 4 8 ∧
    ∃ j < (sampledRange 3 16 8).2, 8 = (sampledRange 3 16 8).1 + j * 8 := by
  obtain ⟨hcount, hname, hrange⟩ :=
    @sampling_agrees 8 4 (by decide) (by decide)
  obtain ⟨hascending, -, hsize⟩ := hname 16 (by decide)
  refine ⟨?_, hascending, hsize, (hrange 3 (by decide) 16 (by decide) 8).2 (by decide)⟩
  refine (hcount 0 2 (by decide) fun i hi => by omega).2 1 (by decide) fun i hi j hj hj' => ?_
  obtain rfl : i = 0 := by omega
  obtain rfl : j = 1 := by omega
  decide

end CartaZarr
