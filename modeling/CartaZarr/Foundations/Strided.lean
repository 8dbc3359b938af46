import Mathlib.Data.Finset.Card
import Mathlib.Order.Interval.Finset.Nat
import CartaZarr.Foundations.Word

/-!
# Strided selections of an axis cut into chunks

A selection takes the coordinates `start + i * stride` of an axis, and the axis is cut into chunks
of `chunk` coordinates. Both are monotone in the index, so everything about which chunks a run of
indices meets comes down to the adjunction `firstAt_le_iff`: `firstAt x` is the least index whose
coordinate is at least `x`.

* `chunksOf b e` is the set of chunks the indices `[b, e)` meet, and `card_chunksOf` counts it: the
  chunks from the first to the last when the stride is below a chunk, one for each index otherwise.
* `Boundary b e` says that no chunk is met on both sides of `e`; it makes the chunks before and
  after disjoint (`disjoint_chunksOf`) and their numbers add up (`card_chunksOf_append`).
* `blockEnd` is the end of a block of about `desired` indices, moved to a boundary, and
  `blockEnd_cases` says the four ways it comes about.
-/

namespace CartaZarr.Strided

variable (start stride chunk : ℕ)

/-- The coordinate of index `i`. -/
def coord (i : ℕ) : ℕ := start + i * stride

/-- The chunk index `i` lies in. -/
def chunkAt (i : ℕ) : ℕ := coord start stride i / chunk

/-- The least index whose coordinate is at least `x`. -/
def firstAt (x : ℕ) : ℕ := (x - start) ⌈/⌉ stride

/-- The chunks that the indices `[b, e)` meet. -/
def chunksOf (b e : ℕ) : Finset ℕ := (Finset.Ico b e).image (chunkAt start stride chunk)

variable {start stride chunk}

theorem coord_mono {i j : ℕ} (h : i ≤ j) : coord start stride i ≤ coord start stride j :=
  Nat.add_le_add_left (Nat.mul_le_mul_right _ h) _

theorem coord_add (i j : ℕ) : coord start stride (i + j) = coord start stride i + j * stride := by
  unfold coord
  ring

theorem chunkAt_mono {i j : ℕ} (h : i ≤ j) :
    chunkAt start stride chunk i ≤ chunkAt start stride chunk j :=
  Nat.div_le_div_right (coord_mono h)

theorem firstAt_le_iff (hs : 0 < stride) {x i : ℕ} :
    firstAt start stride x ≤ i ↔ x ≤ coord start stride i := by
  unfold firstAt coord
  rw [ceilDiv_le_iff_le_mul hs]
  rw [Nat.mul_comm]
  omega

theorem firstAt_le_chunk_iff (hs : 0 < stride) (hc : 0 < chunk) {k i : ℕ} :
    firstAt start stride (k * chunk) ≤ i ↔ k ≤ chunkAt start stride chunk i := by
  rw [firstAt_le_iff hs, chunkAt, Nat.le_div_iff_mul_le hc]

/-! ## Counting the chunks met -/

theorem mem_chunksOf {b e k : ℕ} :
    k ∈ chunksOf start stride chunk b e ↔ ∃ i, b ≤ i ∧ i < e ∧
    chunkAt start stride chunk i = k := by
  simp [chunksOf, and_assoc]

theorem chunkAt_mem {b e i : ℕ} (hb : b ≤ i) (he : i < e) :
    chunkAt start stride chunk i ∈ chunksOf start stride chunk b e :=
  mem_chunksOf.2 ⟨i, hb, he, rfl⟩

/-- The selection from index `b` on meets the chunks its indices meet. -/
theorem chunksOf_shift {b e : ℕ} (hbe : b ≤ e) :
    chunksOf (coord start stride b) stride chunk 0 (e - b) = chunksOf start stride chunk b e := by
  have hshift : ∀ i, coord (coord start stride b) stride i =
      coord start stride (b + i) := fun i => by
    rw [coord_add]
    rfl
  ext k
  simp only [mem_chunksOf, chunkAt, hshift]
  constructor
  · rintro ⟨i, -, hi, rfl⟩
    exact ⟨b + i, by omega, by omega, rfl⟩
  · rintro ⟨i, hi, hi', rfl⟩
    exact ⟨i - b, by omega, by omega, by rw [show b + (i - b) = i by omega]⟩

/-- A step of less than a chunk skips none. -/
theorem chunkAt_succ_le (start : ℕ) (hc : 0 < chunk) (h : stride ≤ chunk) (i : ℕ) :
    chunkAt start stride chunk (i + 1) ≤ chunkAt start stride chunk i + 1 := by
  unfold chunkAt
  rw [coord_add, one_mul, ← Nat.add_div_right _ hc]
  exact Nat.div_le_div_right (by omega)

/-- A step of a chunk or more leaves the chunk. -/
theorem chunkAt_lt_succ (hc : 0 < chunk) (h : chunk ≤ stride) (i : ℕ) :
    chunkAt start stride chunk i < chunkAt start stride chunk (i + 1) := by
  unfold chunkAt
  rw [coord_add, one_mul]
  calc coord start stride i / chunk < coord start stride i / chunk + 1 := Nat.lt_succ_self _
    _ = (coord start stride i + chunk) / chunk := (Nat.add_div_right _ hc).symm
    _ ≤ _ := Nat.div_le_div_right (by omega)

theorem chunkAt_strictMono (hc : 0 < chunk) (h : chunk ≤ stride) :
    StrictMono (chunkAt start stride chunk) :=
  strictMono_nat_of_lt_succ (chunkAt_lt_succ hc h)

theorem chunksOf_eq_Icc (hc : 0 < chunk) (h : stride ≤ chunk) {b e : ℕ} (hbe : b < e) :
    chunksOf start stride chunk b e =
      Finset.Icc (chunkAt start stride chunk b) (chunkAt start stride chunk (e - 1)) := by
  ext k
  rw [mem_chunksOf, Finset.mem_Icc]
  constructor
  · rintro ⟨i, hb, he, rfl⟩
    exact ⟨chunkAt_mono hb, chunkAt_mono (by omega)⟩
  · rintro ⟨h₁, h₂⟩
    -- walk up from `b` to the last index whose chunk is at most `k`
    have key : ∀ n, b + n < e → k ≤ chunkAt start stride chunk (b + n) →
        ∃ i, b ≤ i ∧ i < e ∧ chunkAt start stride chunk i = k := by
      intro n
      induction n with
      | zero => exact fun hn hk => ⟨b, le_rfl, hbe, le_antisymm h₁ hk⟩
      | succ n ih =>
        intro hn hk
        by_cases hk' : k ≤ chunkAt start stride chunk (b + n)
        · exact ih (by omega) hk'
        · have := chunkAt_succ_le start hc h (b + n)
          exact ⟨b + (n + 1), by omega, hn, by rw [← add_assoc] at hk ⊢; omega⟩
    obtain ⟨n, hn⟩ := Nat.exists_eq_add_of_le (show b ≤ e - 1 by omega)
    exact key n (by omega) (hn ▸ h₂)

/-- **The number of chunks a run of indices meets.** -/
theorem card_chunksOf (hc : 0 < chunk) (b e : ℕ) :
    (chunksOf start stride chunk b e).card =
      if e ≤ b then 0
      else if chunk ≤ stride then e - b
      else chunkAt start stride chunk (e - 1) - chunkAt start stride chunk b + 1 := by
  by_cases hbe : e ≤ b
  · simp [chunksOf, hbe]
  rw [if_neg hbe]
  by_cases h : chunk ≤ stride
  · rw [if_pos h, chunksOf, Finset.card_image_of_injective _ (chunkAt_strictMono hc h).injective,
      Nat.card_Ico]
  · rw [if_neg h, chunksOf_eq_Icc hc (by omega) (by omega), Nat.card_Icc]
    have : chunkAt start stride chunk b ≤ chunkAt start stride chunk (e - 1) :=
      chunkAt_mono (by omega)
    omega

/-! ## Boundaries -/

variable (start stride chunk) in
/-- No chunk is met both by an index below `e` and by one from `e` on. -/
def Boundary (e : ℕ) : Prop := e = 0 ∨
    chunkAt start stride chunk (e - 1) < chunkAt start stride chunk e

theorem Boundary.lt {e i j : ℕ} (h : Boundary start stride chunk e) (hi : i < e) (hj : e ≤ j) :
    chunkAt start stride chunk i < chunkAt start stride chunk j := by
  rcases h with rfl | h
  · omega
  · calc chunkAt start stride chunk i ≤ chunkAt start stride chunk (e - 1) :=
           chunkAt_mono (by omega)
      _ < chunkAt start stride chunk e := h
      _ ≤ _ := chunkAt_mono hj

theorem disjoint_chunksOf {b m b' e : ℕ} (h : Boundary start stride chunk m) (hm : m ≤ b') :
    Disjoint (chunksOf start stride chunk b m) (chunksOf start stride chunk b' e) := by
  rw [Finset.disjoint_left]
  intro k hk hk'
  obtain ⟨i, -, hi, rfl⟩ := mem_chunksOf.1 hk
  obtain ⟨j, hj, -, hij⟩ := mem_chunksOf.1 hk'
  have := h.lt hi (hm.trans hj)
  omega

theorem chunksOf_union {b m e : ℕ} (hb : b ≤ m) (he : m ≤ e) :
    chunksOf start stride chunk b e =
      chunksOf start stride chunk b m ∪ chunksOf start stride chunk m e := by
  rw [chunksOf, chunksOf, chunksOf, ← Finset.image_union, Finset.Ico_union_Ico_eq_Ico hb he]

/-- The numbers of chunks on the two sides of a boundary add up. -/
theorem card_chunksOf_append {b m e : ℕ} (h : Boundary start stride chunk m) (hb : b ≤ m)
    (he : m ≤ e) :
    (chunksOf start stride chunk b e).card =
      (chunksOf start stride chunk b m).card + (chunksOf start stride chunk m e).card := by
  rw [chunksOf_union hb he, Finset.card_union_of_disjoint (disjoint_chunksOf h le_rfl)]

variable (start stride chunk)

/-- The end of a block that begins at `b` and would be `desired` long, out of `total` indices,
moved to a boundary: back to the start of the chunk it falls in, or on to that chunk's end when
this is the chunk the block began in. -/
def blockEnd (b desired total : ℕ) : ℕ :=
  let target := b + desired
  if total ≤ target then total
  else if chunkAt start stride chunk (target - 1) ≠ chunkAt start stride chunk target then target
  else
    let first := firstAt start stride (chunkAt start stride chunk target * chunk)
    if b < first then first
    else min (firstAt start stride ((chunkAt start stride chunk target + 1) * chunk)) total

variable {start stride chunk}

/-- **The four ways a block ends**: at the end of the selection; where it would, when this is a
boundary; at the start of the chunk it would be cut in; at the end of the one chunk it lies in. -/
theorem blockEnd_cases (start : ℕ) (hs : 0 < stride) (hc : 0 < chunk)
    {b desired total : ℕ} (hd : 0 < desired)
    (hb : b < total) :
    (total ≤ b + desired ∧ blockEnd start stride chunk b desired total = total) ∨
    (b + desired < total ∧ Boundary start stride chunk (b + desired) ∧
      blockEnd start stride chunk b desired total = b + desired) ∨
    (b + desired < total ∧
      ∃ e, blockEnd start stride chunk b desired total = e ∧ b < e ∧ e < b + desired ∧
        Boundary start stride chunk e ∧
        chunkAt start stride chunk e = chunkAt start stride chunk (b + desired)) ∨
    (b + desired < total ∧
      ∃ e, blockEnd start stride chunk b desired total = e ∧ b + desired < e ∧ e ≤ total ∧
        (e = total ∨ Boundary start stride chunk e) ∧
        chunkAt start stride chunk (e - 1) = chunkAt start stride chunk b) := by
  by_cases ht : total ≤ b + desired
  · exact Or.inl ⟨ht, by simp [blockEnd, ht]⟩
  push Not at ht
  have hmono : chunkAt start stride chunk (b + desired - 1) ≤
      chunkAt start stride chunk (b + desired) := chunkAt_mono (by omega)
  by_cases hne : chunkAt start stride chunk (b + desired - 1) =
    chunkAt start stride chunk (b + desired)
  swap
  · refine Or.inr (Or.inl ⟨ht, Or.inr (lt_of_le_of_ne hmono hne), ?_⟩)
    simp [blockEnd, not_le.2 ht, hne]
  set k := chunkAt start stride chunk (b + desired) with hk
  set first := firstAt start stride (k * chunk) with hfirst
  have hfirst_le : ∀ {i}, first ≤ i ↔ k ≤ chunkAt start stride chunk i :=
    firstAt_le_chunk_iff hs hc
  by_cases hbf : b < first
  · refine Or.inr (Or.inr (Or.inl ⟨ht, first, ?_, hbf, ?_, ?_, ?_⟩))
    · simp only [blockEnd, not_le.2 ht, hne, ← hk, ← hfirst, hbf, if_true, if_false, ne_eq,
        not_true_eq_false]
    · have : first ≤ b + desired - 1 := hfirst_le.2 (by omega)
      omega
    · refine Or.inr ?_
      have h₁ : ¬ first ≤ first - 1 := by omega
      have h₂ := hfirst_le.1 (le_refl first)
      rw [hfirst_le] at h₁
      omega
    · have h₁ := hfirst_le.1 (le_refl first)
      have h₂ : first ≤ b + desired := hfirst_le.2 le_rfl
      have : chunkAt start stride chunk first ≤ chunkAt start stride chunk (b + desired) :=
        chunkAt_mono h₂
      omega
  · push Not at hbf
    set next := firstAt start stride ((k + 1) * chunk) with hnext
    have hnext_le : ∀ {i}, next ≤ i ↔ k + 1 ≤ chunkAt start stride chunk i :=
      firstAt_le_chunk_iff hs hc
    have hlt : b + desired < next := by
      rw [← not_le, hnext_le]
      omega
    have hkb : chunkAt start stride chunk b = k := by
      have h₁ := hfirst_le.1 hbf
      have : chunkAt start stride chunk b ≤ chunkAt start stride chunk (b + desired) :=
        chunkAt_mono (by omega)
      omega
    refine Or.inr (Or.inr (Or.inr ⟨ht, min next total, ?_, by omega, by omega, ?_, ?_⟩))
    · simp only [blockEnd, not_le.2 ht, hne, ← hk, ← hfirst, ← hnext, not_lt.2 hbf, if_false,
        ne_eq, not_true_eq_false]
    · rcases le_or_gt total next with h | h
      · exact Or.inl (by omega)
      · refine Or.inr (Or.inr ?_)
        rw [min_eq_left h.le]
        have h₁ : ¬ next ≤ next - 1 := by omega
        have h₂ := hnext_le.1 (le_refl next)
        rw [hnext_le] at h₁
        omega
    · have h₁ : ¬ next ≤ min next total - 1 := by omega
      rw [hnext_le] at h₁
      have : chunkAt start stride chunk b ≤ chunkAt start stride chunk (min next total - 1) :=
        chunkAt_mono (by omega)
      omega

section Facts

variable (hs : 0 < stride) (hc : 0 < chunk) {b desired total : ℕ}
  (hd : 0 < desired) (hb : b < total)
include hs hc hd hb

theorem lt_blockEnd : b < blockEnd start stride chunk b desired total := by
  rcases blockEnd_cases start hs hc hd hb with
    ⟨-, e⟩ | ⟨-, -, e⟩ | ⟨-, e', e, h, -⟩ | ⟨-, e', e, h, -⟩ <;> rw [e] <;> omega

theorem blockEnd_le : blockEnd start stride chunk b desired total ≤ total := by
  rcases blockEnd_cases start hs hc hd hb with
    ⟨-, e⟩ | ⟨h, -, e⟩ | ⟨h, e', e, -, h', -⟩ | ⟨-, e', e, -, h, -⟩ <;> rw [e] <;> omega

theorem blockEnd_boundary :
    blockEnd start stride chunk b desired total = total ∨
      Boundary start stride chunk (blockEnd start stride chunk b desired total) := by
  rcases blockEnd_cases start hs hc hd hb with
    ⟨-, e⟩ | ⟨-, h, e⟩ | ⟨-, e', e, -, -, h, -⟩ | ⟨-, e', e, -, -, h, -⟩ <;> rw [e]
  · exact Or.inl rfl
  · exact Or.inr h
  · exact Or.inr h
  · exact h

/-- A block longer than was asked for lies in one chunk. -/
theorem blockEnd_le_or_single :
    blockEnd start stride chunk b desired total ≤ b + desired ∨
      chunkAt start stride chunk (blockEnd start stride chunk b desired total - 1) =
        chunkAt start stride chunk b := by
  rcases blockEnd_cases start hs hc hd hb with
    ⟨h, e⟩ | ⟨-, -, e⟩ | ⟨-, e', e, -, h, -⟩ | ⟨-, e', e, -, -, -, h⟩ <;> rw [e]
  · exact Or.inl h
  · exact Or.inl le_rfl
  · exact Or.inl h.le
  · exact Or.inr h

end Facts

/-! ## The chunks of a block -/

/-- The chunks from that of an index to that of one `n` further. -/
theorem chunkAt_add_sub (hc : 0 < chunk) (b n : ℕ) :
    chunkAt start stride chunk (b + n) - chunkAt start stride chunk b =
      (coord start stride b % chunk + n * stride) / chunk := by
  rw [chunkAt, chunkAt, coord_add]
  conv_lhs => rw [← Nat.div_add_mod (coord start stride b) chunk, Nat.add_assoc,
    Nat.mul_add_div hc, Nat.mul_add_div hc, Nat.mod_div_self]
  simp only [Nat.add_zero, Nat.add_sub_cancel_left]

/-- The chunks a run of indices meets, from where its first one lies in its chunk. -/
theorem card_chunksOf_of_lt (h : stride < chunk) {b e : ℕ} (hbe : b < e) :
    (chunksOf start stride chunk b e).card =
      (coord start stride b % chunk + (e - 1 - b) * stride) / chunk + 1 := by
  have hc : 0 < chunk := by omega
  rw [card_chunksOf hc, if_neg (by omega), if_neg (by omega), ← chunkAt_add_sub hc,
    show b + (e - 1 - b) = e - 1 by omega]

/-- **The number of chunks a block meets**, from where its first index lies in its chunk: those up
to the end of the selection when it reaches it, and otherwise those before the one it would be cut
in. -/
theorem card_chunksOf_blockEnd (h : stride < chunk) (hs : 0 < stride) {b desired total : ℕ}
    (hd : 0 < desired) (hb : b < total) :
    (chunksOf start stride chunk b (blockEnd start stride chunk b desired total)).card =
      if total ≤ b + desired then (coord start stride b % chunk +
        (total - 1 - b) * stride) / chunk + 1
      else max 1 ((coord start stride b % chunk + desired * stride) / chunk) := by
  have hc : 0 < chunk := by omega
  -- one step on from the last index before a boundary is one chunk on
  have hnext : ∀ e, 0 < e → Boundary start stride chunk e →
      chunkAt start stride chunk e = chunkAt start stride chunk (e - 1) + 1 := fun e he hbd => by
    have hle := chunkAt_succ_le start hc h.le (e - 1)
    rw [show e - 1 + 1 = e by omega] at hle
    have := hbd.resolve_left (by omega)
    omega
  have hsub : chunkAt start stride chunk (b + desired) - chunkAt start stride chunk b =
      (coord start stride b % chunk + desired * stride) / chunk := chunkAt_add_sub hc b desired
  rcases blockEnd_cases start hs hc hd hb with
    ⟨ht, e⟩ | ⟨ht, hbd, e⟩ | ⟨ht, e', e, hlt, -, hbd, hch⟩ | ⟨ht, e', e, hlt, -, -, hch⟩ <;> rw [e]
  · rw [if_pos ht, card_chunksOf_of_lt h hb]
  · have hlast := hnext _ (by omega) hbd
    have hmono : chunkAt start stride chunk b ≤ chunkAt start stride chunk (b + desired - 1) :=
      chunkAt_mono (by omega)
    rw [if_neg (by omega), card_chunksOf hc, if_neg (by omega), if_neg (by omega), ← hsub]
    omega
  · have hlast := hnext _ (by omega) hbd
    have hmono : chunkAt start stride chunk b ≤ chunkAt start stride chunk (e' - 1) :=
      chunkAt_mono (by omega)
    rw [if_neg (by omega), card_chunksOf hc, if_neg (by omega), if_neg (by omega), ← hsub]
    omega
  · have hmono : chunkAt start stride chunk (b + desired) ≤ chunkAt start stride chunk (e' - 1) :=
      chunkAt_mono (by omega)
    rw [if_neg (by omega), card_chunksOf hc, if_neg (by omega), if_neg (by omega), ← hsub]
    omega

end CartaZarr.Strided
