import Mathlib.Algebra.Order.BigOperators.Group.Finset
import Mathlib.Algebra.Order.Interval.Finset.SuccPred
import Mathlib.Data.Nat.SuccPred
import Mathlib.Order.Lattice.Nat
import CartaZarr.Read.Touched

/-!
# What decoding one pixel chunk decodes

The exact numbers behind `ReadCost`: the bytes of a pixel chunk, and of the flag chunks that one
pixel chunk lies across at most (`isGreatest_flagChunks`). The sums the code makes are these modulo
`2 ^ 64` (`decodedChunkBytes_eq`, `decodedFlagBytes_eq`), where no step of its walk along an axis
wraps.

A request touches no more flag chunks than its pixel chunks can lie across (`card_touched_flag_le`).
So what a read decodes is at most the cost of its pixel chunks, exactly when that cost fits a word
(`readCost_bounds_iff`).
-/

namespace CartaZarr

open Word

/-! ## Along one axis -/

section Axis

variable {length p f : ℕ}

/-- The pixel chunk `c` of an axis, clipped to it. -/
def pixelRange (length p c : ℕ) : Range := ⟨c * p, min p (length - c * p), 1⟩

/-- The flag chunks that a pixel chunk of an axis lies across. -/
def flagChunksOn (length p f c : ℕ) : ℕ := ((pixelRange length p c).chunks f).card

/-- The most flag chunks that a pixel chunk of an axis lies across; one, of an axis without
elements. -/
def mostFlagChunks (length p f : ℕ) : ℕ :=
  max 1 ((Finset.range (length ⌈/⌉ p)).sup (flagChunksOn length p f))

theorem lt_ceilDiv_iff (hp : 0 < p) {c : ℕ} : c < length ⌈/⌉ p ↔ c * p < length := by
  rw [← not_le, ceilDiv_le_iff_le_mul hp, not_le, Nat.mul_comm]

theorem coord_pixelRange (c i : ℕ) :
    Strided.coord (pixelRange length p c).start (pixelRange length p c).stride i = c * p + i := by
  simp [pixelRange, Strided.coord]

theorem flagChunksOn_eq (hf : 0 < f) (hp : 0 < p) {c : ℕ} (hc : c * p < length) :
    flagChunksOn length p f c = (min (c * p + p) length - 1) / f - c * p / f + 1 := by
  have hlast : c * p + (min p (length - c * p) - 1) = min (c * p + p) length - 1 := by omega
  have hcard : flagChunksOn length p f c = _ :=
    Strided.card_chunksOf hf 0 (min p (length - c * p))
  rw [hcard, if_neg (by omega)]
  simp only [Strided.chunkAt, Strided.coord, mul_one, pixelRange, hlast, Nat.add_zero]
  split_ifs with h
  · rw [show f = 1 by omega, Nat.div_one, Nat.div_one]
    omega
  · rfl

theorem flagChunksOn_pos (hf : 0 < f) (hp : 0 < p) {c : ℕ} (hc : c * p < length) :
    0 < flagChunksOn length p f c := by
  rw [flagChunksOn_eq hf hp hc]
  exact Nat.succ_pos _

/-- A pixel chunk lies across one chunk of the same size. -/
theorem flagChunksOn_self (hp : 0 < p) {c : ℕ}
    (hc : c * p < length) : flagChunksOn length p p c = 1 := by
  have hlast : (min (c * p + p) length - 1) / p = c :=
    Nat.div_eq_of_lt_le (by omega) (by rw [Nat.add_mul, one_mul]; omega)
  rw [flagChunksOn_eq hp hp hc, hlast, Nat.mul_div_cancel _ hp, Nat.sub_self]

theorem flagChunksOn_le_most (hp : 0 < p) (f : ℕ) {c : ℕ} (hc : c * p < length) :
    flagChunksOn length p f c ≤ mostFlagChunks length p f :=
  (Finset.le_sup (Finset.mem_range.2 ((lt_ceilDiv_iff hp).2 hc))).trans (le_max_right _ _)

theorem mostFlagChunks_pos : 0 < mostFlagChunks length p f :=
  lt_of_lt_of_le Nat.one_pos (le_max_left _ _)

theorem mostFlagChunks_self (hp : 0 < p) : mostFlagChunks length p p = 1 :=
  max_eq_left (Finset.sup_le fun _ hc =>
    (flagChunksOn_self hp ((lt_ceilDiv_iff hp).1 (Finset.mem_range.1 hc))).le)

/-- Some pixel chunk lies across the most flag chunks. -/
theorem exists_flagChunksOn_eq (hf : 0 < f) (hp : 0 < p) (hlength : 0 < length) :
    ∃ c, c * p < length ∧ flagChunksOn length p f c = mostFlagChunks length p f := by
  have hne : (Finset.range (length ⌈/⌉ p)).Nonempty :=
    ⟨0, Finset.mem_range.2 ((lt_ceilDiv_iff hp).2 (by omega))⟩
  obtain ⟨c, hc, hsup⟩ := Finset.exists_mem_eq_sup _ hne (flagChunksOn length p f)
  have hlt := (lt_ceilDiv_iff hp).1 (Finset.mem_range.1 hc)
  refine ⟨c, hlt, ?_⟩
  rw [mostFlagChunks, hsup, max_eq_right (flagChunksOn_pos hf hp hlt)]

theorem Ico_ceilDiv_eq_empty (hp : 0 < p) {c : ℕ} (h : length ≤ c * p) :
    Finset.Ico c (length ⌈/⌉ p) = ∅ :=
  Finset.Ico_eq_empty_of_le (not_lt.1 (mt (lt_ceilDiv_iff hp).1 (not_lt.2 h)))

/-- The walk from a pixel chunk on finds the most of those that are left. -/
theorem flagChunksWalk_eq (hf : 0 < f) (hp : 0 < p) (hfit : length + p ≤ 2 ^ 64) {fuel c most : ℕ}
    (hfuel : length ≤ c * p + fuel) :
    flagChunksWalk length p f fuel (c * p) most =
      some (max most ((Finset.Ico c (length ⌈/⌉ p)).sup (flagChunksOn length p f))) := by
  induction fuel generalizing c most with
  | zero => simp [flagChunksWalk, Ico_ceilDiv_eq_empty hp hfuel, show ¬ c * p < length by omega]
  | succ fuel ih =>
    unfold flagChunksWalk
    by_cases hc : c * p < length
    · have hnext : add (c * p) p = (c + 1) * p := by
        rw [add_eq (by omega), Nat.add_mul, one_mul]
      have hon := flagChunksOn_eq hf hp hc
      rw [show c * p + p = (c + 1) * p by rw [Nat.add_mul, one_mul]] at hon
      -- the elements of the chunk are below the end of the axis, so that nothing of its count wraps
      have hlast : sub (min ((c + 1) * p) length) 1 = min ((c + 1) * p) length - 1 :=
        sub_eq (by rw [Nat.add_mul, one_mul]; omega) (by omega)
      have hle : c * p / f ≤ (min ((c + 1) * p) length - 1) / f :=
        Nat.div_le_div_right (by rw [Nat.add_mul, one_mul]; omega)
      have hlt : (min ((c + 1) * p) length - 1) / f < 2 ^ 64 - 1 :=
        (Nat.div_le_self _ _).trans_lt (by omega)
      simp only [hc, if_true, hnext, hlast]
      rw [sub_eq hle (by omega), add_eq ((Nat.succ_le_succ (Nat.sub_le _ _)).trans_lt (by omega)),
        ih (by rw [Nat.add_mul, one_mul]; omega), ← hon,
        max_assoc, ← Finset.insert_Ico_add_one_left_eq_Ico ((lt_ceilDiv_iff hp).2 hc),
        Finset.sup_insert]
    · simp [hc, Ico_ceilDiv_eq_empty hp (not_lt.1 hc)]

/-- **The code's walk finds the most flag chunks**, when none of its steps wraps. -/
theorem flagChunksAcross_eq (hf : 0 < f) (hp : 0 < p) (hfit : length + p ≤ 2 ^ 64) :
    flagChunksAcross length p f = mostFlagChunks length p f := by
  unfold flagChunksAcross
  by_cases h : f = 0 ∨ length = 0 ∨ f = p
  · rw [if_pos h]
    rcases h with h | rfl | rfl
    · omega
    · simp [mostFlagChunks]
    · rw [mostFlagChunks_self hp]
  · have hwalk : flagChunksWalk length p f length (0 * p) 1 = _ :=
      flagChunksWalk_eq hf hp hfit (by omega)
    rw [Nat.zero_mul] at hwalk
    simp only [if_neg h, if_neg hp.ne', hwalk, Option.getD_some, mostFlagChunks,
      Finset.range_eq_Ico]

/-- **A range meets no more flag chunks than its pixel chunks can lie across.** -/
theorem card_chunks_flag_le (hp : 0 < p) (f : ℕ) {range : Range}
    (hlast : Strided.coord range.start range.stride (range.count - 1) < length) :
    (range.chunks f).card ≤ (range.chunks p).card * mostFlagChunks length p f := by
  have hsub : range.chunks f ⊆ (range.chunks p).biUnion fun c =>
      (pixelRange length p c).chunks f := by
    intro k hk
    obtain ⟨i, -, hi, rfl⟩ := Strided.mem_chunksOf.1 hk
    set x := Strided.coord range.start range.stride i with hx
    have hlt : x < length := (Strided.coord_mono (by omega)).trans_lt hlast
    have hdm := Nat.div_add_mod x p
    have hmod := Nat.mod_lt x hp
    rw [Nat.mul_comm] at hdm
    refine Finset.mem_biUnion.2 ⟨x / p, Strided.chunkAt_mem (Nat.zero_le _) hi, ?_⟩
    refine Strided.mem_chunksOf.2 ⟨x % p, Nat.zero_le _, ?_, ?_⟩
    · show x % p < min p (length - x / p * p)
      omega
    · rw [Strided.chunkAt, coord_pixelRange, hdm]
      rfl
  refine (Finset.card_le_card hsub).trans (Finset.card_biUnion_le_card_mul _ _ _ fun c hc => ?_)
  obtain ⟨i, -, hi, rfl⟩ := Strided.mem_chunksOf.1 hc
  exact flagChunksOn_le_most hp f ((Nat.div_mul_le_self _ _).trans_lt
    ((Strided.coord_mono (by omega)).trans_lt hlast))

end Axis

/-! ## Along every axis -/

/-- The elements of a chunk. -/
def chunkVolume (d : ImageDescriptor)
    (g : ChunkGeometry) : ℕ := ∏ i ∈ Finset.range d.rank, g.chunk i

/-- The bytes that a pixel chunk decodes to. -/
def pixelChunkBytes (d : ImageDescriptor) (g : ChunkGeometry) : ℕ :=
  chunkVolume d g * d.storedType.elementBytes.getD 4

/-- The most flag chunks that a pixel chunk lies across. -/
def flagChunksBeside (d : ImageDescriptor) (g f : ChunkGeometry) : ℕ :=
  ∏ i ∈ Finset.range d.rank, mostFlagChunks (d.length i) (g.chunk i) (f.chunk i)

/-- The bytes of the most flag chunks that a pixel chunk lies across. -/
def flagBytesBeside (d : ImageDescriptor) (g f : ChunkGeometry) : ℕ :=
  flagChunksBeside d g f * chunkVolume d f

/-- The most bytes that one pixel chunk decodes to, with the flag it brings. -/
def chunkBytesBeside (d : ImageDescriptor) (g f : ChunkGeometry) (o : ReadOptions) : ℕ :=
  pixelChunkBytes d g + if appliesPixelMask o d then flagBytesBeside d g f else 0

section Geometry

variable {d : ImageDescriptor} {g f : ChunkGeometry} {r : ReadRequest}

theorem elementBytes_pos (t : DataType) : 0 < t.elementBytes.getD 4 := by cases t <;> decide

theorem chunkVolume_pos (hg : g.Of d) : 0 < chunkVolume d g :=
  Finset.prod_pos fun i hi => hg.chunk_pos i (Finset.mem_range.1 hi)

theorem pixelChunkBytes_pos (hg : g.Of d) : 0 < pixelChunkBytes d g :=
  Nat.mul_pos (chunkVolume_pos hg) (elementBytes_pos _)

/-- The code counts the elements of a chunk modulo a word. -/
theorem chunkElements_eq (hg : g.Of d) : chunkElements g = chunkVolume d g % 2 ^ 64 := by
  have hfold := foldl_mul_mod (g := fun elements (n : UInt64) => mul elements (max 1 n.toNat))
    (f := fun n => max 1 n.toNat) (l := g.chunkShape) (fun _ _ _ => rfl) 1
  have hprod : (g.chunkShape.map fun n => max 1 n.toNat).prod = chunkVolume d g := by
    rw [chunkVolume, ← hg.length_eq, ← prod_map_range]
    congr 1
    refine List.ext_getElem (by simp) fun i h₁ h₂ => ?_
    have hi : i < g.chunkShape.length := by simpa using h₁
    have hpos := hg.chunk_pos i (hg.length_eq ▸ hi)
    rw [ChunkGeometry.chunk, List.getD_eq_getElem _ _ hi] at hpos
    simp only [List.getElem_map, List.getElem_range, ChunkGeometry.chunk,
      List.getD_eq_getElem _ _ hi]
    exact max_eq_right hpos
  rw [hprod, one_mul] at hfold
  exact hfold

/-- The code counts the bytes of a pixel chunk modulo a word. -/
theorem decodedChunkBytes_eq (hg : g.Of d) :
    decodedChunkBytes d g = max 1 (pixelChunkBytes d g % 2 ^ 64) := by
  rw [decodedChunkBytes, chunkElements_eq hg, mul, Nat.mod_mul_mod]
  rfl

/-- **The code counts the bytes of flag modulo a word**, when no step of its walk wraps. -/
theorem decodedFlagBytes_eq (hg : g.Of d) (hf : f.Of d)
    (hwalk : ∀ i < d.rank, d.length i + g.chunk i ≤ 2 ^ 64) :
    decodedFlagBytes d g f = flagBytesBeside d g f % 2 ^ 64 := by
  have hflag : (if f.chunkShape.isEmpty then g else f).chunk = f.chunk ∨ d.rank = 0 := by
    by_cases h : f.chunkShape.isEmpty
    · right
      rw [← hf.length_eq, List.isEmpty_iff.1 h, List.length_nil]
    · exact Or.inl (by rw [if_neg h])
  have hfold := foldl_mul_mod (g := fun bytes axis =>
    mul bytes (mul (flagChunksAcross (d.length axis)
      (g.chunk axis) ((if f.chunkShape.isEmpty then g else f).chunk axis))
      (max 1 ((if f.chunkShape.isEmpty then g else f).chunk axis))))
    (f := fun axis => mostFlagChunks (d.length axis) (g.chunk axis) (f.chunk axis) * f.chunk axis)
    (l := List.range d.rank) (fun i hi acc => by
      have hi := List.mem_range.1 hi
      have hpos := hf.chunk_pos i hi
      rw [congrFun (hflag.resolve_right (by omega)) i, max_eq_right (show 1 ≤ f.chunk i from hpos),
        flagChunksAcross_eq hpos (hg.chunk_pos i hi) (hwalk i hi), mul, mul, Nat.mul_mod_mod]) 1
  rw [prod_map_range, Finset.prod_mul_distrib, one_mul] at hfold
  exact hfold

/-- A request touches no more flag chunks than its pixel chunks can lie across. -/
theorem card_touched_flag_le (hin : r.Inside d) (hg : g.Of d) (f : ChunkGeometry) :
    (r.touched f).card ≤ (r.touched g).card * flagChunksBeside d g f := by
  rw [ReadRequest.card_touched hin, ReadRequest.card_touched hin, flagChunksBeside,
    ← Finset.prod_mul_distrib]
  refine Finset.prod_le_prod (fun _ _ => Nat.zero_le _) fun i hi => ?_
  have hi := Finset.mem_range.1 hi
  exact card_chunks_flag_le (hg.chunk_pos i hi) _ (hin.last_lt i hi)

/-- Chunked alike, a request touches as many chunks of the flag as of the pixels. -/
theorem touched_flag_of_alike (hin : r.Inside d) (hg : g.Of d)
    (halike : ∀ i < d.rank, f.chunk i = g.chunk i) :
    (r.touched f).card = (r.touched g).card ∧ flagChunksBeside d g f = 1 := by
  rw [ReadRequest.card_touched hin, ReadRequest.card_touched hin]
  refine ⟨Finset.prod_congr rfl fun i hi => by rw [halike i (Finset.mem_range.1 hi)],
    Finset.prod_eq_one fun i hi => ?_⟩
  have hi := Finset.mem_range.1 hi
  rw [halike i hi, mostFlagChunks_self (hg.chunk_pos i hi)]

end Geometry

/-! ## The request of one pixel chunk -/

/-- The request of the whole of one pixel chunk, given by its place along every axis. -/
def chunkRequest (d : ImageDescriptor) (g : ChunkGeometry) (c : ℕ → ℕ) : ReadRequest :=
  ⟨(List.range d.rank).map fun i => pixelRange (d.length i) (g.chunk i) (c i)⟩

section ChunkRequest

variable {d : ImageDescriptor} {g f : ChunkGeometry} {c : ℕ → ℕ}

theorem axis_chunkRequest {i : ℕ} (hi : i < d.rank) :
    (chunkRequest d g c).axis i = pixelRange (d.length i) (g.chunk i) (c i) := by
  rw [ReadRequest.axis_eq_getElem _ (by simpa [chunkRequest] using hi)]
  simp [chunkRequest]

variable (hg : g.Of d) (hc : ∀ i < d.rank, c i * g.chunk i < d.length i)
include hg hc

theorem chunkRequest_inside : (chunkRequest d g c).Inside d where
  rank_eq := by simp [chunkRequest]
  stride_pos i hi := by
    rw [axis_chunkRequest hi]
    exact Nat.one_pos
  count_pos i hi := by
    have hlt := hc i hi
    rw [axis_chunkRequest hi]
    exact lt_min (hg.chunk_pos i hi) (by omega)
  last_lt i hi := by
    have hlt := hc i hi
    have hpos := hg.chunk_pos i hi
    rw [axis_chunkRequest hi, coord_pixelRange]
    simp only [pixelRange]
    omega

theorem chunkRequest_valid (hfit : chunkVolume d g < 2 ^ 64) : (chunkRequest d g c).Valid d := by
  refine ⟨chunkRequest_inside hg hc, lt_of_le_of_lt ?_ hfit⟩
  rw [ReadRequest.elements_eq_prod, (chunkRequest_inside hg hc).rank_eq]
  refine Finset.prod_le_prod (fun _ _ => Nat.zero_le _) fun i hi => ?_
  rw [axis_chunkRequest (Finset.mem_range.1 hi)]
  exact min_le_left _ _

theorem card_touched_chunkRequest (f : ChunkGeometry) : ((chunkRequest d g c).touched f).card =
    ∏ i ∈ Finset.range d.rank, flagChunksOn (d.length i) (g.chunk i) (f.chunk i) (c i) := by
  rw [ReadRequest.card_touched (chunkRequest_inside hg hc)]
  refine Finset.prod_congr rfl fun i hi => ?_
  rw [axis_chunkRequest (Finset.mem_range.1 hi), flagChunksOn]

theorem card_touched_chunkRequest_self : ((chunkRequest d g c).touched g).card = 1 := by
  rw [card_touched_chunkRequest hg hc]
  refine Finset.prod_eq_one fun i hi => ?_
  have hi := Finset.mem_range.1 hi
  exact flagChunksOn_self (hg.chunk_pos i hi) (hc i hi)

omit hc in
/-- **The number beside is the most**: some pixel chunk lies across as many flag chunks, and none
across more. -/
theorem isGreatest_flagChunks (hf : f.Of d) (hlength : ∀ i < d.rank, 0 < d.length i) :
    IsGreatest {n | ∃ c : ℕ → ℕ, (∀ i < d.rank, c i * g.chunk i < d.length i) ∧
      n = ((chunkRequest d g c).touched f).card} (flagChunksBeside d g f) := by
  constructor
  · have hmost : ∀ i, ∃ c, i < d.rank → c * g.chunk i < d.length i ∧
        flagChunksOn (d.length i) (g.chunk i) (f.chunk i) c =
          mostFlagChunks (d.length i) (g.chunk i) (f.chunk i) := fun i => by
      by_cases hi : i < d.rank
      · obtain ⟨c, hc⟩ := exists_flagChunksOn_eq (hf.chunk_pos i hi)
          (hg.chunk_pos i hi) (hlength i hi)
        exact ⟨c, fun _ => hc⟩
      · exact ⟨0, fun h => absurd h hi⟩
    choose c hc using hmost
    have hin : ∀ i < d.rank, c i * g.chunk i < d.length i := fun i hi => (hc i hi).1
    refine ⟨c, hin, ?_⟩
    rw [card_touched_chunkRequest hg hin]
    exact Finset.prod_congr rfl fun i hi => ((hc i (Finset.mem_range.1 hi)).2).symm
  · rintro n ⟨c, hc, rfl⟩
    have hle := card_touched_flag_le (chunkRequest_inside hg hc) hg f
    rwa [card_touched_chunkRequest_self hg hc, one_mul] at hle

end ChunkRequest

end CartaZarr
