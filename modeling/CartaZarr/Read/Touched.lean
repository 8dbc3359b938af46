import Mathlib.Data.Fintype.BigOperators
import CartaZarr.Read.Prefetch

/-!
# The chunks a request touches

A request touches the chunks that hold an element of it (`ReadRequest.touched`). Along each axis
these are the chunks of its range, and together every combination of them, so their number is a
product (`card_touched`). A sample of one element of every chunk has as many elements as its request
touches chunks, each in a chunk of its own (`sample_chunks_nodup`).
-/

namespace CartaZarr

open Word

/-- The chunk an image index lies in, by its place along every axis. -/
def ChunkGeometry.chunkIndex (g : ChunkGeometry) (index : List ℕ) : List ℕ :=
  index.mapIdx fun i x => x / g.chunk i

namespace ReadRequest

variable {d : ImageDescriptor} {g : ChunkGeometry} {r : ReadRequest}

theorem elements_eq_prod (r : ReadRequest) :
    r.elements = ∏ i ∈ Finset.range r.axes.length, (r.axis i).count := by
  rw [← prod_map_range, elements]
  congr 1
  apply List.ext_getElem (by simp)
  intro i h1 h2
  have hi : i < r.axes.length := by simpa using h1
  have := r.counts_getD hi 0
  rw [List.getD_eq_getElem _ _ h1] at this
  simpa using this

/-- The axes of an image that something was selected of are no longer than it has elements. -/
theorem Inside.length_le (hin : r.Inside d) {i : ℕ} (hi : i < d.rank) :
    d.length i ≤ ∏ j ∈ Finset.range d.rank, d.length j := by
  rw [← Finset.mul_prod_erase _ _ (Finset.mem_range.2 hi)]
  refine Nat.le_mul_of_pos_right _ (Finset.prod_pos fun j hj => ?_)
  have hj' := Finset.mem_range.1 (Finset.mem_of_mem_erase hj)
  exact (hin.count_pos j hj').trans_le (hin.count_le hj')

/-- The image indices of a request, in its order. -/
def indices (r : ReadRequest) : List (List ℕ) := (List.range r.elements).map r.elementIndex

/-- The chunks that hold an element of a request. -/
def touched (r : ReadRequest) (g : ChunkGeometry) : Finset (List ℕ) :=
  (r.indices.map g.chunkIndex).toFinset

theorem mem_indices (hin : r.Inside d) {index : List ℕ} : index ∈ r.indices ↔ r.Has index := by
  rw [indices, List.mem_map]
  constructor
  · rintro ⟨k, -, rfl⟩
    exact has_elementIndex hin k
  · intro h
    obtain ⟨k, hk, rfl⟩ := h.exists_elementIndex
    exact ⟨k, List.mem_range.2 hk, rfl⟩

theorem mem_touched (hin : r.Inside d) {c : List ℕ} :
    c ∈ r.touched g ↔ ∃ index, r.Has index ∧ g.chunkIndex index = c := by
  rw [touched, List.mem_toFinset, List.mem_map]
  exact exists_congr fun index => and_congr_left' (mem_indices hin)

theorem indexAt_eq_ofFn (r : ReadRequest) (n : ℕ → ℕ) : r.indexAt n =
    List.ofFn fun i : Fin r.axes.length =>
      Strided.coord (r.axis i).start (r.axis i).stride (n i) := by
  refine List.ext_getElem (by simp [indexAt]) fun i h₁ h₂ => ?_
  simp [indexAt]

theorem chunkIndex_indexAt (g : ChunkGeometry) (r : ReadRequest) (n : ℕ → ℕ) :
    g.chunkIndex (r.indexAt n) = List.ofFn fun i : Fin r.axes.length =>
      Strided.chunkAt (r.axis i).start (r.axis i).stride (g.chunk i) (n i) := by
  rw [indexAt_eq_ofFn]
  refine List.ext_getElem (by simp [ChunkGeometry.chunkIndex]) fun i h₁ h₂ => ?_
  simp [ChunkGeometry.chunkIndex, Strided.chunkAt]

/-- The chunks touched are all combinations of those touched along the axes. -/
theorem touched_eq_image (hin : r.Inside d) (g : ChunkGeometry) : r.touched g =
    (Fintype.piFinset fun i : Fin r.axes.length => (r.axis i).chunks (g.chunk i)).image
      List.ofFn := by
  ext c
  rw [mem_touched hin, Finset.mem_image]
  constructor
  · rintro ⟨index, ⟨n, hn, rfl⟩, rfl⟩
    refine ⟨fun i => Strided.chunkAt (r.axis i).start (r.axis i).stride (g.chunk i) (n i), ?_,
      (chunkIndex_indexAt g r n).symm⟩
    rw [Fintype.mem_piFinset]
    exact fun i => Strided.chunkAt_mem (Nat.zero_le _) (hn i i.isLt)
  · rintro ⟨t, ht, rfl⟩
    rw [Fintype.mem_piFinset] at ht
    have hmem : ∀ i : Fin r.axes.length, ∃ k < (r.axis i).count,
        Strided.chunkAt (r.axis i).start (r.axis i).stride (g.chunk i) k = t i := fun i => by
      obtain ⟨k, -, hk, h⟩ := Strided.mem_chunksOf.1 (ht i)
      exact ⟨k, hk, h⟩
    choose k hk hchunk using hmem
    let n : ℕ → ℕ := fun i => if hi : i < r.axes.length then k ⟨i, hi⟩ else 0
    have hn : ∀ i : Fin r.axes.length, n i = k i := fun i => by simp [n]
    refine ⟨r.indexAt n, ⟨n, fun i hi => ?_, rfl⟩, ?_⟩
    · rw [show n i = k ⟨i, hi⟩ from hn ⟨i, hi⟩]
      exact hk ⟨i, hi⟩
    · rw [chunkIndex_indexAt]
      congr 1
      funext i
      rw [hn i, hchunk i]

/-- **The chunks touched, counted.** -/
theorem card_touched (hin : r.Inside d) (g : ChunkGeometry) :
    (r.touched g).card = ∏ i ∈ Finset.range d.rank, ((r.axis i).chunks (g.chunk i)).card := by
  rw [touched_eq_image hin, Finset.card_image_of_injective _ List.ofFn_injective,
    Fintype.card_piFinset, ← hin.rank_eq, ← Fin.prod_univ_eq_prod_range
      fun i => ((r.axis i).chunks (g.chunk i)).card]

/-- A chunk is touched when it is along every axis. -/
theorem mem_touched_iff (hin : r.Inside d) {c : List ℕ} :
    c ∈ r.touched g ↔
      c.length = d.rank ∧ ∀ i < d.rank, c.getD i 0 ∈ (r.axis i).chunks (g.chunk i) := by
  rw [touched_eq_image hin, Finset.mem_image, ← hin.rank_eq]
  constructor
  · rintro ⟨t, ht, rfl⟩
    refine ⟨by simp, fun i hi => ?_⟩
    rw [List.getD_eq_getElem _ _ (by simpa using hi), List.getElem_ofFn]
    exact Fintype.mem_piFinset.1 ht ⟨i, hi⟩
  · rintro ⟨hlen, hmem⟩
    refine ⟨fun i => c.getD i 0, Fintype.mem_piFinset.2 fun i => hmem i i.isLt, ?_⟩
    refine List.ext_getElem (by simp [hlen]) fun i h₁ h₂ => ?_
    rw [List.getElem_ofFn, List.getD_eq_getElem _ _ h₂]

/-- Elements with the same image index have the same numbers. -/
theorem indexAt_inj (hin : r.Inside d) {n m : ℕ → ℕ} (h : r.indexAt n = r.indexAt m) {i : ℕ}
    (hi : i < d.rank) : n i = m i := by
  rw [indexAt_eq_ofFn, indexAt_eq_ofFn] at h
  have hcoord := congrFun (List.ofFn_injective h) ⟨i, hin.rank_eq.symm ▸ hi⟩
  simp only [Strided.coord] at hcoord
  exact Nat.eq_of_mul_eq_mul_right (hin.stride_pos i hi) (by omega)

theorem indices_nodup (hin : r.Inside d) : r.indices.Nodup := by
  refine List.Nodup.map_on (fun k hk k' hk' h => ?_) List.nodup_range
  rw [List.mem_range] at hk hk'
  have hdigits : MixedRadix.number r.counts (MixedRadix.digit r.counts k) =
      MixedRadix.number r.counts (MixedRadix.digit r.counts k') :=
    MixedRadix.number_congr fun i hi => indexAt_inj hin h (by simpa [hin.rank_eq] using hi)
  rwa [MixedRadix.number_digit hk, MixedRadix.number_digit hk'] at hdigits

end ReadRequest

/-! ## A sample of one element of every chunk -/

section Sample

variable {d : ImageDescriptor} {g : ChunkGeometry} {r : ReadRequest}

/-- The elements of a sample lie in chunks of their own, along every axis. -/
theorem chunkAt_sample_injective (hin : r.Inside d) (hpos : ∀ i < d.rank, 0 < g.chunk i) {i : ℕ}
    (hi : i < d.rank) :
    Function.Injective (Strided.chunkAt ((oneElementPerChunk g r).axis i).start
      ((oneElementPerChunk g r).axis i).stride (g.chunk i)) := by
  rw [axis_oneElementPerChunk hin hpos hi]
  split_ifs with h
  · exact (Strided.chunkAt_strictMono (hpos i hi) h).injective
  · exact (Strided.chunkAt_strictMono (hpos i hi) le_rfl).injective

/-- A sample touches the chunks of its request, along every axis. -/
theorem chunks_sample (hin : r.Inside d) (hpos : ∀ i < d.rank, 0 < g.chunk i)
    {i : ℕ} (hi : i < d.rank) :
    ((oneElementPerChunk g r).axis i).chunks (g.chunk i) = (r.axis i).chunks (g.chunk i) := by
  rw [axis_oneElementPerChunk hin hpos hi]
  split_ifs with h
  · rfl
  have hc := hpos i hi
  have hcount := hin.count_pos i hi
  have hle : (r.axis i).start / g.chunk i ≤ Strided.chunkAt (r.axis i).start (r.axis i).stride
      (g.chunk i) ((r.axis i).count - 1) := Nat.div_le_div_right (Nat.le_add_right _ _)
  have hat : ∀ k, Strided.chunkAt ((r.axis i).start / g.chunk i * g.chunk i)
    (g.chunk i) (g.chunk i) k =
      (r.axis i).start / g.chunk i + k := fun k => by
    rw [Strided.chunkAt, Strided.coord, ← Nat.add_mul, Nat.mul_div_cancel _ hc]
  have hfirst : Strided.chunkAt (r.axis i).start (r.axis i).stride (g.chunk i) 0 =
      (r.axis i).start / g.chunk i := by simp [Strided.chunkAt, Strided.coord]
  rw [Range.chunks, Range.chunks, Strided.chunksOf_eq_Icc hc le_rfl (Nat.succ_pos _),
    Strided.chunksOf_eq_Icc hc (by omega) hcount, hat, hat, hfirst]
  congr 1
  omega

theorem touched_sample (hin : r.Inside d) (hpos : ∀ i < d.rank, 0 < g.chunk i) :
    (oneElementPerChunk g r).touched g = r.touched g := by
  ext c
  rw [ReadRequest.mem_touched_iff (oneElementPerChunk_inside hin hpos),
    ReadRequest.mem_touched_iff hin]
  exact and_congr_right fun _ => forall₂_congr fun i hi => by rw [chunks_sample hin hpos hi]

/-- **A sample has one element of every chunk its request touches.** -/
theorem sample_chunks_nodup (hin : r.Inside d) (hpos : ∀ i < d.rank, 0 < g.chunk i) :
    ((oneElementPerChunk g r).indices.map g.chunkIndex).Nodup := by
  have hsin := oneElementPerChunk_inside hin hpos
  refine List.Nodup.map_on (fun index hindex index' hindex' h => ?_)
    (ReadRequest.indices_nodup hsin)
  obtain ⟨n, hn, rfl⟩ := (ReadRequest.mem_indices hsin).1 hindex
  obtain ⟨m, hm, rfl⟩ := (ReadRequest.mem_indices hsin).1 hindex'
  rw [ReadRequest.chunkIndex_indexAt, ReadRequest.chunkIndex_indexAt] at h
  rw [ReadRequest.indexAt_eq_ofFn, ReadRequest.indexAt_eq_ofFn]
  congr 1
  funext i
  have hi : (i : ℕ) < d.rank := hsin.rank_eq ▸ i.isLt
  rw [chunkAt_sample_injective hin hpos hi (congrFun (List.ofFn_injective h) i)]

theorem elements_sample (hin : r.Inside d) (hpos : ∀ i < d.rank, 0 < g.chunk i) :
    (oneElementPerChunk g r).elements = (r.touched g).card := by
  rw [← touched_sample hin hpos, ReadRequest.touched,
    List.toFinset_card_of_nodup (sample_chunks_nodup hin hpos)]
  simp [ReadRequest.indices]

theorem card_touched_le (r : ReadRequest) (g : ChunkGeometry) : (r.touched g).card ≤ r.elements :=
  (List.toFinset_card_le _).trans (by simp [ReadRequest.indices])

/-- A sample of a request that is accepted is accepted. -/
theorem oneElementPerChunk_valid (hv : r.Valid d) (hpos : ∀ i < d.rank, 0 < g.chunk i) :
    (oneElementPerChunk g r).Valid d :=
  ⟨oneElementPerChunk_inside hv.toInside hpos, by
    rw [elements_sample hv.toInside hpos]
    exact (card_touched_le r g).trans_lt hv.elements_lt⟩

end Sample

end CartaZarr
