import CartaZarr.Reduce.Bands

/-!
# The chunks a pass decodes

A read touches the chunks that its pixels lie in (`SlabRead.chunks`). When the footprints of a pass
have no chunk in common, neither have its reads: slabs of one footprint begin where no chunk is
shared along the spectrum, in one block and across blocks (`reads_disjoint`, `blockReads_disjoint`).
What a walk adds to its count of chunks after a read is the number of chunks the read touched, as a
64-bit number (`counted_eq`).
-/

namespace CartaZarr

open Word

namespace SlabRead

variable {φ : Type}

/-- The read has the pixel `(u, v)` at a channel of the selection. -/
def Has (read : SlabRead φ) (u v channel : ℕ) : Prop :=
  read.slab.Has u v ∧ read.slabBegin ≤ channel ∧ channel < read.slabEnd

/-- The chunks a read touches, by their places along `u`, `v` and the spectrum. -/
def chunks (plan : PassPlan) (read : SlabRead φ) : Finset ((ℕ × ℕ) × ℕ) :=
  read.slab.cells plan ×ˢ plan.spectralChunks read.slabBegin read.slabEnd

/-- A chunk is touched when it contains a requested element. -/
theorem mem_chunks {plan : PassPlan} {read : SlabRead φ} {c : (ℕ × ℕ) × ℕ} :
    c ∈ read.chunks plan ↔ ∃ u v channel, read.Has u v channel ∧ u / plan.chunkU = c.1.1 ∧
      v / plan.chunkV = c.1.2 ∧ Strided.chunkAt plan.planes.spectral.start
        plan.planes.spectral.stride plan.chunkDepth channel = c.2 := by
  simp only [chunks, Finset.mem_product, SlabFootprint.mem_cells, PassPlan.spectralChunks,
    Strided.mem_chunksOf, Has]
  constructor
  · rintro ⟨⟨u, v, hhas, hu, hv⟩, channel, hb, he, hc⟩
    exact ⟨u, v, channel, ⟨hhas, hb, he⟩, hu, hv, hc⟩
  · rintro ⟨u, v, channel, ⟨hhas, hb, he⟩, hu, hv, hc⟩
    exact ⟨⟨u, v, hhas, hu, hv⟩, channel, hb, he, hc⟩

/-- Reads with no chunk in common have no pixel in common. -/
theorem not_both_has {plan : PassPlan} {r r' : SlabRead φ}
    (h : Disjoint (r.chunks plan) (r'.chunks plan))
    (u v channel : ℕ) : ¬ (r.Has u v channel ∧ r'.Has u v channel) := by
  rintro ⟨hr, hr'⟩
  have hmem : ∀ read : SlabRead φ, read.Has u v channel →
      ((u / plan.chunkU, v / plan.chunkV), Strided.chunkAt plan.planes.spectral.start
        plan.planes.spectral.stride plan.chunkDepth channel) ∈ read.chunks plan :=
    fun read hread => mem_chunks.2 ⟨u, v, channel, hread, rfl, rfl, rfl⟩
  exact Finset.disjoint_left.1 h (hmem r hr) (hmem r' hr')

/-- What a walk adds to the chunks it has counted. -/
def counted (plan : PassPlan) (read : SlabRead φ) : ℕ :=
  mul read.slab.chunks (plan.chunksTouched read.slabBegin read.slabEnd)

end SlabRead

/-- Chunks along the spectrum are not shared across a boundary. -/
theorem PassPlan.Boundary.disjoint {plan : PassPlan} {b m b' e : ℕ} (h : plan.Boundary b')
    (hm : m ≤ b') : Disjoint (plan.spectralChunks b m) (plan.spectralChunks b' e) := by
  have hsub : plan.spectralChunks b m ⊆ plan.spectralChunks b b' :=
    Finset.image_subset_image (Finset.Ico_subset_Ico_right hm)
  exact (Strided.disjoint_chunksOf h le_rfl).mono_left hsub

namespace Pass

variable {φ ω α : Type} [HasSlab φ] {pass : Pass φ ω α}

/-- The reads of a pass in blocks. -/
def blockReads (pass : Pass φ ω α) (bytesPerChannel hint : ℕ) : List (SlabRead φ) :=
  (pass.blocks bytesPerChannel hint).flatMap fun block => pass.reads block.1 block.2

/-- The reads of a pass in blocks are those among its steps. -/
theorem reads_blockSteps (pass : Pass φ ω α) (bytesPerChannel hint : ℕ) :
    (pass.blockSteps bytesPerChannel hint).filterMap PassStep.read? =
      pass.blockReads bytesPerChannel hint := by
  rw [blockSteps, blockReads, List.filterMap_flatMap]
  exact List.flatMap_congr fun block _ => pass.reads_stepsOfBlock block.1 block.2

/-- No two footprints of the pass have a chunk in common. -/
def Apart (pass : Pass φ ω α) : Prop :=
  pass.footprints.Pairwise fun f f' => Disjoint (f.2.cells pass.plan) (f'.2.cells pass.plan)

variable (h : pass.plan.InRange)
include h

/-- A read is over a footprint of the pass, of channels of its block, and begins where the block
does or where no chunk is shared. -/
theorem mem_reads {b e : ℕ} (hbe : b ≤ e) (he : e ≤ pass.plan.planes.spectral.count)
    {read : SlabRead φ} (hr : read ∈ pass.reads b e) :
    (read.footprint, read.slab) ∈ pass.footprints ∧ read.blockBegin = b ∧
      (read.slabBegin, read.slabEnd) ∈ pass.plan.slabs read.slab.chunks b e ∧
      b ≤ read.slabBegin ∧ read.slabBegin < read.slabEnd ∧ read.slabEnd ≤ e ∧
      (read.slabBegin = b ∨ pass.plan.Boundary read.slabBegin) := by
  obtain ⟨footprint, hf, hr⟩ := List.mem_flatMap.1 hr
  obtain ⟨s, hs, rfl⟩ := List.mem_map.1 hr
  obtain ⟨htile, hspec⟩ := h.slabs_spec footprint.2.chunks hbe he
  obtain ⟨hb, hlt, hle⟩ := htile.bounds s hs
  exact ⟨hf, rfl, hs, hb, hlt, hle, (hspec s hs).1⟩

/-- The reads of a block have the pixels of its footprints at its channels. -/
theorem reads_has_iff {b e : ℕ} (hbe : b ≤ e) (he : e ≤ pass.plan.planes.spectral.count)
    {u v channel : ℕ} :
    (∃ read ∈ pass.reads b e, read.Has u v channel) ↔
      (∃ footprint ∈ pass.footprints, footprint.2.Has u v) ∧ b ≤ channel ∧ channel < e := by
  constructor
  · rintro ⟨read, hr, hhas, h₁, h₂⟩
    obtain ⟨hf, -, -, hb, -, hle, -⟩ := mem_reads h hbe he hr
    exact ⟨⟨_, hf, hhas⟩, by omega, by omega⟩
  · rintro ⟨⟨footprint, hf, hhas⟩, h₁, h₂⟩
    obtain ⟨s, hs, hs₁, hs₂⟩ :=
      ((h.slabs_spec footprint.2.chunks hbe he).1.mem_iff channel).2 ⟨h₁, h₂⟩
    refine ⟨⟨footprint.1, footprint.2, b, s.1, s.2⟩, ?_, hhas, hs₁, hs₂⟩
    exact List.mem_flatMap.2 ⟨footprint, hf, List.mem_map.2 ⟨s, hs, rfl⟩⟩

/-- **The reads of a block have no chunk in common.** -/
theorem reads_disjoint (hap : pass.Apart) {b e : ℕ} (hbe : b ≤ e)
    (he : e ≤ pass.plan.planes.spectral.count) :
    (pass.reads b e).Pairwise fun r r' => Disjoint (r.chunks pass.plan) (r'.chunks pass.plan) := by
  rw [reads, List.pairwise_flatMap]
  constructor
  · -- slabs of one footprint differ along the spectrum
    intro footprint hf
    obtain ⟨htile, hspec⟩ := h.slabs_spec footprint.2.chunks hbe he
    rw [readsOver, List.pairwise_map]
    refine htile.pairwise.imp_of_mem fun {x y} hx hy hxy => ?_
    refine Finset.disjoint_product.2 (Or.inr ?_)
    rcases (hspec y hy).1 with hyb | hyb
    · have hb := htile.bounds x hx
      omega
    · exact hyb.disjoint hxy
  · -- footprints differ in the plane
    refine List.Pairwise.imp (fun {f f'} hdisj => ?_) hap
    intro r hr r' hr'
    obtain ⟨s, -, rfl⟩ := List.mem_map.1 hr
    obtain ⟨s', -, rfl⟩ := List.mem_map.1 hr'
    exact Finset.disjoint_product.2 (Or.inl hdisj)

/-- **The reads of a pass have no chunk in common.** -/
theorem blockReads_disjoint (hap : pass.Apart) (bytesPerChannel hint : ℕ) :
    (pass.blockReads bytesPerChannel hint).Pairwise fun r r' =>
      Disjoint (r.chunks pass.plan) (r'.chunks pass.plan) := by
  obtain ⟨htile, hboundary⟩ := h.blocks_spec pass.layerChunks bytesPerChannel hint
  rw [blockReads, List.pairwise_flatMap]
  constructor
  · intro block hb
    obtain ⟨-, hlt, hle⟩ := htile.bounds block hb
    exact reads_disjoint h hap hlt.le hle
  · refine htile.pairwise.imp_of_mem fun {x y} hx hy hxy => ?_
    obtain ⟨-, hx₁, hx₂⟩ := htile.bounds x hx
    obtain ⟨-, hy₁, hy₂⟩ := htile.bounds y hy
    intro r hr r' hr'
    obtain ⟨-, -, -, -, -, hre, -⟩ := mem_reads h hx₁.le hx₂ hr
    obtain ⟨-, -, -, hrb, -, -, hb⟩ := mem_reads h hy₁.le hy₂ hr'
    have hboundary' : pass.plan.Boundary r'.slabBegin := hb.elim (fun e => e ▸ hboundary y hy) id
    exact Finset.disjoint_product.2 (Or.inr (hboundary'.disjoint (by omega)))

/-- The reads of a pass in blocks have the pixels of its footprints at every selected channel. -/
theorem blockReads_has_iff (bytesPerChannel hint : ℕ) {u v channel : ℕ} :
    (∃ read ∈ pass.blockReads bytesPerChannel hint, read.Has u v channel) ↔
      (∃ footprint ∈ pass.footprints, footprint.2.Has u v) ∧
        channel < pass.plan.planes.spectral.count := by
  obtain ⟨htile, -⟩ := h.blocks_spec pass.layerChunks bytesPerChannel hint
  constructor
  · rintro ⟨read, hr, hhas⟩
    obtain ⟨block, hb, hr⟩ := List.mem_flatMap.1 hr
    obtain ⟨-, hlt, hle⟩ := htile.bounds block hb
    obtain ⟨hf, -, h₂⟩ := (reads_has_iff h hlt.le hle).1 ⟨read, hr, hhas⟩
    exact ⟨hf, by omega⟩
  · rintro ⟨hf, hc⟩
    obtain ⟨block, hb, h₁, h₂⟩ := (htile.mem_iff channel).2 ⟨Nat.zero_le _, hc⟩
    obtain ⟨-, hlt, hle⟩ := htile.bounds block hb
    obtain ⟨read, hr, hhas⟩ := (reads_has_iff h hlt.le hle).2 ⟨hf, h₁, h₂⟩
    exact ⟨read, List.mem_flatMap.2 ⟨block, hb, hr⟩, hhas⟩

/-- **What a walk counts for a read** is the number of chunks it touches, modulo `2 ^ 64`. -/
theorem counted_eq {b e : ℕ} (hbe : b ≤ e) (he : e ≤ pass.plan.planes.spectral.count)
    {read : SlabRead φ} (hr : read ∈ pass.reads b e)
    (hf : read.slab.chunks = (read.slab.cells pass.plan).card % 2 ^ 64) :
    read.counted pass.plan = (read.chunks pass.plan).card % 2 ^ 64 := by
  obtain ⟨-, -, -, hb, hlt, hle, -⟩ := mem_reads h hbe he hr
  rw [SlabRead.counted, h.chunksTouched_eq hlt.le (by omega), SlabRead.chunks, Finset.card_product,
    hf, mul, Nat.mod_mul_mod]

end Pass

end CartaZarr
