import CartaZarr.Foundations.Loop
import CartaZarr.Read.Touched

/-!
# The pieces of a sample

`forEachPiece` is a loop over a list of pieces (`forEachPiece_eq`): the odometer goes through the
positions of the axes before the cut, the runs through the cut axis. Together the pieces have every
element of the sample, each once (`samplePieces_perm`), and none of them more than it may.
-/

namespace CartaZarr

open Word

section Positions

variable {ε σ : Type}

/-- The odometer goes through the positions from the one it begins at, each once. -/
theorem forEachPosition_eq_forEach (counts : List ℕ) (body : List ℕ → Attempt (Halt ε) σ Unit)
    (fuel : ℕ) {position : List ℕ} (hbox : MixedRadix.InBox counts.reverse position.reverse)
    (hfuel : counts.prod ≤ MixedRadix.position counts.reverse position.reverse + fuel) :
    ∃ positions : List (List ℕ),
      forEachPosition counts body fuel position = Attempt.forEach body positions ∧
      positions.Nodup ∧ ∀ t, t ∈ positions ↔ MixedRadix.InBox counts.reverse t.reverse ∧
        MixedRadix.position counts.reverse position.reverse ≤
          MixedRadix.position counts.reverse t.reverse := by
  have hprod : counts.reverse.prod = counts.prod := counts.reverse_perm.prod_eq
  induction fuel generalizing position with
  | zero =>
    have := hbox.position_lt
    omega
  | succ fuel ih =>
    rcases hadv : MixedRadix.advance counts.reverse position.reverse with _ | next
    · have hlast := MixedRadix.advance_none hbox hadv
      refine ⟨[position], ?_, List.nodup_singleton _, fun t => ?_⟩
      · rw [forEachPosition]
        simp only [hadv]
        rfl
      · rw [List.mem_singleton]
        constructor
        · rintro rfl
          exact ⟨hbox, le_rfl⟩
        · rintro ⟨ht, hle⟩
          have := ht.position_lt
          exact List.reverse_injective (ht.position_inj hbox (by omega))
    · obtain ⟨hnext, hpos⟩ := MixedRadix.advance_some hbox hadv
      rw [← next.reverse_reverse] at hnext hpos
      obtain ⟨rest, hrest, hnodup, hmem⟩ := ih hnext (by omega)
      refine ⟨position :: rest, ?_, List.nodup_cons.2 ⟨fun h => ?_, hnodup⟩, fun t => ?_⟩
      · rw [forEachPosition]
        simp only [hadv, hrest]
        rfl
      · have := ((hmem position).1 h).2
        omega
      · rw [List.mem_cons, hmem]
        constructor
        · rintro (rfl | ⟨ht, hle⟩)
          · exact ⟨hbox, le_rfl⟩
          · exact ⟨ht, by omega⟩
        · rintro ⟨ht, hle⟩
          rcases hle.lt_or_eq with h | h
          · exact .inr ⟨ht, by omega⟩
          · exact .inl (List.reverse_injective (ht.position_inj hbox h.symm))

end Positions

/-- The runs of an axis are all gone through. -/
theorem runs_end {run count fuel : ℕ} (hrun : 0 < run) (hrun' : run < 2 ^ 64)
    (hcount : count ≤ 2 ^ 63)
    (hfuel : count ≤ fuel) : ∃ runs,
      walk (fun first => add first run) count fuel 0 = some runs := by
  have hstep : ∀ x, x < count → (x = 0 ∨ run < count) →
      x < add x run ∧ (add x run < count → (add x run = 0 ∨ run < count)) := by
    rintro x hx (rfl | hlt)
    · rw [add_eq (by omega)]
      exact ⟨by omega, fun h => .inr (by omega)⟩
    · rw [add_eq (by omega)]
      exact ⟨by omega, fun _ => .inr hlt⟩
  exact walk_ends (P := fun x => x = 0 ∨ run < count) (.inl rfl) hstep (by omega)

section Pieces

variable {d : ImageDescriptor} {r : ReadRequest}

theorem countedElements_eq (hv : r.Valid d) : countedElements r = r.elements := by
  have hpos : ∀ range ∈ r.axes, 0 < range.count := fun range hrange => by
    obtain ⟨i, hi, rfl⟩ := List.getElem_of_mem hrange
    rw [← r.axis_eq_getElem hi]
    exact hv.count_pos i (hv.rank_eq ▸ hi)
  have helements : 1 * (r.axes.map Range.count).prod = r.elements := Nat.one_mul _
  rw [countedElements, foldl_mul_eq (f := Range.count) (fun _ _ _ _ => rfl) hpos
    (helements.trans_lt hv.elements_lt), helements]

/-- The cut leaves the axes after it, which fit together. -/
theorem sampleCut_spec {most : ℕ} (hmost : 0 < most) {counts : List ℕ} (hne : counts ≠ [])
    (hpos : ∀ c ∈ counts, 0 < c) :
    (sampleCut most counts counts.prod).1 < counts.length ∧
      (sampleCut most counts counts.prod).2 =
        (counts.drop ((sampleCut most counts counts.prod).1 + 1)).prod ∧
      (sampleCut most counts counts.prod).2 ≤ most := by
  induction counts with
  | nil => exact absurd rfl hne
  | cons c cs ih =>
    have hc : 0 < c := hpos c (by simp)
    have hdiv : (c :: cs).prod / max 1 c = cs.prod := by
      rw [max_eq_right (show 1 ≤ c from hc), List.prod_cons, Nat.mul_div_cancel_left _ hc]
    rw [sampleCut, hdiv]
    dsimp only
    split_ifs with hfits
    · exact ⟨by simp, by simp, hfits⟩
    · have hne' : cs ≠ [] := by
        rintro rfl
        simp only [List.prod_nil] at hfits
        omega
      obtain ⟨h₁, h₂, h₃⟩ := ih hne' fun c hc => hpos c (by simp [hc])
      exact ⟨by simpa using h₁, by simpa using h₂, h₃⟩

/-- The elements of a request that a piece of its sample has: those with the numbers `position`
before the cut, and one of the run from `first` on along it. -/
def InPiece (r : ReadRequest) (cut run : ℕ) (position : List ℕ) (first : ℕ) (n : ℕ → ℕ) : Prop :=
  (∀ i < r.axes.length, n i < (r.axis i).count) ∧ position = (List.range cut).map n ∧
    first ≤ n cut ∧ n cut < first + run

section InPiece

variable {cut run first : ℕ} {position : List ℕ}

/-- What a piece of a sample has along its axes. -/
theorem samplePiece_axis (hin : r.Inside d) (hcut : cut < d.rank)
    (hposition : position.length = cut)
    (hbox : ∀ i < cut, position.getD i 0 < (r.axis i).count) (hfirst : first < (r.axis cut).count)
    {i : ℕ} (hi : i < d.rank) :
    (samplePiece r cut run position first).axis i =
      if i < cut then
        ⟨Strided.coord (r.axis i).start (r.axis i).stride (position.getD i 0), 1, (r.axis i).stride⟩
      else if i = cut then
        ⟨Strided.coord (r.axis i).start (r.axis i).stride first, min run ((r.axis i).count - first),
          (r.axis i).stride⟩
      else r.axis i := by
  have hi' : i < r.axes.length := hin.rank_eq ▸ hi
  have hcoord : ∀ k < (r.axis i).count, add (r.axis i).start (mul k (r.axis i).stride) =
      Strided.coord (r.axis i).start (r.axis i).stride k := fun k hk => by
    have hlast : Strided.coord (r.axis i).start (r.axis i).stride k < 2 ^ 64 :=
      lt_of_le_of_lt (Strided.coord_mono (by omega)) ((hin.last_lt i hi).trans (d.length_lt i))
    unfold Strided.coord at hlast ⊢
    rw [mul_eq (by omega), add_eq hlast]
  rw [axis_samplePiece r cut run position first hi']
  split_ifs with h h
  · rw [hcoord _ (hbox i h)]
  · subst h
    have hcount := (hin.count_le hi).trans_lt (d.length_lt i)
    rw [hcoord first hfirst, sub_eq hfirst.le hcount]
  · rfl

theorem length_samplePiece (r : ReadRequest) (cut run : ℕ) (position : List ℕ) (first : ℕ) :
    (samplePiece r cut run position first).axes.length = r.axes.length := by simp [samplePiece]

/-- A piece of a sample lies inside the image. -/
theorem samplePiece_inside (hin : r.Inside d) (hcut : cut < d.rank)
    (hposition : position.length = cut)
    (hbox : ∀ i < cut, position.getD i 0 < (r.axis i).count) (hfirst : first < (r.axis cut).count)
    (hrun : 0 < run) : (samplePiece r cut run position first).Inside d where
  rank_eq := by rw [length_samplePiece, hin.rank_eq]
  stride_pos i hi := by
    rw [samplePiece_axis hin hcut hposition hbox hfirst hi]
    split_ifs <;> exact hin.stride_pos i hi
  count_pos i hi := by
    rw [samplePiece_axis hin hcut hposition hbox hfirst hi]
    split_ifs with h h
    · exact Nat.one_pos
    · subst h
      exact lt_min hrun (by omega)
    · exact hin.count_pos i hi
  last_lt i hi := by
    have hlast := hin.last_lt i hi
    rw [samplePiece_axis hin hcut hposition hbox hfirst hi]
    split_ifs with h h
    · have hb := hbox i h
      refine lt_of_le_of_lt ?_ hlast
      simp only [Nat.sub_self, Strided.coord, Nat.zero_mul, Nat.add_zero]
      exact Strided.coord_mono (by omega)
    · subst h
      refine lt_of_le_of_lt ?_ hlast
      have hle : first + (min run ((r.axis i).count - first) - 1) ≤ (r.axis i).count - 1 := by omega
      refine le_trans (le_of_eq ?_) (Strided.coord_mono hle)
      rw [Strided.coord_add]
      rfl
    · exact hlast

/-- **The elements of a piece of a sample.** -/
theorem samplePiece_has_iff (hin : r.Inside d) (hcut : cut < d.rank)
    (hposition : position.length = cut)
    (hbox : ∀ i < cut, position.getD i 0 < (r.axis i).count) (hfirst : first < (r.axis cut).count)
    {index : List ℕ} : (samplePiece r cut run position first).Has index ↔
      ∃ n, InPiece r cut run position first n ∧ r.indexAt n = index := by
  constructor
  · rintro ⟨k, hk, rfl⟩
    rw [length_samplePiece] at hk
    let n : ℕ → ℕ := fun i => if i < cut then position.getD i 0 else if i = cut
      then first + k i else k i
    have hcutn : n cut = first + k cut := by simp [n]
    have hkc := hk cut (hin.rank_eq.symm ▸ hcut)
    rw [samplePiece_axis hin hcut hposition hbox hfirst hcut,
      if_neg (lt_irrefl _), if_pos rfl] at hkc
    dsimp only at hkc
    refine ⟨n, ⟨fun i hi => ?_, ?_, by omega, by omega⟩, ?_⟩
    · have hki := hk i hi
      rw [samplePiece_axis hin hcut hposition hbox hfirst (hin.rank_eq ▸ hi)] at hki
      rcases lt_trichotomy i cut with h | rfl | h
      · simpa only [n, h, if_true] using hbox i h
      · simp only [n, lt_irrefl, if_false, if_true] at hki ⊢
        omega
      · simpa only [n, not_lt.2 h.le, h.ne', if_false] using hki
    · refine List.ext_getElem (by simp [hposition]) fun i h₁ h₂ => ?_
      have hi : i < cut := hposition ▸ h₁
      rw [List.getElem_map, List.getElem_range, ← List.getD_eq_getElem _ 0 h₁]
      simp only [n, hi, if_true]
    · unfold ReadRequest.indexAt
      rw [length_samplePiece]
      refine List.map_congr_left fun i hi => ?_
      rw [List.mem_range] at hi
      have hki := hk i hi
      rw [samplePiece_axis hin hcut hposition hbox hfirst (hin.rank_eq ▸ hi)] at hki ⊢
      rcases lt_trichotomy i cut with h | rfl | h
      · simp only [n, h, if_true] at hki ⊢
        rw [show k i = 0 by omega]
        simp [Strided.coord]
      · simp only [n, lt_irrefl, if_false, if_true]
        rw [Strided.coord_add]
        rfl
      · simp only [n, not_lt.2 h.le, h.ne', if_false]
  · rintro ⟨n, ⟨hn, rfl, h₁, h₂⟩, rfl⟩
    exact samplePiece_has hin hn h₁ h₂

/-- A piece of a sample has at most as many elements as its run and the axes after the cut. -/
theorem elements_samplePiece_le (hin : r.Inside d) (hcut : cut < d.rank)
    (hposition : position.length = cut) (hbox : ∀ i < cut, position.getD i 0 < (r.axis i).count)
    (hfirst : first < (r.axis cut).count) :
    (samplePiece r cut run position first).elements ≤ run * (r.counts.drop (cut + 1)).prod := by
  have hcounts : (samplePiece r cut run position first).counts = List.replicate cut 1 ++
      min run ((r.axis cut).count - first) :: r.counts.drop (cut + 1) := by
    have hrank := hin.rank_eq
    refine List.ext_getElem (by simp [length_samplePiece]; omega) fun i h₁ h₂ => ?_
    have hi : i < r.axes.length := by simpa [length_samplePiece] using h₁
    have hget := (samplePiece r cut run position first).counts_getD
      (show i < _ by simpa [length_samplePiece] using hi) 0
    rw [List.getD_eq_getElem _ _ h₁,
      samplePiece_axis hin hcut hposition hbox hfirst (hrank ▸ hi)] at hget
    rw [hget]
    rcases lt_trichotomy i cut with h | rfl | h
    · rw [if_pos h, List.getElem_append_left (by simpa using h), List.getElem_replicate]
    · rw [if_neg (lt_irrefl _), if_pos rfl, List.getElem_append_right (by simp)]
      simp
    · rw [if_neg (by omega), if_neg (by omega), List.getElem_append_right (by simp; omega)]
      have hdrop : i - (List.replicate cut 1).length = i - cut - 1 + 1 := by simp; omega
      simp only [hdrop, List.getElem_cons_succ, List.getElem_drop]
      have hcount := r.counts_getD hi 0
      rw [List.getD_eq_getElem _ _ (by simpa using hi)] at hcount
      rw [← hcount]
      congr 1
      omega
  rw [ReadRequest.elements, hcounts, List.prod_append, List.prod_replicate, one_pow, one_mul,
    List.prod_cons]
  exact Nat.mul_le_mul_right _ (min_le_left _ _)

end InPiece

/-- The positions of the odometer are the numbers before the cut. -/
theorem inBox_take_iff {cut : ℕ} (hcut : cut ≤ r.axes.length) (position : List ℕ) :
    MixedRadix.InBox (r.counts.take cut).reverse position.reverse ↔
      position.length = cut ∧ ∀ i < cut, position.getD i 0 < (r.axis i).count := by
  rw [MixedRadix.InBox, List.forall₂_reverse_iff, List.forall₂_iff_get]
  have hlen : (r.counts.take cut).length = cut := by simp [hcut]
  have hget : ∀ i (hi : i < (r.counts.take cut).length),
      (r.counts.take cut).get ⟨i, hi⟩ = (r.axis i).count := fun i hi => by
    have hi' : i < r.axes.length := by omega
    rw [← r.counts_getD hi' 0, List.getD_eq_getElem _ _ (by simpa using hi')]
    simp
  constructor
  · rintro ⟨h, hlt⟩
    refine ⟨by omega, fun i hi => ?_⟩
    rw [List.getD_eq_getElem _ _ (by omega)]
    have := hlt i (by omega) (by omega)
    rwa [hget] at this
  · rintro ⟨h, hlt⟩
    refine ⟨by omega, fun i h₁ h₂ => ?_⟩
    rw [hget]
    have := hlt i (by omega)
    rwa [List.getD_eq_getElem _ _ (by omega)] at this

/-- The runs of an axis are apart. -/
theorem runs_apart {run count fuel : ℕ} {runs : List (ℕ × ℕ)} (hrun : 0 < run)
    (hrun' : run < 2 ^ 64)
    (hcount : count ≤ 2 ^ 63) (h : walk (fun first => add first run) count fuel 0 = some runs) :
    runs.Nodup ∧ ∀ a ∈ runs, ∀ b ∈ runs, a ≠ b → a.1 + run ≤ b.1 ∨ b.1 + run ≤ a.1 := by
  obtain ⟨⟨e, -, htile⟩, hforward⟩ := runs_tiling hrun hrun' hcount h
  refine ⟨(List.Pairwise.and_mem.1 htile.pairwise).imp ?_, fun a ha b hb hne => ?_⟩
  · rintro a b ⟨ha, -, hle⟩ rfl
    have := (hforward a ha).2
    omega
  · have hall : runs.Pairwise fun a b => a = b ∨ a.2 ≤ b.1 ∨ b.2 ≤ a.1 :=
      htile.pairwise.imp fun h => .inr (.inl h)
    have hsymm : Std.Symm fun a b : ℕ × ℕ => a = b ∨ a.2 ≤ b.1 ∨ b.2 ≤ a.1 :=
      ⟨fun _ _ h => by tauto⟩
    have hcases := hall.forall_of_forall (fun _ _ => .inl rfl) ha hb
    have := (hforward a ha).2
    have := (hforward b hb).2
    rcases hcases with h | h | h
    · exact absurd h hne
    · exact .inl (by omega)
    · exact .inr (by omega)

section SamplePieces

variable {cut run fuel : ℕ} {positions : List (List ℕ)} {runs : List (ℕ × ℕ)}

/-- The pieces of a sample at the positions before the cut, with the runs along it. -/
def samplePieces (r : ReadRequest) (cut run : ℕ) (positions : List (List ℕ)) (runs : List (ℕ × ℕ)) :
    List ReadRequest :=
  positions.flatMap fun position => runs.map fun block => samplePiece r cut run position block.1

theorem samplePieces_eq_map (r : ReadRequest) (cut run : ℕ) (positions : List (List ℕ))
    (runs : List (ℕ × ℕ)) : samplePieces r cut run positions runs =
      (positions ×ˢ runs).map fun key => samplePiece r cut run key.1 key.2.1 := by
  change _ = (positions.flatMap fun position => runs.map (Prod.mk position)).map _
  rw [samplePieces, List.map_flatMap]
  simp only [List.map_map]
  rfl

/-- The positions of a piece are in range. -/
theorem samplePieces_key (hpositions : ∀ t ∈ positions, t.length = cut ∧
      ∀ i < cut, t.getD i 0 < (r.axis i).count)
    (hforward : ∀ b ∈ runs, b.1 < (r.axis cut).count) {key : List ℕ × (ℕ × ℕ)}
    (hkey : key ∈ positions ×ˢ runs) : key.1.length = cut ∧
      (∀ i < cut, key.1.getD i 0 < (r.axis i).count) ∧ key.2.1 < (r.axis cut).count := by
  obtain ⟨ht, hb⟩ := List.mem_product.1 hkey
  exact ⟨(hpositions _ ht).1, (hpositions _ ht).2, hforward _ hb⟩

/-- Two pieces at different positions, or in different runs, have no element in common. -/
theorem InPiece.disjoint (hin : r.Inside d) (hcut : cut < d.rank) {t t' : List ℕ} {b b' : ℕ × ℕ}
    (hne : (t, b) ≠ (t', b')) (hapart : b ≠ b' → b.1 + run ≤ b'.1 ∨ b'.1 + run ≤ b.1) {n n' : ℕ → ℕ}
    (h : InPiece r cut run t b.1 n) (h' : InPiece r cut run t' b'.1 n') :
    r.indexAt n ≠ r.indexAt n' := by
  intro heq
  obtain ⟨-, ht, hlow, hhigh⟩ := h
  obtain ⟨-, ht', hlow', hhigh'⟩ := h'
  have hsame : ∀ i < d.rank, n i = n' i := fun i hi => ReadRequest.indexAt_inj hin heq hi
  have hposition : t = t' := by
    rw [ht, ht']
    refine List.map_congr_left fun i hi => hsame i ?_
    rw [List.mem_range] at hi
    omega
  have hcutSame := hsame cut hcut
  rcases hapart fun h => hne (Prod.ext hposition h) with h | h <;> omega

/-- The pieces have each element of the sample once. -/
theorem samplePieces_perm (hin : r.Inside d) (hcut : cut < d.rank) (hrun : 0 < run)
    (hrun' : run < 2 ^ 64) (hcount : (r.axis cut).count ≤ 2 ^ 63) (hnodup : positions.Nodup)
    (hmem : ∀ t, t ∈ positions ↔ t.length = cut ∧ ∀ i < cut, t.getD i 0 < (r.axis i).count)
    (hruns : walk (fun first => add first run) (r.axis cut).count fuel 0 = some runs) :
    ((samplePieces r cut run positions runs).flatMap ReadRequest.indices).Perm r.indices := by
  obtain ⟨hrunsNodup, hapart⟩ := runs_apart hrun hrun' hcount hruns
  obtain ⟨-, hforward⟩ := runs_tiling hrun hrun' hcount hruns
  have hkey := fun key (hk : key ∈ positions ×ˢ runs) =>
    samplePieces_key (r := r) (fun t => (hmem t).1) (fun b hb => (hforward b hb).1) hk
  have hinside : ∀ key ∈ positions ×ˢ runs, (samplePiece r cut run key.1 key.2.1).Inside d :=
    fun key hk => samplePiece_inside hin hcut (hkey key hk).1 (hkey key hk).2.1
      (hkey key hk).2.2 hrun
  have hhas : ∀ key ∈ positions ×ˢ runs, ∀ index,
      index ∈ (samplePiece r cut run key.1 key.2.1).indices ↔
        ∃ n, InPiece r cut run key.1 key.2.1 n ∧ r.indexAt n = index := fun key hk index => by
    rw [ReadRequest.mem_indices (hinside key hk)]
    exact samplePiece_has_iff hin hcut (hkey key hk).1 (hkey key hk).2.1 (hkey key hk).2.2
  rw [samplePieces_eq_map, List.flatMap_map]
  have hpieces : ((positions ×ˢ runs).flatMap fun key =>
      (samplePiece r cut run key.1 key.2.1).indices).Nodup := by
    refine List.nodup_flatMap.2 ⟨fun key hk => ReadRequest.indices_nodup (hinside key hk), ?_⟩
    refine (hnodup.product hrunsNodup).pairwise_of_forall_ne
      fun key hk key' hk' hne index h h' => ?_
    obtain ⟨n, hn, rfl⟩ := (hhas key hk index).1 h
    obtain ⟨n', hn', heq⟩ := (hhas key' hk' _).1 h'
    exact hn.disjoint hin hcut hne (hapart _ (List.mem_product.1 hk).2 _ (List.mem_product.1 hk').2)
      hn' heq.symm
  refine (List.perm_ext_iff_of_nodup hpieces (ReadRequest.indices_nodup hin)).2 fun index => ?_
  rw [List.mem_flatMap, ReadRequest.mem_indices hin]
  constructor
  · rintro ⟨key, hk, h⟩
    obtain ⟨n, hn, rfl⟩ := (hhas key hk index).1 h
    exact ⟨n, hn.1, rfl⟩
  · rintro ⟨n, hn, rfl⟩
    obtain ⟨block, hblock, hlow, hhigh⟩ :=
      runs_cover hrun hrun' hcount hruns (hn cut (hin.rank_eq.symm ▸ hcut))
    have hposition : (List.range cut).map n ∈ positions := (hmem _).2 ⟨by simp, fun i hi => by
      have hi' : i < r.axes.length := by rw [hin.rank_eq]; omega
      simpa [List.getD_eq_getElem, hi] using hn i hi'⟩
    have hk : ((List.range cut).map n, block) ∈ positions ×ˢ runs :=
      List.mem_product.2 ⟨hposition, hblock⟩
    exact ⟨_, hk, (hhas _ hk _).2 ⟨n, ⟨hn, rfl, hlow, hhigh⟩, rfl⟩⟩

/-- A piece is a valid request for no more than the run and the axes after the cut have. -/
theorem samplePieces_valid (hin : r.Inside d) (hcut : cut < d.rank) (hrun : 0 < run)
    (hpositions : ∀ t ∈ positions, t.length = cut ∧ ∀ i < cut, t.getD i 0 < (r.axis i).count)
    (hforward : ∀ b ∈ runs, b.1 < (r.axis cut).count) {most : ℕ} (hmost : most < 2 ^ 64)
    (hle : run * (r.counts.drop (cut + 1)).prod ≤ most) {p : ReadRequest}
    (hp : p ∈ samplePieces r cut run positions runs) : p.Valid d ∧ p.elements ≤ most := by
  rw [samplePieces_eq_map] at hp
  obtain ⟨key, hk, rfl⟩ := List.mem_map.1 hp
  obtain ⟨hposition, hbox, hfirst⟩ := samplePieces_key hpositions hforward hk
  have helements : (samplePiece r cut run key.1 key.2.1).elements ≤ most :=
    (elements_samplePiece_le hin hcut hposition hbox hfirst).trans hle
  exact ⟨⟨samplePiece_inside hin hcut hposition hbox hfirst hrun, helements.trans_lt hmost⟩,
    helements⟩

end SamplePieces

/-- A request has as many elements as the axes before the cut, the cut axis and those after it. -/
theorem elements_cut {cut : ℕ} (hcut : cut < r.axes.length) : r.elements =
    (r.counts.take cut).prod * ((r.axis cut).count * (r.counts.drop (cut + 1)).prod) := by
  have hdrop : r.counts.drop cut = (r.axis cut).count :: r.counts.drop (cut + 1) := by
    rw [List.drop_eq_getElem_cons (by simpa using hcut),
      ← List.getD_eq_getElem _ 0, r.counts_getD hcut]
  rw [← List.prod_cons, ← hdrop, ← List.prod_append, List.take_append_drop]
  rfl

/-- **A sample is cut into pieces that have each of its elements once**, and none of them more than
it may. -/
theorem forEachPiece_eq {ε σ : Type} (hv : r.Valid d)
    (hcount : ∀ i < d.rank, (r.axis i).count ≤ 2 ^ 63)
    {most fuel : ℕ} (hmost : 0 < most) (hmost' : most < 2 ^ 64) (hfuel : r.elements ≤ fuel)
    (read : ReadRequest → Attempt (Halt ε) σ Unit) :
    ∃ pieces : List ReadRequest, forEachPiece fuel r most read = Attempt.forEach read pieces ∧
      (pieces.flatMap ReadRequest.indices).Perm r.indices ∧
      ∀ p ∈ pieces, p.Valid d ∧ p.elements ≤ most := by
  have hin := hv.toInside
  have hpos : ∀ c ∈ r.counts, 0 < c := prod_counts_pos hv.count_pos hv.rank_eq
  by_cases hne : r.counts = []
  · -- an image without axes has one element
    have haxes : r.axes.length = 0 := by rw [← r.length_counts, hne]; rfl
    refine ⟨[r], ?_, by simp, fun p hp => ?_⟩
    · rw [forEachPiece, hne, sampleCut]
      simp only [haxes, if_true, Attempt.forEach]
      exact bind_pure_unit.symm
    · obtain rfl := List.mem_singleton.1 hp
      refine ⟨hv, ?_⟩
      rw [ReadRequest.elements, hne, List.prod_nil]
      exact hmost
  obtain ⟨hcut, hinner, hle⟩ := sampleCut_spec hmost hne hpos
  rw [forEachPiece, countedElements_eq hv, ReadRequest.elements]
  generalize sampleCut most r.counts r.counts.prod = found at hcut hinner hle
  obtain ⟨cut, inner⟩ := found
  dsimp only at hcut hinner hle ⊢
  rw [r.length_counts] at hcut
  have hcut' : cut < d.rank := hin.rank_eq ▸ hcut
  have hinner0 : 0 < inner := by
    rw [hinner]
    exact List.prod_pos fun c hc => hpos c (List.mem_of_mem_drop hc)
  rw [if_neg hcut.ne, max_eq_right (show 1 ≤ inner from hinner0),
    max_eq_right (show 1 ≤ most / inner from (Nat.one_le_div_iff hinner0).2 hle)]
  have hrun : 0 < most / inner := (Nat.one_le_div_iff hinner0).2 hle
  have hrun' : most / inner < 2 ^ 64 := (Nat.div_le_self most inner).trans_lt hmost'
  have hrunInner : most / inner * inner ≤ most := Nat.div_mul_le_self _ _
  generalize most / inner = run at hrun hrun' hrunInner ⊢
  have hcount := hcount cut hcut'
  -- the fuel holds the positions of the odometer, and the runs at each of them
  have htake : 0 < (r.counts.take cut).prod :=
    List.prod_pos fun c hc => hpos c (List.mem_of_mem_take hc)
  rw [elements_cut hcut, ← hinner] at hfuel
  have hfuelRuns : (r.axis cut).count ≤ fuel :=
    ((Nat.le_mul_of_pos_right _ hinner0).trans (Nat.le_mul_of_pos_left _ htake)).trans hfuel
  have hfuelPositions : (r.counts.take cut).prod ≤ fuel :=
    (Nat.le_mul_of_pos_right _ (Nat.mul_pos (hin.count_pos cut hcut') hinner0)).trans hfuel
  obtain ⟨runs, hruns⟩ := runs_end hrun hrun' hcount hfuelRuns
  obtain ⟨positions, hloop, hnodup, hmem⟩ := forEachPosition_eq_forEach (r.counts.take cut)
    (readRuns fuel r cut run read) fuel
    ((inBox_take_iff hcut.le (List.replicate cut 0)).2 ⟨by simp, fun i hi => by
      simpa [List.getD_replicate, hi]
        using hin.count_pos i (by omega)⟩) (by simpa using hfuelPositions)
  have hpositions : ∀ t, t ∈ positions ↔ t.length = cut ∧
      ∀ i < cut, t.getD i 0 < (r.axis i).count := by
    intro t
    rw [hmem, inBox_take_iff hcut.le]
    simp
  refine ⟨samplePieces r cut run positions runs, ?_,
    samplePieces_perm hin hcut' hrun hrun' hcount hnodup hpositions hruns, fun p hp => ?_⟩
  · have hreadRuns : readRuns fuel r cut run read = fun position =>
        Attempt.forEach (fun block => read (samplePiece r cut run position block.1)) runs := by
      funext position
      rw [readRuns, hruns]
      rfl
    rw [hloop, hreadRuns, samplePieces, Attempt.forEach_flatMap]
    simp only [Attempt.forEach_map]
  · exact samplePieces_valid hin hcut' hrun (fun t => (hpositions t).1)
      (fun b hb => ((runs_tiling hrun hrun' hcount hruns).2 b hb).1) hmost' (hinner ▸ hrunInner) hp

end Pieces

end CartaZarr
