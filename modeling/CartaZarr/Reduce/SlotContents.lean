import CartaZarr.Reduce.StatisticSlots

/-!
# What the slots hold

A `Stored` names what a region keeps at a channel: a statistic of the layout, or the base or the
offset of the mean. `read` is its value, and the operations are said by what they do to it: a write
changes one value (`read_set`), a fold those of one region at one channel (`Keeps.fold`,
`read_fold_other`), and a merge those at the partial's channels (`Keeps.mergeRegion`,
`read_mergeRegion_other`).
-/

namespace CartaZarr

namespace StatisticLayout

variable {layout : StatisticLayout}

theorem nodup (layout : StatisticLayout) : layout.statistics.Nodup :=
  layout.ordered.nodup (by decide)

theorem slotOf_eq_some {statistic : Statistic} {slot : ℕ} :
    layout.slotOf statistic = some slot ↔ layout.statistics[slot]? = some statistic := by
  unfold slotOf
  split_ifs with h
  · rw [Option.some.injEq]
    constructor
    · rintro rfl
      have hlt := List.idxOf_lt_length_iff.2 h
      rw [List.getElem?_eq_getElem hlt, List.getElem_idxOf hlt]
    · intro hslot
      obtain ⟨hlt, rfl⟩ := List.getElem?_eq_some_iff.1 hslot
      exact layout.nodup.idxOf_getElem slot hlt
  · simp only [false_iff]
    exact fun hslot => h (List.mem_of_getElem? hslot)

theorem slotOf_lt {statistic : Statistic} {slot : ℕ} (h : layout.slotOf statistic = some slot) :
    slot < layout.count :=
  (List.getElem?_eq_some_iff.1 (slotOf_eq_some.1 h)).1

theorem slotOf_isSome {statistic : Statistic} :
    (layout.slotOf statistic).isSome ↔ statistic ∈ layout.statistics := by
  unfold slotOf
  split_ifs with h <;> simp [h]

/-- With the deviations the counts are accumulated, and the mean. -/
theorem deviations_slots (h : layout.deviations = true) :
    ∃ count deviations, layout.slotOf .numPixels = some count ∧
      layout.slotOf .sumSqDev = some deviations := by
  obtain ⟨deviations, hdeviations⟩ := Option.isSome_iff_exists.1 h
  obtain ⟨count, hcount⟩ := Option.isSome_iff_exists.1
    (slotOf_isSome.2 (layout.numPixels_mem (slotOf_isSome.1 h)))
  exact ⟨count, deviations, hcount, hdeviations⟩

end StatisticLayout

/-- What a region keeps at one channel. -/
inductive Stored
  | statistic (statistic : Statistic)
  | base
  | offset
  deriving DecidableEq

/-- The slot of what is kept, if the layout keeps it. -/
def StatisticLayout.place (layout : StatisticLayout) : Stored → Option ℕ
  | .statistic statistic => layout.slotOf statistic
  | .base => if layout.deviations then some layout.count else none
  | .offset => if layout.deviations then some (layout.count + 1) else none

namespace StatisticLayout

variable {layout : StatisticLayout} {k k' : Stored} {slot : ℕ}

theorem place_lt (h : layout.place k = some slot) : slot < layout.stored := by
  unfold stored
  cases k with
  | statistic statistic =>
    have := slotOf_lt h
    omega
  | base =>
    rw [place, Option.ite_none_right_eq_some, Option.some.injEq] at h
    rw [if_pos h.1]
    omega
  | offset =>
    rw [place, Option.ite_none_right_eq_some, Option.some.injEq] at h
    rw [if_pos h.1]
    omega

theorem place_inj (h : layout.place k = some slot) (h' : layout.place k' = some slot) : k = k' := by
  cases k <;> cases k' <;> simp only [place, Option.ite_none_right_eq_some,
    Option.some.injEq] at h h'
  case statistic.statistic a b =>
    rw [slotOf_eq_some] at h h'
    rw [h, Option.some.injEq] at h'
    rw [h']
  case statistic.base =>
    have := slotOf_lt h
    omega
  case statistic.offset =>
    have := slotOf_lt h
    omega
  case base.statistic =>
    have := slotOf_lt h'
    omega
  case offset.statistic =>
    have := slotOf_lt h'
    omega
  all_goals first | rfl | omega

/-- The base and the offset come after the statistics. -/
theorem place_mean_ne (h : slot < layout.count) :
    layout.place .base ≠ some slot ∧ layout.place .offset ≠ some slot := by
  simp only [place, ne_eq, Option.ite_none_right_eq_some, Option.some.injEq]
  omega

theorem exists_place (h : slot < layout.stored) : ∃ k, layout.place k = some slot := by
  unfold stored at h
  rcases lt_or_ge slot layout.count with hlt | hge
  · exact ⟨.statistic layout.statistics[slot], slotOf_eq_some.2 (List.getElem?_eq_getElem hlt)⟩
  · have hdev : layout.deviations = true := by
      by_contra hcon
      rw [if_neg hcon] at h
      omega
    rw [if_pos hdev] at h
    rcases hge.eq_or_lt with rfl | hlt
    · exact ⟨.base, if_pos hdev⟩
    · exact ⟨.offset, (if_pos hdev).trans (congrArg some (by omega))⟩

end StatisticLayout

namespace StatisticSlots

variable {layout : StatisticLayout} {regions channels : ℕ}
  {s : StatisticSlots layout regions channels}

/-! ## The places of the values -/

section Index

variable {region region' slot slot' channel channel' : ℕ}

theorem mul_add_inj {a b n x y : ℕ} (hx : x < n) (hy : y < n) (h : a * n + x = b * n + y) :
    a = b ∧ x = y := by
  have hdiv : ∀ c z, z < n → (c * n + z) / n = c := fun c z hz => by
    rw [Nat.add_comm, Nat.add_mul_div_right _ _ (by omega), Nat.div_eq_of_lt hz, Nat.zero_add]
  have hab : a = b := by rw [← hdiv a x hx, h, hdiv b y hy]
  subst hab
  exact ⟨rfl, by omega⟩

theorem index_lt (hregion : region < regions) (hslot : slot < layout.stored)
    (hchannel : channel < channels) :
    index layout channels region slot channel < regions * (layout.stored * channels) := by
  have hinner : slot * channels + channel < layout.stored * channels :=
    calc slot * channels + channel < (slot + 1) * channels := by rw [Nat.add_one_mul]; omega
      _ ≤ layout.stored * channels := Nat.mul_le_mul_right _ hslot
  have houter : (region + 1) * (layout.stored * channels) ≤ regions * (layout.stored * channels) :=
    Nat.mul_le_mul_right _ hregion
  rw [Nat.add_one_mul] at houter
  unfold index
  omega

theorem index_inj (hslot : slot < layout.stored) (hslot' : slot' < layout.stored)
    (hchannel : channel < channels) (hchannel' : channel' < channels)
    (h : index layout channels region slot channel = index layout channels region' slot' channel') :
    region = region' ∧ slot = slot' ∧ channel = channel' := by
  have hinner : ∀ t c, t < layout.stored → c < channels →
      t * channels + c < layout.stored * channels := fun t c ht hc =>
    calc t * channels + c < (t + 1) * channels := by rw [Nat.add_one_mul]; omega
      _ ≤ layout.stored * channels := Nat.mul_le_mul_right _ ht
  unfold index at h
  rw [Nat.add_assoc, Nat.add_assoc] at h
  obtain ⟨rfl, hrest⟩ := mul_add_inj (hinner slot channel hslot hchannel)
    (hinner slot' channel' hslot' hchannel') h
  obtain ⟨rfl, rfl⟩ := mul_add_inj hchannel hchannel' hrest
  exact ⟨rfl, rfl, rfl⟩

/-- Every place is that of a region, a slot and a channel. -/
theorem exists_index {i : ℕ} (h : i < regions * (layout.stored * channels)) :
    ∃ region < regions, ∃ slot < layout.stored, ∃ channel < channels,
      index layout channels region slot channel = i := by
  have hstride : 0 < layout.stored * channels := Nat.pos_of_lt_mul_left h
  have hchannels : 0 < channels := Nat.pos_of_mul_pos_left hstride
  have hin : i % (layout.stored * channels) < layout.stored * channels := Nat.mod_lt _ hstride
  refine ⟨i / (layout.stored * channels), Nat.div_lt_of_lt_mul (by rwa [Nat.mul_comm] at h),
    i % (layout.stored * channels) / channels,
    Nat.div_lt_of_lt_mul (by rwa [Nat.mul_comm channels]),
    i % (layout.stored * channels) % channels, Nat.mod_lt _ hchannels, ?_⟩
  unfold index
  rw [Nat.add_assoc, Nat.mul_comm (_ / channels), Nat.div_add_mod, Nat.mul_comm, Nat.div_add_mod]

end Index

/-! ## Reading and writing -/

/-- The value kept of a region at a channel, zero for what the layout does not keep. -/
def read (s : StatisticSlots layout regions channels) (region channel : ℕ)
    (k : Stored) : Extended :=
  match layout.place k with
  | some slot => s.get region slot channel
  | none => 0

theorem read_of_place {region channel slot : ℕ} {k : Stored} (h : layout.place k = some slot) :
    s.read region channel k = s.get region slot channel := by
  rw [read, h]

section Writes

variable {region region' slot slot' channel channel' : ℕ} {k k' : Stored} {v : Extended}
  (hregion : region < regions) (hchannel : channel < channels) (hchannel' : channel' < channels)
include hregion hchannel hchannel'

theorem get_set (hslot : slot < layout.stored) (hslot' : slot' < layout.stored) :
    (s.set region slot channel v).get region' slot' channel' =
      if region' = region ∧ slot' = slot ∧ channel' = channel then v
        else s.get region' slot' channel' := by
  have hlt := index_lt hregion hslot hchannel
  rw [← s.length_eq] at hlt
  unfold get set
  rw [List.getD_eq_getElem?_getD, List.getElem?_set]
  split_ifs with hi h h
  · rfl
  · obtain ⟨rfl, rfl, rfl⟩ := index_inj hslot hslot' hchannel hchannel' hi
    exact absurd ⟨rfl, rfl, rfl⟩ h
  · obtain ⟨rfl, rfl, rfl⟩ := h
    exact absurd rfl hi
  · rw [List.getD_eq_getElem?_getD]

/-- A write changes one value. -/
theorem read_set (hk : layout.place k = some slot) :
    (s.set region slot channel v).read region' channel' k' =
    if region' = region ∧ channel' = channel ∧ k' = k then v else s.read region' channel' k' := by
  rcases hk' : layout.place k' with _ | slot'
  · have hne : k' ≠ k := by
      rintro rfl
      rw [hk] at hk'
      cases hk'
    simp only [read, hk', hne, and_false, if_false]
  · have hslots : slot' = slot ↔ k' = k := by
      constructor
      · rintro rfl
        exact StatisticLayout.place_inj hk' hk
      · rintro rfl
        rw [hk, Option.some.injEq] at hk'
        exact hk'.symm
    rw [read_of_place hk', read_of_place hk',
      get_set hregion hchannel hchannel' (StatisticLayout.place_lt hk)
        (StatisticLayout.place_lt hk')]
    exact if_congr (by rw [hslots, and_comm (a := k' = k)]) rfl rfl

theorem read_change {statistic : Statistic} {f : Extended → Extended}
    (hk : (layout.place k).isSome) :
    (s.change region channel statistic f).read region' channel' k =
      if region' = region ∧ channel' = channel ∧ k = .statistic statistic then
        f (s.read region channel (.statistic statistic)) else s.read region' channel' k := by
  unfold change
  rcases hslot : layout.slotOf statistic with _ | slot
  · have hne : k ≠ .statistic statistic := by
      rintro rfl
      rw [StatisticLayout.place, hslot] at hk
      cases hk
    simp only [hne, and_false, if_false]
  · have hplace : layout.place (.statistic statistic) = some slot := hslot
    dsimp only
    rw [read_set hregion hchannel hchannel' hplace, read_of_place hplace]

end Writes

/-! ## Folding -/

/-- The spread kept of a region at a channel. -/
def readSpread (s : StatisticSlots layout regions channels)
    (region channel : ℕ) : Spread Extended where
  count := s.read region channel (.statistic .numPixels)
  base := s.read region channel .base
  offset := s.read region channel .offset
  sumSqDev := s.read region channel (.statistic .sumSqDev)

/-- What is kept when a spread has been merged: what the spread has of it, or what was kept
before. -/
def ofSpread (spread : Spread Extended) (current : Extended) : Stored → Extended
  | .base => spread.base
  | .offset => spread.offset
  | .statistic .sumSqDev => spread.sumSqDev
  | _ => current

theorem spreadAt_eq {region channel count deviations : ℕ}
    (hcount : layout.slotOf .numPixels = some count)
    (hdeviations : layout.slotOf .sumSqDev = some deviations) :
    s.spreadAt count deviations region channel = s.readSpread region channel := by
  have hdev : layout.deviations = true := by rw [StatisticLayout.deviations, hdeviations]; rfl
  rw [spreadAt, readSpread, read_of_place (k := .statistic .numPixels) hcount,
    read_of_place (k := .base) (if_pos hdev), read_of_place (k := .offset) (if_pos hdev),
    read_of_place (k := .statistic .sumSqDev) hdeviations]

/-- Without deviations nothing of a spread is kept. -/
theorem ofSpread_of_no_deviations (hdev : layout.deviations = false) {k : Stored}
    (hk : (layout.place k).isSome) (spread : Spread Extended) (current : Extended) :
    ofSpread spread current k = current := by
  cases k with
  | base => simp [StatisticLayout.place, hdev] at hk
  | offset => simp [StatisticLayout.place, hdev] at hk
  | statistic statistic =>
    cases statistic with
    | sumSqDev =>
      rw [StatisticLayout.place, ← StatisticLayout.deviations, hdev] at hk
      cases hk
    | _ => rfl

theorem mergeSpread_of_no_deviations (hdev : layout.deviations = false) (region channel : ℕ)
    (other : Spread Extended) : s.mergeSpread region channel other = s := by
  have hslot : layout.slotOf .sumSqDev = none := by simpa [StatisticLayout.deviations] using hdev
  unfold mergeSpread
  rw [hslot]
  cases layout.slotOf .numPixels <;> rfl

section Folding

variable {region region' channel channel' : ℕ} {k : Stored} (hregion : region < regions)
  (hchannel : channel < channels) (hchannel' : channel' < channels)
include hregion hchannel hchannel'

theorem read_mergeSpread_of_deviations (hdev : layout.deviations = true) (other : Spread Extended) :
    (s.mergeSpread region channel other).read region' channel' k =
      if region' = region ∧ channel' = channel then
        ofSpread ((s.readSpread region channel).merge other) (s.read region channel k) k
      else s.read region' channel' k := by
  obtain ⟨count, deviations, hcount, hdeviations⟩ := StatisticLayout.deviations_slots hdev
  unfold mergeSpread
  rw [hcount, hdeviations]
  dsimp only
  rw [spreadAt_eq hcount hdeviations,
    read_set hregion hchannel hchannel' (k := .statistic .sumSqDev) hdeviations,
    read_set hregion hchannel hchannel' (k := .offset) (if_pos hdev),
    read_set hregion hchannel hchannel' (k := .base) (if_pos hdev)]
  by_cases hat : region' = region ∧ channel' = channel
  · obtain ⟨rfl, rfl⟩ := hat
    cases k with
    | statistic statistic => cases statistic <;> simp [ofSpread]
    | base => simp [ofSpread]
    | offset => simp [ofSpread]
  · have hnot : ∀ p : Prop, ¬ (region' = region ∧ channel' = channel ∧ p) := fun p h =>
      hat ⟨h.1, h.2.1⟩
    simp only [hnot, hat, if_false]

theorem read_mergeSpread (hk : (layout.place k).isSome) (other : Spread Extended) :
    (s.mergeSpread region channel other).read region' channel' k =
      if region' = region ∧ channel' = channel then
        ofSpread ((s.readSpread region channel).merge other) (s.read region channel k) k
      else s.read region' channel' k := by
  cases hdev : layout.deviations with
  | true => exact read_mergeSpread_of_deviations hregion hchannel hchannel' hdev other
  | false =>
    rw [mergeSpread_of_no_deviations hdev, ofSpread_of_no_deviations hdev hk]
    split_ifs with h
    · rw [h.1, h.2]
    · rfl

end Folding

/-- What is kept of the totals of some rows. -/
def value (totals : RowTotals) : Stored → Extended
  | .statistic .numPixels => .finite totals.good
  | .statistic .nanCount => .finite totals.bad
  | .statistic .sum => .finite totals.sum
  | .statistic .sumSq => .finite totals.sumSq
  | .statistic .min => totals.smallest
  | .statistic .max => totals.largest
  | .statistic .sumSqDev => .finite totals.sumSqDev
  | .base => .finite totals.base
  | .offset => .finite totals.offset

/-- The slots of a region at a channel keep these totals. -/
def Keeps (s : StatisticSlots layout regions channels) (region channel : ℕ)
    (totals : RowTotals) : Prop :=
  ∀ k, (layout.place k).isSome → s.read region channel k = value totals k

/-- The spread that is kept with the deviations. -/
theorem Keeps.readSpread {region channel : ℕ} {totals : RowTotals}
    (h : s.Keeps region channel totals)
    (hdev : layout.deviations = true) : s.readSpread region channel = totals.spread.finite := by
  obtain ⟨count, deviations, hcount, hdeviations⟩ := StatisticLayout.deviations_slots hdev
  rw [StatisticSlots.readSpread, h _ (by rw [StatisticLayout.place, hcount]; rfl),
    h .base (by simp [StatisticLayout.place, hdev]),
    h .offset (by simp [StatisticLayout.place, hdev]),
    h _ (by rw [StatisticLayout.place, hdeviations]; rfl)]
  rfl

/-- The spread of totals put together is kept where spreads are merged. -/
theorem ofSpread_merge {region channel : ℕ} {totals other : RowTotals}
    (h : s.Keeps region channel totals)
    {k : Stored} (hk : (layout.place k).isSome) :
    ofSpread ((s.readSpread region channel).merge other.spread.finite) (s.read region channel k) k =
      ofSpread (totals.combine other).spread.finite (value totals k) k := by
  rw [h k hk]
  cases hdev : layout.deviations with
  | false => rw [ofSpread_of_no_deviations hdev hk, ofSpread_of_no_deviations hdev hk]
  | true => rw [h.readSpread hdev, Spread.merge_finite, RowTotals.spread_combine]

/-- **A row joins the totals of its region and its channel.** -/
theorem Keeps.fold {region channel : ℕ} {totals : RowTotals} (h : s.Keeps region channel totals)
    (hregion : region < regions) (hchannel : channel < channels) (row : RowTotals) :
    (s.fold region channel row).Keeps region channel (totals.combine row) := by
  intro k hk
  have hspread : ofSpread (_ : Spread Extended) _ _ =
      ofSpread (totals.combine row).spread.finite _ _ :=
    ofSpread_merge h hk
  have hmerged : (s.mergeSpread region channel row.spread.finite).read region channel k =
      ofSpread (totals.combine row).spread.finite (value totals k) k := by
    rw [read_mergeSpread hregion hchannel hchannel hk, if_pos ⟨rfl, rfl⟩, hspread]
  unfold StatisticSlots.fold
  cases k with
  | base =>
    simp only [read_change hregion hchannel hchannel hk, reduceCtorEq, and_false, if_false]
    exact hmerged
  | offset =>
    simp only [read_change hregion hchannel hchannel hk, reduceCtorEq, and_false, if_false]
    exact hmerged
  | statistic statistic =>
    cases statistic <;> simp only [read_change hregion hchannel hchannel hk,
      true_and, if_true, if_false,
      Stored.statistic.injEq, reduceCtorEq, hmerged] <;>
      simp [ofSpread, value, RowTotals.combine, Spread.finite, RowTotals.spread]

/-- A fold leaves the others alone. -/
theorem read_fold_other {region region' channel channel' : ℕ} (hregion : region < regions)
    (hchannel : channel < channels) (hchannel' : channel' < channels)
    (hne : ¬ (region' = region ∧ channel' = channel)) (row : RowTotals) {k : Stored}
    (hk : (layout.place k).isSome) :
    (s.fold region channel row).read region' channel' k = s.read region' channel' k := by
  have hnot : ∀ p : Prop, ¬ (region' = region ∧ channel' = channel ∧ p) :=
    fun p h => hne ⟨h.1, h.2.1⟩
  unfold StatisticSlots.fold
  simp only [read_change hregion hchannel hchannel' hk, hnot, if_false,
    read_mergeSpread hregion hchannel hchannel' hk, hne]

/-! ## Merging -/

section Merging

variable {extent offset region region' channel : ℕ}
  (partialSlots : StatisticSlots layout regions extent)

/-- The spreads of a partial's region, merged into the channels from `offset` on. -/
def mergeSpreads (partialSlots : StatisticSlots layout regions extent) (offset region : ℕ)
    (s : StatisticSlots layout regions channels) : StatisticSlots layout regions channels :=
  forRange extent (fun c s =>
    s.mergeSpread region (offset + c) (partialSlots.readSpread region c)) s

/-- The values of one statistic of a partial's region, merged into the channels from `offset` on. -/
def mergeSlot (partialSlots : StatisticSlots layout regions extent) (offset region slot : ℕ)
    (s : StatisticSlots layout regions channels) : StatisticSlots layout regions channels :=
  forRange extent (fun c s =>
    s.set region slot (offset + c) (mergeValues (layout.statistics.getD slot .sumSqDev)
      (s.get region slot (offset + c)) (partialSlots.get region slot c))) s

theorem mergeSpreads_of_no_deviations (hdev : layout.deviations = false) (offset region : ℕ)
    (s : StatisticSlots layout regions channels) : mergeSpreads partialSlots offset region s = s :=
  forRange_frame id (fun _ _ _ => mergeSpread_of_no_deviations hdev _ _ _) s

theorem mergeRegion_eq (offset region : ℕ) (s : StatisticSlots layout regions channels) :
    mergeRegion partialSlots offset region s =
      forRange layout.count (mergeSlot partialSlots offset region)
        (mergeSpreads partialSlots offset region s) := by
  unfold mergeRegion
  cases hdev : layout.deviations with
  | true =>
    obtain ⟨count, deviations, hcount, hdeviations⟩ := StatisticLayout.deviations_slots hdev
    rw [hcount, hdeviations]
    simp only [spreadAt_eq hcount hdeviations]
    rfl
  | false =>
    have hslot : layout.slotOf .sumSqDev = none := by simpa [StatisticLayout.deviations] using hdev
    rw [hslot, mergeSpreads_of_no_deviations partialSlots hdev]
    cases layout.slotOf .numPixels <;> rfl

variable {partialSlots} (hregion : region < regions) (hfits : offset + extent ≤ channels)
include hregion hfits

/-- What a merge of a region's spreads leaves alone. -/
theorem read_mergeSpreads_other (hchannel : channel < channels)
    (hne : ¬ (region' = region ∧ offset ≤ channel ∧ channel < offset + extent)) {k : Stored}
    (hk : (layout.place k).isSome) :
    (mergeSpreads partialSlots offset region s).read region' channel k =
      s.read region' channel k := by
  refine forRange_frame (fun s => s.read region' channel k) (fun c hc s => ?_) s
  rw [read_mergeSpread hregion (by omega) hchannel hk, if_neg]
  rintro ⟨rfl, rfl⟩
  exact hne ⟨rfl, by omega, by omega⟩

/-- A partial's spread joins that of the channel it comes to. -/
theorem read_mergeSpreads {c : ℕ} (hc : c < extent) {k : Stored} (hk : (layout.place k).isSome) :
    (mergeSpreads partialSlots offset region s).read region (offset + c) k =
      ofSpread ((s.readSpread region (offset + c)).merge (partialSlots.readSpread region c))
        (s.read region (offset + c) k) k := by
  cases hdev : layout.deviations with
  | false =>
    rw [ofSpread_of_no_deviations hdev hk, mergeSpreads_of_no_deviations partialSlots hdev]
  | true =>
    have howned := forRange_owned
      (fun c s => s.mergeSpread region (offset + c) (partialSlots.readSpread region c))
      (fun s : StatisticSlots layout regions channels => s.read region (offset + c))
      (fun cell k => ofSpread ((Spread.mk (cell (.statistic .numPixels)) (cell .base)
        (cell .offset) (cell (.statistic .sumSqDev))).merge
          (partialSlots.readSpread region c)) (cell k) k) hc
      (fun s => funext fun k => by
        rw [read_mergeSpread_of_deviations hregion (by omega) (by omega) hdev, if_pos ⟨rfl, rfl⟩]
        rfl)
      (fun i hi hne s => funext fun k => by
        rw [read_mergeSpread_of_deviations hregion (by omega) (by omega) hdev, if_neg (by omega)]) s
    exact congrFun howned k

theorem read_mergeSlot_other {slot : ℕ} (hslot : slot < layout.count)
    (hchannel : channel < channels)
    {k : Stored} (hne : ¬ (region' = region ∧ offset ≤ channel ∧ channel < offset + extent ∧
      layout.place k = some slot)) :
    (mergeSlot partialSlots offset region slot s).read region' channel k =
      s.read region' channel k := by
  refine forRange_frame (fun s => s.read region' channel k) (fun c hc s => ?_) s
  have hplace : layout.place (.statistic layout.statistics[slot]) = some slot :=
    StatisticLayout.slotOf_eq_some.2 (List.getElem?_eq_getElem hslot)
  rw [read_set hregion (by omega) hchannel hplace, if_neg]
  rintro ⟨rfl, rfl, rfl⟩
  exact hne ⟨rfl, by omega, by omega, hplace⟩

/-- A partial's value of a statistic joins that of the channel it comes to. -/
theorem read_mergeSlot {slot c : ℕ} {statistic : Statistic}
    (hslot : layout.slotOf statistic = some slot)
    (hc : c < extent) :
    (mergeSlot partialSlots offset region slot s).read region (offset + c) (.statistic statistic) =
      mergeValues statistic (s.read region (offset + c) (.statistic statistic))
        (partialSlots.read region c (.statistic statistic)) := by
  have hplace : layout.place (.statistic statistic) = some slot := hslot
  have hget : layout.statistics.getD slot .sumSqDev = statistic := by
    rw [List.getD_eq_getElem?_getD, StatisticLayout.slotOf_eq_some.1 hslot, Option.getD_some]
  have howned := forRange_owned
    (fun c s => s.set region slot (offset + c) (mergeValues statistic
      (s.get region slot (offset + c)) (partialSlots.get region slot c)))
    (fun s : StatisticSlots layout regions channels =>
      s.read region (offset + c) (.statistic statistic))
    (fun current => mergeValues statistic current
      (partialSlots.read region c (.statistic statistic))) hc
    (fun s => by
      rw [read_set hregion (by omega) (by omega) hplace, if_pos ⟨rfl, rfl, rfl⟩,
        read_of_place hplace,
        read_of_place hplace])
    (fun i hi hne s => by
      rw [read_set hregion (by omega) (by omega) hplace, if_neg (by omega)]) s
  rw [mergeSlot, hget]
  exact howned

/-- **What a merge of a region leaves alone.** -/
theorem read_mergeRegion_other (hchannel : channel < channels)
    (hne : ¬ (region' = region ∧ offset ≤ channel ∧ channel < offset + extent)) {k : Stored}
    (hk : (layout.place k).isSome) :
    (mergeRegion partialSlots offset region s).read region' channel k =
      s.read region' channel k := by
  rw [mergeRegion_eq]
  exact (forRange_frame (fun s : StatisticSlots layout regions channels =>
    s.read region' channel k) (fun slot hslot s =>
    read_mergeSlot_other hregion hfits hslot hchannel fun h => hne ⟨h.1, h.2.1, h.2.2.1⟩) _).trans
      (read_mergeSpreads_other hregion hfits hchannel hne hk)

/-- **A partial's totals join those of the channel they come to.** -/
theorem Keeps.mergeRegion {c : ℕ} (hc : c < extent) {totals other : RowTotals}
    (h : s.Keeps region (offset + c) totals) (h' : partialSlots.Keeps region c other) :
    (mergeRegion partialSlots offset region s).Keeps region (offset + c)
      (totals.combine other) := by
  intro k hk
  have hmerged : (mergeSpreads partialSlots offset region s).read region (offset + c) k =
      ofSpread (totals.combine other).spread.finite (value totals k) k := by
    rw [read_mergeSpreads hregion hfits hc hk, ← ofSpread_merge h hk]
    cases hdev : layout.deviations with
    | false => rw [ofSpread_of_no_deviations hdev hk, ofSpread_of_no_deviations hdev hk]
    | true => rw [h'.readSpread hdev]
  rw [mergeRegion_eq]
  have hother : ∀ slot < layout.count, layout.place k ≠ some slot →
      ∀ s : StatisticSlots layout regions channels,
        (mergeSlot partialSlots offset region slot s).read region (offset + c) k =
          s.read region (offset + c) k := fun slot hslot hne s =>
    read_mergeSlot_other hregion hfits hslot (by omega) fun h => hne h.2.2.2
  cases k with
  | base =>
    exact (forRange_frame (fun s : StatisticSlots layout regions channels =>
      s.read region (offset + c) .base) (fun slot hslot s =>
        hother slot hslot (StatisticLayout.place_mean_ne hslot).1 s) _).trans hmerged
  | offset =>
    exact (forRange_frame (fun s : StatisticSlots layout regions channels =>
      s.read region (offset + c) .offset) (fun slot hslot s =>
        hother slot hslot (StatisticLayout.place_mean_ne hslot).2 s) _).trans hmerged
  | statistic statistic =>
    obtain ⟨slot, hslot⟩ := Option.isSome_iff_exists.1 hk
    have howned := forRange_owned (mergeSlot partialSlots offset region)
      (fun s => s.read region (offset + c) (.statistic statistic))
      (fun current => mergeValues statistic current
        (partialSlots.read region c (.statistic statistic))) (StatisticLayout.slotOf_lt hslot)
      (fun s => read_mergeSlot hregion hfits hslot hc)
      (fun i hi hne s => hother i hi (by rw [hslot, Ne, Option.some.injEq]; exact hne.symm) s)
      (mergeSpreads partialSlots offset region s)
    rw [howned, hmerged, h' _ hk]
    cases statistic <;>
      simp [mergeValues, ofSpread, value, RowTotals.combine, Spread.finite, RowTotals.spread]

end Merging

end StatisticSlots

end CartaZarr
