import Mathlib.Data.List.GetD
import CartaZarr.Reduce.SlotContents

/-!
# What a hand-over shows

`Built s rows` says how an accumulator came about: it was reset, rows were folded and partials
merged into it, and blocks handed over, and `rows` are those that came to each region and channel.
Its slots then keep the fold of exactly these rows (`Built.keeps`), so every hand-over shows them
and leaves the accumulator as it was (`handOver_shows`), and rows that are folded give the
accumulator that partials of them give.
-/

namespace CartaZarr.StatisticSlots

variable {layout : StatisticLayout} {regions channels : ℕ}
  {s s' : StatisticSlots layout regions channels}

/-- Accumulators that keep the same values are the same. -/
theorem ext_read (h : ∀ region < regions, ∀ channel < channels, ∀ k, (layout.place k).isSome →
    s.read region channel k = s'.read region channel k) : s = s' := by
  obtain ⟨values, hvalues⟩ := s
  obtain ⟨values', hvalues'⟩ := s'
  congr 1
  refine List.ext_getElem (hvalues.trans hvalues'.symm) fun i hi hi' => ?_
  obtain ⟨region, hregion, slot, hslot, channel, hchannel, rfl⟩ := exists_index (hvalues ▸ hi)
  obtain ⟨k, hk⟩ := StatisticLayout.exists_place hslot
  have hread := h region hregion channel hchannel k (by rw [hk]; rfl)
  rw [read_of_place hk, read_of_place hk, get, get] at hread
  rwa [List.getD_eq_getElem _ _ hi, List.getD_eq_getElem _ _ hi'] at hread

/-! ## The extrema -/

/-- Change every extremum, by what it is of nothing. -/
def overExtrema (f : Extended → Extended → Extended) (s : StatisticSlots layout regions channels) :
    StatisticSlots layout regions channels :=
  forRange regions (fun region s => kExtrema.foldl (fun s (statistic, identity) =>
    forRange channels (fun channel s => s.change region channel statistic (f identity)) s) s) s

/-- The value that is kept when every extremum has been changed. -/
def ofExtremum (f : Extended → Extended → Extended) (current : Extended) : Stored → Extended
  | .statistic .min => f .posInf current
  | .statistic .max => f .negInf current
  | _ => current

section Extrema

variable {region region' channel : ℕ} {k : Stored} (hregion : region < regions)
  (hchannel : channel < channels) (hk : (layout.place k).isSome) (statistic : Statistic)
  (f : Extended → Extended)
include hregion hchannel hk

theorem read_overChannels : (forRange channels (fun channel s =>
      s.change region channel statistic f) s).read region' channel k =
    if region' = region ∧ k = .statistic statistic then f (s.read region channel k)
    else s.read region' channel k := by
  by_cases h : region' = region ∧ k = .statistic statistic
  · obtain ⟨rfl, rfl⟩ := h
    have howned := forRange_owned (fun channel s => s.change region' channel statistic f)
      (fun s : StatisticSlots layout regions channels =>
        s.read region' channel (.statistic statistic)) f hchannel
      (fun s => by rw [read_change hregion hchannel hchannel hk, if_pos ⟨rfl, rfl, rfl⟩])
      (fun i hi hne s => by
        rw [read_change hregion hi hchannel hk, if_neg fun h => hne h.2.1.symm]) s
    rw [if_pos ⟨rfl, rfl⟩]
    exact howned
  · rw [if_neg h]
    exact forRange_frame (fun s : StatisticSlots layout regions channels =>
      s.read region' channel k) (fun i hi s => by
        rw [read_change hregion hi hchannel hk, if_neg fun h' => h ⟨h'.1, h'.2.2⟩]) s

omit f in
theorem read_overExtrema (f : Extended → Extended → Extended) :
    (s.overExtrema f).read region channel k = ofExtremum f (s.read region channel k) k := by
  have howned := forRange_owned
    (fun region s => kExtrema.foldl (fun s (statistic, identity) =>
      forRange channels (fun channel s => s.change region channel statistic (f identity)) s) s)
    (fun s : StatisticSlots layout regions channels => s.read region channel k)
    (fun current => ofExtremum f current k) hregion
    (fun s => by
      simp only [kExtrema, List.foldl_cons, List.foldl_nil, read_overChannels hregion hchannel hk,
        true_and]
      cases k with
      | statistic statistic => cases statistic <;> simp [ofExtremum]
      | base => simp [ofExtremum]
      | offset => simp [ofExtremum])
    (fun i hi hne s => by
      simp only [kExtrema, List.foldl_cons, List.foldl_nil, read_overChannels hi hchannel hk,
        hne.symm, false_and, if_false]) s
  exact howned

end Extrema

/-- Slots that were only made keep zeros. -/
theorem read_of_replicate {n : ℕ} (h : s.values = List.replicate n 0)
    (region channel : ℕ) (k : Stored) :
    s.read region channel k = 0 := by
  rw [read]
  split
  · rw [get, h, List.getD_eq_getElem?_getD, List.getElem?_replicate]
    split_ifs <;> rfl
  · rfl

/-- **After a reset nothing is kept.** -/
theorem keeps_reset {region channel : ℕ} (hregion : region < regions)
    (hchannel : channel < channels) :
    (reset layout regions channels).Keeps region channel {} := by
  intro k hk
  let blank : StatisticSlots layout regions channels :=
    ⟨List.replicate (regions * (layout.stored * channels)) 0, List.length_replicate⟩
  have hblank : blank.read region channel k = 0 := read_of_replicate rfl region channel k
  refine (read_overExtrema (s := blank) hregion hchannel hk fun identity _ => identity).trans ?_
  rw [hblank]
  cases k with
  | statistic statistic => cases statistic <;> rfl
  | base => rfl
  | offset => rfl

/-! ## Handing over -/

/-- What is reported of a statistic: an extremum of nothing as not-a-number. -/
def reported (totals : RowTotals) : Statistic → Extended
  | .min => if totals.smallest = .posInf then .nan else totals.smallest
  | .max => if totals.largest = .negInf then .nan else totals.largest
  | statistic => value totals (.statistic statistic)

section Settle

variable {region channel : ℕ} {totals : RowTotals} (hbounded : totals.Bounded)
  (h : s.Keeps region channel totals) (hregion : region < regions) (hchannel : channel < channels)
include hbounded h hregion hchannel

/-- Settled to be reported, the slots have what is reported. -/
theorem Keeps.read_settle {statistic : Statistic} (hk : statistic ∈ layout.statistics) :
    (s.settle true).read region channel (.statistic statistic) = reported totals statistic := by
  have hplace : (layout.place (.statistic statistic)).isSome := StatisticLayout.slotOf_isSome.2 hk
  refine (read_overExtrema hregion hchannel hplace (settleValue true)).trans ?_
  rw [h _ hplace]
  cases statistic with
  | min =>
    rcases hbounded.smallest with hs | ⟨q, hs⟩
      <;> simp [ofExtremum, settleValue, value, reported, hs]
  | max =>
    rcases hbounded.largest with hl | ⟨q, hl⟩
      <;> simp [ofExtremum, settleValue, value, reported, hl]
  | _ => rfl

/-- Settled again, they have what they had. -/
theorem Keeps.read_settle_settle {k : Stored} (hk : (layout.place k).isSome) :
    ((s.settle true).settle false).read region channel k = s.read region channel k := by
  refine (read_overExtrema hregion hchannel hk (settleValue false)).trans ?_
  rw [show (s.settle true).read region channel k = _ from
    read_overExtrema hregion hchannel hk (settleValue true), h k hk]
  cases k with
  | statistic statistic =>
    cases statistic with
    | min =>
      rcases hbounded.smallest with hs | ⟨q, hs⟩ <;> simp [ofExtremum, settleValue, value, hs]
    | max =>
      rcases hbounded.largest with hl | ⟨q, hl⟩ <;> simp [ofExtremum, settleValue, value, hl]
    | _ => rfl
  | base => rfl
  | offset => rfl

end Settle

/-! ## How an accumulator comes about -/

/-- A partial, and the rows that were folded into it. -/
abbrev Part (layout : StatisticLayout) (regions : ℕ) : Type :=
  (Σ extent, StatisticSlots layout regions extent) × (ℕ → ℕ → List RowTotals)

/-- The rows at each region and channel, when parts have been merged at `offset`. -/
def mergedRows (rows : ℕ → ℕ → List RowTotals) (parts : List (Part layout regions)) (offset : ℕ) :
    ℕ → ℕ → List RowTotals := fun region channel =>
  rows region channel ++ parts.flatMap fun part =>
    if offset ≤ channel ∧ channel < offset + part.1.1 then part.2 region (channel - offset) else []

/-- How an accumulator came about, and the rows that came to each of its regions and channels. -/
inductive Built {layout : StatisticLayout} {regions : ℕ} : {channels : ℕ} →
    StatisticSlots layout regions channels → (ℕ → ℕ → List RowTotals) → Prop
  | reset (channels : ℕ) : Built (.reset layout regions channels) fun _ _ => []
  | fold {channels : ℕ} {s : StatisticSlots layout regions channels} {rows : ℕ → ℕ → List RowTotals}
      (h : Built s rows) {region channel : ℕ} (hregion : region < regions)
        (hchannel : channel < channels)
      {row : RowTotals} (hrow : row.Bounded) :
      Built (s.fold region channel row) fun region' channel' =>
        rows region' channel' ++ if region' = region ∧ channel' = channel then [row] else []
  | mergeInOrder {channels : ℕ} {s : StatisticSlots layout regions channels}
      {rows : ℕ → ℕ → List RowTotals} (h : Built s rows)
        {parts : List (Part layout regions)} {offset : ℕ}
      (hparts : ∀ part ∈ parts, Built part.1.2 part.2)
      (hfits : ∀ part ∈ parts, offset + part.1.1 ≤ channels) :
      Built (s.mergeInOrder (parts.map Prod.fst) offset) (mergedRows rows parts offset)
  | handOver {channels : ℕ} {s : StatisticSlots layout regions channels}
      {rows : ℕ → ℕ → List RowTotals}
      (h : Built s rows) (firstChannel : ℕ) (complete : Bool) (completeness : ℚ)
      (sink : SpectralBlock → Bool) :
      Built (s.handOver firstChannel complete completeness sink).2 rows

/-- The slots of an accumulator keep the fold of the rows, and their extrema are as they should
be. -/
structure Holds (s : StatisticSlots layout regions channels)
    (rows : ℕ → ℕ → List RowTotals) : Prop where
  bounded : ∀ region channel, ∀ row ∈ rows region channel, row.Bounded
  keeps : ∀ region < regions, ∀ channel < channels,
    s.Keeps region channel (RowTotals.foldRows (rows region channel))

namespace Holds

variable {rows : ℕ → ℕ → List RowTotals}

theorem reset (layout : StatisticLayout) (regions channels : ℕ) :
    Holds (reset layout regions channels) fun _ _ => [] :=
  ⟨by simp, fun _ hregion _ hchannel => keeps_reset hregion hchannel⟩

theorem fold (h : s.Holds rows) {region channel : ℕ} (hregion : region < regions)
    (hchannel : channel < channels) {row : RowTotals} (hrow : row.Bounded) :
    (s.fold region channel row).Holds fun region' channel' =>
      rows region' channel' ++ if region' = region ∧ channel' = channel then [row] else [] := by
  refine ⟨fun region' channel' r hr => ?_, fun region' hregion' channel' hchannel' => ?_⟩
  · rcases List.mem_append.1 hr with hr | hr
    · exact h.bounded _ _ r hr
    · split_ifs at hr
      · rwa [List.mem_singleton.1 hr]
      · cases hr
  · split_ifs with hat
    · obtain ⟨rfl, rfl⟩ := hat
      rw [RowTotals.foldRows_append_singleton]
      exact (h.keeps _ hregion' _ hchannel').fold hregion hchannel row
    · rw [List.append_nil]
      exact fun k hk => (read_fold_other hregion hchannel hchannel' hat row hk).trans
        (h.keeps _ hregion' _ hchannel' k hk)

/-- One partial, merged into every region. -/
theorem mergePart (h : s.Holds rows) {part : Part layout regions} {offset : ℕ}
    (hpart : part.1.2.Holds part.2) (hfits : offset + part.1.1 ≤ channels) :
    (forRange regions (mergeRegion part.1.2 offset) s).Holds (mergedRows rows [part] offset) := by
  have hrows : ∀ region channel, mergedRows rows [part] offset region channel =
    rows region channel ++
      if offset ≤ channel ∧ channel < offset + part.1.1
          then part.2 region (channel - offset) else [] :=
    fun region channel => by simp [mergedRows]
  refine ⟨fun region channel r hr => ?_, fun region hregion channel hchannel k hk => ?_⟩
  · rw [hrows, List.mem_append] at hr
    rcases hr with hr | hr
    · exact h.bounded _ _ r hr
    · split_ifs at hr
      · exact hpart.bounded _ _ r hr
      · cases hr
  · rw [hrows]
    have hkeeps := h.keeps region hregion channel hchannel
    split_ifs with hat
    · obtain ⟨c, rfl⟩ := Nat.exists_eq_add_of_le hat.1
      have hc : c < part.1.1 := by omega
      rw [Nat.add_sub_cancel_left, RowTotals.foldRows_append (h.bounded _ _) (hpart.bounded _ _)]
      have hother : ∀ i < regions, i ≠ region → ∀ k, (layout.place k).isSome →
          ∀ s : StatisticSlots layout regions channels,
            (mergeRegion part.1.2 offset i s).read region (offset + c) k =
                s.read region (offset + c) k :=
        fun i hi hne k hk s => read_mergeRegion_other hi hfits hchannel (fun h => hne h.1.symm) hk
      have hbefore : (forRange region (mergeRegion part.1.2 offset) s).Keeps region (offset + c)
          (RowTotals.foldRows (rows region (offset + c))) := fun k hk =>
        (forRange_frame (fun s : StatisticSlots layout regions channels =>
          s.read region (offset + c) k) (fun i hi => hother i (by omega) (by omega) k hk) s).trans
            (hkeeps k hk)
      refine (forRange_at (fun s : StatisticSlots layout regions channels =>
        s.read region (offset + c) k) hregion (fun i hi hlt =>
          hother i hi (by omega) k hk) s).trans ?_
      exact hbefore.mergeRegion hregion hfits hc (hpart.keeps region hregion c hc) k hk
    · rw [List.append_nil]
      refine Eq.trans ?_ (hkeeps k hk)
      exact forRange_frame (fun s : StatisticSlots layout regions channels =>
        s.read region channel k) (fun region' hregion' s =>
          read_mergeRegion_other hregion' hfits hchannel (fun hne => hat hne.2) hk) s

theorem mergeInOrder (h : s.Holds rows) {parts : List (Part layout regions)} {offset : ℕ}
    (hparts : ∀ part ∈ parts, part.1.2.Holds part.2)
    (hfits : ∀ part ∈ parts, offset + part.1.1 ≤ channels) :
    (s.mergeInOrder (parts.map Prod.fst) offset).Holds (mergedRows rows parts offset) := by
  induction parts generalizing s rows with
  | nil =>
    have hrows : mergedRows rows ([] : List (Part layout regions)) offset = rows := by
      funext region channel
      exact List.append_nil _
    rwa [hrows]
  | cons part parts ih =>
    have hrest := ih (h.mergePart (hparts part (by simp)) (hfits part (by simp)))
      (fun p hp => hparts p (by simp [hp])) fun p hp => hfits p (by simp [hp])
    have hrows : mergedRows (mergedRows rows [part] offset) parts offset =
        mergedRows rows (part :: parts) offset := by
      funext region channel
      simp [mergedRows]
    rwa [hrows] at hrest

/-- A hand-over leaves the accumulator as it was. -/
theorem handOver_eq (h : s.Holds rows) (firstChannel : ℕ) (complete : Bool) (completeness : ℚ)
    (sink : SpectralBlock → Bool) : (s.handOver firstChannel complete completeness sink).2 = s :=
  ext_read fun region hregion channel hchannel _ hk =>
    (h.keeps region hregion channel hchannel).read_settle_settle
      (RowTotals.foldRows_bounded (h.bounded region channel)) hregion hchannel hk

end Holds

/-- **An accumulator keeps the fold of the rows** that came to each region and channel. -/
theorem Built.holds {rows : ℕ → ℕ → List RowTotals} (h : Built s rows) : s.Holds rows := by
  induction h with
  | reset channels => exact .reset _ _ _
  | fold _ hregion hchannel hrow ih => exact ih.fold hregion hchannel hrow
  | mergeInOrder _ _ hfits ih ihparts => exact ih.mergeInOrder ihparts hfits
  | handOver _ firstChannel complete completeness sink ih =>
    rwa [ih.handOver_eq firstChannel complete completeness sink]

/-! ## What is shown -/

/-- What a block says of a statistic of some rows, or as it is when the block does not carry it. -/
def shown (layout : StatisticLayout) (totals : RowTotals) (statistic : Statistic)
    (initial : Extended) :
    Extended :=
  if statistic ∈ layout.statistics then reported totals statistic else initial

/-- A block shows the fold of the rows at each region and channel. -/
structure Shows (layout : StatisticLayout) (regions channels : ℕ) (rows : ℕ → ℕ → List RowTotals)
    (block : SpectralBlock) : Prop where
  regionCount : block.regionCount = regions
  channelCount : block.channelCount = channels
  carries : ∀ wanted, block.carries wanted = true ↔
    ∀ statistic ∈ wanted, statistic ∈ layout.statistics
  series : ∀ region < regions, ∀ statistic ∈ layout.statistics, ∃ series,
    block.series region statistic = some series ∧ ∀ channel < channels,
      series channel = reported (RowTotals.foldRows (rows region channel)) statistic
  no_series : ∀ region, ∀ statistic ∉ layout.statistics, block.series region statistic = none
  totals : ∀ region < regions, ∀ channel < channels,
    let totals := RowTotals.foldRows (rows region channel)
    block.totals region channel =
      { numPixels := shown layout totals .numPixels 0
        nanCount := shown layout totals .nanCount 0
        sum := shown layout totals .sum 0
        sumSq := shown layout totals .sumSq 0
        min := shown layout totals .min .nan
        max := shown layout totals .max .nan
        sumSqDev := shown layout totals .sumSqDev 0 }

theorem carries_iff (block : SpectralBlock) (wanted : StatisticSet) :
    block.carries wanted = true ↔ ∀ statistic ∈ wanted, statistic ∈ block.statistics := by
  have hcarried : ∀ (statistics : List Statistic) (carried : StatisticSet) (a : Statistic),
      a ∈ statistics.foldl (fun carried statistic => carried ∪ {statistic}) carried ↔
        a ∈ carried ∨ a ∈ statistics := by
    intro statistics
    induction statistics with
    | nil => simp
    | cons b bs ih =>
      intro carried a
      rw [List.foldl_cons, ih]
      simp [or_assoc, or_left_comm]
  rw [SpectralBlock.carries, decide_eq_true_iff, Finset.subset_iff]
  simp only [hcarried, Finset.notMem_empty, false_or]

/-- The series of a block are what the slots keep. -/
theorem series_block (firstChannel : ℕ) (complete : Bool) (completeness : ℚ) (region : ℕ)
    {statistic : Statistic} (h : statistic ∈ layout.statistics) : ∃ series,
    (s.block firstChannel complete completeness).series region statistic = some series ∧
      ∀ channel, series channel = s.read region channel (.statistic statistic) := by
  refine ⟨_, if_pos h, fun channel => ?_⟩
  rw [read_of_place (k := .statistic statistic) (if_pos h)]
  rfl

/-- The block of a hand-over shows the rows. -/
theorem Holds.shows {rows : ℕ → ℕ → List RowTotals} (h : s.Holds rows) (firstChannel : ℕ)
    (complete : Bool) (completeness : ℚ) :
    Shows layout regions channels rows
      ((s.settle true).block firstChannel complete completeness) := by
  have hseries : ∀ region < regions, ∀ statistic ∈ layout.statistics, ∃ series,
      ((s.settle true).block firstChannel complete completeness).series region statistic =
        some series ∧
        ∀ channel < channels,
          series channel = reported (RowTotals.foldRows (rows region channel)) statistic := by
    intro region hregion statistic hstatistic
    obtain ⟨series, hseries, hread⟩ := series_block (s := s.settle true) firstChannel complete
      completeness region hstatistic
    refine ⟨series, hseries, fun channel hchannel => ?_⟩
    rw [hread, (h.keeps region hregion channel hchannel).read_settle
      (RowTotals.foldRows_bounded (h.bounded region channel)) hregion hchannel hstatistic]
  have hnone : ∀ region, ∀ statistic ∉ layout.statistics,
      ((s.settle true).block firstChannel complete completeness).series region statistic = none :=
    fun region statistic hstatistic => if_neg hstatistic
  refine ⟨rfl, rfl, fun wanted => carries_iff _ wanted, hseries, hnone,
    fun region hregion channel hchannel => ?_⟩
  have hread : ∀ statistic initial,
      ((s.settle true).block firstChannel complete completeness).readInto region channel statistic
        initial = shown layout (RowTotals.foldRows (rows region channel)) statistic initial := by
    intro statistic initial
    unfold shown SpectralBlock.readInto
    split_ifs with hstatistic
    · obtain ⟨series, hsome, hall⟩ := hseries region hregion statistic hstatistic
      rw [hsome]
      exact hall channel hchannel
    · rw [hnone region statistic hstatistic]
  unfold SpectralBlock.totals
  simp only [hread]

/-! ## Folding directly -/

/-- A row, and the region and channel it is folded into. -/
abbrev Entry : Type := ℕ × ℕ × RowTotals

/-- Rows folded one after another. -/
def foldEntries (s : StatisticSlots layout regions channels) (entries : List Entry) :
    StatisticSlots layout regions channels :=
  entries.foldl (fun s entry => s.fold entry.1 entry.2.1 entry.2.2) s

/-- The rows among some entries that come to a region and channel. -/
def rowsAt (entries : List Entry) (region channel : ℕ) : List RowTotals :=
  entries.filterMap fun entry =>
    if region = entry.1 ∧ channel = entry.2.1 then some entry.2.2 else none

/-- An entry that an accumulator of these extents has a place for. -/
def Entry.Fits (regions channels : ℕ) (entry : Entry) : Prop :=
  entry.1 < regions ∧ entry.2.1 < channels ∧ entry.2.2.Bounded

/-- An entry of a partial, at its channel of the block. -/
def Entry.shift (offset : ℕ) (entry : Entry) : Entry := (entry.1, offset + entry.2.1, entry.2.2)

theorem Built.foldEntries {rows : ℕ → ℕ → List RowTotals} (h : Built s rows) {entries : List Entry}
    (hentries : ∀ entry ∈ entries, entry.Fits regions channels) :
    Built (s.foldEntries entries) fun region channel =>
      rows region channel ++ rowsAt entries region channel := by
  induction entries generalizing s rows with
  | nil => simpa [rowsAt, StatisticSlots.foldEntries] using h
  | cons entry entries ih =>
    obtain ⟨hregion, hchannel, hrow⟩ := hentries entry (by simp)
    have hrest := ih (h.fold hregion hchannel hrow) fun e he => hentries e (by simp [he])
    have hrows : (fun region channel => (rows region channel ++
        if region = entry.1 ∧ channel = entry.2.1 then [entry.2.2] else []) ++
          rowsAt entries region channel) = fun region channel =>
        rows region channel ++ rowsAt (entry :: entries) region channel := by
      funext region channel
      rw [List.append_assoc, rowsAt, rowsAt, List.filterMap_cons]
      split_ifs <;> rfl
    rwa [hrows] at hrest

/-- Entries of a partial come to the channels from `offset` on. -/
theorem rowsAt_shift {extent : ℕ} {entries : List Entry} (h : ∀ entry ∈ entries, entry.2.1 < extent)
    (offset region channel : ℕ) : rowsAt (entries.map (Entry.shift offset)) region channel =
      if offset ≤ channel ∧ channel < offset + extent then rowsAt entries region (channel - offset)
      else [] := by
  unfold rowsAt
  rw [List.filterMap_map]
  split_ifs with hat
  · refine List.filterMap_congr fun entry _ => ?_
    have hchannel : channel = offset + entry.2.1 ↔ channel - offset = entry.2.1 := by omega
    simp only [Function.comp_apply, Entry.shift, hchannel]
  · refine List.filterMap_eq_nil_iff.2 fun entry hentry => if_neg ?_
    rintro ⟨-, hchannel⟩
    have := h entry hentry
    simp only [Entry.shift] at hchannel
    omega

/-- Partials merged at an offset bring the rows that were folded into them. -/
theorem Built.mergeEntries {rows : ℕ → ℕ → List RowTotals} (h : Built s rows)
    {parts : List (ℕ × List Entry)} {offset : ℕ}
    (hparts : ∀ part ∈ parts, offset + part.1 ≤ channels ∧
      ∀ entry ∈ part.2, entry.Fits regions part.1) :
    Built (s.mergeInOrder (parts.map fun part =>
        ⟨part.1, (StatisticSlots.reset layout regions part.1).foldEntries part.2⟩)
          offset) fun region channel =>
      rows region channel ++
        rowsAt (parts.flatMap fun part => part.2.map (Entry.shift offset)) region channel := by
  -- the partials with the rows that were folded into them
  let built : List (Part layout regions) := parts.map fun part =>
    (⟨part.1, (StatisticSlots.reset layout regions part.1).foldEntries part.2⟩, rowsAt part.2)
  have hmerged : (s.mergeInOrder (built.map Prod.fst) offset).Built _ := h.mergeInOrder
    (fun part hpart => by
      obtain ⟨p, hp, rfl⟩ := List.mem_map.1 hpart
      exact (Built.reset p.1).foldEntries (hparts p hp).2)
    (fun part hpart => by
      obtain ⟨p, hp, rfl⟩ := List.mem_map.1 hpart
      exact (hparts p hp).1)
  have hrows : mergedRows rows built offset = fun region channel => rows region channel ++
      rowsAt (parts.flatMap fun part => part.2.map (Entry.shift offset)) region channel := by
    funext region channel
    unfold mergedRows
    congr 1
    rw [List.flatMap_map, rowsAt, List.filterMap_flatMap]
    refine List.flatMap_congr fun p hp => ?_
    exact (rowsAt_shift (fun entry hentry => ((hparts p hp).2 entry hentry).2.1) offset region
      channel).symm
  rwa [hrows, List.map_map] at hmerged

/-- **A hand-over shows the rows and changes nothing.** Whatever rows were folded and whatever
partials of them merged, every hand-over shows the sink the fold of exactly those that came to each
region and channel, and leaves the accumulator as it was. An accumulator that had the same rows in
another way is the same; so partials merged at an offset leave what folding their rows at these
channels does. -/
theorem handOver_shows {rows : ℕ → ℕ → List RowTotals} (h : Built s rows) (firstChannel : ℕ)
    (complete : Bool) (completeness : ℚ) (sink : SpectralBlock → Bool) :
    (∃ block, s.handOver firstChannel complete completeness sink = (sink block, s) ∧
      block.firstChannel = firstChannel ∧ block.complete = complete ∧
      block.completeness = completeness ∧ Shows layout regions channels rows block) ∧
    (∀ s' : StatisticSlots layout regions channels, Built s' rows → s' = s) ∧
    ∀ (parts : List (ℕ × List Entry)) (offset : ℕ), (∀ part ∈ parts, offset + part.1 ≤ channels ∧
        ∀ entry ∈ part.2, entry.Fits regions part.1) →
      s.mergeInOrder (parts.map fun part =>
          ⟨part.1, (reset layout regions part.1).foldEntries part.2⟩) offset =
        s.foldEntries (parts.flatMap fun part => part.2.map (Entry.shift offset)) := by
  have hunique : ∀ {t t' : StatisticSlots layout regions channels} {rows : ℕ → ℕ → List RowTotals},
      Built t rows → Built t' rows → t' = t := fun ht ht' =>
    ext_read fun region hregion channel hchannel k hk =>
      (ht'.holds.keeps region hregion channel hchannel k hk).trans
        (ht.holds.keeps region hregion channel hchannel k hk).symm
  have hholds := h.holds
  refine ⟨⟨_, Prod.ext rfl (hholds.handOver_eq firstChannel complete completeness sink),
    rfl, rfl, rfl,
    hholds.shows firstChannel complete completeness⟩, fun s' h' => hunique h h',
    fun parts offset hparts => ?_⟩
  have hfolded : (s.foldEntries (parts.flatMap fun part =>
      part.2.map (Entry.shift offset))).Built _ :=
    h.foldEntries
    (fun entry hentry => by
      obtain ⟨p, hp, hmem⟩ := List.mem_flatMap.1 hentry
      obtain ⟨e, he, rfl⟩ := List.mem_map.1 hmem
      obtain ⟨hfits, hall⟩ := hparts p hp
      obtain ⟨h₁, h₂, h₃⟩ := hall e he
      exact ⟨h₁, (Nat.add_lt_add_left h₂ offset).trans_le hfits, h₃⟩)
  exact hunique hfolded (h.mergeEntries hparts)

/-- The rows of two regions at two channels: those of the first two channels are folded, and the
last are of a partial of one channel. -/
def twoRegionRows : List Entry × List Entry :=
  ([(0, 0, .pixelRow [some 5]), (1, 1, .pixelRow [some 1, none, some 2, some 6])],
    [(1, 0, .pixelRow [some 3, some 7]), (1, 0, .pixelRow [none])])

/-- All of them, at the channels they come to. -/
def twoRegionEntries : List Entry := twoRegionRows.1 ++ twoRegionRows.2.map (Entry.shift 1)

def twoRegionLayout : StatisticLayout := .of {.min, .max, .sumSqDev}

/-- An accumulator of these rows, the partial merged at the second channel. -/
def twoRegions : StatisticSlots twoRegionLayout 2 2 :=
  ((reset twoRegionLayout 2 2).foldEntries twoRegionRows.1).mergeInOrder
    ([(1, twoRegionRows.2)].map fun part =>
      ⟨part.1, (reset twoRegionLayout 2 part.1).foldEntries part.2⟩) 1

theorem twoRegions_built : Built twoRegions (rowsAt twoRegionEntries) := by
  have hfits : ∀ entry ∈ twoRegionRows.1, entry.Fits 2 2 := by
    simp [twoRegionRows, Entry.Fits, RowTotals.pixelRow_bounded]
  have hpart : ∀ part ∈ [(1, twoRegionRows.2)], 1 + part.1 ≤ 2 ∧
      ∀ entry ∈ part.2, entry.Fits 2 part.1 := by
    rintro part hpart
    obtain rfl := List.mem_singleton.1 hpart
    exact ⟨le_rfl, by simp [twoRegionRows, Entry.Fits, RowTotals.pixelRow_bounded]⟩
  have hrows : rowsAt twoRegionEntries = fun region channel =>
      ([] ++ rowsAt twoRegionRows.1 region channel) ++
        rowsAt ([(1, twoRegionRows.2)].flatMap fun part =>
            part.2.map (Entry.shift 1)) region channel := by
    funext region channel
    rw [List.flatMap_singleton, List.nil_append]
    exact List.filterMap_append
  rw [hrows]
  exact ((Built.reset 2).foldEntries hfits).mergeEntries hpart

/-- Two regions at two channels, handed over to a sink that goes on: the last totals are of a row
that was folded and of two that were merged. -/
theorem handOver_shows_twoRegions :
    ∃ block, twoRegions.handOver 0 true 1 (fun _ => true) = (true, twoRegions) ∧
      block.firstChannel = 0 ∧ block.complete = true ∧ block.completeness = 1 ∧
      Shows twoRegionLayout 2 2 (rowsAt twoRegionEntries) block ∧
      block.totals 1 1 =
        { numPixels := .finite 5, nanCount := 0, sum := .finite 19, sumSq := 0, min := .finite 1
          max := .finite 7, sumSqDev := .finite (134 / 5) } := by
  obtain ⟨block, hblock, hfirst, hcomplete, hcompleteness, hshows⟩ :=
    (handOver_shows twoRegions_built 0 true 1 fun _ => true).1
  exact ⟨block, hblock, hfirst, hcomplete, hcompleteness, hshows,
    (hshows.totals 1 (by decide) 1 (by decide)).trans
      ((SpectralTotals.mk.injEq ..).mpr (by decide +kernel))⟩

end CartaZarr.StatisticSlots
