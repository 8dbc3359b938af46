import Mathlib.Algebra.BigOperators.Fin
import Mathlib.Algebra.Order.BigOperators.GroupWithZero.List
import CartaZarr.Foundations.MixedRadix
import CartaZarr.Foundations.Strided
import CartaZarr.Image.Descriptor

/-!
# What a pixel read asks for

`buildSelection` translates a request over the logical axes into the stored axis order, checking it
against the descriptor on the way, with its destination laid out in logical or in stored order.

It accepts exactly the requests that are `ReadRequest.Valid` (`buildSelection_ok_iff`), and what it
makes of them is `PixelSelection.Selects`: the range of every axis stands at the stored dimension
of that axis. `storedIndex_position` is what a reader relies on: the destination position
`∑ number * stride` over the stored dimensions holds the element with those numbers.
-/

namespace CartaZarr

open Word

/-- The order a read's destination is laid out in. -/
inductive DestinationOrder
  | logical | stored
  deriving DecidableEq, Repr

/-- One hyperslab of an array, addressed in the array's own stored axis order, and the order its
destination is written in: `destinationToStored[i]` is the stored dimension that the destination's
axis `i` is, its axis 0 varying fastest. -/
structure PixelSelection where
  start : List ℕ
  count : List ℕ
  stride : List ℕ
  destinationToStored : List ℕ
  elements : ℕ
  deriving DecidableEq, Repr

namespace PixelSelection

/-- The selection `buildSelection` begins with. -/
def blank (rank : ℕ) : PixelSelection where
  start := List.replicate rank 0
  count := List.replicate rank 0
  stride := List.replicate rank 1
  destinationToStored := List.replicate rank 0
  elements := 0

/-- The loop of `destinationStrides`. -/
def stridesFrom (count : List ℕ) : List ℕ → ℕ → List ℕ → List ℕ
  | [], _, strides => strides
  | stored :: rest, running, strides =>
    stridesFrom count rest (mul running (count.getD stored 0)) (strides.set stored running)

/-- How far one step along each stored dimension moves in the destination, by stored dimension. -/
def destinationStrides (s : PixelSelection) : List ℕ :=
  stridesFrom s.count s.destinationToStored 1 (List.replicate s.count.length 1)

/-- The number along stored dimension `dim` of the element at position `k` of the destination. -/
def numberAt (s : PixelSelection) (k dim : ℕ) : ℕ :=
  k / s.destinationStrides.getD dim 1 % s.count.getD dim 1

/-- The stored index of the element at position `k` of the destination. -/
def storedIndex (s : PixelSelection) (k : ℕ) : List ℕ :=
  (List.range s.count.length).map fun dim =>
    s.start.getD dim 0 + s.numberAt k dim * s.stride.getD dim 0

end PixelSelection

/-- Whether a range of an axis falls inside it: the last selected index is compared by dividing
the room that is left. -/
def Range.Exceeds (range : Range) (length : ℕ) : Prop :=
  length ≤ range.start ∨ (length - 1 - range.start) / range.stride < range.count - 1

instance (range : Range) (length : ℕ) : Decidable (range.Exceeds length) :=
  inferInstanceAs (Decidable (_ ∨ _))

/-- The loop of `buildSelection` over the logical axes, from axis `logical` on. -/
def placeAxes (id : String) (rank : ℕ) :
    List AxisDescriptor → List Range → ℕ → PixelSelection → Except Error PixelSelection
  | axis :: axes, range :: ranges, logical, selection =>
    if range.stride = 0 then
      .error ⟨.invalidArgument, "Axis '" ++ axis.name ++ "' has a zero stride", id⟩
    else if range.count = 0 then
      .error ⟨.invalidArgument, "Axis '" ++ axis.name ++ "' selects no elements", id⟩
    else if range.Exceeds axis.length.toNat then
      .error ⟨.invalidArgument, "Axis '" ++ axis.name ++ "' request exceeds its length of " ++
        toString axis.length.toNat, id⟩
    else if rank ≤ axis.storageIndex then
      .error ⟨.invalidMetadata, "Axis '" ++ axis.name ++ "' has an out-of-range storage index", id⟩
    else
      placeAxes id rank axes ranges (logical + 1)
        { selection with
          start := selection.start.set axis.storageIndex range.start
          count := selection.count.set axis.storageIndex range.count
          -- a stride over one element says nothing
          stride := selection.stride.set axis.storageIndex
            (if range.count = 1 then 1 else range.stride)
          destinationToStored := selection.destinationToStored.set logical axis.storageIndex }
  | _, _, _, selection => .ok selection

/-- The elements a selection produces, or nothing when they are more than a word counts. -/
def countElements : List ℕ → ℕ → Option ℕ
  | [], elements => some elements
  | count :: counts, elements =>
    if (2 ^ 64 - 1) / count < elements then none else countElements counts (mul elements count)

/-- Translate a request over the logical axes into the stored axis order. -/
def buildSelection (descriptor : ImageDescriptor) (request : ReadRequest)
    (order : DestinationOrder) : Except Error PixelSelection :=
  let rank := descriptor.rank
  if request.axes.length ≠ rank then
    .error ⟨.invalidArgument, "Request has " ++ toString request.axes.length ++
      " axes but the image has " ++ toString rank, descriptor.id⟩
  else
    match placeAxes descriptor.id rank descriptor.axes request.axes 0 (.blank rank) with
    | .error e => .error e
    | .ok selection =>
      let destinationToStored := match order with
        | .logical => selection.destinationToStored
        | .stored => (List.range rank).map fun axis => rank - 1 - axis
      match countElements selection.count 1 with
      | none =>
        .error ⟨.invalidArgument, "Request selects more elements than can be counted",
          descriptor.id⟩
      | some elements =>
        .ok { selection with destinationToStored := destinationToStored, elements := elements }

/-! ## Valid requests -/

namespace ReadRequest

/-- The counts of a request, in logical order. -/
def counts (r : ReadRequest) : List ℕ := r.axes.map Range.count

/-- How many elements a request selects. -/
def elements (r : ReadRequest) : ℕ := r.counts.prod

/-- A request for a range inside every axis of an image. -/
structure Inside (d : ImageDescriptor) (r : ReadRequest) : Prop where
  rank_eq : r.axes.length = d.rank
  stride_pos : ∀ i < d.rank, 0 < (r.axis i).stride
  count_pos : ∀ i < d.rank, 0 < (r.axis i).count
  last_lt : ∀ i < d.rank, Strided.coord (r.axis i).start (r.axis i).stride ((r.axis i).count - 1) <
    d.length i

/-- A range inside an axis has no more elements than the axis. -/
theorem Inside.count_le {d : ImageDescriptor} {r : ReadRequest} (h : r.Inside d) {i : ℕ}
    (hi : i < d.rank) : (r.axis i).count ≤ d.length i := by
  have hlast := h.last_lt i hi
  have : ((r.axis i).count - 1) * 1 ≤ ((r.axis i).count - 1) * (r.axis i).stride :=
    Nat.mul_le_mul_left _ (h.stride_pos i hi)
  unfold Strided.coord at hlast
  omega

/-- A request inside an image, for a number of elements that a word can count. -/
structure Valid (d : ImageDescriptor) (r : ReadRequest) : Prop extends Inside d r where
  elements_lt : r.elements < 2 ^ 64

theorem axis_eq_getElem (r : ReadRequest) {i : ℕ} (h : i < r.axes.length) : r.axis i = r.axes[i] :=
  List.getD_eq_getElem _ _ h

theorem counts_getD (r : ReadRequest) {i : ℕ} (h : i < r.axes.length) (c : ℕ) :
    r.counts.getD i c = (r.axis i).count := by
  rw [List.getD_eq_getElem _ _ (by simpa [counts] using h), axis_eq_getElem r h]
  simp [counts]

@[simp] theorem length_counts (r : ReadRequest) : r.counts.length = r.axes.length := by
  simp [counts]

end ReadRequest

theorem Range.not_exceeds_iff {range : Range} {length : ℕ} (hs : 0 < range.stride) :
    ¬ range.Exceeds length ↔ range.start + (range.count - 1) * range.stride < length := by
  unfold Range.Exceeds
  rw [not_or, not_le, not_lt, Nat.le_div_iff_mul_le hs]
  omega

/-! ## Writing through distinct indices -/

/-- Write the values `vs` at the indices `is`, in order. -/
def writeAll {α : Type*} (xs : List α) : List ℕ → List α → List α
  | i :: is, v :: vs => writeAll (xs.set i v) is vs
  | _, _ => xs

@[simp] theorem length_writeAll {α : Type*} (xs : List α) (is : List ℕ) (vs : List α) :
    (writeAll xs is vs).length = xs.length := by
  induction is generalizing xs vs with
  | nil => cases vs <;> rfl
  | cons i is ih => cases vs with
    | nil => rfl
    | cons v vs => rw [writeAll, ih, List.length_set]

theorem getElem?_writeAll_of_notMem {α : Type*} (xs : List α) {is : List ℕ} (vs : List α) {k : ℕ}
    (hk : k ∉ is) : (writeAll xs is vs)[k]? = xs[k]? := by
  induction is generalizing xs vs with
  | nil => cases vs <;> rfl
  | cons i is ih => cases vs with
    | nil => rfl
    | cons v vs =>
      rw [List.mem_cons, not_or] at hk
      rw [writeAll, ih _ _ hk.2, List.getElem?_set_ne (Ne.symm hk.1)]

/-- What is written at an index is read there, when the indices are distinct. -/
theorem getElem?_writeAll {α : Type*} (xs : List α) {is : List ℕ} {vs : List α} (hn : is.Nodup)
    (hlt : ∀ i ∈ is, i < xs.length) {j i : ℕ} {v : α} (hi : is[j]? = some i)
    (hv : vs[j]? = some v) :
    (writeAll xs is vs)[i]? = some v := by
  induction is generalizing xs vs j with
  | nil => simp at hi
  | cons i' is ih => cases vs with
    | nil => simp at hv
    | cons v' vs =>
      obtain ⟨hni, hn'⟩ := List.nodup_cons.1 hn
      cases j with
      | zero =>
        simp only [List.getElem?_cons_zero, Option.some.injEq] at hi hv
        subst hi hv
        rw [writeAll, getElem?_writeAll_of_notMem _ _ hni,
          List.getElem?_set_self (hlt _ (by simp))]
      | succ j =>
        rw [writeAll]
        exact ih _ hn' (fun k hk => by simpa using hlt k (by simp [hk])) (by simpa using hi)
          (by simpa using hv)

/-- Writing a list over one of its length leaves the list. -/
theorem writeAll_range {α : Type*} {xs vs : List α} {n : ℕ} (hx : xs.length = n)
    (hv : vs.length = n) : writeAll xs ((List.range n).map (0 + ·)) vs = vs := by
  subst hv
  apply List.ext_getElem?
  intro i
  rcases lt_or_ge i vs.length with hi | hi
  · rw [List.getElem?_eq_getElem hi]
    refine getElem?_writeAll xs ?_ ?_ (j := i) ?_ (List.getElem?_eq_getElem hi)
    · simpa using List.nodup_range
    · simp [hx]
    · simp [hi]
  · rw [List.getElem?_eq_none hi, List.getElem?_eq_none (by simpa [hx] using hi)]

/-! ## What is accepted and what is made of it -/

/-- The checks an axis and its range pass. -/
def AxisOk (rank : ℕ) (axis : AxisDescriptor) (range : Range) : Prop :=
  range.stride ≠ 0 ∧ range.count ≠ 0 ∧ ¬ range.Exceeds axis.length.toNat ∧ axis.storageIndex < rank

theorem placeAxes_ok {id : String} {rank : ℕ} {axes : List AxisDescriptor} {ranges : List Range}
    {logical : ℕ} {s s' : PixelSelection} (hlen : ranges.length = axes.length)
    (h : placeAxes id rank axes ranges logical s = .ok s') :
    (∀ p ∈ axes.zip ranges, AxisOk rank p.1 p.2) ∧
    s' = { start := writeAll s.start (axes.map AxisDescriptor.storageIndex) (ranges.map Range.start)
           count := writeAll s.count (axes.map AxisDescriptor.storageIndex) (ranges.map Range.count)
           stride := writeAll s.stride (axes.map AxisDescriptor.storageIndex)
             (ranges.map fun r => if r.count = 1 then 1 else r.stride)
           destinationToStored := writeAll s.destinationToStored
             ((List.range axes.length).map (logical + ·)) (axes.map AxisDescriptor.storageIndex)
           elements := s.elements } := by
  induction axes generalizing ranges logical s with
  | nil =>
    obtain rfl : ranges = [] := List.length_eq_zero_iff.1 (by simpa using hlen)
    simp only [placeAxes, Except.ok.injEq] at h
    subst h
    exact ⟨by simp, rfl⟩
  | cons axis axes ih =>
    obtain _ | ⟨range, ranges⟩ := ranges
    · simp at hlen
    rw [placeAxes] at h
    split at h
    · cases h
    rename_i h1
    split at h
    · cases h
    rename_i h2
    split at h
    · cases h
    rename_i h3
    split at h
    · cases h
    rename_i h4
    obtain ⟨hall, hs'⟩ := ih (by simpa using hlen) h
    refine ⟨?_, ?_⟩
    · intro p hp
      rcases List.mem_cons.1 (by simpa using hp) with rfl | hp
      · exact ⟨h1, h2, h3, not_le.1 h4⟩
      · exact hall p hp
    · rw [hs']
      simp only [List.map_cons, writeAll, List.length_cons, List.range_succ_eq_map, List.map_map,
        Nat.add_zero]
      have hshift : ((fun i => logical + 1 + i) : ℕ → ℕ) = (fun i => logical + i) ∘ Nat.succ := by
        funext i
        simp only [Function.comp_apply]
        omega
      rw [hshift]

theorem placeAxes_of_ok (id : String) {rank : ℕ} {axes : List AxisDescriptor} {ranges : List Range}
    (logical : ℕ) (s : PixelSelection) (hall : ∀ p ∈ axes.zip ranges, AxisOk rank p.1 p.2) :
    ∃ s', placeAxes id rank axes ranges logical s = .ok s' := by
  induction axes generalizing ranges logical s with
  | nil => exact ⟨s, by simp [placeAxes]⟩
  | cons axis axes ih =>
    obtain _ | ⟨range, ranges⟩ := ranges
    · exact ⟨s, by simp [placeAxes]⟩
    obtain ⟨h1, h2, h3, h4⟩ := hall (axis, range) (by simp)
    rw [placeAxes, if_neg h1, if_neg h2, if_neg h3, if_neg (not_le.2 h4)]
    exact ih _ _ fun p hp => hall p (by simp [hp])

theorem countElements_eq {counts : List ℕ} (hpos : ∀ c ∈ counts, 0 < c) {elements : ℕ}
    (he : elements < 2 ^ 64) :
    countElements counts elements =
      if elements * counts.prod < 2 ^ 64 then some (elements * counts.prod) else none := by
  induction counts generalizing elements with
  | nil => simpa [countElements] using he
  | cons c cs ih =>
    have hc : 0 < c := hpos c (by simp)
    have hps : ∀ x ∈ cs, 0 < x := fun x hx => hpos x (by simp [hx])
    have hprod : 0 < cs.prod := List.prod_pos hps
    rw [countElements, List.prod_cons, ← mul_assoc]
    by_cases h : (2 ^ 64 - 1) / c < elements
    · rw [if_pos h, if_neg]
      rw [Nat.div_lt_iff_lt_mul hc] at h
      have : elements * c ≤ elements * c * cs.prod := Nat.le_mul_of_pos_right _ hprod
      omega
    · rw [if_neg h]
      rw [not_lt, Nat.le_div_iff_mul_le hc] at h
      have hlt : elements * c < 2 ^ 64 := by omega
      rw [mul_eq hlt, ih hps hlt]

namespace DestinationOrder

/-- The stored dimensions in the order of the destination's axes. -/
def toStored (order : DestinationOrder) (d : ImageDescriptor) : List ℕ :=
  match order with
  | .logical => d.axes.map AxisDescriptor.storageIndex
  | .stored => (List.range d.rank).map fun axis => d.rank - 1 - axis

theorem toStored_perm (order : DestinationOrder) {d : ImageDescriptor} (hd : d.StoredInOrder) :
    (order.toStored d).Perm (List.range d.rank) := by
  cases order with
  | logical => exact hd
  | stored =>
    have hrev : (List.range d.rank).reverse = (List.range d.rank).map fun i => d.rank - 1 - i := by
      simp only [List.range_eq_range' (n := d.rank), List.reverse_range', Nat.zero_add]
    rw [toStored, ← hrev]
    exact List.reverse_perm _

end DestinationOrder

/-- What a selection is of a request: the range of every axis at the stored dimension of that axis,
and the destination's axes in the order asked for. -/
structure PixelSelection.Selects (s : PixelSelection) (d : ImageDescriptor) (r : ReadRequest)
    (order : DestinationOrder) : Prop where
  valid : r.Valid d
  start_at : ∀ i < d.rank, s.start[d.stored i]? = some (r.axis i).start
  count_at : ∀ i < d.rank, s.count[d.stored i]? = some (r.axis i).count
  stride_at : ∀ i < d.rank,
    s.stride[d.stored i]? = some (if (r.axis i).count = 1 then 1 else (r.axis i).stride)
  length_count : s.count.length = d.rank
  order_eq : s.destinationToStored = order.toStored d
  elements_eq : s.elements = r.elements

section Build

variable {d : ImageDescriptor} {r : ReadRequest}

theorem zip_ok_iff (hlen : r.axes.length = d.rank) :
    (∀ p ∈ d.axes.zip r.axes, AxisOk d.rank p.1 p.2) ↔
      ∀ i < d.rank, 0 < (r.axis i).stride ∧ 0 < (r.axis i).count ∧
        (r.axis i).start + ((r.axis i).count - 1) * (r.axis i).stride < d.length i ∧
        d.stored i < d.rank := by
  have hpair : ∀ i < d.rank, (d.axes.zip r.axes)[i]? = some (d.axis i, r.axis i) := fun i hi => by
    rw [List.getElem?_zip_eq_some]
    rw [d.axis_eq_getElem hi, r.axis_eq_getElem (hlen ▸ hi)]
    exact ⟨List.getElem?_eq_getElem _, List.getElem?_eq_getElem _⟩
  have hok : ∀ i < d.rank, AxisOk d.rank (d.axis i) (r.axis i) ↔
      (0 < (r.axis i).stride ∧ 0 < (r.axis i).count ∧
        (r.axis i).start + ((r.axis i).count - 1) * (r.axis i).stride < d.length i ∧
        d.stored i < d.rank) := by
    intro i hi
    unfold AxisOk
    constructor
    · rintro ⟨h1, h2, h3, h4⟩
      have hs := Nat.pos_of_ne_zero h1
      exact ⟨hs, Nat.pos_of_ne_zero h2, (Range.not_exceeds_iff hs).1 h3, h4⟩
    · rintro ⟨h1, h2, h3, h4⟩
      exact ⟨h1.ne', h2.ne', (Range.not_exceeds_iff h1).2 h3, h4⟩
  constructor
  · exact fun h i hi => (hok i hi).1 (h _ (List.mem_of_getElem? (hpair i hi)))
  · intro h p hp
    obtain ⟨i, hi⟩ := List.mem_iff_getElem?.1 hp
    have hi' : i < d.rank := by
      obtain ⟨hlt, -⟩ := List.getElem?_eq_some_iff.1 hi
      simp only [List.length_zip, hlen, min_self] at hlt
      exact hlt
    rw [hpair i hi'] at hi
    rw [← Option.some.inj hi]
    exact (hok i hi').2 (h i hi')

/-- Values written at the stored dimensions of the axes, read back by axis. -/
theorem writeAll_stored {β : Type*} (hd : d.StoredInOrder) (xs : List β) (hxs : xs.length = d.rank)
    (f : Range → β) (hlen : r.axes.length = d.rank) {i : ℕ} (hi : i < d.rank) :
    (writeAll xs (d.axes.map AxisDescriptor.storageIndex) (r.axes.map f))[d.stored i]? =
      some (f (r.axis i)) := by
  refine getElem?_writeAll xs (hd.nodup_iff.2 List.nodup_range) ?_
    (d.getElem?_map_storageIndex hi) ?_
  · intro j hj
    rw [hxs]
    exact List.mem_range.1 (hd.mem_iff.1 hj)
  · rw [List.getElem?_map, List.getElem?_eq_getElem (hlen ▸ hi), r.axis_eq_getElem (hlen ▸ hi)]
    rfl

/-- A list over the stored dimensions, read at the dimensions of the axes, is a permutation. -/
theorem perm_of_stored (hd : d.StoredInOrder) {xs ys : List ℕ} (hxs : xs.length = d.rank)
    (hys : ys.length = d.rank) (h : ∀ i < d.rank, xs[d.stored i]? = ys[i]?) : xs.Perm ys := by
  have hx : xs = (List.range d.rank).map fun i => xs.getD i 0 := by
    apply List.ext_getElem (by simp [hxs])
    intro i h1 h2
    simp [List.getElem?_eq_getElem h1]
  have hy : ys = (d.axes.map AxisDescriptor.storageIndex).map fun i => xs.getD i 0 := by
    apply List.ext_getElem? fun i => ?_
    rcases lt_or_ge i d.rank with hi | hi
    · rw [List.getElem?_map, d.getElem?_map_storageIndex hi, ← h i hi, Option.map_some,
        List.getD_eq_getElem?_getD, List.getElem?_eq_getElem (hxs ▸ hd.stored_lt hi)]
      rfl
    · rw [List.getElem?_eq_none (hys ▸ hi), List.getElem?_eq_none (by simpa using hi)]
  rw [hx, hy]
  exact (hd.map _).symm

theorem prod_counts_pos (hr : ∀ i < d.rank, 0 < (r.axis i).count) (hlen : r.axes.length = d.rank) :
    ∀ c ∈ r.counts, 0 < c := by
  intro c hc
  obtain ⟨i, hi⟩ := List.mem_iff_getElem?.1 hc
  obtain ⟨hlt, rfl⟩ := List.getElem?_eq_some_iff.1 hi
  have hi' : i < r.axes.length := by simpa using hlt
  have := hr i (hlen ▸ hi')
  rw [r.axis_eq_getElem hi'] at this
  simpa [ReadRequest.counts] using this

/-- The selection an accepted request was placed in, and what was checked of it. -/
theorem buildSelection_placed {order : DestinationOrder} {s : PixelSelection}
    (h : buildSelection d r order = .ok s) :
    r.axes.length = d.rank ∧ ∃ placed,
      placeAxes d.id d.rank d.axes r.axes 0 (.blank d.rank) = .ok placed ∧
      countElements placed.count 1 = some s.elements ∧
      s = { placed with
            destinationToStored := match order with
              | .logical => placed.destinationToStored
              | .stored => (List.range d.rank).map fun axis => d.rank - 1 - axis
            elements := s.elements } := by
  unfold buildSelection at h
  by_cases hlen : r.axes.length = d.rank
  swap
  · simp [hlen] at h
  simp only [hlen, ne_eq, not_true_eq_false, if_false] at h
  rcases hp : placeAxes d.id d.rank d.axes r.axes 0 (.blank d.rank) with e | placed
  · simp [hp] at h
  simp only [hp] at h
  rcases hc : countElements placed.count 1 with _ | elements
  · simp [hc] at h
  simp only [hc, Except.ok.injEq] at h
  subst h
  exact ⟨hlen, placed, rfl, hc, by cases order <;> rfl⟩

/-- The ranges of an accepted request lie inside their axes. -/
theorem buildSelection_inside {order : DestinationOrder} {s : PixelSelection}
    (h : buildSelection d r order = .ok s) : r.Inside d := by
  obtain ⟨hlen, placed, hp, -, -⟩ := buildSelection_placed h
  obtain ⟨hall, -⟩ := placeAxes_ok (by simpa using hlen) hp
  have hok := (zip_ok_iff hlen).1 hall
  exact ⟨hlen, fun i hi => (hok i hi).1, fun i hi => (hok i hi).2.1, fun i hi => (hok i hi).2.2.1⟩

theorem countElements_pos {counts : List ℕ} {elements n : ℕ} (he : 0 < elements)
    (h : countElements counts elements = some n) : ∀ c ∈ counts, 0 < c := by
  induction counts generalizing elements with
  | nil => simp
  | cons c cs ih =>
    rw [countElements] at h
    split_ifs at h with hlt
    have hc : 0 < c := by
      by_contra h0
      rw [Nat.eq_zero_of_not_pos h0, Nat.div_zero] at hlt
      omega
    rw [not_lt, Nat.le_div_iff_mul_le hc] at hlt
    intro x hx
    rcases List.mem_cons.1 hx with rfl | hx
    · exact hc
    · exact ih (by rw [mul_eq (by omega)]; exact Nat.mul_pos he hc) h x hx

/-- Nothing is accepted of an image that has a stored dimension no axis is stored in: no element
would be counted along it. -/
theorem buildSelection_storedInOrder {order : DestinationOrder} {s : PixelSelection}
    (h : buildSelection d r order = .ok s) : d.StoredInOrder := by
  obtain ⟨hlen, placed, hp, hcount, -⟩ := buildSelection_placed h
  obtain ⟨-, hplaced⟩ := placeAxes_ok (by simpa using hlen) hp
  have hpos := countElements_pos Nat.one_pos hcount
  have hsub : List.range d.rank ⊆ d.axes.map AxisDescriptor.storageIndex := by
    intro i hi
    rw [List.mem_range] at hi
    by_contra hmem
    have hget : placed.count[i]? = some 0 := by
      rw [hplaced]
      simp only
      rw [getElem?_writeAll_of_notMem _ _ hmem]
      simp [PixelSelection.blank, hi]
    exact absurd (hpos 0 (List.mem_of_getElem? hget)) (lt_irrefl 0)
  have hsubperm := List.subperm_of_subset List.nodup_range hsub
  exact (hsubperm.perm_of_length_le (by simp)).symm

/-- The counts of a placed request are a permutation of its own. -/
theorem placed_count_perm (hd : d.StoredInOrder) (hlen : r.axes.length = d.rank)
    {placed : PixelSelection}
    (hp : placeAxes d.id d.rank d.axes r.axes 0 (.blank d.rank) = .ok placed) :
    placed.count.Perm r.counts := by
  obtain ⟨-, hplaced⟩ := placeAxes_ok (by simpa using hlen) hp
  refine perm_of_stored hd (by simp [hplaced, PixelSelection.blank]) (by simpa using hlen)
    fun i hi => ?_
  have hi' : i < r.axes.length := hlen ▸ hi
  rw [hplaced, ReadRequest.counts, List.getElem?_map, List.getElem?_eq_getElem hi',
    ← r.axis_eq_getElem hi']
  exact writeAll_stored hd _ (by simp [PixelSelection.blank]) Range.count hlen hi

/-- **What `buildSelection` makes of a request.** -/
theorem buildSelection_selects (hd : d.StoredInOrder) {order : DestinationOrder}
    {s : PixelSelection} (h : buildSelection d r order = .ok s) : s.Selects d r order := by
  have hin := buildSelection_inside h
  obtain ⟨hlen, placed, hp, hcount, hs⟩ := buildSelection_placed h
  obtain ⟨-, hplaced⟩ := placeAxes_ok (by simpa using hlen) hp
  have hperm := placed_count_perm hd hlen hp
  have hpos : ∀ c ∈ placed.count, 0 < c := fun c hc =>
    prod_counts_pos hin.count_pos hlen c (hperm.mem_iff.1 hc)
  rw [countElements_eq hpos (by norm_num), one_mul, hperm.prod_eq] at hcount
  split_ifs at hcount with hlt
  have helements : r.counts.prod = s.elements := Option.some.inj hcount
  rw [hs]
  refine ⟨⟨hin, hlt⟩, fun i hi => ?_, fun i hi => ?_, fun i hi => ?_, ?_, ?_, helements.symm⟩
  · rw [hplaced]
    exact writeAll_stored hd _ (by simp [PixelSelection.blank]) Range.start hlen hi
  · rw [hplaced]
    exact writeAll_stored hd _ (by simp [PixelSelection.blank]) Range.count hlen hi
  · rw [hplaced]
    exact writeAll_stored hd _ (by simp [PixelSelection.blank])
      (fun r => if r.count = 1 then 1 else r.stride) hlen hi
  · simp [hplaced, PixelSelection.blank]
  · cases order with
    | stored => rfl
    | logical =>
      rw [hplaced]
      exact writeAll_range (List.length_replicate ..) (List.length_map ..)

/-- **A valid request is accepted.** -/
theorem buildSelection_of_valid (hd : d.StoredInOrder) (hr : r.Valid d) (order : DestinationOrder) :
    ∃ s, buildSelection d r order = .ok s := by
  have hok := (zip_ok_iff hr.rank_eq).2 fun i hi =>
    ⟨hr.stride_pos i hi, hr.count_pos i hi, hr.last_lt i hi, hd.stored_lt hi⟩
  unfold buildSelection
  simp only [hr.rank_eq, ne_eq, not_true_eq_false, if_false]
  obtain ⟨placed, hp⟩ := placeAxes_of_ok d.id 0 (.blank d.rank) hok
  have hperm := placed_count_perm hd hr.rank_eq hp
  have hpos : ∀ c ∈ placed.count, 0 < c := fun c hc =>
    prod_counts_pos hr.count_pos hr.rank_eq c (hperm.mem_iff.1 hc)
  simp only [hp]
  rw [countElements_eq hpos (by norm_num), one_mul, hperm.prod_eq,
    if_pos (show r.counts.prod < 2 ^ 64 from hr.elements_lt)]
  exact ⟨_, rfl⟩

/-- The requests that are accepted are the valid ones. -/
theorem buildSelection_ok_iff (hd : d.StoredInOrder) (order : DestinationOrder) :
    (∃ s, buildSelection d r order = .ok s) ↔ r.Valid d :=
  ⟨fun ⟨_, h⟩ => (buildSelection_selects hd h).valid, fun h => buildSelection_of_valid hd h order⟩

end Build

/-! ## Where an element lies in the destination -/

theorem getD_stridesFrom_of_notMem {count : List ℕ} {rest : List ℕ} {running : ℕ} {strides : List ℕ}
    {k : ℕ} (hk : k ∉ rest) :
    (PixelSelection.stridesFrom count rest running strides).getD k 1 = strides.getD k 1 := by
  induction rest generalizing running strides with
  | nil => rfl
  | cons i rest ih =>
    rw [List.mem_cons, not_or] at hk
    rw [PixelSelection.stridesFrom, ih hk.2, List.getD_eq_getElem?_getD, List.getD_eq_getElem?_getD,
      List.getElem?_set_ne (Ne.symm hk.1)]

/-- The stride of a destination axis is the product of the counts before it. -/
theorem getD_stridesFrom {count : List ℕ} {rest : List ℕ} {running : ℕ} {strides : List ℕ}
    (hn : rest.Nodup) (hlt : ∀ i ∈ rest, i < strides.length)
    (hpos : ∀ i ∈ rest, 0 < count.getD i 0)
    (hfit : running * (rest.map fun i => count.getD i 0).prod < 2 ^ 64) {j i : ℕ}
    (hi : rest[j]? = some i) :
    (PixelSelection.stridesFrom count rest running strides).getD i 1 =
      running * ((rest.map fun i => count.getD i 0).take j).prod := by
  induction rest generalizing running strides j with
  | nil => simp at hi
  | cons i' rest ih =>
    obtain ⟨hni, hn'⟩ := List.nodup_cons.1 hn
    rw [List.map_cons, List.prod_cons, ← mul_assoc] at hfit
    have hp : 0 < (rest.map fun i => count.getD i 0).prod := by
      apply List.prod_pos
      intro c hc
      obtain ⟨i, hi, rfl⟩ := List.mem_map.1 hc
      exact hpos i (by simp [hi])
    have hrun : running * count.getD i' 0 < 2 ^ 64 :=
      lt_of_le_of_lt (Nat.le_mul_of_pos_right _ hp) hfit
    rw [PixelSelection.stridesFrom, mul_eq hrun]
    cases j with
    | zero =>
      obtain rfl : i' = i := by simpa using hi
      rw [getD_stridesFrom_of_notMem hni, List.getD_eq_getElem?_getD,
        List.getElem?_set_self (hlt _ (by simp))]
      simp
    | succ j =>
      rw [ih hn' (fun k hk => by simpa using hlt k (by simp [hk])) (fun k hk =>
        hpos k (by simp [hk]))
        hfit (by simpa using hi), List.map_cons, List.take_succ_cons, List.prod_cons, mul_assoc]

theorem sum_map_eq_sum_range (l : List ℕ) (f : ℕ → ℕ) :
    (l.map f).sum = ∑ i ∈ Finset.range l.length, f (l.getD i 0) := by
  induction l with
  | nil => rfl
  | cons x l ih =>
    rw [List.map_cons, List.sum_cons, ih, List.length_cons, Finset.sum_range_succ', Nat.add_comm]
    rfl

theorem sum_map_range (n : ℕ) (f : ℕ → ℕ) :
    ((List.range n).map f).sum = ∑ i ∈ Finset.range n, f i := by
  rw [sum_map_eq_sum_range, List.length_range]
  refine Finset.sum_congr rfl fun i hi => congrArg f ?_
  rw [List.getD_eq_getElem?_getD, List.getElem?_range (Finset.mem_range.1 hi), Option.getD_some]

/-- The counts of a selection in the order of its destination's axes. -/
def PixelSelection.destinationCounts (s : PixelSelection) : List ℕ :=
  s.destinationToStored.map fun i => s.count.getD i 0

/-- The image index of an element of the array, by logical axis. -/
def ImageDescriptor.logicalIndex (d : ImageDescriptor) (index : List ℕ) : List ℕ :=
  (List.range d.rank).map fun i => index.getD (d.stored i) 0

/-- The image index of the element of a request with number `n i` along each axis `i`. -/
def ReadRequest.indexAt (r : ReadRequest) (n : ℕ → ℕ) : List ℕ :=
  (List.range r.axes.length).map fun i => Strided.coord (r.axis i).start (r.axis i).stride (n i)

/-- The image index of element `k` of a request, in logical order with axis 0 fastest. -/
def ReadRequest.elementIndex (r : ReadRequest) (k : ℕ) : List ℕ :=
  r.indexAt (MixedRadix.digit r.counts k)

namespace PixelSelection.Selects

variable {s : PixelSelection} {d : ImageDescriptor} {r : ReadRequest} {order : DestinationOrder}

theorem count_getD (h : s.Selects d r order) {i : ℕ} (hi : i < d.rank) (c : ℕ) :
    s.count.getD (d.stored i) c = (r.axis i).count := by
  rw [List.getD_eq_getElem?_getD, h.count_at i hi, Option.getD_some]

theorem destinationToStored_perm (h : s.Selects d r order) (hd : d.StoredInOrder) :
    s.destinationToStored.Perm (List.range d.rank) := h.order_eq ▸ order.toStored_perm hd

theorem prod_destinationCounts (h : s.Selects d r order) (hd : d.StoredInOrder) :
    s.destinationCounts.prod = r.elements := by
  have hp : s.destinationCounts.Perm ((d.axes.map AxisDescriptor.storageIndex).map
      fun i => s.count.getD i 0) := ((h.destinationToStored_perm hd).trans hd.symm).map _
  rw [hp.prod_eq, ReadRequest.elements]
  congr 1
  apply List.ext_getElem?
  intro i
  rcases lt_or_ge i d.rank with hi | hi
  · have hi' : i < r.axes.length := h.valid.rank_eq ▸ hi
    rw [List.getElem?_map, d.getElem?_map_storageIndex hi, Option.map_some, h.count_getD hi,
      ReadRequest.counts, List.getElem?_map, List.getElem?_eq_getElem hi', r.axis_eq_getElem hi']
    rfl
  · rw [List.getElem?_eq_none (by simpa using hi),
      List.getElem?_eq_none (by simpa [h.valid.rank_eq] using hi)]

theorem count_pos (h : s.Selects d r order) (hd : d.StoredInOrder) {i : ℕ} (hi : i < d.rank) :
    0 < s.count.getD i 0 := by
  obtain ⟨j, hj, rfl⟩ := hd.exists_stored hi
  rw [h.count_getD hj]
  exact h.valid.count_pos j hj

/-- The stride of a destination axis is the product of the counts of the axes before it. -/
theorem destinationStrides_getD (h : s.Selects d r order) (hd : d.StoredInOrder) {j i : ℕ}
    (hi : s.destinationToStored[j]? = some i) :
    s.destinationStrides.getD i 1 = (s.destinationCounts.take j).prod := by
  have hperm := h.destinationToStored_perm hd
  have hlt : ∀ i ∈ s.destinationToStored, i < d.rank := fun i hi =>
    List.mem_range.1 (hperm.mem_iff.1 hi)
  unfold destinationStrides
  rw [getD_stridesFrom (hperm.nodup_iff.2 List.nodup_range) (by simpa [h.length_count] using hlt)
    (fun i hi => h.count_pos hd (hlt i hi)) ?_ hi, one_mul]
  · rfl
  · rw [one_mul]
    exact (h.prod_destinationCounts hd).trans_lt h.valid.elements_lt

/-- The number along a dimension of the element at a position is the digit of its axis. -/
theorem numberAt_eq_digit (h : s.Selects d r order) (hd : d.StoredInOrder) {j i : ℕ}
    (hi : s.destinationToStored[j]? = some i) (k : ℕ) :
    s.numberAt k i = MixedRadix.digit s.destinationCounts k j := by
  have hilt : i < d.rank :=
    List.mem_range.1 ((h.destinationToStored_perm hd).mem_iff.1 (List.mem_of_getElem? hi))
  rw [numberAt, h.destinationStrides_getD hd hi, MixedRadix.digit]
  congr 1
  rw [List.getD_eq_getElem?_getD, List.getD_eq_getElem?_getD, destinationCounts, List.getElem?_map,
    hi, Option.map_some, Option.getD_some, List.getD_eq_getElem?_getD,
    List.getElem?_eq_getElem (h.length_count ▸ hilt)]
  rfl

/-- What a number along every axis makes of the image index. -/
theorem logicalIndex_storedIndex (h : s.Selects d r order)
    (hd : d.StoredInOrder) {k : ℕ} {n : ℕ → ℕ}
    (hn : ∀ i < d.rank, n i < (r.axis i).count)
    (hk : ∀ i < d.rank, s.numberAt k (d.stored i) = n i) :
    d.logicalIndex (s.storedIndex k) = r.indexAt n := by
  unfold ImageDescriptor.logicalIndex ReadRequest.indexAt
  rw [h.valid.rank_eq]
  refine List.map_congr_left fun i hi => ?_
  rw [List.mem_range] at hi
  have hs := hd.stored_lt hi
  rw [storedIndex, h.length_count, List.getD_eq_getElem?_getD, List.getElem?_map,
    List.getElem?_range hs, Option.map_some, Option.getD_some, hk i hi,
    List.getD_eq_getElem?_getD, List.getD_eq_getElem?_getD, h.start_at i hi, h.stride_at i hi,
    Option.getD_some, Option.getD_some, Strided.coord]
  split_ifs with h1
  · have := hn i hi
    rw [show n i = 0 by omega, Nat.zero_mul, Nat.zero_mul]
  · rfl

/-- Every axis of a destination is some dimension of the array. -/
theorem exists_destinationToStored (h : s.Selects d r order) (hd : d.StoredInOrder) {j : ℕ}
    (hj : j < d.rank) : ∃ dim < d.rank, s.destinationToStored[j]? = some dim := by
  have hperm := h.destinationToStored_perm hd
  have hlen : s.destinationToStored.length = d.rank := by simpa using hperm.length_eq
  have hj' : s.destinationToStored[j]? = some s.destinationToStored[j] :=
    List.getElem?_eq_getElem (hlen.symm ▸ hj)
  exact ⟨_, List.mem_range.1 (hperm.mem_iff.1 (List.mem_of_getElem? hj')), hj'⟩

/-- Every dimension of the array is some axis of a destination. -/
theorem exists_destinationAxis (h : s.Selects d r order) (hd : d.StoredInOrder) {dim : ℕ}
    (hdim : dim < d.rank) : ∃ j < d.rank, s.destinationToStored[j]? = some dim := by
  have hperm := h.destinationToStored_perm hd
  have hlen : s.destinationToStored.length = d.rank := by simpa using hperm.length_eq
  obtain ⟨j, hj⟩ := List.mem_iff_getElem?.1 (hperm.mem_iff.2 (List.mem_range.2 hdim))
  obtain ⟨hlt, -⟩ := List.getElem?_eq_some_iff.1 hj
  exact ⟨j, hlen ▸ hlt, hj⟩

theorem length_destinationCounts (h : s.Selects d r order) (hd : d.StoredInOrder) :
    s.destinationCounts.length = d.rank := by
  simpa [destinationCounts] using (h.destinationToStored_perm hd).length_eq

theorem destinationCounts_getD (h : s.Selects d r order) {j dim : ℕ} (hdim : dim < d.rank)
    (hj : s.destinationToStored[j]? = some dim) (c c' : ℕ) :
    s.destinationCounts.getD j c = s.count.getD dim c' := by
  rw [List.getD_eq_getElem?_getD, destinationCounts, List.getElem?_map, hj, Option.map_some,
    Option.getD_some, List.getD_eq_getElem _ _ (h.length_count ▸ hdim),
    List.getD_eq_getElem _ _ (h.length_count ▸ hdim)]

/-- The steps along the stored dimensions add up to the position with those numbers. -/
theorem sum_eq_number (h : s.Selects d r order) (hd : d.StoredInOrder) (m : ℕ → ℕ) :
    ∑ dim ∈ Finset.range d.rank, m dim * s.destinationStrides.getD dim 1 =
      MixedRadix.number s.destinationCounts fun j => m (s.destinationToStored.getD j 0) := by
  have hperm := h.destinationToStored_perm hd
  have hlen : s.destinationToStored.length = d.rank := by simpa using hperm.length_eq
  rw [MixedRadix.number_eq_sum, h.length_destinationCounts hd]
  calc ∑ dim ∈ Finset.range d.rank, m dim * s.destinationStrides.getD dim 1
      = ((List.range d.rank).map fun i => m i * s.destinationStrides.getD i 1).sum :=
        (sum_map_range d.rank _).symm
    _ = (s.destinationToStored.map fun i => m i * s.destinationStrides.getD i 1).sum :=
        ((hperm.map _).sum_eq).symm
    _ = ∑ j ∈ Finset.range d.rank, m (s.destinationToStored.getD j 0) *
          (s.destinationCounts.take j).prod := by
        rw [sum_map_eq_sum_range, hlen]
        refine Finset.sum_congr rfl fun j hj => ?_
        obtain ⟨dim, -, e⟩ := h.exists_destinationToStored hd (Finset.mem_range.1 hj)
        have e' : s.destinationToStored.getD j 0 = dim := by
          rw [List.getD_eq_getElem?_getD, e, Option.getD_some]
        rw [e', h.destinationStrides_getD hd e]

/-- The numbers of a cell of the array, by the axes of its destination. -/
theorem lt_destinationCounts (h : s.Selects d r order) (hd : d.StoredInOrder) {m : ℕ → ℕ}
    (hm : ∀ dim < d.rank, m dim < s.count.getD dim 0) :
    ∀ j < s.destinationCounts.length, m (s.destinationToStored.getD j 0) <
      s.destinationCounts.getD j 1 := by
  intro j hj
  obtain ⟨dim, hdim, e⟩ := h.exists_destinationToStored hd (h.length_destinationCounts hd ▸ hj)
  rw [List.getD_eq_getElem?_getD, e, Option.getD_some, h.destinationCounts_getD hdim e 1 0]
  exact hm dim hdim

/-- The position that takes `m dim` steps along every stored dimension has these numbers. -/
theorem numberAt_number (h : s.Selects d r order) (hd : d.StoredInOrder) {m : ℕ → ℕ}
    (hm : ∀ dim < d.rank, m dim < s.count.getD dim 0) {dim : ℕ} (hdim : dim < d.rank) :
    s.numberAt (∑ dim ∈ Finset.range d.rank, m dim * s.destinationStrides.getD dim 1) dim =
      m dim := by
  obtain ⟨j, hj, e⟩ := h.exists_destinationAxis hd hdim
  rw [h.numberAt_eq_digit hd e, h.sum_eq_number hd,
    MixedRadix.digit_number (h.lt_destinationCounts hd hm) (h.length_destinationCounts hd ▸ hj),
    List.getD_eq_getElem?_getD, e, Option.getD_some]

theorem sum_lt_elements (h : s.Selects d r order) (hd : d.StoredInOrder) {m : ℕ → ℕ}
    (hm : ∀ dim < d.rank, m dim < s.count.getD dim 0) :
    ∑ dim ∈ Finset.range d.rank, m dim * s.destinationStrides.getD dim 1 < s.elements := by
  rw [h.sum_eq_number hd, h.elements_eq, ← h.prod_destinationCounts hd]
  exact MixedRadix.number_lt (h.lt_destinationCounts hd hm)

/-- Every position of a destination is that of its numbers. -/
theorem sum_numberAt (h : s.Selects d r order) (hd : d.StoredInOrder) {k : ℕ}
    (hk : k < s.elements) :
    ∑ dim ∈ Finset.range d.rank, s.numberAt k dim * s.destinationStrides.getD dim 1 = k := by
  rw [h.sum_eq_number hd]
  rw [h.elements_eq, ← h.prod_destinationCounts hd] at hk
  conv_rhs => rw [← MixedRadix.number_digit hk]
  refine MixedRadix.number_congr fun j hj => ?_
  obtain ⟨dim, -, e⟩ := h.exists_destinationToStored hd (h.length_destinationCounts hd ▸ hj)
  rw [List.getD_eq_getElem?_getD, e, Option.getD_some, h.numberAt_eq_digit hd e]

/-- **A position and its element.** The position that takes `n i` steps along every axis `i` lies
in the destination and holds the element with those numbers, whatever the destination's order. -/
theorem storedIndex_position (h : s.Selects d r order) (hd : d.StoredInOrder) {n : ℕ → ℕ}
    (hn : ∀ i < d.rank, n i < (r.axis i).count) {k : ℕ}
    (hk : k = ∑ i ∈ Finset.range d.rank, n i * s.destinationStrides.getD (d.stored i) 1) :
    k < s.elements ∧ d.logicalIndex (s.storedIndex k) = r.indexAt n := by
  obtain ⟨m, hm⟩ := hd.exists_byStored n
  have hmlt : ∀ dim < d.rank, m dim < s.count.getD dim 0 := by
    intro dim hdim
    obtain ⟨i, hi, rfl⟩ := hd.exists_stored hdim
    rw [hm i hi, h.count_getD hi]
    exact hn i hi
  -- the same steps, by stored dimension
  have hsum : k = ∑ dim ∈ Finset.range d.rank, m dim * s.destinationStrides.getD dim 1 := by
    rw [hk, ← sum_map_range d.rank (fun dim => m dim * s.destinationStrides.getD dim 1),
      ← (hd.map _).sum_eq, sum_map_eq_sum_range, List.length_map]
    refine Finset.sum_congr rfl fun i hi => ?_
    have hi' := Finset.mem_range.1 hi
    have e : (d.axes.map AxisDescriptor.storageIndex).getD i 0 = d.stored i := by
      rw [List.getD_eq_getElem?_getD, d.getElem?_map_storageIndex hi', Option.getD_some]
    rw [e, hm i hi']
  rw [hsum]
  refine ⟨h.sum_lt_elements hd hmlt, h.logicalIndex_storedIndex hd hn fun i hi => ?_⟩
  rw [h.numberAt_number hd hmlt (hd.stored_lt hi), hm i hi]

/-- **A logical destination holds the elements of its request in logical order.** -/
theorem logicalIndex_logical (h : s.Selects d r .logical) (hd : d.StoredInOrder) (k : ℕ) :
    d.logicalIndex (s.storedIndex k) = r.elementIndex k := by
  have hcounts : s.destinationCounts = r.counts := by
    rw [destinationCounts, h.order_eq]
    apply List.ext_getElem?
    intro i
    rcases lt_or_ge i d.rank with hi | hi
    · have hi' : i < r.axes.length := h.valid.rank_eq ▸ hi
      rw [List.getElem?_map, DestinationOrder.toStored, d.getElem?_map_storageIndex hi,
        Option.map_some, h.count_getD hi, ReadRequest.counts, List.getElem?_map,
        List.getElem?_eq_getElem hi', r.axis_eq_getElem hi']
      rfl
    · rw [List.getElem?_eq_none (by simpa [DestinationOrder.toStored] using hi),
        List.getElem?_eq_none (by simpa [h.valid.rank_eq] using hi)]
  refine h.logicalIndex_storedIndex hd (fun i hi => ?_) fun i hi => ?_
  · have hi' : i < r.axes.length := h.valid.rank_eq ▸ hi
    have hpos : 0 < r.counts.getD i 1 := by
      rw [r.counts_getD hi']
      exact h.valid.count_pos i hi
    have := MixedRadix.digit_lt hpos k
    rwa [r.counts_getD hi'] at this
  · rw [h.numberAt_eq_digit hd (j := i) (by rw [h.order_eq]; exact d.getElem?_map_storageIndex hi),
      hcounts]

/-- The first axis of a destination takes single steps. -/
theorem destinationStrides_first (h : s.Selects d r order) (hd : d.StoredInOrder)
    (hrank : 0 < d.rank) :
    s.destinationStrides.getD (s.destinationToStored.getD 0 0) 1 = 1 := by
  obtain ⟨dim, -, e⟩ := h.exists_destinationToStored hd hrank
  rw [List.getD_eq_getElem?_getD (l := s.destinationToStored), e, Option.getD_some,
    h.destinationStrides_getD hd e, List.take_zero, List.prod_nil]

end PixelSelection.Selects

/-- **What a request is accepted as.** A request is accepted exactly when it has a range inside
every axis and a number of elements that can be counted, and then the cells of its box and the
places of its destination are one to one. -/
theorem buildSelection_layout {d : ImageDescriptor} (hd : d.StoredInOrder) (r : ReadRequest)
    (order : DestinationOrder) :
    ((∃ s, buildSelection d r order = .ok s) ↔
      r.axes.length = d.rank ∧
      (∀ i < d.rank, 1 ≤ (r.axis i).count ∧ 1 ≤ (r.axis i).stride ∧
        (r.axis i).start + ((r.axis i).count - 1) * (r.axis i).stride < d.length i) ∧
      (r.axes.map Range.count).prod < 2 ^ 64) ∧
    ∀ s, buildSelection d r order = .ok s →
      Set.BijOn (fun n : Fin d.rank → ℕ => ∑ dim, n dim * s.destinationStrides.getD dim 1)
        {n | ∀ dim : Fin d.rank, n dim < s.count.getD dim 0} (Set.Iio s.elements) ∧
      s.elements = (r.axes.map Range.count).prod ∧ s.elements < 2 ^ 64 ∧
      (0 < d.rank → s.destinationStrides.getD (s.destinationToStored.getD 0 0) 1 = 1) ∧
      ∀ i < d.rank, s.start[d.stored i]? = some (r.axis i).start ∧
        s.count[d.stored i]? = some (r.axis i).count ∧
        s.stride[d.stored i]? = some (if (r.axis i).count = 1 then 1 else (r.axis i).stride) := by
  refine ⟨?_, fun s hs => ?_⟩
  · rw [buildSelection_ok_iff hd]
    constructor
    · intro h
      exact ⟨h.rank_eq, fun i hi => ⟨h.count_pos i hi, h.stride_pos i hi, h.last_lt i hi⟩,
        h.elements_lt⟩
    · rintro ⟨hrank, hinside, hfit⟩
      exact ⟨⟨hrank, fun i hi => (hinside i hi).2.1, fun i hi => (hinside i hi).1,
        fun i hi => (hinside i hi).2.2⟩, hfit⟩
  have h := buildSelection_selects hd hs
  have hsum : ∀ n : ℕ → ℕ, ∑ dim : Fin d.rank, n dim * s.destinationStrides.getD dim 1 =
      ∑ dim ∈ Finset.range d.rank, n dim * s.destinationStrides.getD dim 1 := fun n =>
    Fin.sum_univ_eq_sum_range (fun dim => n dim * s.destinationStrides.getD dim 1) d.rank
  -- a tuple is what some numbers by dimension are on the dimensions there are
  have hext : ∀ n : Fin d.rank → ℕ, ∃ m : ℕ → ℕ, ∀ dim : Fin d.rank, n dim = m dim := fun n =>
    ⟨fun dim => if hdim : dim < d.rank then n ⟨dim, hdim⟩ else 0, fun dim => by simp⟩
  have hposition : ∀ n : Fin d.rank → ℕ, (∀ dim : Fin d.rank, n dim < s.count.getD dim 0) →
      ∑ dim, n dim * s.destinationStrides.getD dim 1 < s.elements ∧
      ∀ dim : Fin d.rank,
        s.numberAt (∑ dim, n dim * s.destinationStrides.getD dim 1) dim = n dim := by
    intro n hn
    obtain ⟨m, hm⟩ := hext n
    have hlt : ∀ dim < d.rank, m dim < s.count.getD dim 0 := fun dim hdim => by
      rw [← hm ⟨dim, hdim⟩]
      exact hn ⟨dim, hdim⟩
    have hnm : ∑ dim, n dim * s.destinationStrides.getD dim 1 =
        ∑ dim ∈ Finset.range d.rank, m dim * s.destinationStrides.getD dim 1 := by
      rw [← hsum]
      exact Finset.sum_congr rfl fun dim _ => by rw [hm dim]
    rw [hnm]
    exact ⟨h.sum_lt_elements hd hlt, fun dim => by rw [h.numberAt_number hd hlt dim.isLt, hm dim]⟩
  refine ⟨⟨fun n hn => (hposition n hn).1, fun n hn n' hn' heq => ?_, fun k hk => ?_⟩,
    h.elements_eq,
    h.elements_eq ▸ h.valid.elements_lt, h.destinationStrides_first hd, fun i hi =>
      ⟨h.start_at i hi, h.count_at i hi, h.stride_at i hi⟩⟩
  · funext dim
    rw [← (hposition n hn).2 dim, ← (hposition n' hn').2 dim]
    exact congrArg (s.numberAt · dim) heq
  · refine ⟨fun dim => s.numberAt k dim, fun dim => ?_, ?_⟩
    · have hlt : (dim : ℕ) < s.count.length := h.length_count.symm ▸ dim.isLt
      have hpos := h.count_pos hd dim.isLt
      unfold PixelSelection.numberAt
      dsimp only
      rw [List.getD_eq_getElem _ _ hlt] at hpos
      rw [List.getD_eq_getElem _ _ hlt, List.getD_eq_getElem _ _ hlt]
      exact Nat.mod_lt _ hpos
    · dsimp only
      rw [hsum fun dim => s.numberAt k dim]
      exact h.sum_numberAt hd hk

/-- Every second channel of a corner of the cube. -/
def cornerRequest : ReadRequest := ⟨[⟨0, 2, 1⟩, ⟨1, 1, 2 ^ 63⟩, ⟨1, 4, 2⟩]⟩

theorem buildSelection_layout_cornerRequest :
    smallCube.StoredInOrder ∧ (∃ s, buildSelection smallCube cornerRequest .stored = .ok s) ∧
      ∀ s, buildSelection smallCube cornerRequest .stored = .ok s → s.elements = 8 := by
  have hd : smallCube.StoredInOrder := by decide
  obtain ⟨haccepted, hlayout⟩ := buildSelection_layout hd cornerRequest .stored
  exact ⟨hd, haccepted.2 (by decide), fun s hs => (hlayout s hs).2.1⟩

end CartaZarr
