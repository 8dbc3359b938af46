import CartaZarr.Image.StoredGeometry

/-!
# The chunks inside shards

The chunks of a sharded array are given for the array as it reaches the sharding codec, after the
transposes before it. `parseStorageLayout` puts their extents back on the axes a read names:
permuted by the transposes again they are as the sharding codec has them
(`parseStorageLayout_transposes`). It walks the document a second time without checking it;
`parseStorageLayout?` is the same walk where every access is checked, and finds all it looks for.
-/

namespace CartaZarr

/-- A list permuted: entry `i` is entry `order[i]` of the list. -/
def permuted {α : Type} [OfNat α 0] (xs : List α) (order : List ℕ) : List α :=
  order.map fun axis => xs.getD axis 0

/-- The orders of the transposes before the sharding codec. -/
def transposeOrders (codecs : List Json) (rank : ℕ) : List (List ℕ) :=
  (codecs.takeWhile fun codec =>
    !(codec.isObject && (codecName? codec).getD "" = "sharding_indexed")).filterMap
    fun codec => if codecName? codec = some "transpose" then transposeOrder codec rank else none

/-! ## The walk with every access checked -/

/-- The first codec with a name; nothing where the lookup throws, at a name that is no string. -/
def findCodec? : List Json → String → Option (Option Json)
  | [], _ => some none
  | codec :: codecs, name =>
    if codec.isObject then
      match codec.get? "name" with
      | some value => do
        let spelling ← value.string?
        if spelling = name then some (some codec) else findCodec? codecs name
      | none => if "" = name then some (some codec) else findCodec? codecs name
    else findCodec? codecs name

/-- The first of the compressors that is in a chain. -/
def firstCompressor? (codecs : List Json) : List String → Option String
  | [] => some ""
  | name :: names => do
    if (← findCodec? codecs name).isSome then some name else firstCompressor? codecs names

def findCompressor? (codecs : List Json) : Option String :=
  firstCompressor? codecs ["zstd", "gzip", "blosc"]

/-- The axes after the transposes of a chain; nothing where an order is missing, or an axis
outside. -/
def decodedAxes? (chain : List Json) (rank : ℕ) : Option (List ℕ) :=
  chain.foldlM (fun decoded codec =>
    if codecName? codec = some "transpose" then do
      let order ← transposeOrder codec rank
      (List.range rank).mapM fun i => do decoded[← order[i]?]?
    else some decoded) (List.range rank)

/-- The extents at the axes they are of; nothing where there is no such axis, or no such extent. -/
def scattered? (decoded : List ℕ) (inner : List Json) (rank : ℕ) : Option (List UInt64) :=
  (List.range rank).foldlM (fun shape i => do
    let axis ← decoded[i]?
    let extent ← (← inner[i]?).natural?
    if axis < shape.length then some (shape.set axis extent) else none) (List.replicate rank 0)

def applyShardingLayout? (codecs : List Json) (sharding : Json) (layout : StorageLayout) :
    Option StorageLayout := do
  let rank := layout.chunkShape.length
  let decoded ← decodedAxes? (codecs.takeWhile fun codec =>
    !(codec.isObject && (codecName? codec).getD "" = "sharding_indexed")) rank
  let inner ← (configured sharding "chunk_shape").bind Json.array?
  let chunkShape ← scattered? decoded inner rank
  let compressor ← match (configured sharding "codecs").bind Json.array? with
    | some inner => findCompressor? inner
    | none => some ""
  return { chunkShape, shardShape := layout.chunkShape, compressor, sharded := true }

def parseStorageLayout? (metadata : ArrayMetadata) : Option StorageLayout := do
  let layout : StorageLayout := { chunkShape := metadata.chunkShape }
  let layout ← match ← findCodec? metadata.codecs "sharding_indexed" with
    | some sharding => applyShardingLayout? metadata.codecs sharding layout
    | none => some layout
  if layout.compressor = "" then do
    let compressor ← findCompressor? metadata.codecs
    return { layout with compressor }
  else return layout

/-! ## Permuting -/

section Permuting

variable {α : Type} [OfNat α 0]

@[simp] theorem length_permuted (xs : List α) (order : List ℕ) :
    (permuted xs order).length = order.length := List.length_map _

@[simp] theorem getElem_permuted (xs : List α) {order : List ℕ} {i : ℕ} (hi : i < order.length)
    (hi' : i < (permuted xs order).length) : (permuted xs order)[i] = xs.getD order[i] 0 :=
  List.getElem_map _

theorem permuted_permuted (xs : List α) (decoded : List ℕ) {order : List ℕ}
    (horder : ∀ axis ∈ order, axis < decoded.length) :
    permuted (permuted xs decoded) order = permuted xs (permuted decoded order) := by
  unfold permuted
  rw [List.map_map]
  refine List.map_congr_left fun axis haxis => ?_
  rw [Function.comp_apply, List.getD_eq_getElem _ _ (by simpa using horder axis haxis),
    List.getElem_map,
    List.getD_eq_getElem _ _ (horder axis haxis)]

/-- Permuting one order after another is permuting by what the axes become. -/
theorem foldl_permuted {n : ℕ} {orders : List (List ℕ)}
    (horders : ∀ order ∈ orders, order.Perm (List.range n)) (xs : List α) {decoded : List ℕ}
    (hdecoded : decoded.length = n) :
    orders.foldl permuted (permuted xs decoded) = permuted xs (orders.foldl permuted decoded) := by
  induction orders generalizing decoded with
  | nil => rfl
  | cons order orders ih =>
    have horder := horders order (by simp)
    rw [List.foldl_cons, List.foldl_cons, permuted_permuted xs decoded fun axis haxis => by
      rw [hdecoded]
      exact List.mem_range.1 (horder.mem_iff.1 haxis)]
    exact ih (fun o ho => horders o (by simp [ho])) (by simp [horder.length_eq])

theorem permuted_range {xs : List α} {n : ℕ}
    (hxs : xs.length = n) : permuted xs (List.range n) = xs := by
  subst hxs
  refine List.ext_getElem (by simp) fun i h₁ h₂ => ?_
  rw [getElem_permuted xs (by simpa using h₂), List.getElem_range, List.getD_eq_getElem _ _ h₂]

/-- What is set at different places is there afterwards. -/
theorem foldl_set_getD {extents : List (α × ℕ)} (hnodup : (extents.map Prod.snd).Nodup) {e : α × ℕ}
    (he : e ∈ extents) {shape : List α} (hlt : e.2 < shape.length) :
    (extents.foldl (fun shape e => shape.set e.2 e.1) shape).getD e.2 0 = e.1 := by
  have hkeep : ∀ (extents : List (α × ℕ)) (shape : List α), e.2 ∉ extents.map Prod.snd →
      (extents.foldl (fun shape e => shape.set e.2 e.1) shape).getD e.2 0 = shape.getD e.2 0 := by
    intro extents
    induction extents with
    | nil => intros; rfl
    | cons first extents ih =>
      intro shape hout
      rw [List.map_cons, List.mem_cons, not_or] at hout
      rw [List.foldl_cons, ih _ hout.2, List.getD_eq_getElem?_getD,
        List.getElem?_set_ne (Ne.symm hout.1), ← List.getD_eq_getElem?_getD]
  induction extents generalizing shape with
  | nil => cases he
  | cons first extents ih =>
    rw [List.map_cons, List.nodup_cons] at hnodup
    rcases List.mem_cons.1 he with rfl | he
    · rw [List.foldl_cons, hkeep _ _ hnodup.1, List.getD_eq_getElem _ _ (by simpa using hlt),
        List.getElem_set_self]
    · exact ih hnodup.2 he (by simpa using hlt)

/-- Extents put at the axes of an order are, permuted by it, the extents again. -/
theorem permuted_scattered {n : ℕ} {inner : List α} {decoded : List ℕ} (hinner : inner.length = n)
    (hdecoded : decoded.Perm (List.range n)) :
    permuted ((inner.zip decoded).foldl (fun shape e => shape.set e.2 e.1)
      (List.replicate n 0)) decoded =
      inner := by
  have hlen : decoded.length = n := by simpa using hdecoded.length_eq
  have hsnd : (inner.zip decoded).map Prod.snd = decoded :=
    List.map_snd_zip (by rw [hlen, hinner])
  refine List.ext_getElem (by simp [hlen, hinner]) fun i h₁ h₂ => ?_
  have hi : i < decoded.length := by simpa using h₁
  rw [getElem_permuted _ hi]
  have hnodup : ((inner.zip decoded).map Prod.snd).Nodup := by
    rw [hsnd]
    exact hdecoded.nodup_iff.2 List.nodup_range
  refine @foldl_set_getD _ _ _ hnodup (inner[i], decoded[i]) ?_ _ ?_
  · exact List.mem_iff_getElem.2 ⟨i, by simp [hi, h₂], by simp⟩
  · rw [List.length_replicate]
    exact List.mem_range.1 (hdecoded.mem_iff.1 (List.getElem_mem hi))

end Permuting

/-! ## Every access finds what it looks for -/

section Walk

variable {codecs chain : List Json} {rank : ℕ}

theorem findCodec?_eq (h : codecNamesAreStrings codecs = true) (name : String) :
    findCodec? codecs name = some (findCodec codecs name) := by
  induction codecs with
  | nil => rfl
  | cons codec codecs ih =>
    rw [codecNamesAreStrings, List.all_cons, Bool.and_eq_true] at h
    have ih := ih h.2
    have hcodec := h.1
    unfold findCodec at ih ⊢
    rw [findCodec?, ih, List.find?_cons]
    cases hobject : codec.isObject with
    | false => rfl
    | true =>
      cases hname : codec.get? "name" with
      | none =>
        simp only [codecName?, hname, Option.bind_none, Option.getD_none, if_true, Bool.true_and]
        split <;> simp_all
      | some value =>
        rw [hname] at hcodec
        obtain ⟨spelling, hspelling⟩ := Option.isSome_iff_exists.1 hcodec
        simp only [codecName?, hname, Option.bind_some, hspelling, Option.getD_some, if_true,
          Bool.true_and, Option.bind_eq_bind]
        split <;> simp_all

theorem findCompressor?_eq (h : codecNamesAreStrings codecs = true) :
    findCompressor? codecs = some (findCompressor codecs) := by
  have hfirst : ∀ names : List String, firstCompressor? codecs names =
      some ((names.find? fun name => (findCodec codecs name).isSome).getD "") := by
    intro names
    induction names with
    | nil => rfl
    | cons name names ih =>
      rw [firstCompressor?, findCodec?_eq h, Option.bind_eq_bind, Option.bind_some,
        List.find?_cons, ih]
      cases (findCodec codecs name).isSome <;> rfl
  exact hfirst _

/-- Every transpose of a chain has an order. -/
def TransposesChecked (chain : List Json) (rank : ℕ) : Prop :=
  ∀ codec ∈ chain, codecName? codec = some "transpose" →
    ∃ order, transposeOrder codec rank = some order

theorem transposesChecked_of_checkTransposes (h : checkTransposes codecs rank = .ok ()) :
    TransposesChecked codecs rank := by
  simp only [checkTransposes, require_eq_ok_iff, List.all_eq_true, Bool.or_eq_true,
    decide_eq_true_eq] at h
  exact fun codec hcodec hname =>
    Option.isSome_iff_exists.1 ((h codec hcodec).resolve_left (not_not.2 hname))

/-- The axes after a chain, however they were before it. -/
theorem foldl_transposes (h : TransposesChecked chain rank) (decoded : List ℕ) :
    chain.foldl (fun decoded codec =>
      if codecName? codec = some "transpose" then
        ((transposeOrder codec rank).getD []).map fun axis => decoded.getD axis 0
      else decoded) decoded =
    (chain.filterMap fun codec =>
      if codecName? codec = some "transpose" then transposeOrder codec rank else none).foldl
        permuted decoded := by
  induction chain generalizing decoded with
  | nil => rfl
  | cons codec chain ih =>
    have ih := ih fun c hc => h c (by simp [hc])
    rw [List.foldl_cons, ih, List.filterMap_cons]
    by_cases hname : codecName? codec = some "transpose"
    · obtain ⟨order, horder⟩ := h codec (by simp) hname
      rw [if_pos hname, if_pos hname, horder]
      rfl
    · rw [if_neg hname, if_neg hname]

/-- The walk over the transposes finds an order for each, and every axis. -/
theorem decodedAxes?_eq (h : TransposesChecked chain rank) :
    decodedAxes? chain rank = some (chain.foldl (fun decoded codec =>
      if codecName? codec = some "transpose" then
        ((transposeOrder codec rank).getD []).map fun axis => decoded.getD axis 0
      else decoded) (List.range rank)) := by
  have hfold : ∀ decoded : List ℕ, decoded.length = rank →
      chain.foldlM (fun decoded codec =>
        if codecName? codec = some "transpose" then do
          let order ← transposeOrder codec rank
          (List.range rank).mapM fun i => do decoded[← order[i]?]?
        else some decoded) decoded =
      some (chain.foldl (fun decoded codec =>
        if codecName? codec = some "transpose" then
          ((transposeOrder codec rank).getD []).map fun axis => decoded.getD axis 0
        else decoded) decoded) := by
    induction chain with
    | nil => exact fun _ _ => rfl
    | cons codec chain ih =>
      intro decoded hlen
      have ih := ih fun c hc => h c (by simp [hc])
      rw [List.foldlM_cons, List.foldl_cons]
      by_cases hname : codecName? codec = some "transpose"
      · obtain ⟨order, horder⟩ := h codec (by simp) hname
        have hperm := transposeOrder_perm horder
        have hcomposed : ((List.range rank).mapM fun i => do decoded[← order[i]?]?) =
            some (order.map fun axis => decoded.getD axis 0) := by
          have hlength : order.length = rank := by simpa using hperm.length_eq
          rw [← hlength]
          refine mapM_eq_some_iff.2 (List.forall₂_iff_get.2 ⟨by simp, fun i h₁ h₂ => ?_⟩)
          have hi : i < order.length := by simpa using h₁
          have haxis : order[i] < decoded.length := by
            rw [hlen]
            exact List.mem_range.1 (hperm.mem_iff.1 (List.getElem_mem hi))
          simp [hi, haxis]
        rw [if_pos hname, if_pos hname, horder, Option.bind_eq_bind, Option.bind_some, hcomposed]
        exact ih _ (by simp [hperm.length_eq])
      · rw [if_neg hname, if_neg hname]
        exact ih _ hlen
  exact hfold _ List.length_range

/-- The walk over the axes finds an extent for each. -/
theorem scattered?_eq {decoded : List ℕ} {inner : List Json} {extents : List UInt64}
    (hdecoded : decoded.Perm (List.range rank)) (hinner : inner.mapM Json.natural? = some extents)
    (hlen : extents.length = rank) :
    scattered? decoded inner rank =
      some ((extents.zip decoded).foldl (fun shape e => shape.set e.2 e.1)
        (List.replicate rank 0)) := by
  have hinner' := mapM_eq_some_iff.1 hinner
  have hitems : inner.length = rank := by rw [hinner'.length_eq, hlen]
  have haxes : decoded.length = rank := by simpa using hdecoded.length_eq
  -- the first `k` extents put at their axes
  have hfirst : ∀ k ≤ rank, (List.range k).foldlM (fun shape i => do
        let axis ← decoded[i]?
        let extent ← (← inner[i]?).natural?
        if axis < shape.length then some (shape.set axis extent) else none)
      (List.replicate rank (0 : UInt64)) =
      some (((extents.zip decoded).take k).foldl (fun shape e => shape.set e.2 e.1)
        (List.replicate rank 0)) := by
    intro k hk
    induction k with
    | zero => rfl
    | succ k ih =>
      have hextent : inner[k].natural? = some extents[k] :=
        (List.forall₂_iff_get.1 hinner').2 k (by omega) (by omega)
      have haxis : decoded[k] < rank := List.mem_range.1 (hdecoded.mem_iff.1 (List.getElem_mem _))
      have hzip : (extents.zip decoded)[k]? = some (extents[k], decoded[k]) := by
        rw [List.getElem?_eq_getElem (by simp; omega), List.getElem_zip]
      rw [List.range_succ, List.foldlM_append, ih (by omega), List.take_add_one, hzip,
        List.foldl_append]
      simp only [Option.bind_eq_bind, Option.bind_some, List.foldlM_cons, List.foldlM_nil,
        List.getElem?_eq_getElem (show k < decoded.length by omega),
        List.getElem?_eq_getElem (show k < inner.length by omega), hextent, length_foldl_set,
        List.length_replicate, if_pos haxis, Option.pure_def, Option.toList_some, List.foldl_cons,
        List.foldl_nil]
  rw [scattered?, hfirst rank le_rfl, List.take_of_length_le (by simp; omega)]

end Walk

/-! ## What was accepted -/

section Accepted

variable {document : Json} {m : ArrayMetadata}

/-- The chain of an array is that of its document, and so is the rank. -/
theorem parseArray_codecs (h : parseArray document = .ok m) :
    m.codecs = ((document.get? "codecs").bind Json.array?).getD [] ∧
      codecNamesAreStrings m.codecs = true ∧
      ∃ items, (document.get? "shape").bind Json.array? = some items ∧
      m.shape.length = items.length := by
  unfold parseArray at h
  simp only [bind_eq_ok_iff] at h
  obtain ⟨_, -, _, -, _, -, _, -, shape, hshape, names, -, dataType, -,
    attributes, -, codecs, hcodecs,
    chunkShape, -, _, -, _, -, ⟨⟩⟩ := h
  obtain ⟨items, hitems, hshape⟩ := bind_eq_ok_iff.1 hshape
  have hrank : shape.length = items.length := (mapM_eq_ok_iff.1 hshape).length_eq.symm
  rw [parseCodecsMember] at hcodecs
  refine and_assoc.1 ⟨?_, items, demand_eq_ok_iff.1 hitems, hrank⟩
  cases hchain : (document.get? "codecs").bind Json.array? with
  | none =>
    rw [hchain] at hcodecs
    obtain rfl := Except.ok.inj hcodecs
    exact ⟨rfl, rfl⟩
  | some chain =>
    rw [hchain] at hcodecs
    obtain ⟨_, hnames, ⟨⟩⟩ := bind_eq_ok_iff.1 hcodecs
    exact ⟨rfl, require_eq_ok_iff.1 hnames⟩

theorem mapM_natural_of_isPositiveInteger {items : List Json}
    (h : ∀ item ∈ items, isPositiveInteger item = true) :
    items.mapM Json.natural? = some (items.filterMap Json.natural?) := by
  induction items with
  | nil => rfl
  | cons item items ih =>
    have hitem := h item (by simp)
    unfold isPositiveInteger at hitem
    rw [List.mapM_cons, ih fun i hi => h i (by simp [hi]), List.filterMap_cons]
    cases hnatural : item.natural? with
    | none => simp [hnatural] at hitem
    | some n => rfl

/-- What a sharding codec that was accepted has. -/
theorem checkSharding_eq_ok {codecs : List Json} {rank : ℕ} {sharding : Json}
    (h : checkSharding codecs rank = .ok ())
    (hsharding : findCodec codecs "sharding_indexed" = some sharding) :
    (∃ inner extents, (configured sharding "chunk_shape").bind Json.array? = some inner ∧
      inner.mapM Json.natural? = some extents ∧ extents = inner.filterMap Json.natural? ∧
      extents.length = rank) ∧
    ∀ chain, (configured sharding "codecs").bind Json.array? = some chain →
      codecNamesAreStrings chain = true := by
  rw [checkSharding, hsharding] at h
  obtain ⟨extents, hextents, h⟩ := bind_eq_ok_iff.1 h
  obtain ⟨inner, hinner, hrest⟩ := bind_eq_ok_iff.1 hextents
  obtain ⟨-, -, hlen, -⟩ := parseExtents_eq_ok hextents
  obtain ⟨_, hrequire, ⟨⟩⟩ := bind_eq_ok_iff.1 hrest
  simp only [require_eq_ok_iff, Bool.and_eq_true, decide_eq_true_eq, List.all_eq_true] at hrequire
  refine ⟨⟨inner, _, demand_eq_ok_iff.1 hinner,
    mapM_natural_of_isPositiveInteger hrequire.2, rfl, hlen⟩,
    fun chain hchain => ?_⟩
  rw [hchain] at h
  exact require_eq_ok_iff.1 h

end Accepted

/-- An order that is a list is accepted just in case it is a permutation of the axes. -/
theorem transposeOrder_array_iff {codec : Json} {rank : ℕ} {items : List Json}
    (h : configured codec "order" = some (.array items)) {order : List ℕ} :
    transposeOrder codec rank = some order ↔
      ∃ axes, items.mapM Json.natural? = some axes ∧ axes.map UInt64.toNat = order ∧
        order.Perm (List.range rank) := by
  constructor
  · intro horder
    have hperm := transposeOrder_perm horder
    unfold transposeOrder at horder
    simp only [h] at horder
    obtain ⟨-, horder⟩ := Option.ite_none_left_eq_some.1 horder
    cases haxes : items.mapM Json.natural? with
    | none => rw [haxes] at horder; cases horder
    | some axes =>
      rw [haxes] at horder
      obtain ⟨-, horder⟩ := Option.ite_none_right_eq_some.1 horder
      exact ⟨axes, rfl, Option.some.inj horder, hperm⟩
  · rintro ⟨axes, haxes, rfl, hperm⟩
    have hrank : items.length = rank := by
      rw [(mapM_eq_some_iff.1 haxes).length_eq]
      simpa using hperm.length_eq
    unfold transposeOrder
    simp only [h, haxes, hrank, ne_eq, not_true_eq_false, if_false]
    refine if_pos ⟨List.all_eq_true.2 fun axis haxis => decide_eq_true ?_,
      hperm.nodup_iff.2 List.nodup_range⟩
    exact List.mem_range.1 (hperm.mem_iff.1 (List.mem_map_of_mem haxis))

/-- The layout of an array: there is one, of its rank, and the chunks inside its shards are as the
sharding codec has them once the transposes before it have permuted them. -/
structure StorageLayout.IsOf (layout : StorageLayout) (m : ArrayMetadata) : Prop where
  defined : parseStorageLayout? m = some layout
  length_eq : layout.chunkShape.length = m.shape.length
  chunk_pos : ∀ extent ∈ layout.chunkShape, 0 < extent.toNat
  sharded : layout.sharded = (findCodec m.codecs "sharding_indexed").isSome
  shards : layout.shardShape.length = if layout.sharded then m.shape.length else 0
  orders : TransposesChecked m.codecs m.shape.length
  transposed : ∀ sharding, findCodec m.codecs "sharding_indexed" = some sharding →
    ∃ inner extents, (configured sharding "chunk_shape").bind Json.array? = some inner ∧
      inner.mapM Json.natural? = some extents ∧
      (transposeOrders m.codecs m.shape.length).foldl permuted layout.chunkShape = extents ∧
      (transposeOrders m.codecs m.shape.length).foldl permuted (List.range m.shape.length) =
        decodedAxes m.codecs m.shape.length

/-- The layout of a sharded array, of a document that was accepted. -/
theorem applyShardingLayout?_eq {codecs : List Json} {sharding : Json} {layout : StorageLayout}
    (htransposes : TransposesChecked codecs layout.chunkShape.length)
    (hperm : (decodedAxes codecs layout.chunkShape.length).Perm
    (List.range layout.chunkShape.length))
    (hchecked : checkSharding codecs layout.chunkShape.length = .ok ())
    (hsharding : findCodec codecs "sharding_indexed" = some sharding) :
    applyShardingLayout? codecs sharding layout =
      some (applyShardingLayout codecs sharding layout) := by
  obtain ⟨⟨inner, extents, hinner, hnatural, hextents, hlen⟩, hnames⟩ :=
    checkSharding_eq_ok hchecked hsharding
  have hchain : TransposesChecked (codecs.takeWhile fun codec =>
      !(codec.isObject && (codecName? codec).getD "" =
          "sharding_indexed")) layout.chunkShape.length :=
    fun codec hcodec => htransposes codec ((List.takeWhile_sublist _).subset hcodec)
  have hdecoded := decodedAxes?_eq hchain
  rw [← decodedAxes] at hdecoded
  rw [applyShardingLayout?, applyShardingLayout]
  simp only [hdecoded, hinner, Option.bind_eq_bind, Option.bind_some,
    scattered?_eq hperm hnatural hlen, Option.getD_some, ← hextents]
  cases hchain : (configured sharding "codecs").bind Json.array? with
  | none => rfl
  | some chain =>
    simp only [findCompressor?_eq (hnames chain hchain)]
    rfl

/-- The layout of an array that is not sharded. -/
theorem parseStorageLayout_of_plain {m : ArrayMetadata}
    (h : findCodec m.codecs "sharding_indexed" = none) :
    parseStorageLayout m = { chunkShape := m.chunkShape,
                             compressor := findCompressor m.codecs } := by
  rw [parseStorageLayout, h]
  rfl

/-- The layout of an array that is, whatever its compressor. -/
theorem parseStorageLayout_of_sharded {m : ArrayMetadata} {sharding : Json}
    (h : findCodec m.codecs "sharding_indexed" = some sharding) :
    ∃ compressor, parseStorageLayout m =
      { applyShardingLayout m.codecs sharding { chunkShape := m.chunkShape } with compressor } := by
  rw [parseStorageLayout, h]
  by_cases hraw : (applyShardingLayout m.codecs sharding
    { chunkShape := m.chunkShape }).compressor = ""
  · exact ⟨_, if_pos hraw⟩
  · exact ⟨_, if_neg hraw⟩

/-- An array that was accepted has its layout parsed without an access that fails. -/
theorem parseStorageLayout?_eq {document : Json} {m : ArrayMetadata}
    (h : parseArray document = .ok m) :
    parseStorageLayout? m = some (parseStorageLayout m) := by
  obtain ⟨hlen, -, hchecked, hsharding⟩ := parseArray_eq_ok h
  obtain ⟨-, hnames, -⟩ := parseArray_codecs h
  rw [← hlen] at hchecked hsharding
  rw [parseStorageLayout?, parseStorageLayout, findCodec?_eq hnames, findCompressor?_eq hnames]
  cases hcodec : findCodec m.codecs "sharding_indexed" with
  | none => rfl
  | some sharding =>
    have hlayout : applyShardingLayout? m.codecs sharding { chunkShape := m.chunkShape } = some _ :=
      applyShardingLayout?_eq (transposesChecked_of_checkTransposes hchecked)
        (decodedAxes_perm hchecked) hsharding hcodec
    simp only [Option.bind_eq_bind, Option.bind_some, hlayout]
    split <;> rfl

/-- **The layout of an array that was accepted**, through the transposes of its chain; of the orders
of transposes, the permutations of the axes are accepted, and no chain that holds another. -/
theorem parseStorageLayout_transposes :
    (∀ document node m, parseArrayMetadata document node = .ok m →
      (m.codecs = ((document.get? "codecs").bind Json.array?).getD [] ∧
        (parseStorageLayout m).IsOf m)) ∧
    (∀ codec rank items order, configured codec "order" = some (.array items) →
      (transposeOrder codec rank = some order ↔
        ∃ axes, items.mapM Json.natural? = some axes ∧ axes.map UInt64.toNat = order ∧
          order.Perm (List.range rank))) ∧
    ∀ document node codecs codec shape, (document.get? "codecs").bind Json.array? = some codecs →
      (document.get? "shape").bind Json.array? = some shape → codec ∈ codecs →
      codecName? codec = some "transpose" → transposeOrder codec shape.length = none →
      ∃ e, parseArrayMetadata document node = .error e := by
  refine ⟨fun document node m h => ?_, fun codec rank items order h => transposeOrder_array_iff h,
    fun document node codecs codec shape hcodecs hshape hmem hname horder => ?_⟩
  · have hdescribes := parseStorageLayout_describes h
    have hparse := mapError_eq_ok_iff.1 h
    obtain ⟨hlen, -, hchecked, hsharding⟩ := parseArray_eq_ok hparse
    obtain ⟨hcodecs, -, -⟩ := parseArray_codecs hparse
    have htransposes := transposesChecked_of_checkTransposes hchecked
    have hpos : ∀ extent ∈ (parseStorageLayout m).chunkShape, 0 < extent.toNat := by
      intro extent hextent
      obtain ⟨i, hi, rfl⟩ := List.mem_iff_getElem.1 hextent
      rw [← List.getD_eq_getElem _ 0 hi]
      exact hdescribes.chunk_pos i (hdescribes.length_eq ▸ hi)
    refine ⟨hcodecs, ?_⟩
    cases hcodec : findCodec m.codecs "sharding_indexed" with
    | none =>
      have hlayout := parseStorageLayout_of_plain hcodec
      exact ⟨parseStorageLayout?_eq hparse, hdescribes.length_eq,
        hpos, by rw [hlayout, hcodec]; rfl, by rw [hlayout]; rfl, htransposes,
        fun sharding hsome => by rw [hcodec] at hsome; cases hsome⟩
    | some sharding =>
      obtain ⟨compressor, hlayout⟩ := parseStorageLayout_of_sharded hcodec
      refine ⟨parseStorageLayout?_eq hparse, hdescribes.length_eq,
        hpos, by rw [hlayout, hcodec]; rfl,
        by rw [hlayout]; exact hlen, htransposes, fun sharding' hsome => ?_⟩
      obtain rfl := Option.some.inj (hcodec.symm.trans hsome)
      obtain ⟨⟨inner, extents, hinner, hnatural, hextents, hcount⟩, -⟩ :=
        checkSharding_eq_ok hsharding hcodec
      have hdecoded : (transposeOrders m.codecs m.shape.length).foldl permuted
        (List.range m.shape.length) =
          decodedAxes m.codecs m.shape.length :=
        (foldl_transposes (fun codec hcodec =>
          htransposes codec ((List.takeWhile_sublist _).subset hcodec)) _).symm
      have horders : ∀ order ∈ transposeOrders m.codecs m.shape.length,
          order.Perm (List.range m.shape.length) := by
        intro order horder
        obtain ⟨codec, -, horder⟩ := List.mem_filterMap.1 horder
        obtain ⟨-, horder⟩ := Option.ite_none_right_eq_some.1 horder
        exact transposeOrder_perm horder
      have hchunks : (parseStorageLayout m).chunkShape =
          (extents.zip (decodedAxes m.codecs m.shape.length)).foldl
            (fun shape e => shape.set e.2 e.1)
            (List.replicate m.shape.length 0) := by
        rw [hlayout]
        simp only [applyShardingLayout, hinner, Option.getD_some, hlen, hextents]
      refine ⟨inner, extents, hinner, hnatural, ?_, hdecoded⟩
      calc (transposeOrders m.codecs m.shape.length).foldl permuted
             (parseStorageLayout m).chunkShape
          = (transposeOrders m.codecs m.shape.length).foldl permuted
              (permuted (parseStorageLayout m).chunkShape (List.range m.shape.length)) := by
            rw [permuted_range hdescribes.length_eq]
        _ = permuted (parseStorageLayout m).chunkShape (decodedAxes m.codecs m.shape.length) := by
            rw [foldl_permuted horders _ List.length_range, hdecoded]
        _ = extents := by rw [hchunks, permuted_scattered hcount (decodedAxes_perm hchecked)]
  · cases hparse : parseArray document with
    | error failure => exact ⟨failure.at node, by rw [parseArrayMetadata, hparse]; rfl⟩
    | ok m =>
      obtain ⟨-, -, hchecked, -⟩ := parseArray_eq_ok hparse
      obtain ⟨hchain, -, items, hitems, hrank⟩ := parseArray_codecs hparse
      rw [hcodecs, Option.getD_some] at hchain
      obtain rfl := Option.some.inj (hshape.symm.trans hitems)
      obtain ⟨order, horder'⟩ :=
        transposesChecked_of_checkTransposes hchecked codec (hchain ▸ hmem) hname
      rw [hrank, horder] at horder'
      cases horder'

/-- A codec with a name and a configuration. -/
def codecNamed (name : String) (configuration : List (String × Json)) : Json :=
  .object [("name", .string name), ("configuration", .object configuration)]

/-- A transpose with an order. -/
def transposeOf (order : List UInt64) : Json :=
  codecNamed "transpose" [("order", .array (order.map .unsigned))]

/-- A sharded array of `4 × 6 × 8` values, with a chain before its sharding codec and one inside
it. -/
def shardedDocument (outer inner : List Json) : Json :=
  .object [("zarr_format", .unsigned 3), ("node_type", .string "array"),
    ("shape", .array [.unsigned 4, .unsigned 6, .unsigned 8]), ("data_type", .string "float32"),
    ("chunk_grid", .object [("name", .string "regular"),
      ("configuration", .object [("chunk_shape",
        .array [.unsigned 4, .unsigned 6, .unsigned 8])])]),
    ("codecs", .array (outer ++ [codecNamed "sharding_indexed"
      [("chunk_shape", .array [.unsigned 1, .unsigned 2, .unsigned 4]),
        ("codecs", .array inner)]]))]

/-- What that document says. -/
def shardedMetadata (outer inner : List Json) : ArrayMetadata where
  shape := [4, 6, 8]
  dimensionNames := []
  dataType := "float32"
  attributes := .object []
  chunkShape := [4, 6, 8]
  codecs := outer ++ [codecNamed "sharding_indexed"
    [("chunk_shape", .array [.unsigned 1, .unsigned 2, .unsigned 4]), ("codecs", .array inner)]]

/-- A rotation of the axes and then an exchange of two of them. -/
theorem parseStorageLayout_transposes_rotated :
    (parseStorageLayout (shardedMetadata [transposeOf [1, 2, 0], transposeOf [1, 0, 2]] [])).IsOf
      (shardedMetadata [transposeOf [1, 2, 0], transposeOf [1, 0, 2]] []) :=
  (parseStorageLayout_transposes.1
    (shardedDocument [transposeOf [1, 2, 0], transposeOf [1, 0, 2]] [])
    "SKY" _ rfl).2

example : (parseStorageLayout (shardedMetadata [transposeOf [1, 2, 0],
      transposeOf [1, 0, 2]] [])).chunkShape =
    [4, 2, 1] := by decide +kernel

/-- The chain inside the shards is not looked through for transposes, so that one of another order
is accepted there. -/
theorem parseArrayMetadata_innerTranspose :
    parseArrayMetadata (shardedDocument [] [transposeOf [5, 5]]) "SKY" =
      .ok (shardedMetadata [] [transposeOf [5, 5]]) ∧
    transposeOrder (transposeOf [5, 5]) 3 = none := ⟨rfl, by decide⟩

end CartaZarr
