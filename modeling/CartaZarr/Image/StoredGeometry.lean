import CartaZarr.Zarr.ArrayMetadata

/-!
# The layout an array is stored in, on the axes of its image

`buildChunkGeometry` permutes the layout of an array into the logical order of the image it is of.
The document of an array that was accepted has a layout of its rank with extents above zero, the
chunks inside its shards included (`parseStorageLayout_describes`), so that no such array's geometry
is refused (`buildChunkGeometry_of`).
-/

namespace CartaZarr

open Word

/-- The geometry of an image as it is reported: `ChunkGeometry`, and what no read looks at. -/
structure StoredGeometry extends ChunkGeometry where
  shardShape : List UInt64
  /-- How many chunks there are along each axis. -/
  gridShape : List ℕ
  sharded : Bool
  compressor : String
  deriving DecidableEq, Repr

/-- How many chunks there are along an axis. -/
def StoredGeometry.grid (g : StoredGeometry) (i : ℕ) : ℕ := g.gridShape.getD i 0

/-- The stored dimension of the last axis with a role, the first dimension where there is none. -/
def storedWithRole (descriptor : ImageDescriptor) (role : AxisRole) : ℕ :=
  descriptor.axes.foldl (fun stored axis =>
    if axis.role = role then axis.storageIndex else stored) 0

/-- What a layout says of one axis. -/
structure AxisExtents where
  chunk : UInt64
  shard : UInt64
  grid : ℕ
  deriving DecidableEq, Repr

/-- What a layout says of the axis of one of its dimensions. -/
def axisExtents (layout : StorageLayout) (axis : AxisDescriptor) : Option AxisExtents := do
  let chunk ← layout.chunkShape[axis.storageIndex]?
  let shard ← if layout.sharded then layout.shardShape[axis.storageIndex]? else some chunk
  return ⟨chunk, shard, sub (add axis.length.toNat chunk.toNat) 1 / chunk.toNat⟩

/-- The layout of an array in the logical order of an image's axes, where it has a dimension for
each of them. -/
def buildChunkGeometry (descriptor : ImageDescriptor)
    (layout : StorageLayout) : Option StoredGeometry := do
  let extents ← descriptor.axes.mapM (axisExtents layout)
  return {
    chunkShape := extents.map AxisExtents.chunk
    shardShape := extents.map AxisExtents.shard
    gridShape := extents.map AxisExtents.grid
    sharded := layout.sharded
    compressor := layout.compressor
    fastestSpatialAxis :=
      if storedWithRole descriptor .spatialY > storedWithRole descriptor .spatialX then .spatialY
      else .spatialX }

/-! ## Layouts of arrays that were accepted -/

/-- A layout of `rank` dimensions with extents above zero. -/
structure StorageLayout.Describes (layout : StorageLayout) (rank : ℕ) : Prop where
  length_eq : layout.chunkShape.length = rank
  chunk_pos : ∀ i < rank, 0 < (layout.chunkShape.getD i 0).toNat
  shard_length : layout.sharded = true → layout.shardShape.length = rank

theorem require_eq_ok_iff {condition : Bool} {code : ErrorCode} {message : String} {u : Unit} :
    require condition code message = .ok u ↔ condition = true := by
  cases condition <;> simp [require]

theorem demand_eq_ok_iff {α : Type} {value : Option α} {code : ErrorCode}
    {message : String} {a : α} :
    demand value code message = .ok a ↔ value = some a := by
  cases value <;> simp [demand]

/-- Extents that are accepted are as many as the rank, and above zero. -/
theorem parseExtents_eq_ok {value : Option Json} {rank : ℕ} {message : String}
    {extents : List UInt64}
    (h : parseExtents value rank message = .ok extents) :
    value.bind Json.array? = some ((value.bind Json.array?).getD []) ∧
      ((value.bind Json.array?).getD []).filterMap Json.natural? = extents ∧ extents.length = rank ∧
      ∀ extent ∈ extents, 0 < extent.toNat := by
  obtain ⟨items, hitems, h⟩ := bind_eq_ok_iff.1 h
  obtain ⟨_, hrequire, ⟨⟩⟩ := bind_eq_ok_iff.1 h
  rw [demand_eq_ok_iff] at hitems
  simp only [require_eq_ok_iff, Bool.and_eq_true, decide_eq_true_eq, List.all_eq_true] at hrequire
  obtain ⟨hlen, hpos⟩ := hrequire
  rw [hitems]
  refine ⟨rfl, rfl, ?_, fun extent hextent => ?_⟩
  · rw [← hlen]
    refine List.filterMap_length_eq_length.2 fun item hitem => ?_
    have hitem := hpos item hitem
    unfold isPositiveInteger at hitem
    cases h : item.natural? with
    | some n => rfl
    | none => rw [h] at hitem; cases hitem
  · obtain ⟨item, hitem, hnatural⟩ := List.mem_filterMap.1 hextent
    have hitem := hpos item hitem
    unfold isPositiveInteger at hitem
    rw [hnatural] at hitem
    exact UInt64.lt_iff_toNat_lt.1 (of_decide_eq_true hitem)

/-- What the parts of a document of an array that was accepted say of its chunks. -/
theorem parseArray_eq_ok {document : Json} {m : ArrayMetadata} (h : parseArray document = .ok m) :
    m.chunkShape.length = m.shape.length ∧ (∀ extent ∈ m.chunkShape, 0 < extent.toNat) ∧
      checkTransposes m.codecs m.shape.length = .ok () ∧
      checkSharding m.codecs m.shape.length = .ok () := by
  unfold parseArray at h
  simp only [bind_eq_ok_iff] at h
  obtain ⟨_, -, _, -, _, -, _, -, shape, -, names, -, dataType, -, attributes, -,
    codecs, -, chunkShape,
    hchunks, _, htransposes, _, hsharding, ⟨⟩⟩ := h
  obtain ⟨_, -, hextents⟩ := bind_eq_ok_iff.1 hchunks
  obtain ⟨-, -, hlen, hpos⟩ := parseExtents_eq_ok hextents
  exact ⟨hlen, hpos, htransposes, hsharding⟩

/-! ### Chunks inside shards -/

/-- The order of a transpose is a permutation of the axes. -/
theorem transposeOrder_perm {codec : Json} {rank : ℕ} {order : List ℕ}
    (h : transposeOrder codec rank = some order) : order.Perm (List.range rank) := by
  unfold transposeOrder at h
  split at h
  · split_ifs at h <;> cases h
    · exact List.Perm.refl _
    · have hreverse : (List.range rank).map (fun i => rank - 1 - i) =
          (List.range rank).reverse := by
        refine List.ext_getElem (by simp) fun i h₁ h₂ => ?_
        simp
      rw [hreverse]
      exact List.reverse_perm _
  · next items _ =>
    obtain ⟨hrank, h⟩ := Option.ite_none_left_eq_some.1 h
    cases haxes : items.mapM Json.natural? with
    | none => rw [haxes] at h; cases h
    | some axes =>
      rw [haxes] at h
      obtain ⟨⟨hlt, hnodup⟩, ⟨⟩⟩ := Option.ite_none_right_eq_some.1 h
      have hlen : axes.length = rank := by
        rw [← not_not.1 hrank]
        exact (mapM_eq_some_iff.1 haxes).length_eq.symm
      refine (hnodup.subperm fun axis haxis => ?_).perm_of_length_le (by simp [hlen])
      obtain ⟨n, hn, rfl⟩ := List.mem_map.1 haxis
      exact List.mem_range.2 (of_decide_eq_true (List.all_eq_true.1 hlt n hn))
  · cases h

/-- An order taken in an order is an order. -/
theorem perm_map_getD {n : ℕ} {decoded order : List ℕ} (hdecoded : decoded.Perm (List.range n))
    (horder : order.Perm (List.range n)) :
    (order.map fun axis => decoded.getD axis 0).Perm (List.range n) := by
  have hlen : decoded.length = n := by simpa using hdecoded.length_eq
  have hself : (List.range n).map (fun axis => decoded.getD axis 0) = decoded := by
    refine List.ext_getElem (by simp [hlen]) fun i h₁ h₂ => ?_
    rw [List.getElem_map, List.getElem_range, List.getD_eq_getElem _ _ h₂]
  have hmap := horder.map fun axis => decoded.getD axis 0
  rw [hself] at hmap
  exact hmap.trans hdecoded

theorem decodedAxes_perm {codecs : List Json} {rank : ℕ}
    (h : checkTransposes codecs rank = .ok ()) :
    (decodedAxes codecs rank).Perm (List.range rank) := by
  simp only [checkTransposes, require_eq_ok_iff, List.all_eq_true, Bool.or_eq_true,
    decide_eq_true_eq] at h
  have hstep : ∀ chain : List Json, (∀ codec ∈ chain, codec ∈ codecs) → ∀ decoded : List ℕ,
      decoded.Perm (List.range rank) → (chain.foldl (fun decoded codec =>
        if codecName? codec = some "transpose" then
          ((transposeOrder codec rank).getD []).map fun axis => decoded.getD axis 0
        else decoded) decoded).Perm (List.range rank) := by
    intro chain hchain
    induction chain with
    | nil => exact fun _ h => h
    | cons codec chain ih =>
      intro decoded hdecoded
      refine ih (fun c hc => hchain c (by simp [hc])) _ ?_
      by_cases hname : codecName? codec = some "transpose"
      · simp only [hname, if_true]
        obtain ⟨order, horder⟩ := Option.isSome_iff_exists.1
          ((h codec (hchain codec (by simp))).resolve_left (not_not.2 hname))
        rw [horder]
        exact perm_map_getD hdecoded (transposeOrder_perm horder)
      · simpa only [hname, if_false] using hdecoded
  exact hstep _ (fun codec hc => (List.takeWhile_sublist _).subset hc) _ (List.Perm.refl _)

/-- Extents above zero, each set at a place of its own, are above zero at every place. -/
theorem foldl_set_pos {extents : List (UInt64 × ℕ)} (hpos : ∀ e ∈ extents, 0 < e.1.toNat) {i : ℕ} :
    ∀ shape : List UInt64, i < shape.length →
    (0 < (shape.getD i 0).toNat ∨ i ∈ extents.map Prod.snd) →
      0 < ((extents.foldl (fun shape e => shape.set e.2 e.1) shape).getD i 0).toNat := by
  induction extents with
  | nil => simp
  | cons e extents ih =>
    intro shape hi h
    refine ih (fun e he => hpos e (by simp [he])) _ (by simpa using hi) ?_
    rw [List.getD_eq_getElem?_getD, List.getElem?_set]
    by_cases heq : e.2 = i
    · left
      rw [if_pos heq, if_pos (heq ▸ hi)]
      exact hpos e (by simp)
    · rw [if_neg heq, ← List.getD_eq_getElem?_getD]
      exact h.imp_right fun h => (List.mem_cons.1 (by simpa using h)).resolve_left (Ne.symm heq)

theorem length_foldl_set (extents : List (UInt64 × ℕ)) (shape : List UInt64) :
    (extents.foldl (fun shape e => shape.set e.2 e.1) shape).length = shape.length := by
  induction extents generalizing shape with
  | nil => rfl
  | cons e extents ih => rw [List.foldl_cons, ih, List.length_set]

/-- **An array that was accepted has a layout.** -/
theorem parseStorageLayout_describes {document : Json} {node : String} {m : ArrayMetadata}
    (h : parseArrayMetadata document node = .ok m) :
    (parseStorageLayout m).Describes m.shape.length := by
  obtain ⟨hlen, hpos, htransposes, hsharding⟩ := parseArray_eq_ok (mapError_eq_ok_iff.1 h)
  have hplain : ∀ layout : StorageLayout, layout.Describes m.shape.length →
      (if layout.compressor = "" then { layout with compressor := findCompressor m.codecs }
        else layout).Describes m.shape.length := by
    intro layout hlayout
    split
    · exact ⟨hlayout.length_eq, hlayout.chunk_pos, hlayout.shard_length⟩
    · exact hlayout
  refine hplain _ ?_
  unfold checkSharding at hsharding
  cases hcodec : findCodec m.codecs "sharding_indexed" with
  | none =>
    refine ⟨hlen, fun i hi => ?_, fun h => by cases h⟩
    rw [List.getD_eq_getElem _ _ (hlen ▸ hi)]
    exact hpos _ (List.getElem_mem _)
  | some sharding =>
    rw [hcodec] at hsharding
    obtain ⟨extents, hextents, -⟩ := bind_eq_ok_iff.1 hsharding
    obtain ⟨-, hinner, hcount, hinnerPos⟩ := parseExtents_eq_ok hextents
    have haxes := decodedAxes_perm htransposes
    refine ⟨?_, fun i hi => ?_, fun _ => hlen⟩
    · simp only [applyShardingLayout, length_foldl_set, List.length_replicate, hlen]
    · simp only [applyShardingLayout, hinner, hlen]
      refine foldl_set_pos (fun e he => hinnerPos _ (List.of_mem_zip he).1) _
        (by simpa using hi) (Or.inr ?_)
      rw [List.map_snd_zip (by rw [haxes.length_eq, List.length_range, hcount])]
      exact haxes.mem_iff.2 (List.mem_range.2 hi)

/-- The shards of an array that was accepted are above zero. -/
theorem parseStorageLayout_shard_pos {document : Json} {node : String} {m : ArrayMetadata}
    (h : parseArrayMetadata document node = .ok m) :
    ∀ extent ∈ (parseStorageLayout m).shardShape, 0 < extent.toNat := by
  obtain ⟨-, hpos, -, -⟩ := parseArray_eq_ok (mapError_eq_ok_iff.1 h)
  have hplain : ∀ layout : StorageLayout, (∀ extent ∈ layout.shardShape, 0 < extent.toNat) →
      ∀ extent ∈ (if layout.compressor = "" then
        { layout with compressor := findCompressor m.codecs }
        else layout).shardShape, 0 < extent.toNat := by
    intro layout hlayout
    split <;> exact hlayout
  refine hplain _ ?_
  cases findCodec m.codecs "sharding_indexed" with
  | none => simp
  | some sharding => exact hpos

/-! ## Geometries of images -/

theorem getElem?_eq_getD {α : Type} {xs : List α} {i : ℕ} (h : i < xs.length) (x : α) :
    xs[i]? = some (xs.getD i x) := by
  rw [List.getD_eq_getElem _ _ h, List.getElem?_eq_getElem h]

/-- A layout says something of every axis it has a dimension for. -/
theorem StorageLayout.Describes.axisExtents_eq {layout : StorageLayout} {rank : ℕ}
    (h : layout.Describes rank) {axis : AxisDescriptor} (haxis : axis.storageIndex < rank) :
    axisExtents layout axis = some ⟨layout.chunkShape.getD axis.storageIndex 0,
      if layout.sharded then layout.shardShape.getD axis.storageIndex 0
      else layout.chunkShape.getD axis.storageIndex 0,
      sub (add axis.length.toNat (layout.chunkShape.getD axis.storageIndex 0).toNat) 1 /
        (layout.chunkShape.getD axis.storageIndex 0).toNat⟩ := by
  rw [axisExtents, getElem?_eq_getD (h.length_eq ▸ haxis) 0]
  cases hsharded : layout.sharded with
  | false => rfl
  | true =>
    rw [getElem?_eq_getD (h.shard_length hsharded ▸ haxis) 0]
    rfl

/-- **A layout of the image's rank has a geometry**, of chunk extents above zero. -/
theorem buildChunkGeometry_of {d : ImageDescriptor} {layout : StorageLayout} (hd : d.StoredInOrder)
    (hlayout : layout.Describes d.rank) :
    ∃ g, buildChunkGeometry d layout = some g ∧ g.toChunkGeometry.Of d ∧
      (∀ i < d.rank, g.chunk i = (layout.chunkShape.getD (d.stored i) 0).toNat) ∧
      ∀ i < d.rank, g.grid i = sub (add (d.length i) (g.chunk i)) 1 / g.chunk i := by
  have hextents : d.axes.mapM (axisExtents layout) = _ := mapM_eq_some fun axis haxis =>
    hlayout.axisExtents_eq (List.mem_range.1 (hd.mem_iff.1 (List.mem_map_of_mem haxis)))
  have hchunk : ∀ i (hi : i < d.rank), (d.axes.map fun axis : AxisDescriptor =>
      layout.chunkShape.getD axis.storageIndex 0).getD i 0 =
          layout.chunkShape.getD (d.stored i) 0 :=
    fun i hi => by
      rw [List.getD_eq_getElem _ _ (by simpa using hi), List.getElem_map, ImageDescriptor.stored,
        d.axis_eq_getElem hi]
  refine ⟨_, by rw [buildChunkGeometry, hextents]; rfl, ⟨by simp, fun i hi => ?_⟩, fun i hi => ?_,
    fun i hi => ?_⟩
  · simp only [ChunkGeometry.chunk, List.map_map, Function.comp_def, hchunk i hi]
    exact hlayout.chunk_pos _ (hd.stored_lt hi)
  · simp only [ChunkGeometry.chunk, List.map_map, Function.comp_def, hchunk i hi]
  · simp only [ChunkGeometry.chunk, StoredGeometry.grid, List.map_map,
      Function.comp_def, hchunk i hi]
    rw [List.getD_eq_getElem _ _ (by simpa using hi), List.getElem_map, ← d.axis_eq_getElem hi]
    rfl

/-- The extents of a geometry are those of a layout, each on the axis it is of and above zero. -/
structure StoredGeometry.Stands (g : StoredGeometry) (d : ImageDescriptor)
    (layout : StorageLayout) :
    Prop where
  chunk_length : g.chunkShape.length = d.rank
  shard_length : g.shardShape.length = d.rank
  chunk : ∀ i < d.rank, ∃ chunk, layout.chunkShape[d.stored i]? = some chunk ∧
    g.chunkShape[i]? = some chunk ∧ 0 < chunk.toNat
  shard : ∀ i < d.rank, ∃ shard,
    (if layout.sharded then layout.shardShape else layout.chunkShape)[d.stored i]? = some shard ∧
      g.shardShape[i]? = some shard ∧ 0 < shard.toNat

/-- **The layout of an array that was accepted has a geometry** on the axes of an image of its rank,
and its extents stand where they should. -/
theorem buildChunkGeometry_stands {d : ImageDescriptor} (hd : d.StoredInOrder) {document : Json}
    {node : String} {m : ArrayMetadata} (h : parseArrayMetadata document node = .ok m)
    (hrank : m.shape.length = d.rank) :
    ∃ g, buildChunkGeometry d (parseStorageLayout m) = some g ∧
    g.Stands d (parseStorageLayout m) := by
  have hlayout := parseStorageLayout_describes h
  have hshards := parseStorageLayout_shard_pos h
  rw [hrank] at hlayout
  generalize parseStorageLayout m = layout at hlayout hshards ⊢
  have hextents : d.axes.mapM (axisExtents layout) = _ := mapM_eq_some fun axis haxis =>
    hlayout.axisExtents_eq (List.mem_range.1 (hd.mem_iff.1 (List.mem_map_of_mem haxis)))
  have hchunk : ∀ i, i < d.rank →
      layout.chunkShape[d.stored i]? = some (layout.chunkShape.getD (d.stored i) 0) := fun i hi =>
    getElem?_eq_getD (hlayout.length_eq ▸ hd.stored_lt hi) 0
  have haxis : ∀ i, i < d.rank → d.axes[i]? = some (d.axis i) := fun i hi => getElem?_eq_getD hi _
  refine ⟨_, by rw [buildChunkGeometry, hextents]; rfl, by simp, by simp,
    fun i hi => ?_, fun i hi => ?_⟩
  · refine ⟨_, hchunk i hi, ?_, hlayout.chunk_pos _ (hd.stored_lt hi)⟩
    simp only [List.map_map, List.getElem?_map, haxis i hi]
    rfl
  · cases hsharded : layout.sharded with
    | false =>
      refine ⟨_, hchunk i hi, ?_, hlayout.chunk_pos _ (hd.stored_lt hi)⟩
      simp only [List.map_map, List.getElem?_map, haxis i hi]
      rfl
    | true =>
      have hlt : d.stored i < layout.shardShape.length :=
        hlayout.shard_length hsharded ▸ hd.stored_lt hi
      refine ⟨layout.shardShape.getD (d.stored i) 0, getElem?_eq_getD hlt 0, ?_, ?_⟩
      · simp only [List.map_map, List.getElem?_map, haxis i hi]
        rfl
      · rw [List.getD_eq_getElem _ _ hlt]
        exact hshards _ (List.getElem_mem hlt)

end CartaZarr
