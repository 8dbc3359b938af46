import CartaZarr.Image.StoredGeometry
import CartaZarr.Read.FlagCost

/-!
# What is counted of an array as it is stored

The layout of an array that was accepted puts no bound on the extents of its chunks. The cost of a
chunk and the number of chunks along an axis are taken from these extents in words; `storedCost_iff`
says for which layouts neither is too low, for any image and its flag.
-/

namespace CartaZarr

open Word

/-- The image of an array: its axes are the dimensions of the array, in some order. -/
structure ImageDescriptor.Of (d : ImageDescriptor) (m : ArrayMetadata) : Prop where
  storedInOrder : d.StoredInOrder
  rank_eq : d.rank = m.shape.length
  length_eq : ∀ i < d.rank, d.length i = (m.shape.getD (d.stored i) 0).toNat

/-- A cost is not under-counted: it fits a word, or what is left of it is the greatest word. -/
def CostCounts (d : ImageDescriptor) (g f : ChunkGeometry) (o : ReadOptions) : Prop :=
  chunkBytesBeside d g f o < 2 ^ 64 ∨
    if 2 ^ 64 ∣ pixelChunkBytes d g then chunkBytesBeside d g f o % 2 ^ 64 = 2 ^ 64 - 2
    else chunkBytesBeside d g f o % 2 ^ 64 = 2 ^ 64 - 1

section Cost

variable {d : ImageDescriptor} {g f : ChunkGeometry} {o : ReadOptions}

theorem le_chunkBytes_iff (hg : g.Of d) (hf : f.Of d)
    (hwalk : ∀ i < d.rank, d.length i + g.chunk i ≤ 2 ^ 64) :
    min (2 ^ 64 - 1) (chunkBytesBeside d g f o) ≤ (ReadCost.of d g f o).chunkBytes ↔
      CostCounts d g f o := by
  have hpos := pixelChunkBytes_pos hg
  have hcost : (ReadCost.of d g f o).chunkBytes = (max 1 (pixelChunkBytes d g % 2 ^ 64) +
      (if appliesPixelMask o d then flagBytesBeside d g f else 0) % 2 ^ 64) % 2 ^ 64 := by
    simp only [ReadCost.of, decodedChunkBytes_eq hg, decodedFlagBytes_eq hg hf hwalk, add]
    split <;> rfl
  rw [hcost, CostCounts, chunkBytesBeside]
  generalize pixelChunkBytes d g = pixels at *
  generalize (if appliesPixelMask o d then flagBytesBeside d g f else 0) = flags
  split <;> omega

end Cost

/-- **The cost of a chunk is never too low, and the grid is the exact one**, for any image and flag
that were accepted, exactly when no sum of a length and a chunk wraps and the cost of a chunk fits a
word, or wraps to the greatest. -/
theorem storedCost_iff {image flag : Json} {node node' : String} {m m' : ArrayMetadata}
    (hm : parseArrayMetadata image node = .ok m) (hm' : parseArrayMetadata flag node' = .ok m')
    (hshape : m'.shape = m.shape) {d : ImageDescriptor} (hd : d.Of m) (o : ReadOptions) :
    ∃ g f, buildChunkGeometry d (parseStorageLayout m) = some g ∧
      buildChunkGeometry d (parseStorageLayout m') = some f ∧
      ((min (2 ^ 64 - 1) (chunkBytesBeside d g.toChunkGeometry f.toChunkGeometry o) ≤
            (ReadCost.of d g.toChunkGeometry f.toChunkGeometry o).chunkBytes ∧
          ∀ i < d.rank, g.grid i = d.length i ⌈/⌉ g.chunk i ∧ f.grid i = d.length i ⌈/⌉ f.chunk i) ↔
        (∀ i < d.rank, d.length i + g.chunk i ≤ 2 ^ 64 ∧ d.length i + f.chunk i ≤ 2 ^ 64) ∧
          CostCounts d g.toChunkGeometry f.toChunkGeometry o) := by
  have hlayout := parseStorageLayout_describes hm
  have hlayout' := parseStorageLayout_describes hm'
  rw [← hd.rank_eq] at hlayout
  rw [hshape, ← hd.rank_eq] at hlayout'
  obtain ⟨g, hg, hgof, -, hggrid⟩ := buildChunkGeometry_of hd.storedInOrder hlayout
  obtain ⟨f, hf, hfof, -, hfgrid⟩ := buildChunkGeometry_of hd.storedInOrder hlayout'
  have hgrid : (∀ i < d.rank, g.grid i = d.length i ⌈/⌉ g.chunk i ∧
    f.grid i = d.length i ⌈/⌉ f.chunk i) ↔
      ∀ i < d.rank, d.length i + g.chunk i ≤ 2 ^ 64 ∧ d.length i + f.chunk i ≤ 2 ^ 64 :=
    forall₂_congr fun i hi => by
      rw [hggrid i hi, hfgrid i hi,
        ceil_sum_eq_iff (d.length_lt i) (ChunkGeometry.chunk_lt _ i) (hgof.chunk_pos i hi),
        ceil_sum_eq_iff (d.length_lt i) (ChunkGeometry.chunk_lt _ i) (hfof.chunk_pos i hi)]
  refine ⟨g, f, hg, hf, ?_⟩
  rw [hgrid, and_comm]
  exact and_congr_right fun hwalk => le_chunkBytes_iff hgof hfof fun i hi => (hwalk i hi).1

/-- The document of an array with nothing but what it has to say. -/
def plainDocument (shape chunkShape : List UInt64) (dataType : String) : Json :=
  .object [("zarr_format", .unsigned 3), ("node_type", .string "array"),
    ("shape", .array (shape.map .unsigned)), ("data_type", .string dataType),
    ("chunk_grid", .object [("name", .string "regular"),
      ("configuration", .object [("chunk_shape", .array (chunkShape.map .unsigned))])])]

/-- What that document says. -/
def plainMetadata (shape chunkShape : List UInt64) (dataType : String) : ArrayMetadata where
  shape := shape
  dimensionNames := []
  dataType := dataType
  attributes := .object []
  chunkShape := chunkShape

/-- The cube, with flags in chunks of a plane each. -/
theorem storedCost_iff_smallCube :
    ∃ g f, buildChunkGeometry smallCube
      (parseStorageLayout (plainMetadata [8, 4, 4] [4, 4, 4] "float32")) =
        some g ∧
      buildChunkGeometry smallCube (parseStorageLayout (plainMetadata [8, 4, 4] [1, 4, 4] "bool")) =
        some f ∧
      ((min (2 ^ 64 - 1) (chunkBytesBeside smallCube g.toChunkGeometry f.toChunkGeometry
        ⟨true, 0⟩) ≤
            (ReadCost.of smallCube g.toChunkGeometry f.toChunkGeometry ⟨true, 0⟩).chunkBytes ∧
          ∀ i < smallCube.rank, g.grid i = smallCube.length i ⌈/⌉ g.chunk i ∧
            f.grid i = smallCube.length i ⌈/⌉ f.chunk i) ↔
        (∀ i < smallCube.rank, smallCube.length i + g.chunk i ≤ 2 ^ 64 ∧
            smallCube.length i + f.chunk i ≤ 2 ^ 64) ∧
          CostCounts smallCube g.toChunkGeometry f.toChunkGeometry ⟨true, 0⟩) :=
  @storedCost_iff (plainDocument [8, 4, 4] [4, 4, 4] "float32")
    (plainDocument [8, 4, 4] [1, 4, 4] "bool")
    "SKY" "FLAG" _ _ rfl rfl rfl smallCube ⟨by decide, rfl, by decide⟩ ⟨true, 0⟩

/-- A plane of `2 ^ 31` pixels a side. -/
def hugeChunkPlane : ImageDescriptor where
  id := "SKY"
  storedType := .float32
  axes := [⟨"l", .spatialX, 2 ^ 31, 1⟩, ⟨"m", .spatialY, 2 ^ 31, 0⟩]
  hasPixelMask := false

/-- **A chunk of `2 ^ 64` bytes counts as one**, and a chunk of the greatest extent there is as none
along its axis. -/
theorem storedCost_wraps :
    parseArrayMetadata (plainDocument [2 ^ 31, 2 ^ 31] [2 ^ 31, 2 ^ 31] "float32") "SKY" =
      .ok (plainMetadata [2 ^ 31, 2 ^ 31] [2 ^ 31, 2 ^ 31] "float32") ∧
    parseArrayMetadata (plainDocument [2 ^ 31, 2 ^ 31] [2 ^ 31, 2 ^ 64 - 1] "float32") "SKY" =
      .ok (plainMetadata [2 ^ 31, 2 ^ 31] [2 ^ 31, 2 ^ 64 - 1] "float32") ∧
    (∃ g, buildChunkGeometry hugeChunkPlane
        (parseStorageLayout (plainMetadata [2 ^ 31, 2 ^ 31] [2 ^ 31, 2 ^ 31] "float32")) = some g ∧
      (ReadCost.of hugeChunkPlane g.toChunkGeometry g.toChunkGeometry ⟨false, 0⟩).chunkBytes = 1 ∧
      ¬ min (2 ^ 64 - 1) (chunkBytesBeside hugeChunkPlane g.toChunkGeometry g.toChunkGeometry
        ⟨false, 0⟩) ≤
        (ReadCost.of hugeChunkPlane g.toChunkGeometry g.toChunkGeometry ⟨false, 0⟩).chunkBytes) ∧
    ∃ g, buildChunkGeometry hugeChunkPlane
        (parseStorageLayout (plainMetadata [2 ^ 31, 2 ^ 31] [2 ^ 31, 2 ^ 64 - 1] "float32")) =
          some g ∧
      g.grid 0 = 0 ∧ ¬ g.grid 0 = hugeChunkPlane.length 0 ⌈/⌉ g.chunk 0 := by
  refine ⟨rfl, rfl, ?_, ?_⟩
  · exact ⟨⟨⟨.spatialX, [2 ^ 31, 2 ^ 31]⟩, [2 ^ 31, 2 ^ 31], [1, 1], false, ""⟩,
      by decide +kernel, by decide +kernel, by decide +kernel⟩
  · exact ⟨⟨⟨.spatialX, [2 ^ 64 - 1, 2 ^ 31]⟩, [2 ^ 64 - 1, 2 ^ 31], [0, 1], false, ""⟩,
      by decide +kernel, by decide +kernel, by decide +kernel⟩

end CartaZarr
