import CartaZarr.Zarr.StringCodecs

/-!
# The chunks of an array of strings

A chunk that is decoded was packed by the chain from as many bytes as its shape accounts for
(`packs_of_decodeStringChunk`), and what was packed is decoded (`decodeStringChunk_of_packs`).
Reading chunk after chunk gives a list whose chunks are read one by one
(`readStringChunks_eq_ok_iff`).
-/

namespace CartaZarr

/-! ### One chunk -/

theorem withCrc_injective : Function.Injective withCrc := by
  intro a b h
  have hlen : a.length = b.length := by
    have := congrArg List.length h
    simpa [length_withCrc] using this
  exact (List.append_inj h hlen).1

variable {lib : Decompressors}

/-- What was stored was packed from one sequence of bytes. -/
theorem Packs.unique {chain : List ChainCodec} {a b stored : Bytes}
    (ha : Packs lib.Holds chain a stored) (hb : Packs lib.Holds chain b stored) : a = b := by
  induction chain generalizing a b with
  | nil => exact ha.symm.trans hb
  | cons codec chain ih =>
    cases codec with
    | bytes e => exact ih ha hb
    | transpose => exact ih ha hb
    | crc32c => exact withCrc_injective (ih ha hb)
    | compressor c =>
      obtain ⟨sa, hsa, ha⟩ := ha
      obtain ⟨sb, hsb, hb⟩ := hb
      obtain rfl := ih ha hb
      exact lib.holds_unique hsa hsb

theorem packs_append {holds : BytesCodec → Bytes → Bytes → Prop} {front back : List ChainCodec}
    {data stored : Bytes} : Packs holds (front ++ back) data stored ↔
      ∃ inner, Packs holds front data inner ∧ Packs holds back inner stored := by
  induction front generalizing data with
  | nil => simp [Packs]
  | cons codec front ih =>
    cases codec with
    | compressor c =>
      simp only [List.cons_append, Packs, ih]
      constructor
      · rintro ⟨stream, hstream, inner, hfront, hback⟩
        exact ⟨inner, ⟨stream, hstream, hfront⟩, hback⟩
      · rintro ⟨inner, ⟨stream, hstream, hfront⟩, hback⟩
        exact ⟨stream, hstream, inner, hfront, hback⟩
    | _ => exact ih

/-- What is decompressed is what the stream holds. -/
theorem decompressBytesCodec_holds {stream data : Bytes} {codec : BytesCodec} {size : ℕ}
    (h : decompressBytesCodec lib stream codec size = .ok data) : lib.Holds codec stream data := by
  cases codec with
  | zstd =>
    simp only [decompressBytesCodec, zstdDecompress] at h
    split at h
    · cases h
      rename_i hzstd
      exact lib.zstd_holds hzstd
    · cases h
  | gzip =>
    simp only [decompressBytesCodec, gzipDecompress] at h
    split_ifs at h
    · cases h
    · cases h
    split at h
    · cases h
    · cases h
      rename_i hinflate
      exact lib.inflate_holds hinflate
    · split_ifs at h <;> cases h
    · cases h
  | blosc =>
    simp only [decompressBytesCodec, bloscDecompress] at h
    split_ifs at h
    · cases h
    · cases h
    · cases h
    split at h
    · cases h
    · rename_i hblosc
      split_ifs at h
      · cases h
      · cases h
        exact lib.blosc_holds hblosc

/-- The library holds what was compressed, in sizes that its interface has room for. -/
def Decompressors.HoldsWithin (lib : Decompressors) (codec : BytesCodec)
    (stream data : Bytes) : Prop :=
  lib.Holds codec stream data ∧ (codec = .gzip → stream.length < 2 ^ 32 ∧ data.length < 2 ^ 32)

/-- Decompression inverts compression. -/
theorem decompressBytesCodec_of_holds {stream data : Bytes} {codec : BytesCodec}
    (h : lib.HoldsWithin codec stream data) :
    decompressBytesCodec lib stream codec data.length = .ok data := by
  obtain ⟨hholds, hsize⟩ := h
  cases codec with
  | zstd => rw [decompressBytesCodec, zstdDecompress, lib.zstd_of_holds hholds]
  | gzip =>
    obtain ⟨hstream, hdata⟩ := hsize rfl
    rw [decompressBytesCodec, gzipDecompress, if_neg (by omega), if_neg (by omega),
      lib.inflate_of_holds hholds hstream hdata]
  | blosc =>
    obtain ⟨hheader, hcontents, hlength, hblosc⟩ := lib.blosc_of_holds hholds
    rw [decompressBytesCodec, bloscDecompress, if_neg (by omega), if_neg (by omega),
      if_neg (not_not.2 hcontents), hblosc]
    simp

/-- A chunk that is decoded is what its bytes were packed to, and they are as many as they should
be. -/
theorem packs_of_decodeStringChunk {chain : List ChainCodec} (hchain : ChainCodec.Simple chain)
    {layout : StringArrayLayout} {stored data : Bytes}
    (h : decodeStringChunk lib stored (ChainCodec.info chain) layout = .ok data) :
    Packs lib.Holds chain data stored ∧
      data.length = layout.chunkElements * layout.lengthBytes := by
  unfold decodeStringChunk at h
  split_ifs at h
  · cases h
  simp only [bind_eq_ok_iff, stripAll_eq_ok_iff] at h
  obtain ⟨stream, hstream, inner, hinner, stripped, hstripped, hsize⟩ := h
  split_ifs at hsize
  · cases hsize
  · cases hsize
  cases hsize
  refine ⟨(packs_iff hchain.compressor_once).2 ?_, by omega⟩
  cases hcodec : (ChainCodec.info chain).bytesCodec with
  | none =>
    rw [decompressChunk, hcodec] at hinner
    cases hinner
    rw [ChainCodec.crcAfterCompressor_eq_zero hcodec] at hstream
    exact hstream.trans hstripped
  | some codec =>
    simp only [decompressChunk, hcodec] at hinner
    split_ifs at hinner
    · cases hinner
    exact ⟨stream, hstripped ▸ decompressBytesCodec_holds hinner, hstream⟩

/-- The sizes gzip is given are below `2 ^ 32`. -/
theorem lt_of_decodeStringChunk_gzip {info : StringCodecInfo}
    (hcodec : info.bytesCodec = some .gzip)
    {layout : StringArrayLayout} {stored data : Bytes}
    (h : decodeStringChunk lib stored info layout = .ok data) :
    layout.chunkElements * layout.lengthBytes + 4 * info.crcBeforeCompressor < 2 ^ 32 := by
  unfold decodeStringChunk at h
  split_ifs at h
  · cases h
  simp only [bind_eq_ok_iff] at h
  obtain ⟨stream, -, inner, hinner, -⟩ := h
  simp only [decompressChunk, hcodec, decompressBytesCodec, gzipDecompress] at hinner
  split_ifs at hinner
  · cases hinner
  · cases hinner
  · cases hinner
  · omega

/-- What was packed is decoded, where its sizes are ones a program has room for. -/
theorem decodeStringChunk_of_packs {chain : List ChainCodec} (hchain : ChainCodec.Simple chain)
    {layout : StringArrayLayout} {stored data : Bytes}
    (h : Packs lib.HoldsWithin chain data stored)
    (hlen : data.length = layout.chunkElements * layout.lengthBytes)
    (hroom : data.length + 4 * (ChainCodec.info chain).crcBeforeCompressor < 2 ^ 64) :
    decodeStringChunk lib stored (ChainCodec.info chain) layout = .ok data := by
  have hexpected : ¬ (layout.lengthBytes ≠ 0 ∧
      layout.chunkElements > (2 ^ 64 - 1) / layout.lengthBytes) := by
    rintro ⟨hne, hgt⟩
    have := (Nat.div_lt_iff_lt_mul (Nat.pos_of_ne_zero hne)).1 hgt
    omega
  rw [packs_iff hchain.compressor_once] at h
  unfold decodeStringChunk
  rw [if_neg hexpected]
  simp only [bind_eq_ok_iff, stripAll_eq_ok_iff]
  cases hcodec : (ChainCodec.info chain).bytesCodec with
  | none =>
    rw [hcodec] at h
    refine ⟨stored, ?_, stored, ?_, data, h, ?_⟩
    · rw [ChainCodec.crcAfterCompressor_eq_zero hcodec]
      rfl
    · rw [decompressChunk, hcodec]
    · rw [if_neg (by omega), if_neg (by omega)]
  | some codec =>
    rw [hcodec] at h
    obtain ⟨stream, hstream, hstored⟩ := h
    refine ⟨stream, hstored, _, ?_, data, rfl, ?_⟩
    · simp only [decompressChunk, hcodec]
      rw [if_neg (by omega), ← hlen, ← length_iterate_withCrc]
      exact decompressBytesCodec_of_holds hstream
    · rw [if_neg (by omega), if_neg (by omega)]

/-! ### The chunks of an array -/

theorem readStringChunk_missing {path : String} {info : StringCodecInfo}
    {layout : StringArrayLayout}
    {count : ℕ} : (readStringChunk lib .missing path info layout count).map Subtype.val =
      .ok (List.replicate count layout.fillValue) := rfl

theorem readStringChunk_contents {stored : Bytes} {path : String} {info : StringCodecInfo}
    {layout : StringArrayLayout} {count : ℕ} {strings : List Bytes} :
    (readStringChunk lib (.contents stored) path info layout count).map Subtype.val = .ok strings ↔
      ∃ data, decodeStringChunk lib stored info layout = .ok data ∧
        decodeFixedLengthUtf32 data count layout.lengthBytes info.littleEndian = .ok strings := by
  rw [readStringChunk, map_eq_ok_iff]
  simp only [bind_eq_ok_iff]
  constructor
  · rintro ⟨chunk, ⟨data, hdata, hdecoded⟩, rfl⟩
    refine ⟨data, hdata, ?_⟩
    split at hdecoded
    · cases hdecoded
      assumption
    · cases hdecoded
  · rintro ⟨data, hdata, hdecoded⟩
    have hlen : strings.length = count := by
      simpa using (mapM_eq_ok_iff.1 hdecoded).length_eq.symm
    refine ⟨⟨strings, hlen⟩, ⟨data, hdata, ?_⟩, rfl⟩
    split
    · rename_i decoded hdecoded'
      rw [hdecoded] at hdecoded'
      cases hdecoded'
      rfl
    · rename_i hdecoded'
      rw [hdecoded] at hdecoded'
      cases hdecoded'

section Chunks

variable {files : String → ChunkFile} {directory : String} {encoding : Json}
  {info : StringCodecInfo}
  {layout : StringArrayLayout}

/-- The elements of chunk `j` of what is returned. -/
def StringArrayLayout.chunk {α : Type} (layout : StringArrayLayout) (j : ℕ)
    (out : List α) : List α :=
  (out.drop (j * layout.chunkElements)).take layout.chunkElements

/-- Chunk `j` is read as that chunk of what is returned. -/
def ReadsAs (lib : Decompressors) (files : String → ChunkFile)
    (directory : String) (encoding : Json)
    (info : StringCodecInfo) (layout : StringArrayLayout) (out : List Bytes) (j : ℕ) : Prop :=
  ∃ path, getStringChunkPath directory encoding j = .ok path ∧
    (readStringChunk lib (files path) path info layout
      (min layout.chunkElements (layout.numElements - j * layout.chunkElements))).map Subtype.val =
        .ok (layout.chunk j out)

/-- What follows the chunks before a chunk is that chunk. -/
theorem chunk_of_extends {α : Type} {i : ℕ} {values chunk out : List α}
    (hvalues : values.length = i * layout.chunkElements) (hextends : values ++ chunk <+: out)
    (hout : out.length ≤ layout.numElements)
    (hchunk : chunk.length = min layout.chunkElements (layout.numElements - values.length)) :
    layout.chunk i out = chunk := by
  obtain ⟨rest, rfl⟩ := hextends
  rw [StringArrayLayout.chunk, ← hvalues, List.append_assoc, List.drop_left]
  rcases le_total layout.chunkElements (layout.numElements - values.length) with hle | hle
  · exact List.take_left' (by omega)
  · have hrest : rest = [] := by
      rw [← List.length_eq_zero_iff]
      simp only [List.length_append] at hout
      omega
    rw [hrest, List.append_nil]
    exact List.take_of_length_le (by omega)

/-- Reading chunk after chunk returns a list whose chunks are read one by one. -/
theorem readStringChunks_eq_ok_iff {i : ℕ} {values out : List Bytes}
    (hvalues : values.length = min (i * layout.chunkElements) layout.numElements) :
    readStringChunks lib files directory encoding info layout i values = .ok out ↔
      values <+: out ∧ out.length = layout.numElements ∧
        ∀ j ≥ i, j * layout.chunkElements < layout.numElements →
          ReadsAs lib files directory encoding info layout out j := by
  have hpos := layout.chunkElements_pos
  induction hn : layout.numElements - values.length using Nat.strong_induction_on
    generalizing i values with
  | _ n ih =>
    rw [readStringChunks]
    by_cases hmore : values.length < layout.numElements
    · have hlen : values.length = i * layout.chunkElements := by omega
      have hmul : (i + 1) * layout.chunkElements =
          i * layout.chunkElements + layout.chunkElements :=
        Nat.succ_mul i _
      -- The next step starts one chunk further on.
      have hnext : ∀ chunk : List Bytes,
          chunk.length = min layout.chunkElements (layout.numElements - values.length) →
          (readStringChunks lib files directory encoding info layout (i + 1) (values ++ chunk) =
            .ok out ↔ values ++ chunk <+: out ∧ out.length = layout.numElements ∧
              ∀ j ≥ i + 1, j * layout.chunkElements < layout.numElements →
                ReadsAs lib files directory encoding info layout out j) := by
        intro chunk hchunk
        apply ih _ _ _ rfl
        · rw [List.length_append]
          omega
        · rw [List.length_append]
          omega
      rw [if_pos hmore]
      simp only [bind_eq_ok_iff]
      constructor
      · rintro ⟨path, hpath, chunk, hchunk, hrest⟩
        obtain ⟨hextends, hout, hothers⟩ := (hnext chunk.1 chunk.2).1 hrest
        refine ⟨(List.prefix_append _ _).trans hextends, hout, fun j hj hlt => ?_⟩
        rcases hj.lt_or_eq with hj | rfl
        · exact hothers j hj hlt
        · refine ⟨path, hpath, ?_⟩
          rw [← hlen, hchunk]
          exact congrArg _ (chunk_of_extends hlen hextends (by omega) chunk.2).symm
      · rintro ⟨hextends, hout, hall⟩
        obtain ⟨path, hpath, hread⟩ := hall i le_rfl (by omega)
        rw [← hlen] at hread
        obtain ⟨chunk, hchunk, hval⟩ := map_eq_ok_iff.1 hread
        have hnextPrefix : values ++ chunk.1 <+: out := by
          obtain ⟨rest, rfl⟩ := hextends
          rw [hval, StringArrayLayout.chunk, ← hlen, List.drop_left]
          exact (List.prefix_append_right_inj values).2 (List.take_prefix _ _)
        exact ⟨path, hpath, chunk, hchunk, (hnext chunk.1 chunk.2).2
          ⟨hnextPrefix, hout, fun j hj => hall j (by omega)⟩⟩
    · rw [if_neg hmore]
      constructor
      · rintro ⟨⟩
        refine ⟨List.prefix_rfl, by omega, fun j hj hlt => ?_⟩
        have := Nat.mul_le_mul_right layout.chunkElements hj
        omega
      · rintro ⟨hextends, hlen, -⟩
        rw [hextends.eq_of_length (by omega)]

end Chunks

end CartaZarr
