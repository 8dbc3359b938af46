import CartaZarr.Zarr.StringChunks

/-!
# The format of an array of strings

`StringFormat` is what a writer of an array of strings has to settle, and `StringFormat.Stores` says
that files hold a list of strings in that format: every chunk is there, padded to its full length
and packed by the chain, unless it holds nothing but the fill value.

What is stored so is what is read, and a chunk that is not one of the array's makes the read fail
(`string_array_round_trip`). The one limit is the size of a chunk: gzip is given sizes of 32 bits,
so a chunk of `2 ^ 32` bytes is refused (`string_array_huge_gzip`).
-/

namespace CartaZarr

/-- How the chunks of an array of one dimension are named. -/
inductive KeyEncoding
  | slash | dot | v2
  deriving DecidableEq, Repr

namespace KeyEncoding

def key : KeyEncoding → ℕ → String
  | slash, index => "c/" ++ toString index
  | dot, index => "c." ++ toString index
  | v2, index => toString index

/-- The encoding a document names: the default one unless it says `v2`, with `/` between the parts
unless it says `.`. -/
def of? (encoding : Json) : Option KeyEncoding :=
  let name := ((encoding.get? "name").bind Json.string?).getD "default"
  let separator := ((configured encoding "separator").bind Json.string?).getD "/"
  if name = "v2" then some v2
  else if name ≠ "default" then none
  else if separator = "/" then some slash
  else if separator = "." then some dot
  else none

end KeyEncoding

theorem getStringChunkPath_eq {encoding : Json} {keys : KeyEncoding}
    (h : KeyEncoding.of? encoding = some keys) (directory : String) (index : ℕ) :
    getStringChunkPath directory encoding index = .ok (joinPath directory (keys.key index)) := by
  unfold KeyEncoding.of? at h
  unfold getStringChunkPath
  dsimp only at h ⊢
  generalize ((encoding.get? "name").bind Json.string?).getD "default" = name at h ⊢
  generalize ((configured encoding "separator").bind Json.string?).getD "/" = separator at h ⊢
  split_ifs at h <;> cases h <;> simp_all [KeyEncoding.key]

/-- What a writer settles: how many strings make a chunk, how many code points a string has room
for, the chain, the names of the chunks, and the string that need not be written. -/
structure StringFormat where
  chunkLength : ℕ
  chars : ℕ
  chain : List ChainCodec
  keys : KeyEncoding
  fill : String
  chunkLength_pos : 0 < chunkLength
  chars_pos : 0 < chars
  simple : ChainCodec.Simple chain

namespace StringFormat

variable (fmt : StringFormat)

/-- The document says that the array has `n` strings in this format. -/
structure Describes (metadata : ArrayMetadata) (n : ℕ) : Prop where
  dataType : metadata.dataType = "fixed_length_utf32"
  lengthBytes : ∃ value, metadata.dataTypeConfiguration.get? "length_bytes" = some value ∧
    value.natural?.map UInt64.toNat = some (4 * fmt.chars)
  shape : metadata.shape.map UInt64.toNat = [n]
  chunkShape : metadata.chunkShape.map UInt64.toNat = [fmt.chunkLength]
  codecs : metadata.codecs.map ChainCodec.of? = fmt.chain.map some
  keyEncoding : KeyEncoding.of? metadata.chunkKeyEncoding = some fmt.keys
  fillValue : metadata.fillValue = .string fmt.fill ∨ metadata.fillValue = .null ∧ fmt.fill = ""

/-- The byte order of the chain. -/
def littleEndian : Bool := (ChainCodec.info fmt.chain).littleEndian

/-- A string in the room an element has. -/
def element (s : String) : Bytes :=
  (s.toList.map Char.val ++ List.replicate (fmt.chars - s.toList.length) 0).flatMap
    (codeUnit fmt.littleEndian)

/-- A string an element can hold: no code point of it is zero, and there are not too many. -/
def Holds (s : String) : Prop := (∀ c ∈ s.toList, c ≠ '\x00') ∧ s.toList.length ≤ fmt.chars

instance (s : String) : Decidable (fmt.Holds s) :=
  @instDecidableAnd _ _ (List.decidableBAll (· ≠ '\x00') s.toList) (Nat.decLe _ _)

/-- The bytes of a whole chunk. -/
def chunkBytes : ℕ := fmt.chunkLength * (4 * fmt.chars)

/-- The strings of chunk `j`. -/
def chunk (j : ℕ) (strings : List String) : List String :=
  (strings.drop (j * fmt.chunkLength)).take fmt.chunkLength

/-- The strings of a chunk and padding to its full length, packed by the chain. -/
def Encodes (holds : BytesCodec → Bytes → Bytes → Prop) (strings : List String) (stored : Bytes) :
    Prop :=
  ∃ padding, (strings.flatMap fmt.element ++ padding).length = fmt.chunkBytes ∧
    Packs holds fmt.chain (strings.flatMap fmt.element ++ padding) stored

/-- The strings of a chunk are encoded in sizes a program has room for: the bytes that are checked
and compressed are counted in 64 bits, and those of gzip in 32. -/
def EncodesWithin (lib : Decompressors) (strings : List String) (stored : Bytes) : Prop :=
  fmt.Encodes lib.HoldsWithin strings stored ∧
    fmt.chunkBytes + 4 * (ChainCodec.info fmt.chain).crcBeforeCompressor < 2 ^ 64

/-- Files under a directory hold the strings, each chunk encoded. A chunk of nothing but the fill
value may be left out. -/
def Stores (encodes : List String → Bytes → Prop) (files : String → ChunkFile) (directory : String)
    (strings : List String) : Prop :=
  ∀ j, j * fmt.chunkLength < strings.length →
    match files (joinPath directory (fmt.keys.key j)) with
    | .missing => ∀ s ∈ fmt.chunk j strings, s = fmt.fill
    | .contents stored => encodes (fmt.chunk j strings) stored
    | _ => False

/-- A chunk that is not one of an array of `n` strings: it was packed from more or fewer bytes than
a chunk has, a checksum in it is not that of the bytes before it, or an element of the array has a
code point before its first zero that is no scalar value. -/
def Faulty (lib : Decompressors) (n j : ℕ) (stored : Bytes) : Prop :=
  (∃ data, Packs lib.Holds fmt.chain data stored ∧ data.length ≠ fmt.chunkBytes) ∨
  (∃ front back inner, fmt.chain = front ++ .crc32c :: back ∧ Packs lib.Holds back inner stored ∧
    ∀ data, inner ≠ withCrc data) ∨
  (∃ data, Packs lib.Holds fmt.chain data stored ∧
    ∃ e < min fmt.chunkLength (n - j * fmt.chunkLength),
      ∃ p ∈ (codePointsAt data (e * (4 * fmt.chars)) fmt.littleEndian 0
        fmt.chars).takeWhile (· ≠ 0),
        ¬ IsScalar p)

/-- The layout the reader works from. -/
def layout (n : ℕ) : StringArrayLayout :=
  ⟨n, fmt.chunkLength, 4 * fmt.chars, utf8 fmt.fill, fmt.chunkLength_pos⟩

variable {fmt} {metadata : ArrayMetadata} {n : ℕ}

theorem Describes.parseStringArrayLayout_eq (h : fmt.Describes metadata n) :
    parseStringArrayLayout metadata = .ok (fmt.layout n) := by
  obtain ⟨value, hvalue, hnatural⟩ := h.lengthBytes
  obtain ⟨len, hlen, hchars⟩ := Option.map_eq_some_iff.1 hnatural
  obtain ⟨total, hshape, htotal⟩ : ∃ total, metadata.shape = [total] ∧ total.toNat = n := by
    have := h.shape
    simpa [List.map_eq_cons_iff] using this
  obtain ⟨per, hchunk, hper⟩ :
      ∃ per, metadata.chunkShape = [per] ∧ per.toNat = fmt.chunkLength := by
    have := h.chunkShape
    simpa [List.map_eq_cons_iff] using this
  have hutf : isFixedLengthUtf32 metadata = true := by
    have hpos := fmt.chars_pos
    have hlt : 0 < len := by
      rw [UInt64.lt_iff_toNat_lt, hchars, UInt64.toNat_zero]
      omega
    have hmod : len.toNat % 4 = 0 := by omega
    simp [isFixedLengthUtf32, hvalue, h.dataType, isPositiveInteger, hlen, hlt, hmod]
  have hfill : parseStringFillValue metadata.fillValue = .ok (utf8 fmt.fill) := by
    rcases h.fillValue with hfill | ⟨hfill, hempty⟩
    · rw [hfill]
      rfl
    · rw [hfill, hempty]
      rfl
  have hne : per.toNat ≠ 0 := by
    have := fmt.chunkLength_pos
    omega
  rw [parseStringArrayLayout, if_pos hutf, hshape, hchunk]
  dsimp only
  rw [dif_neg hne, hfill, ok_bind, hvalue]
  simp [hlen, hchars, htotal, hper, layout, pure, Except.pure]

/-- Reading is reading chunk after chunk. -/
theorem Describes.read_eq (h : fmt.Describes metadata n) (lib : Decompressors)
    (files : String → ChunkFile) (directory node : String) :
    readFixedLengthUtf32StringArray lib files directory metadata node =
      (readStringChunks lib files directory metadata.chunkKeyEncoding (ChainCodec.info fmt.chain)
        (fmt.layout n) 0 []).mapError (Thrown.toError .decodeError node) := by
  have hcodecs : parseStringCodecs metadata.codecs = .ok (ChainCodec.info fmt.chain) :=
    parseStringCodecs_eq_ok_iff.2 ⟨fmt.chain, h.codecs, fmt.simple, rfl⟩
  rw [readFixedLengthUtf32StringArray, h.parseStringArrayLayout_eq, ok_bind, hcodecs, ok_bind]

/-- What is returned is a list whose chunks are read one by one. -/
theorem Describes.read_eq_ok_iff (h : fmt.Describes metadata n) {lib : Decompressors}
    {files : String → ChunkFile} {directory node : String} {out : List Bytes} :
    readFixedLengthUtf32StringArray lib files directory metadata node = .ok out ↔
      out.length = n ∧ ∀ j, j * fmt.chunkLength < n →
        ReadsAs lib files directory metadata.chunkKeyEncoding (ChainCodec.info fmt.chain)
          (fmt.layout n) out j := by
  rw [h.read_eq, mapError_eq_ok_iff, readStringChunks_eq_ok_iff (by simp)]
  simp [layout]

/-! ### Elements -/

theorem Holds.length_element {s : String} (h : fmt.Holds s) :
    (fmt.element s).length = 4 * fmt.chars := by
  have := h.2
  rw [element, length_flatMap_of_length _ fun x _ => length_codeUnit fmt.littleEndian x]
  simp only [List.length_append, List.length_map, List.length_replicate]
  omega

/-- The strings of a chunk are read back. -/
theorem decodeFixedLengthUtf32_elements {strings : List String} (h : ∀ s ∈ strings, fmt.Holds s)
    (padding : Bytes) :
    decodeFixedLengthUtf32 (strings.flatMap fmt.element ++ padding) strings.length (4 * fmt.chars)
      fmt.littleEndian = .ok (strings.map utf8) := by
  rw [decodeFixedLengthUtf32, mapM_eq_ok_iff, List.forall₂_iff_get]
  refine ⟨by simp, fun e he he' => ?_⟩
  have he : e < strings.length := by simpa using he
  have hlen := length_flatMap_of_length strings fun s hs => (h s hs).length_element
  have hmul := Nat.mul_le_mul_right (4 * fmt.chars) he
  rw [Nat.succ_mul] at hmul
  have hs : fmt.Holds strings[e] := h _ (List.getElem_mem he)
  -- From the element on, the bytes are its code points and what comes after it.
  have hdrop : (strings.flatMap fmt.element ++ padding).drop (e * (4 * fmt.chars)) =
      (strings[e].toList.map Char.val ++
        List.replicate (fmt.chars - strings[e].toList.length) 0).flatMap
          (codeUnit fmt.littleEndian) ++
          ((strings.drop (e + 1)).flatMap fmt.element ++ padding) := by
    rw [List.drop_append_of_le_length (by rw [hlen]; exact Nat.mul_le_mul_right _ he.le),
      drop_flatMap_of_length strings (fun s hs => (h s hs).length_element) he.le,
      List.drop_eq_getElem_cons he, List.flatMap_cons, List.append_assoc]
    rfl
  have hchars : 4 * fmt.chars / 4 = fmt.chars := by omega
  have hpoints := codePointsAt_of_drop hdrop
  simp only [List.length_append, List.length_map, List.length_replicate,
    Nat.add_sub_cancel' hs.2] at hpoints
  simp only [List.get_eq_getElem, List.getElem_range, List.getElem_map, hchars]
  rw [decodeElement_eq _ _ _ _ _ _ (by rw [List.length_append, hlen]; omega), hpoints,
    decodePoints_chars _ (fun c hc h0 => hs.1 c hc (Char.ext h0))]
  rfl

/-- A chunk that is read has no code point before the end of an element that is no scalar value. -/
theorem isScalar_of_decodeFixedLengthUtf32 {data : Bytes} {count : ℕ} {out : List Bytes}
    (hlen : count * (4 * fmt.chars) ≤ data.length)
    (h : decodeFixedLengthUtf32 data count (4 * fmt.chars) fmt.littleEndian = .ok out) :
    ∀ e < count, ∀ p ∈ (codePointsAt data (e * (4 * fmt.chars)) fmt.littleEndian 0
      fmt.chars).takeWhile (· ≠ 0), IsScalar p := by
  intro e he p hp
  have hchars : 4 * fmt.chars / 4 = fmt.chars := by omega
  have hmul := Nat.mul_le_mul_right (4 * fmt.chars) he
  rw [Nat.succ_mul] at hmul
  rw [decodeFixedLengthUtf32, mapM_eq_ok_iff, List.forall₂_iff_get] at h
  have hout : out.length = count := by simpa using h.1.symm
  have helement := h.2 e (by simpa using he) (by omega)
  simp only [List.get_eq_getElem, List.getElem_range, hchars] at helement
  rw [decodeElement_eq _ _ _ _ _ _ (by omega)] at helement
  exact isScalar_of_decodePoints helement p hp

/-! ### Arrays -/

theorem length_chunk (fmt : StringFormat) (j : ℕ) (strings : List String) :
    (fmt.chunk j strings).length = min fmt.chunkLength (strings.length - j * fmt.chunkLength) := by
  rw [chunk, List.length_take, List.length_drop]

theorem layout_chunk_map (fmt : StringFormat) (j : ℕ) (strings : List String) (f : String → Bytes) :
    (fmt.layout n).chunk j (strings.map f) = (fmt.chunk j strings).map f := by
  simp [StringArrayLayout.chunk, chunk, layout]

theorem Describes.path_eq (h : fmt.Describes metadata n) (directory : String) (j : ℕ) :
    getStringChunkPath directory metadata.chunkKeyEncoding j =
      .ok (joinPath directory (fmt.keys.key j)) :=
  getStringChunkPath_eq h.keyEncoding directory j

/-- Strings that are stored in a format are read back. -/
theorem Describes.read_of_stores {strings : List String} (h : fmt.Describes metadata strings.length)
    {lib : Decompressors} {files : String → ChunkFile} {directory : String} (node : String)
    (hstrings : ∀ s ∈ strings, fmt.Holds s)
    (hstores : fmt.Stores (fmt.EncodesWithin lib) files directory strings) :
    readFixedLengthUtf32StringArray lib files directory metadata node =
      .ok (strings.map utf8) := by
  rw [h.read_eq_ok_iff]
  refine ⟨List.length_map _, fun j hj => ⟨_, h.path_eq directory j, ?_⟩⟩
  have hchunk := hstores j hj
  have hlen := length_chunk fmt j strings
  rw [layout_chunk_map]
  cases hfile : files (joinPath directory (fmt.keys.key j)) with
  | missing =>
    rw [hfile] at hchunk
    have hfill : (fmt.chunk j strings).map utf8 =
        List.replicate (fmt.chunk j strings).length (utf8 fmt.fill) := by
      rw [← List.map_const', List.map_congr_left fun s hs => congrArg utf8 (hchunk s hs)]
    rw [readStringChunk_missing, hfill, hlen]
    rfl
  | contents stored =>
    rw [hfile] at hchunk
    obtain ⟨⟨padding, hsize, hpacks⟩, hroom⟩ := hchunk
    have hheld : ∀ s ∈ fmt.chunk j strings, fmt.Holds s := fun s hs =>
      hstrings s (List.mem_of_mem_drop (List.mem_of_mem_take hs))
    have hdecoded := decodeFixedLengthUtf32_elements hheld padding
    rw [hlen] at hdecoded
    exact readStringChunk_contents.2 ⟨_,
      decodeStringChunk_of_packs fmt.simple hpacks hsize (by rw [hsize]; exact hroom), hdecoded⟩
  | uninspectable message =>
    rw [hfile] at hchunk
    exact hchunk.elim
  | unreadable =>
    rw [hfile] at hchunk
    exact hchunk.elim

/-- A chunk that is not one of the array's is not read. -/
theorem Describes.read_of_faulty (h : fmt.Describes metadata n) {lib : Decompressors}
    {files : String → ChunkFile} {directory : String} (node : String) {j : ℕ}
    (hj : j * fmt.chunkLength < n) {stored : Bytes}
    (hfile : files (joinPath directory (fmt.keys.key j)) = .contents stored)
    (hfaulty : fmt.Faulty lib n j stored) :
    ∃ e, readFixedLengthUtf32StringArray lib files directory metadata node = .error e := by
  cases hread : readFixedLengthUtf32StringArray lib files directory metadata node with
  | error e => exact ⟨e, rfl⟩
  | ok out =>
    exfalso
    obtain ⟨path, hpath, hchunk⟩ := (h.read_eq_ok_iff.1 hread).2 j hj
    rw [h.path_eq directory j] at hpath
    cases hpath
    rw [hfile, readStringChunk_contents] at hchunk
    obtain ⟨data, hdata, hdecoded⟩ := hchunk
    obtain ⟨hpacks, hlen⟩ := packs_of_decodeStringChunk fmt.simple hdata
    rcases hfaulty with ⟨other, hother, hne⟩ | ⟨front, back, inner, hchain, hback, hcrc⟩ |
      ⟨other, hother, e, he, p, hp, hbad⟩
    · rw [hother.unique hpacks] at hne
      exact hne hlen
    · rw [hchain, packs_append] at hpacks
      obtain ⟨bare, -, hrest⟩ := hpacks
      exact hcrc bare (hback.unique hrest)
    · rw [hother.unique hpacks] at hp
      have hfits : min fmt.chunkLength (n - j * fmt.chunkLength) *
          (4 * fmt.chars) ≤ data.length := by
        rw [hlen]
        exact Nat.mul_le_mul_right _ (min_le_left _ _)
      exact hbad (isScalar_of_decodeFixedLengthUtf32 hfits hdecoded e he p hp)

end StringFormat

/-- What is read has as many strings as the array has elements. -/
theorem shape_of_read {lib : Decompressors} {files : String → ChunkFile} {directory : String}
    {metadata : ArrayMetadata} {node : String} {out : List Bytes}
    (h : readFixedLengthUtf32StringArray lib files directory metadata node = .ok out) :
    metadata.shape.map UInt64.toNat = [out.length] := by
  rw [readFixedLengthUtf32StringArray, mapError_eq_ok_iff] at h
  simp only [bind_eq_ok_iff] at h
  obtain ⟨layout, hlayout, info, -, hread⟩ := h
  have hlen := ((readStringChunks_eq_ok_iff (by simp)).1 hread).2.1
  rw [hlen]
  unfold parseStringArrayLayout at hlayout
  split_ifs at hlayout
  · split at hlayout
    · rename_i hshape hchunk
      split_ifs at hlayout
      · cases hlayout
      · obtain ⟨fill, -, hlayout⟩ := bind_eq_ok_iff.1 hlayout
        cases hlayout
        rw [hshape]
        rfl
    · cases hlayout
  · cases hlayout

/-- Strings that are stored in a format, in sizes there is room for, are what is read; and of files
of any kind, what is read has as many strings as the array, and a chunk that is not one of the
array's makes the read fail. -/
theorem string_array_round_trip (lib : Decompressors) (files : String → ChunkFile)
    (directory node : String) (metadata : ArrayMetadata) :
    (∀ (fmt : StringFormat) (strings : List String), fmt.Describes metadata strings.length →
      (∀ s ∈ strings, fmt.Holds s) → fmt.Stores (fmt.EncodesWithin lib) files directory strings →
        readFixedLengthUtf32StringArray lib files directory metadata node =
          .ok (strings.map utf8)) ∧
    (∀ values, readFixedLengthUtf32StringArray lib files directory metadata node = .ok values →
      metadata.shape.map UInt64.toNat = [values.length]) ∧
    (∀ (fmt : StringFormat) (n : ℕ), fmt.Describes metadata n → ∀ j, j * fmt.chunkLength < n →
      ∀ stored, files (joinPath directory (fmt.keys.key j)) = .contents stored →
        fmt.Faulty lib n j stored →
          ∃ e, readFixedLengthUtf32StringArray lib files directory metadata node = .error e) :=
  ⟨fun _ _ h hstrings hstores => h.read_of_stores node hstrings hstores,
    fun _ h => shape_of_read h,
    fun _ _ h _ hj _ hfile hfaulty => h.read_of_faulty node hj hfile hfaulty⟩

/-! ### Streams that only store -/

/-- A Zstandard frame of one raw block, of fewer than 256 bytes. -/
def zstdFrame (data : Bytes) : Bytes :=
  [0x28, 0xB5, 0x2F, 0xFD, 0x20, UInt8.ofNat data.length, UInt8.ofNat (8 * data.length + 1),
    UInt8.ofNat ((8 * data.length + 1) / 256), 0] ++ data

/-- The stored blocks of a deflate stream, each of up to 65535 bytes. -/
def deflateStored (data : Bytes) : Bytes :=
  let blocks := data.length / 65535 + 1
  (List.range blocks).flatMap fun i =>
    let block := (data.drop (i * 65535)).take 65535
    [if i + 1 = blocks then 1 else 0, UInt8.ofNat block.length, UInt8.ofNat (block.length / 256),
      UInt8.ofNat (65535 - block.length), UInt8.ofNat ((65535 - block.length) / 256)] ++ block

/-- A gzip file that stores its contents. -/
def gzipStored (data : Bytes) : Bytes :=
  [0x1F, 0x8B, 8, 0, 0, 0, 0, 0, 0, 0xFF] ++ deflateStored data ++ le32 (Crc.crc 0xEDB88320 data) ++
    le32 (UInt32.ofNat data.length)

/-- An array of one string of `2 ^ 30` code points, in one chunk compressed with gzip. -/
def hugeFormat : StringFormat where
  chunkLength := 1
  chars := 2 ^ 30
  chain := [.bytes true, .compressor .gzip]
  keys := .slash
  fill := ""
  chunkLength_pos := by decide
  chars_pos := by decide
  simple := ⟨by decide, by decide⟩

theorem hugeFormat_holds : hugeFormat.Holds "" := ⟨by simp, by simp⟩

theorem length_huge : (hugeFormat.element "").length = 2 ^ 32 :=
  hugeFormat_holds.length_element.trans (by rw [hugeFormat]; norm_num)

theorem drop_zstdFrame (data : Bytes) : (zstdFrame data).drop 9 = data := rfl

/-- Decompressors of streams that only store: Zstandard frames of one raw block, and the gzip file
of one chunk. -/
def storedStreams : Decompressors where
  Holds
    | .zstd, stream, data => stream = zstdFrame data ∧ data.length < 256
    | .gzip, stream, data => stream = gzipStored data ∧ data = hugeFormat.element ""
    | .blosc, _, _ => False
  zstdDecompress stream size :=
    let data := stream.drop 9
    if stream = zstdFrame data ∧ data.length < 256 then
      if data.length ≤ size then .ok data else .error "Destination buffer is too small"
    else .error "Unknown frame descriptor"
  inflate _ _ := some (.failed "buffer error", [])
  bloscSizes _ := (0, 0)
  bloscDecompress _ _ := none
  holds_unique := by
    intro codec stream a b ha hb
    cases codec with
    | zstd => rw [← drop_zstdFrame a, ← drop_zstdFrame b, ← ha.1, ← hb.1]
    | gzip => exact ha.2.trans hb.2.symm
    | blosc => exact ha.elim
  zstd_of_holds := by
    rintro stream contents ⟨rfl, hlen⟩
    simp [drop_zstdFrame, hlen]
  zstd_holds := by
    intro stream size contents h
    dsimp only at h
    split_ifs at h with hframe hsize
    cases h
    exact hframe
  inflate_of_holds := by
    rintro stream contents ⟨-, rfl⟩ - hlt
    rw [length_huge] at hlt
    exact absurd hlt (lt_irrefl _)
  inflate_holds := by
    intro stream size contents h
    cases h
  blosc_of_holds := fun h => h.elim
  blosc_holds := by
    intro stream size contents h
    cases h

/-- The document of that array. -/
def hugeMetadata : ArrayMetadata where
  shape := [1]
  dimensionNames := []
  dataType := "fixed_length_utf32"
  dataTypeConfiguration := .object [("length_bytes", .unsigned 4294967296)]
  attributes := .object []
  chunkShape := [1]
  codecs := [.object [("name", .string "bytes"),
      ("configuration", .object [("endian", .string "little")])],
    .object [("name", .string "gzip")]]
  fillValue := .string ""

/-- A chunk of `2 ^ 32` bytes is not read, though gzip holds it. -/
theorem string_array_huge_gzip :
    hugeFormat.Describes hugeMetadata [""].length ∧ (∀ s ∈ [""], hugeFormat.Holds s) ∧
      hugeFormat.Stores (hugeFormat.Encodes storedStreams.Holds)
        (fun _ => .contents (gzipStored (hugeFormat.element ""))) "labels" [""] ∧
      ∀ values, readFixedLengthUtf32StringArray storedStreams
        (fun _ => .contents (gzipStored (hugeFormat.element ""))) "labels" hugeMetadata "labels" ≠
          .ok values := by
  have hdescribes : hugeFormat.Describes hugeMetadata [""].length :=
    ⟨rfl, ⟨_, rfl, rfl⟩, rfl, rfl, rfl, rfl, .inl rfl⟩
  refine ⟨hdescribes, by simpa using hugeFormat_holds, ?_, ?_⟩
  · intro j hj
    obtain rfl : j = 0 := by
      simp only [hugeFormat, List.length_cons, List.length_nil] at hj
      omega
    have hchunk : hugeFormat.chunk 0 [""] = [""] := rfl
    have hdata : [""].flatMap hugeFormat.element ++ [] = hugeFormat.element "" := by simp
    refine ⟨[], ?_, ?_⟩
    · rw [hchunk, hdata, length_huge]
      rfl
    · rw [hchunk, hdata]
      exact ⟨_, ⟨rfl, rfl⟩, rfl⟩
  · intro values hread
    obtain ⟨path, -, hchunk⟩ := (hdescribes.read_eq_ok_iff.1 hread).2 0 (by decide)
    obtain ⟨data, hdata, -⟩ := readStringChunk_contents.1 hchunk
    have := lt_of_decodeStringChunk_gzip rfl hdata
    simp [hugeFormat, StringFormat.layout, ChainCodec.info] at this

/-- Three labels of up to two code points, two to a chunk, with a checksum on each side of the
compressor. -/
def labelFormat : StringFormat where
  chunkLength := 2
  chars := 2
  chain := [.bytes false, .crc32c, .compressor .zstd, .crc32c]
  keys := .dot
  fill := "Q"
  chunkLength_pos := by decide
  chars_pos := by decide
  simple := ⟨by decide, by decide⟩

def labelMetadata : ArrayMetadata where
  shape := [3]
  dimensionNames := []
  dataType := "fixed_length_utf32"
  dataTypeConfiguration := .object [("length_bytes", .unsigned 8)]
  attributes := .object []
  chunkShape := [2]
  codecs := [.object [("name", .string "bytes"),
      ("configuration", .object [("endian", .string "big")])],
    .object [("name", .string "crc32c")], .object [("name", .string "zstd")],
    .object [("name", .string "crc32c")]]
  chunkKeyEncoding := .object [("name", .string "default"),
    ("configuration", .object [("separator", .string ".")])]
  fillValue := .string "Q"

/-- The first chunk is stored and the second is not. -/
def labelFiles (path : String) : ChunkFile :=
  if path = "labels/c.0" then
    .contents (withCrc (zstdFrame (withCrc (labelFormat.element "é" ++ labelFormat.element "I😀"))))
  else .missing

theorem labelFormat_holds : ∀ s ∈ ["é", "I😀", "Q"], labelFormat.Holds s := by
  decide +kernel

/-- Labels of one, two and four bytes are read back, and the one that was not written. -/
theorem string_array_round_trip_labels :
    readFixedLengthUtf32StringArray storedStreams labelFiles "labels" labelMetadata "labels" =
      .ok [[0xC3, 0xA9], [0x49, 0xF0, 0x9F, 0x98, 0x80], [0x51]] := by
  have hdescribes : labelFormat.Describes labelMetadata ["é", "I😀", "Q"].length :=
    ⟨rfl, ⟨_, rfl, rfl⟩, rfl, rfl, rfl, rfl, .inl rfl⟩
  have hstores : labelFormat.Stores (labelFormat.EncodesWithin storedStreams) labelFiles "labels"
      ["é", "I😀", "Q"] := by
    intro j hj
    have hfirst : labelFiles (joinPath "labels" (labelFormat.keys.key 0)) = .contents (withCrc
        (zstdFrame (withCrc (labelFormat.element "é" ++ labelFormat.element "I😀")))) := rfl
    have hsecond : labelFiles (joinPath "labels" (labelFormat.keys.key 1)) = .missing := rfl
    obtain rfl | rfl : j = 0 ∨ j = 1 := by
      simp only [labelFormat, List.length_cons, List.length_nil] at hj
      omega
    · rw [hfirst]
      refine ⟨⟨[], rfl, ?_⟩, by decide⟩
      exact ⟨_, ⟨⟨rfl, by decide +kernel⟩, by simp⟩, rfl⟩
    · rw [hsecond]
      intro s hs
      have hchunk : labelFormat.chunk 1 ["é", "I😀", "Q"] = ["Q"] := rfl
      rw [hchunk, List.mem_singleton] at hs
      exact hs
  exact (string_array_round_trip storedStreams labelFiles "labels" "labels" labelMetadata).1
    labelFormat ["é", "I😀", "Q"] hdescribes labelFormat_holds hstores

end CartaZarr
