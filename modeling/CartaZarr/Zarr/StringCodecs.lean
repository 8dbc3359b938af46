import CartaZarr.Zarr.CodePoints

/-!
# Chains of codecs

`Packs` says what a chain of codecs makes of the bytes of a chunk, one codec at a time in the order
the chain has them. The reader knows of a chain only how many checksums stand on each side of the
compressor, and that is enough: `parseStringCodecs_eq_ok_iff` gives the chains it takes and what it
keeps of them, and `packs_iff` what was stored in those terms.
-/

namespace CartaZarr

/-! ### Chains of codecs -/

/-- A codec a chain may have. -/
inductive ChainCodec
  | bytes (littleEndian : Bool)
  | transpose
  | crc32c
  | compressor (codec : BytesCodec)
  deriving DecidableEq, Repr

namespace ChainCodec

/-- The codec a member of the chain is, where it is one of these. Bytes are little-endian unless
they are said not to be, and a transpose is of the one axis there is. -/
def of? (codec : Json) : Option ChainCodec :=
  match (codec.get? "name").bind Json.string? with
  | none => none
  | some name =>
    if name = "bytes" then
      some (bytes ((configured codec "endian").bind Json.string? ≠ some "big"))
    else if name = "transpose" then
      if (configured codec "order").any isIdentityOrder then some transpose else none
    else if name = "crc32c" then some crc32c
    else if name = "blosc" then some (compressor .blosc)
    else if name = "gzip" then some (compressor .gzip)
    else if name = "zstd" then some (compressor .zstd)
    else none

def endian? : ChainCodec → Option Bool
  | bytes littleEndian => some littleEndian
  | _ => none

def compressor? : ChainCodec → Option BytesCodec
  | compressor codec => some codec
  | _ => none

end ChainCodec

/-- The bytes and their checksum. -/
def withCrc (data : Bytes) : Bytes := data ++ le32 (Crc.crc 0x82F63B78 data)

/-- What a chain makes of the bytes of a chunk. A stream of a compressor is any that holds what was
compressed. -/
def Packs (holds : BytesCodec → Bytes → Bytes → Prop) : List ChainCodec → Bytes → Bytes → Prop
  | [], data, stored => stored = data
  | .crc32c :: chain, data, stored => Packs holds chain (withCrc data) stored
  | .compressor codec :: chain, data, stored =>
    ∃ stream, holds codec stream data ∧ Packs holds chain stream stored
  | .bytes _ :: chain, data, stored => Packs holds chain data stored
  | .transpose :: chain, data, stored => Packs holds chain data stored

theorem length_withCrc (data : Bytes) : (withCrc data).length = data.length + 4 := by
  simp [withCrc, le32]

theorem crc32c_eq (data : Bytes) : crc32c data = Crc.crc 0x82F63B78 data :=
  (Crc.crc_eq_foldl_table 0x82F63B78 data).symm

/-- The check value of the polynomial, of the digits from 1 to 9. -/
example : crc32c [0x31, 0x32, 0x33, 0x34, 0x35, 0x36, 0x37, 0x38, 0x39] = 0xE3069283 := by
  decide +kernel

/-- A checksum is stripped where it is that of the rest. -/
theorem stripCrc32c_eq_ok_iff {stored data : Bytes} :
    stripCrc32c stored = .ok data ↔ stored = withCrc data := by
  constructor
  · intro h
    unfold stripCrc32c at h
    split at h
    · cases h
    dsimp only at h
    split at h
    · cases h
    rename_i hlen hcrc
    cases h
    rw [not_not, crc32c_eq, readUint32_drop] at hcrc
    rw [withCrc, ← hcrc, le32_readUint32 (by simp; omega), List.take_append_drop]
  · rintro rfl
    have hlen := length_withCrc data
    have htake : (withCrc data).take ((withCrc data).length - 4) = data := by
      rw [hlen, Nat.add_sub_cancel, withCrc, List.take_left]
    have hdrop : (withCrc data).drop ((withCrc data).length - 4) =
        le32 (Crc.crc 0x82F63B78 data) ++ [] := by
      rw [hlen, Nat.add_sub_cancel, withCrc, List.drop_left, List.append_nil]
    rw [stripCrc32c, if_neg (by omega)]
    dsimp only
    rw [htake, readUint32_drop, hdrop, readUint32_le32, crc32c_eq, if_neg (not_not.2 rfl)]

theorem stripAll_eq_ok_iff {n : ℕ} {stored data : Bytes} :
    stripAll n stored = .ok data ↔ stored = withCrc^[n] data := by
  induction n generalizing stored with
  | zero =>
    rw [stripAll]
    constructor
    · rintro ⟨⟩
      rfl
    · rintro rfl
      rfl
  | succ n ih =>
    rw [stripAll, bind_eq_ok_iff, Function.iterate_succ_apply']
    simp only [stripCrc32c_eq_ok_iff, ih]
    constructor
    · rintro ⟨inner, rfl, rfl⟩
      rfl
    · intro h
      exact ⟨_, h, rfl⟩

theorem length_iterate_withCrc (n : ℕ) (data : Bytes) :
    (withCrc^[n] data).length = data.length + 4 * n := by
  induction n with
  | zero => rfl
  | succ n ih => rw [Function.iterate_succ_apply', length_withCrc, ih]; omega

/-- What the reader has to know of a chain. -/
def ChainCodec.info : List ChainCodec → StringCodecInfo
  | [] => {}
  | .crc32c :: chain =>
    { info chain with crcBeforeCompressor := (info chain).crcBeforeCompressor + 1 }
  | .compressor codec :: chain =>
    { info chain with
      bytesCodec := some codec
      crcBeforeCompressor := 0
      crcAfterCompressor := (info chain).crcBeforeCompressor }
  | .bytes littleEndian :: chain => { info chain with littleEndian := littleEndian }
  | .transpose :: chain => info chain

/-- At most one codec gives the byte order, and at most one compresses. -/
structure ChainCodec.Simple (chain : List ChainCodec) : Prop where
  bytes_once : (chain.filterMap endian?).length ≤ 1
  compressor_once : (chain.filterMap compressor?).length ≤ 1

namespace ChainCodec

/-- Without a compressor no checksum comes after it. -/
theorem crcAfterCompressor_eq_zero {chain : List ChainCodec} (h : (info chain).bytesCodec = none) :
    (info chain).crcAfterCompressor = 0 := by
  induction chain with
  | nil => rfl
  | cons codec chain ih =>
    cases codec with
    | compressor c => cases h
    | _ => exact ih h

theorem bytesCodec_eq_none {chain : List ChainCodec} (h : chain.filterMap compressor? = []) :
    (info chain).bytesCodec = none := by
  induction chain with
  | nil => rfl
  | cons codec chain ih =>
    cases codec with
    | compressor c => simp [compressor?] at h
    | _ => exact ih (by simpa [compressor?] using h)

end ChainCodec

/-- What a chain makes of the bytes: checksums, then the compressor if there is one, then the
checksums after it. -/
theorem packs_iff {holds : BytesCodec → Bytes → Bytes → Prop} {chain : List ChainCodec}
    (h : (chain.filterMap ChainCodec.compressor?).length ≤ 1) {data stored : Bytes} :
    Packs holds chain data stored ↔
      match (ChainCodec.info chain).bytesCodec with
      | some codec => ∃ stream,
          holds codec stream (withCrc^[(ChainCodec.info chain).crcBeforeCompressor] data) ∧
            stored = withCrc^[(ChainCodec.info chain).crcAfterCompressor] stream
      | none => stored = withCrc^[(ChainCodec.info chain).crcBeforeCompressor] data := by
  induction chain generalizing data with
  | nil => rfl
  | cons codec chain ih =>
    cases codec with
    | bytes e => exact ih h
    | transpose => exact ih h
    | crc32c => exact ih h
    | compressor c =>
      have hnone : chain.filterMap ChainCodec.compressor? = [] := by
        simpa [ChainCodec.compressor?] using h
      have hrest : ∀ stream, Packs holds chain stream stored ↔
          stored = withCrc^[(ChainCodec.info chain).crcBeforeCompressor] stream := by
        intro stream
        rw [ih (by simp [hnone]), ChainCodec.bytesCodec_eq_none hnone]
      simp only [Packs, ChainCodec.info, hrest]
      rfl

/-! ### Parsing a chain -/

/-- What a codec adds to what is known of a chain. -/
def ChainCodec.take (info : StringCodecInfo) (seenBytes : Bool) :
    ChainCodec → Throws (StringCodecInfo × Bool)
  | bytes littleEndian =>
    if seenBytes then
      fail .unsupportedCodec "String array has multiple bytes codecs in its codec chain"
    else .ok ({ info with littleEndian := littleEndian }, true)
  | transpose => .ok (info, seenBytes)
  | crc32c => .ok (countCrc info, seenBytes)
  | compressor codec => (setBytesCodec info codec).map (·, seenBytes)

theorem parseEndian_eq (codec : Json) {info : StringCodecInfo} (h : info.littleEndian = true) :
    parseEndian codec info =
      { info with littleEndian := (configured codec "endian").bind Json.string? ≠ some "big" } := by
  unfold parseEndian
  split
  · rename_i endian hendian
    simp [hendian, Json.string?]
  · rename_i hother
    have : (configured codec "endian").bind Json.string? ≠ some "big" := by
      intro hbig
      obtain ⟨value, hvalue, hstring⟩ := Option.bind_eq_some_iff.1 hbig
      cases value <;> simp_all [Json.string?]
    simp [this, ← h]

/-- A codec is taken where it is one of the chain's, and refused where it is not. -/
theorem parseStringCodec_eq (codec : Json) {info : StringCodecInfo} {seenBytes : Bool}
    (h : seenBytes = false → info.littleEndian = true) :
    (∃ c, ChainCodec.of? codec = some c ∧ parseStringCodec codec info seenBytes =
      c.take info seenBytes) ∨
    (ChainCodec.of? codec = none ∧ ∃ e, parseStringCodec codec info seenBytes = .error e) := by
  unfold ChainCodec.of? parseStringCodec codecName
  cases hname : codec.get? "name" with
  | none => exact .inr ⟨rfl, _, rfl⟩
  | some value =>
    cases value with
    | string name =>
      simp only [Option.bind_some, Json.string?, ok_bind]
      by_cases hblosc : name = "blosc"
      · exact .inl ⟨.compressor .blosc, by simp [hblosc], by simp [hblosc, ChainCodec.take]⟩
      by_cases hgzip : name = "gzip"
      · exact .inl ⟨.compressor .gzip, by simp [hgzip], by simp [hgzip, ChainCodec.take]⟩
      by_cases hzstd : name = "zstd"
      · exact .inl ⟨.compressor .zstd, by simp [hzstd], by simp [hzstd, ChainCodec.take]⟩
      simp only [if_neg hblosc, if_neg hgzip, if_neg hzstd]
      by_cases hbytes : name = "bytes"
      · refine .inl ⟨_, if_pos hbytes, ?_⟩
        rw [if_pos hbytes, ChainCodec.take]
        cases hseen : seenBytes with
        | true => rfl
        | false => rw [if_neg Bool.false_ne_true, if_neg Bool.false_ne_true,
            parseEndian_eq codec (h hseen)]
      simp only [if_neg hbytes]
      by_cases hcrc : name = "crc32c"
      · exact .inl ⟨.crc32c, by simp [hcrc], by simp [hcrc, ChainCodec.take]⟩
      by_cases htranspose : name = "transpose"
      · by_cases horder : (configured codec "order").any isIdentityOrder
        · exact .inl ⟨.transpose, by simp [htranspose, horder], by
            simp [htranspose, horder, ChainCodec.take]⟩
        · exact .inr ⟨by simp [htranspose, horder], _, by simp [htranspose, horder]; rfl⟩
      · exact .inr ⟨by simp [hcrc, htranspose], _, by rw [if_neg hcrc, if_neg htranspose]; rfl⟩
    | _ => exact .inr ⟨rfl, _, rfl⟩

namespace ChainCodec

/-- What is known after a chain, of what was known before it. -/
def extend (before : StringCodecInfo) (seenBytes : Bool) (chain : List ChainCodec) :
    StringCodecInfo where
  bytesCodec := before.bytesCodec <|> (info chain).bytesCodec
  littleEndian := if seenBytes then before.littleEndian else (info chain).littleEndian
  crcBeforeCompressor :=
    if before.bytesCodec.isSome then before.crcBeforeCompressor
    else before.crcBeforeCompressor + (info chain).crcBeforeCompressor
  crcAfterCompressor :=
    before.crcAfterCompressor +
      if before.bytesCodec.isSome then (info chain).crcBeforeCompressor
      else (info chain).crcAfterCompressor

/-- A chain can follow what was taken: no byte order and no compressor comes twice. -/
@[mk_iff] structure Follows (before : StringCodecInfo) (seenBytes : Bool)
    (chain : List ChainCodec) : Prop where
  bytes_once : (chain.filterMap endian?).length + seenBytes.toNat ≤ 1
  compressor_once : (chain.filterMap compressor?).length + before.bytesCodec.isSome.toNat ≤ 1

/-- Only a codec that is seen alters the byte order. -/
theorem take_littleEndian {c : ChainCodec} {before after : StringCodecInfo} {seen seen' : Bool}
    (h : seen = false → before.littleEndian = true)
    (htake : take before seen c = .ok (after, seen')) :
    seen' = false → after.littleEndian = true := by
  intro hseen
  cases c with
  | bytes e =>
    rw [take] at htake
    split at htake
    · cases htake
    · cases htake
      cases hseen
  | transpose =>
    cases htake
    exact h hseen
  | crc32c =>
    cases htake
    unfold countCrc
    split <;> exact h hseen
  | compressor codec =>
    rw [take, setBytesCodec] at htake
    split at htake
    · cases htake
    · cases htake
      exact h hseen

/-- Take the codecs of a chain, in order. -/
def takeAll : List ChainCodec → StringCodecInfo → Bool → Throws StringCodecInfo
  | [], info, _ => .ok info
  | codec :: chain, info, seenBytes => do
    let (info, seenBytes) ← codec.take info seenBytes
    takeAll chain info seenBytes

theorem takeAll_eq_ok_iff {chain : List ChainCodec} {before after : StringCodecInfo}
    {seenBytes : Bool} (h : seenBytes = false → before.littleEndian = true) :
    takeAll chain before seenBytes = .ok after ↔
      Follows before seenBytes chain ∧ after = extend before seenBytes chain := by
  induction chain generalizing before seenBytes with
  | nil =>
    have hextend : extend before seenBytes [] = before := by
      cases seenBytes with
      | true => cases before; simp [extend, info]
      | false =>
        have := h rfl
        cases before
        simp_all [extend, info]
    have hfollows : Follows before seenBytes [] :=
      ⟨by cases seenBytes <;> simp, by cases before.bytesCodec <;> simp⟩
    simp [hextend, hfollows, takeAll, eq_comm]
  | cons codec chain ih =>
    rw [takeAll]
    cases codec with
    | bytes e =>
      cases seenBytes with
      | true => simp [take, fail, follows_iff, endian?]
      | false =>
        have hextend : extend { before with littleEndian := e } true chain =
            extend before false (bytes e :: chain) := by simp [extend, info]
        rw [take, if_neg Bool.false_ne_true, ok_bind, ih (by simp), hextend]
        simp only [follows_iff, List.filterMap_cons, endian?, compressor?, List.length_cons,
          Bool.toNat_true, Bool.toNat_false, Nat.add_zero]
    | transpose =>
      rw [take, ok_bind, ih h]
      simp only [follows_iff, List.filterMap_cons, endian?, compressor?]
      rfl
    | crc32c =>
      have hextend : extend (countCrc before) seenBytes chain =
          extend before seenBytes (crc32c :: chain) := by
        cases hcodec : before.bytesCodec <;> simp [extend, info, countCrc, hcodec] <;> omega
      have hkept : (countCrc before).bytesCodec = before.bytesCodec ∧
          (countCrc before).littleEndian = before.littleEndian := by
        unfold countCrc
        split <;> exact ⟨rfl, rfl⟩
      rw [take, ok_bind, ih (by rw [hkept.2]; exact h), hextend]
      simp only [follows_iff, List.filterMap_cons, endian?, compressor?, hkept.1]
    | compressor c =>
      cases hcodec : before.bytesCodec with
      | some other => simp [take, setBytesCodec, hcodec, fail, Except.map, follows_iff, compressor?]
      | none =>
        have hset : take before seenBytes (compressor c) =
            .ok ({ before with bytesCodec := some c }, seenBytes) := by
          simp [take, setBytesCodec, hcodec, Except.map]
        have hextend : extend { before with bytesCodec := some c } seenBytes chain =
            extend before seenBytes (compressor c :: chain) := by
          simp [extend, info, hcodec]
        rw [hset, ok_bind]
        dsimp only
        rw [ih (by exact h), hextend]
        simp only [follows_iff, List.filterMap_cons, endian?, compressor?, List.length_cons, hcodec,
          Option.isSome_some, Option.isSome_none, Bool.toNat_true, Bool.toNat_false, Nat.add_zero]

end ChainCodec

/-- A chain is taken as it is where each of its codecs is. -/
theorem parseCodecs_eq_ok_iff {codecs : List Json}
    {before after : StringCodecInfo} {seenBytes : Bool}
    (h : seenBytes = false → before.littleEndian = true) :
    parseCodecs codecs before seenBytes = .ok after ↔
      ∃ chain, codecs.map ChainCodec.of? = chain.map some ∧
        ChainCodec.takeAll chain before seenBytes = .ok after := by
  induction codecs generalizing before seenBytes with
  | nil =>
    constructor
    · intro hok
      exact ⟨[], rfl, hok⟩
    · rintro ⟨_ | _, hchain, hok⟩
      · exact hok
      · cases hchain
  | cons codec codecs ih =>
    rw [parseCodecs]
    constructor
    · intro hok
      obtain ⟨⟨info, seen⟩, hcodec, hrest⟩ := bind_eq_ok_iff.1 hok
      rcases parseStringCodec_eq codec h with ⟨c, hc, heq⟩ | ⟨-, e, he⟩
      · rw [heq] at hcodec
        obtain ⟨chain, hchain, htake⟩ := (ih (ChainCodec.take_littleEndian h hcodec)).1 hrest
        exact ⟨c :: chain, by rw [List.map_cons, List.map_cons, hc, hchain],
          bind_eq_ok_iff.2 ⟨_, hcodec, htake⟩⟩
      · rw [he] at hcodec
        cases hcodec
    · rintro ⟨_ | ⟨c, chain⟩, hchain, hok⟩
      · cases hchain
      · obtain ⟨hc, hcodecs⟩ := List.cons_eq_cons.1 hchain
        obtain ⟨⟨info, seen⟩, hcodec, hrest⟩ := bind_eq_ok_iff.1 hok
        rcases parseStringCodec_eq codec h with ⟨c', hc', heq⟩ | ⟨hnone, -⟩
        · obtain rfl : c' = c := by simpa [hc] using hc'.symm
          rw [heq, bind_eq_ok_iff]
          exact ⟨_, hcodec, (ih (ChainCodec.take_littleEndian h hcodec)).2 ⟨chain, hcodecs, hrest⟩⟩
        · rw [hnone] at hc
          cases hc

/-- The chains that are taken are those of these codecs with at most one byte order and at most one
compressor. -/
theorem parseStringCodecs_eq_ok_iff {codecs : List Json} {info : StringCodecInfo} :
    parseStringCodecs codecs = .ok info ↔
      ∃ chain, codecs.map ChainCodec.of? = chain.map some ∧ ChainCodec.Simple chain ∧
        info = ChainCodec.info chain := by
  have hextend : ∀ chain, ChainCodec.extend {} false chain = ChainCodec.info chain := by
    intro chain
    simp [ChainCodec.extend]
  have hfollows : ∀ chain, ChainCodec.Follows {} false chain ↔ ChainCodec.Simple chain := by
    intro chain
    exact ⟨fun h => ⟨h.1, h.2⟩, fun h => ⟨h.1, h.2⟩⟩
  have htake : ∀ chain, ChainCodec.takeAll chain {} false = .ok info ↔
      ChainCodec.Simple chain ∧ info = ChainCodec.info chain := by
    intro chain
    rw [ChainCodec.takeAll_eq_ok_iff (by simp), hextend, hfollows]
  rw [parseStringCodecs, parseCodecs_eq_ok_iff (by simp)]
  simp only [htake]

end CartaZarr
