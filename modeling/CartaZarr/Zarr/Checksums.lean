import CartaZarr.Zarr.StringCodecs

/-!
# Checksums of a chunk

A checksum follows what it is the checksum of, and `stripCrc32cSize` gives the size of the rest: the
buffer stays as it is, whatever it holds behind. The strings are decoded from the bytes before the
last checksum stripped, and `stripAll_eq_map` is that. The table gives the check of the message a
bit at a time, so a checksum is accepted where a writer would have put it and nowhere else
(`crc32c_strips`).
-/

namespace CartaZarr

/-- The size of the first `size` bytes of a buffer without the checksum they end in. -/
def stripCrc32cSize (data : Bytes) (size : ℕ) : Throws ℕ :=
  if size < 4 then
    fail .decodeError "String array chunk is too small to contain a CRC32C checksum"
  else
    let payloadSize := size - 4
    let stored := readUint32 data payloadSize true
    let computed := crc32c (data.take payloadSize)
    if stored ≠ computed then
      fail .decodeError "String array CRC32C checksum mismatch"
    else .ok payloadSize

/-- The size without a number of checksums. -/
def stripSizes (data : Bytes) : ℕ → ℕ → Throws ℕ
  | 0, size => .ok size
  | count + 1, size => do
    let size ← stripCrc32cSize data size
    stripSizes data count size

/-! ## The bytes before the checksum -/

theorem readUint32_append {data : Bytes} {offset : ℕ} (h : offset + 4 ≤ data.length) (tail : Bytes)
    (littleEndian : Bool) :
    readUint32 (data ++ tail) offset littleEndian = readUint32 data offset littleEndian := by
  have hget : ∀ i < 4, (data ++ tail).getD (offset + i) 0 = data.getD (offset + i) 0 :=
    fun i hi => List.getD_append _ _ _ _ (by omega)
  simp only [readUint32, hget 0 (by decide), hget 1 (by decide), hget 2 (by decide),
    hget 3 (by decide)]

theorem stripCrc32cSize_le {data : Bytes} {size n : ℕ} (h : stripCrc32cSize data size = .ok n) :
    n ≤ size := by
  unfold stripCrc32cSize at h
  dsimp only at h
  split_ifs at h
  · cases h
  · cases h
  · cases h
    exact Nat.sub_le _ _

theorem stripSizes_le {data : Bytes} {k size n : ℕ} (h : stripSizes data k size = .ok n) :
    n ≤ size := by
  induction k generalizing size with
  | zero =>
    cases h
    exact le_rfl
  | succ k ih =>
    rw [stripSizes, bind_eq_ok_iff] at h
    obtain ⟨inner, hinner, h⟩ := h
    exact (ih h).trans (stripCrc32cSize_le hinner)

/-- The bytes left of the first ones of a buffer are those before their checksum. -/
theorem stripCrc32c_eq_map (data tail : Bytes) :
    stripCrc32c data = (stripCrc32cSize (data ++ tail) data.length).map data.take := by
  unfold stripCrc32c stripCrc32cSize
  by_cases hlen : data.length < 4
  · rw [if_pos hlen, if_pos hlen]
    rfl
  rw [if_neg hlen, if_neg hlen]
  dsimp only
  rw [List.take_append_of_le_length (Nat.sub_le _ _), readUint32_append (by omega)]
  split_ifs
  · rfl
  · rfl

/-- The same for a number of checksums. -/
theorem stripAll_eq_map (k : ℕ) (data tail : Bytes) :
    stripAll k data = (stripSizes (data ++ tail) k data.length).map data.take := by
  induction k generalizing data tail with
  | zero => exact congrArg Except.ok (List.take_length).symm
  | succ k ih =>
    rw [stripAll, stripSizes, stripCrc32c_eq_map data tail]
    cases h : stripCrc32cSize (data ++ tail) data.length with
    | error e => rfl
    | ok size =>
      have hsize := stripCrc32cSize_le h
      have hlen : (data.take size).length = size := by simp [hsize]
      have hbuffer : data.take size ++ (data.drop size ++ tail) = data ++ tail := by
        rw [← List.append_assoc, List.take_append_drop]
      change stripAll k (data.take size) = (stripSizes (data ++ tail) k size).map data.take
      rw [ih (data.take size) (data.drop size ++ tail), hbuffer, hlen]
      cases hrest : stripSizes (data ++ tail) k size with
      | error e => rfl
      | ok n =>
        have hn : n ≤ size := stripSizes_le hrest
        have htake : (data.take size).take n = data.take n := by
          rw [List.take_take, min_eq_left hn]
        exact congrArg Except.ok htake

/-- A number of checksums are stripped where they were put behind what is left. -/
theorem stripSizes_eq_ok_iff {data tail : Bytes} {k n : ℕ} :
    stripSizes (data ++ tail) k data.length = .ok n ↔
      ∃ payload, data = withCrc^[k] payload ∧ n = payload.length := by
  have hmap : ∀ payload, (stripSizes (data ++ tail) k data.length).map data.take = .ok payload ↔
      data = withCrc^[k] payload := fun payload => by
    rw [← stripAll_eq_map, stripAll_eq_ok_iff]
  constructor
  · intro h
    have hn := stripSizes_le h
    rw [h] at hmap
    exact ⟨data.take n, (hmap _).1 rfl, by simp [hn]⟩
  · rintro ⟨payload, hpayload, rfl⟩
    have hrun := (hmap payload).2 hpayload
    cases hsizes : stripSizes (data ++ tail) k data.length with
    | error e =>
      rw [hsizes] at hrun
      cases hrun
    | ok n =>
      have hn := stripSizes_le hsizes
      rw [hsizes] at hrun
      have htake : data.take n = payload := Except.ok.inj hrun
      rw [← htake, List.length_take, min_eq_left hn]

/-- **Checksums are stripped where a writer puts them.** The table gives the check of the message
taken a bit at a time. Bytes are accepted when they end in the checksum of the rest, whose size is
the answer, and `k` checksums are stripped where they were put behind one another. -/
theorem crc32c_strips (data tail : Bytes) :
    crc32c data = Crc.serial 0x82F63B78 data ∧
    (∀ n, stripCrc32cSize (data ++ tail) data.length = .ok n ↔
      ∃ payload, data = payload ++ le32 (Crc.serial 0x82F63B78 payload) ∧ n = payload.length) ∧
    ∀ k, stripSizes (withCrc^[k] data ++ tail) k (withCrc^[k] data).length = .ok data.length ∧
      ∀ n, stripSizes (data ++ tail) k data.length = .ok n ↔
        ∃ payload, data = withCrc^[k] payload ∧ n = payload.length := by
  refine ⟨?_, fun n => ?_, fun k => ⟨?_, fun n => stripSizes_eq_ok_iff⟩⟩
  · rw [crc32c_eq, Crc.crc_eq_serial]
  · have hone : stripSizes (data ++ tail) 1 data.length =
        stripCrc32cSize (data ++ tail) data.length := by
      change stripCrc32cSize (data ++ tail) data.length >>= Except.ok = _
      exact bind_pure _
    rw [← hone, stripSizes_eq_ok_iff]
    simp only [Function.iterate_one, withCrc, Crc.crc_eq_serial]
  · exact stripSizes_eq_ok_iff.2 ⟨data, rfl, rfl⟩

end CartaZarr
