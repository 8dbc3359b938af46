import CartaZarr.Zarr.StringArray

/-!
# Code points, as they are stored and as they are returned

What the reader makes of the bytes of one element: the numbers it reads are the ones that were
written (`readUint32_codeUnit`), a scalar value is written again as its UTF-8 sequence
(`appendUtf8_char`) and anything else is refused, and an element is its code points up to the first
that is zero (`decodeElement_eq`, `decodePoints_chars`).
-/

namespace CartaZarr

/-- The bytes of a 32-bit number, the lowest first. -/
def le32 (x : UInt32) : Bytes :=
  [x.toUInt8, (x >>> 8).toUInt8, (x >>> 16).toUInt8, (x >>> 24).toUInt8]

theorem readUint32_drop (bytes : Bytes) (offset : ℕ) (little : Bool) :
    readUint32 bytes offset little = readUint32 (bytes.drop offset) 0 little := by
  simp [readUint32]

theorem getLsbD_toUInt8 (x : UInt32) (i : ℕ) :
    x.toUInt8.toUInt32.toBitVec.getLsbD i = (decide (i < 8) && x.toBitVec.getLsbD i) := by
  rw [UInt8.toBitVec_toUInt32, UInt32.toBitVec_toUInt8]
  simp only [BitVec.getLsbD_setWidth]
  grind

theorem bytes_or (x : UInt32) :
    x.toUInt8.toUInt32 ||| ((x >>> 8).toUInt8.toUInt32 <<< 8) |||
      ((x >>> 16).toUInt8.toUInt32 <<< 16) ||| ((x >>> 24).toUInt8.toUInt32 <<< 24) = x := by
  rw [← UInt32.toBitVec_inj]
  apply BitVec.eq_of_getLsbD_eq
  intro i hi
  simp only [UInt32.toBitVec_or, UInt32.toBitVec_shiftLeft, BitVec.getLsbD_or]
  simp [-UInt8.toBitVec_toUInt32, -UInt32.toUInt32_toUInt8, getLsbD_toUInt8]
  grind

theorem readUint32_le32 (x : UInt32) (tail : Bytes) : readUint32 (le32 x ++ tail) 0 true = x := by
  simpa [readUint32, le32] using bytes_or x

theorem readUint32_reverse_le32 (x : UInt32) (tail : Bytes) :
    readUint32 ((le32 x).reverse ++ tail) 0 false = x := by
  simpa [readUint32, le32] using bytes_or x

theorem le32_readUint32 {tail : Bytes} (h : tail.length = 4) :
    le32 (readUint32 tail 0 true) = tail := by
  obtain ⟨a, b, c, d, rfl⟩ : ∃ a b c d, tail = [a, b, c, d] := List.length_eq_four.1 h
  simp only [le32, readUint32, if_true, List.cons.injEq, and_true]
  refine ⟨?_, ?_, ?_, ?_⟩
  all_goals
    rw [← UInt8.toBitVec_inj]
    apply BitVec.eq_of_getLsbD_eq
    intro i hi
  · simp [hi]
  · simp [hi]
    grind
  · simp [hi]
    grind
  · simp [hi]
    grind

/-! ### UTF-8 -/

theorem toNat_tagged {tag bits : UInt32} (k a : ℕ) (htag : tag.toNat = 2 ^ k * a)
    (hbits : bits.toNat < 2 ^ k) : (tagged tag bits).toNat = (bits.toNat + tag.toNat) % 256 := by
  rw [tagged, UInt32.toNat_toUInt8, UInt32.toNat_or, htag, ← Nat.two_pow_add_eq_or_of_lt hbits,
    Nat.add_comm]

/-- A byte of a sequence after the first. -/
theorem tagged_continuation (x : UInt32) :
    tagged 0x80 (x &&& 0x3F) = UInt8.ofNat (x.toNat % 64 + 128) := by
  have hand : (x &&& 0x3F).toNat = x.toNat % 64 := by
    rw [UInt32.toNat_and]
    exact Nat.and_two_pow_sub_one_eq_mod x.toNat 6
  rw [← UInt8.toNat_inj, toNat_tagged 7 1 rfl (by omega), hand]
  rfl

/-- The first byte of a sequence. -/
theorem tagged_lead {tag x : UInt32} (k a : ℕ) (htag : tag.toNat = 2 ^ k * a) (m : ℕ)
    (hm : m ≤ 2 ^ k) (hx : x.toNat < m) : tagged tag x = UInt8.ofNat (x.toNat % m + tag.toNat) := by
  rw [← UInt8.toNat_inj, toNat_tagged k a htag (by omega), Nat.mod_eq_of_lt hx]
  rfl

/-- A code point that UTF-8 has a sequence for. -/
def IsScalar (codePoint : UInt32) : Prop := codePoint.toNat.isValidChar

instance (codePoint : UInt32) : Decidable (IsScalar codePoint) :=
  inferInstanceAs (Decidable (_ ∨ _))

theorem toNat_shiftRight_const (x : UInt32) (k : ℕ) (hk : k < 32) :
    (x >>> UInt32.ofNat k).toNat = x.toNat / 2 ^ k := by
  rw [UInt32.toNat_shiftRight, UInt32.toNat_ofNat', Nat.shiftRight_eq_div_pow]
  congr 2
  omega

/-- What is refused is what is no scalar value. -/
theorem refused_iff (codePoint : UInt32) :
    (codePoint > kUnicodeMax ∨ (codePoint ≥ kSurrogateMin ∧ codePoint ≤ kSurrogateMax)) ↔
      ¬ IsScalar codePoint := by
  have hmax : kUnicodeMax.toNat = 0x10FFFF := rfl
  have hlow : kSurrogateMin.toNat = 0xD800 := rfl
  have hhigh : kSurrogateMax.toNat = 0xDFFF := rfl
  simp only [gt_iff_lt, ge_iff_le, UInt32.lt_iff_toNat_lt,
    UInt32.le_iff_toNat_le, hmax, hlow, hhigh,
    IsScalar, Nat.isValidChar]
  omega

theorem appendUtf8_of_not_isScalar (out : Bytes) {codePoint : UInt32} (h : ¬ IsScalar codePoint) :
    appendUtf8 out codePoint = fail .decodeError "Invalid Unicode code point" :=
  if_pos ((refused_iff codePoint).2 h)

/-- A scalar value is written as its UTF-8 sequence. -/
theorem appendUtf8_char (out : Bytes) (c : Char) :
    appendUtf8 out c.val = .ok (out ++ String.utf8EncodeChar c) := by
  have hvalid : IsScalar c.val := c.valid
  have hlt : c.val.toNat < 0x110000 := by
    rcases hvalid with h | h <;> omega
  have h6 : (c.val >>> 6).toNat = c.val.toNat / 64 := toNat_shiftRight_const c.val 6 (by omega)
  have h12 : (c.val >>> 12).toNat = c.val.toNat / 4096 :=
    toNat_shiftRight_const c.val 12 (by omega)
  have h18 : (c.val >>> 18).toNat = c.val.toNat / 262144 :=
    toNat_shiftRight_const c.val 18 (by omega)
  have e80 : (0x80 : UInt32).toNat = 0x80 := rfl
  have e800 : (0x800 : UInt32).toNat = 0x800 := rfl
  have e10000 : (0x10000 : UInt32).toNat = 0x10000 := rfl
  rw [appendUtf8, if_neg (by rw [refused_iff]; exact not_not.2 hvalid)]
  simp only [UInt32.lt_iff_toNat_lt, e80, e800, e10000, tagged_continuation]
  unfold String.utf8EncodeChar
  by_cases h1 : c.val.toNat < 0x80
  · rw [if_pos h1, if_pos (by omega)]
    rfl
  by_cases h2 : c.val.toNat < 0x800
  · rw [if_neg h1, if_pos h2, if_neg (by omega), if_pos (by omega),
      tagged_lead 6 3 rfl 32 (by decide) (by omega), h6]
    rfl
  by_cases h3 : c.val.toNat < 0x10000
  · rw [if_neg h1, if_neg h2, if_pos h3, if_neg (by omega), if_neg (by omega), if_pos (by omega),
      tagged_lead 5 7 rfl 16 (by decide) (by omega), h6, h12]
    rfl
  · rw [if_neg h1, if_neg h2, if_neg h3, if_neg (by omega), if_neg (by omega), if_neg (by omega),
      tagged_lead 4 15 rfl 8 (by decide) (by omega), h6, h12, h18]
    rfl

theorem appendUtf8_eq_ok_iff (out : Bytes) (codePoint : UInt32) :
    (∃ value, appendUtf8 out codePoint = .ok value) ↔ IsScalar codePoint := by
  constructor
  · rintro ⟨value, h⟩
    by_contra hbad
    rw [appendUtf8_of_not_isScalar out hbad] at h
    cases h
  · intro h
    exact ⟨_, appendUtf8_char out ⟨codePoint, h⟩⟩

/-! ### Elements -/

/-- A code point, in either byte order. -/
def codeUnit (littleEndian : Bool) (codePoint : UInt32) : Bytes :=
  if littleEndian then le32 codePoint else (le32 codePoint).reverse

@[simp] theorem length_codeUnit (littleEndian : Bool) (codePoint : UInt32) :
    (codeUnit littleEndian codePoint).length = 4 := by
  cases littleEndian <;> rfl

theorem readUint32_codeUnit (littleEndian : Bool) (codePoint : UInt32) (tail : Bytes) :
    readUint32 (codeUnit littleEndian codePoint ++ tail) 0 littleEndian = codePoint := by
  cases littleEndian
  · exact readUint32_reverse_le32 codePoint tail
  · exact readUint32_le32 codePoint tail

theorem length_flatMap_of_length {α β : Type} {f : α → List β} {n : ℕ} (xs : List α)
    (h : ∀ x ∈ xs, (f x).length = n) : (xs.flatMap f).length = xs.length * n := by
  rw [List.length_flatMap, List.map_congr_left h]
  simp

/-- What stands at the start of a list of blocks of one length, from one block on. -/
theorem drop_flatMap_of_length {α β : Type} {f : α → List β} {n : ℕ} (xs : List α)
    (h : ∀ x ∈ xs, (f x).length = n) {i : ℕ} (hi : i ≤ xs.length) :
    (xs.flatMap f).drop (i * n) = (xs.drop i).flatMap f := by
  induction i generalizing xs with
  | zero => simp
  | succ i ih =>
    cases xs with
    | nil => simp at hi
    | cons x xs =>
      have hx := h x (by simp)
      rw [List.flatMap_cons, List.drop_succ_cons, ← ih xs (fun y hy => h y (by simp [hy]))
        (by simpa using hi), List.drop_append,
          List.drop_eq_nil_of_le (by rw [hx]; exact Nat.le_mul_of_pos_left n i.succ_pos),
        List.nil_append, hx]
      congr 1
      rw [Nat.succ_mul]
      omega

/-- The code points of the element that starts at an offset. -/
def codePointsAt (bytes : Bytes) (start : ℕ) (littleEndian : Bool) (first n : ℕ) : List UInt32 :=
  (List.range' first n).map fun k => readUint32 bytes (start + k * 4) littleEndian

/-- Code points that were written one after another are read back. -/
theorem codePointsAt_of_drop {bytes : Bytes} {start : ℕ} {littleEndian : Bool}
    {points : List UInt32}
    {tail : Bytes} (h : bytes.drop start = points.flatMap (codeUnit littleEndian) ++ tail) :
    codePointsAt bytes start littleEndian 0 points.length = points := by
  apply List.ext_getElem
  · simp [codePointsAt]
  intro k hk hk'
  have hdrop : bytes.drop (start + k * 4) =
      (points.drop k).flatMap (codeUnit littleEndian) ++ tail := by
    rw [← List.drop_drop, h, List.drop_append_of_le_length,
      drop_flatMap_of_length points (fun x _ => length_codeUnit littleEndian x) hk'.le]
    rw [length_flatMap_of_length points fun x _ => length_codeUnit littleEndian x]
    omega
  simp only [codePointsAt, List.getElem_map, List.getElem_range', Nat.zero_add, Nat.one_mul]
  rw [readUint32_drop, hdrop, List.drop_eq_getElem_cons hk', List.flatMap_cons, List.append_assoc,
    readUint32_codeUnit]

/-- Write code points, up to the first that is zero. -/
def decodePoints : List UInt32 → Bytes → Throws Bytes
  | [], value => .ok value
  | point :: points, value =>
    if point = 0 then .ok value
    else do
      let value ← appendUtf8 value point
      decodePoints points value

theorem decodeElement_eq (bytes : Bytes) (start : ℕ) (littleEndian : Bool) (n codeIndex : ℕ)
    (value : Bytes) (h : start + (codeIndex + n) * 4 ≤ bytes.length) :
    decodeElement bytes start littleEndian n codeIndex value =
      decodePoints (codePointsAt bytes start littleEndian codeIndex n) value := by
  induction n generalizing codeIndex value with
  | zero => rfl
  | succ n ih =>
    rw [decodeElement, codePointsAt, List.range'_succ, List.map_cons, decodePoints]
    dsimp only
    rw [if_neg (by omega)]
    split
    · rfl
    · congr 1
      funext value
      exact ih (codeIndex + 1) value (by omega)

theorem decodePoints_chars (cs : List Char) (hcs : ∀ c ∈ cs, c.val ≠ 0) (k : ℕ) (value : Bytes) :
    decodePoints (cs.map Char.val ++ List.replicate k 0) value =
      .ok (value ++ cs.flatMap String.utf8EncodeChar) := by
  induction cs generalizing value with
  | nil => cases k <;> simp [decodePoints, List.replicate_succ]
  | cons c cs ih =>
    rw [List.map_cons, List.cons_append, decodePoints, if_neg (hcs c (by simp)), appendUtf8_char,
      ok_bind, ih fun c' hc' => hcs c' (by simp [hc'])]
    simp

/-- Where code points are written, none before the first zero is refused. -/
theorem isScalar_of_decodePoints {points : List UInt32} {value out : Bytes}
    (h : decodePoints points value = .ok out) :
    ∀ p ∈ points.takeWhile (· ≠ 0), IsScalar p := by
  induction points generalizing value with
  | nil => simp
  | cons point points ih =>
    rw [decodePoints] at h
    by_cases hzero : point = 0
    · simp [hzero]
    · rw [if_neg hzero, bind_eq_ok_iff] at h
      obtain ⟨value', happend, hrest⟩ := h
      rw [List.takeWhile_cons_of_pos (by simpa using hzero)]
      intro p hp
      rcases List.mem_cons.1 hp with rfl | hp
      · exact (appendUtf8_eq_ok_iff value p).1 ⟨value', happend⟩
      · exact ih hrest p hp

end CartaZarr
