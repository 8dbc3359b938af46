import Mathlib.Algebra.Group.Nat.Defs
import Mathlib.Tactic.Common
import Mathlib.Logic.Function.Iterate

/-!
# Cyclic redundancy checks

`crc poly` is the 32-bit check with the bits of a byte taken lowest first: each bit divides by the
polynomial, one `shift` at a time. A program computes it a byte at a time from a table of what eight
shifts make of each byte; `shift` distributes over `^^^`, so the table gives the same
(`crc_eq_foldl_table`), and so does taking the message one bit at a time (`crc_eq_serial`).
-/

namespace CartaZarr.Crc

variable (poly : UInt32)

/-- Divide by the polynomial, for one bit. -/
def shift (crc : UInt32) : UInt32 := if crc &&& 1 = 1 then (crc >>> 1) ^^^ poly else crc >>> 1

/-- The register after one byte more. -/
def update (crc : UInt32) (byte : UInt8) : UInt32 := (shift poly)^[8] (crc ^^^ byte.toUInt32)

/-- The bits of a byte, the lowest first. -/
def bits (byte : UInt8) : List Bool := (List.range 8).map byte.toBitVec.getLsbD

/-- The register after one bit more. -/
def feed (crc : UInt32) (bit : Bool) : UInt32 := shift poly (crc ^^^ if bit then 1 else 0)

/-- The check of a sequence of bytes. -/
def crc (data : List UInt8) : UInt32 := data.foldl (update poly) 0xFFFFFFFF ^^^ 0xFFFFFFFF

/-- The check of a sequence of bytes, one bit at a time. -/
def serial (data : List UInt8) : UInt32 :=
  (data.flatMap bits).foldl (feed poly) 0xFFFFFFFF ^^^ 0xFFFFFFFF

/-- What eight shifts make of each byte. -/
def table : List UInt32 := (List.range 256).map fun index => (shift poly)^[8] (UInt32.ofNat index)

/-- The register after one byte more, from the table. -/
def lookup (crc : UInt32) (byte : UInt8) : UInt32 :=
  (table poly).getD ((crc ^^^ byte.toUInt32) &&& 0xFF).toNat 0 ^^^ (crc >>> 8)

theorem and_one_eq_one_iff (x : UInt32) : x &&& 1 = 1 ↔ x.toBitVec[0] = true := by
  rw [← UInt32.toBitVec_inj]
  constructor
  · intro h
    have := congrArg (fun v : BitVec 32 => v.getLsbD 0) h
    simpa using this
  · intro h
    ext i hi
    rcases Nat.eq_zero_or_pos i with rfl | hpos
    · simp [h]
    · simp; omega

theorem shift_xor (a b : UInt32) : shift poly (a ^^^ b) = shift poly a ^^^ shift poly b := by
  have hbit : (a ^^^ b).toBitVec[0] = (a.toBitVec[0] ^^ b.toBitVec[0]) := by simp
  unfold shift
  simp only [and_one_eq_one_iff, hbit]
  cases ha : a.toBitVec[0] <;> cases hb : b.toBitVec[0]
  all_goals
    rw [← UInt32.toBitVec_inj]
    ext i hi
    simp
    try grind

theorem iterate_shift_xor (n : ℕ) (a b : UInt32) :
    (shift poly)^[n] (a ^^^ b) = (shift poly)^[n] a ^^^ (shift poly)^[n] b := by
  induction n generalizing a b with
  | zero => rfl
  | succ n ih => rw [Function.iterate_succ_apply, shift_xor, ih, ← Function.iterate_succ_apply,
      ← Function.iterate_succ_apply]

theorem iterate_shift_zero (n : ℕ) : (shift poly)^[n] 0 = 0 :=
  Function.iterate_fixed (by simp [shift]) n

theorem shift_of_even {x : UInt32} (h : x.toBitVec.getLsbD 0 = false) : shift poly x = x >>> 1 := by
  have : x.toBitVec[0] = false := by simpa using h
  rw [shift, if_neg]
  simp [and_one_eq_one_iff, this]

/-- Shifting out bits that are not set only shifts. -/
theorem iterate_shift_of_low_zero (n : ℕ) (x : UInt32)
    (h : ∀ i < n, x.toBitVec.getLsbD i = false) (i : ℕ) :
    ((shift poly)^[n] x).toBitVec.getLsbD i = x.toBitVec.getLsbD (n + i) := by
  induction n generalizing x i with
  | zero => simp
  | succ n ih =>
    have hx : ∀ j, (x >>> 1).toBitVec.getLsbD j = x.toBitVec.getLsbD (j + 1) := by
      intro j
      simp [Nat.add_comm]
    rw [Function.iterate_succ_apply, shift_of_even poly (h 0 (Nat.succ_pos n)), ih, hx]
    · congr 1
      omega
    · intro j hj
      rw [hx]
      exact h (j + 1) (by omega)

theorem getLsbD_and_byte (x : UInt32) (i : ℕ) :
    (x &&& 0xFF).toBitVec.getLsbD i = (decide (i < 8) && x.toBitVec.getLsbD i) := by
  have hmask : (0xFF : UInt32).toBitVec.getLsbD i = (decide (i < 32) && decide (i < 8)) := by
    have : (0xFF : UInt32).toBitVec = BitVec.ofNat 32 (2 ^ 8 - 1) := rfl
    rw [this, BitVec.getLsbD_ofNat, Nat.testBit_two_pow_sub_one]
  rw [UInt32.toBitVec_and, BitVec.getLsbD_and, hmask]
  grind

theorem getLsbD_above_byte (x : UInt32) (i : ℕ) :
    (x >>> 8 <<< 8).toBitVec.getLsbD i = (!decide (i < 8) && x.toBitVec.getLsbD i) := by
  simp
  grind

/-- What eight shifts make of a register, from what they make of its lowest byte. -/
theorem iterate_shift_eight (x : UInt32) :
    (shift poly)^[8] x = (shift poly)^[8] (x &&& 0xFF) ^^^ (x >>> 8) := by
  have hsplit : x = (x &&& (0xFF : UInt32)) ^^^ (x >>> 8 <<< 8) := by
    rw [← UInt32.toBitVec_inj]
    apply BitVec.eq_of_getLsbD_eq
    intro i hi
    rw [UInt32.toBitVec_xor, BitVec.getLsbD_xor, getLsbD_and_byte, getLsbD_above_byte]
    grind
  have hhigh : (shift poly)^[8] (x >>> 8 <<< 8) = x >>> 8 := by
    rw [← UInt32.toBitVec_inj]
    apply BitVec.eq_of_getLsbD_eq
    intro i hi
    rw [iterate_shift_of_low_zero, getLsbD_above_byte]
    · simp
    · intro j hj
      rw [getLsbD_above_byte]
      simp [hj]
  conv_lhs => rw [hsplit, iterate_shift_xor, hhigh]

theorem table_getD {n : ℕ} (h : n < 256) :
    (table poly).getD n 0 = (shift poly)^[8] (UInt32.ofNat n) := by
  rw [table, List.getD_eq_getElem?_getD, List.getElem?_map, List.getElem?_range h]
  rfl

/-- A byte alters the lowest byte of the register only. -/
theorem xor_byte_shiftRight (crc : UInt32) (byte : UInt8) :
    (crc ^^^ byte.toUInt32) >>> 8 = crc >>> 8 := by
  rw [← UInt32.toBitVec_inj]
  apply BitVec.eq_of_getLsbD_eq
  intro i hi
  simp

theorem lookup_eq_update : lookup poly = update poly := by
  funext crc byte
  have hlt : ((crc ^^^ byte.toUInt32) &&& 0xFF).toNat < 256 := by
    rw [UInt32.toNat_and]
    exact Nat.lt_of_le_of_lt Nat.and_le_right (by decide)
  rw [lookup, table_getD poly hlt, UInt32.ofNat_toNat, update,
    iterate_shift_eight poly (crc ^^^ byte.toUInt32), xor_byte_shiftRight]

/-- The check, a byte at a time from the table. -/
theorem crc_eq_foldl_table (data : List UInt8) :
    crc poly data = data.foldl (lookup poly) 0xFFFFFFFF ^^^ 0xFFFFFFFF := by
  rw [lookup_eq_update, crc]

/-! ## One bit at a time -/

theorem getLsbD_two_pow {n : ℕ} (hn : n < 32) (i : ℕ) :
    (UInt32.ofNat (2 ^ n)).toBitVec.getLsbD i = decide (i = n) := by
  rw [UInt32.toBitVec_ofNat', BitVec.getLsbD_ofNat, Nat.testBit_two_pow]
  by_cases hi : n = i
  · simp [hi.symm, hn]
  · simp [hi, Ne.symm hi]

/-- A bit that `n` shifts bring to the end of the register. -/
theorem iterate_shift_bit {n : ℕ} (hn : n < 32) :
    (shift poly)^[n] (UInt32.ofNat (2 ^ n)) = 1 := by
  rw [← UInt32.toBitVec_inj]
  apply BitVec.eq_of_getLsbD_eq
  intro i hi
  rw [iterate_shift_of_low_zero]
  · rw [getLsbD_two_pow hn]
    rcases Nat.eq_zero_or_pos i with rfl | hpos
    · simp
    · have : (1 : UInt32).toBitVec.getLsbD i = false := by simp; omega
      rw [this]
      simp
      omega
  · intro j hj
    rw [getLsbD_two_pow hn]
    simp
    omega

/-- The lowest `n` bits of a byte. -/
def lowBits (byte : UInt8) (n : ℕ) : UInt32 := UInt32.ofNat (byte.toNat % 2 ^ n)

theorem getLsbD_lowBits (byte : UInt8) (n : ℕ) {i : ℕ} (hi : i < 32) :
    (lowBits byte n).toBitVec.getLsbD i = (decide (i < n) && byte.toBitVec.getLsbD i) := by
  rw [lowBits, UInt32.toBitVec_ofNat', BitVec.getLsbD_ofNat, Nat.testBit_mod_two_pow,
    ← UInt8.toNat_toBitVec, BitVec.testBit_toNat]
  simp [hi]

theorem lowBits_succ (byte : UInt8) {n : ℕ} (hn : n < 8) :
    lowBits byte (n + 1) =
      lowBits byte n ^^^ if byte.toBitVec.getLsbD n then UInt32.ofNat (2 ^ n) else 0 := by
  rw [← UInt32.toBitVec_inj]
  apply BitVec.eq_of_getLsbD_eq
  intro i hi
  rw [UInt32.toBitVec_xor, BitVec.getLsbD_xor, getLsbD_lowBits byte _ hi, getLsbD_lowBits byte _ hi]
  by_cases hin : i = n
  · subst hin
    cases byte.toBitVec.getLsbD i <;> simp [getLsbD_two_pow hi]
  · have hzero : (if byte.toBitVec.getLsbD n then UInt32.ofNat (2 ^ n) else 0).toBitVec.getLsbD i =
        false := by
      split
      · rw [getLsbD_two_pow (by omega), decide_eq_false hin]
      · simp
    have hlt : decide (i < n + 1) = decide (i < n) := decide_eq_decide.2 (by omega)
    rw [hzero, Bool.xor_false, hlt]

/-- The register after the first `n` bits of a byte. -/
theorem foldl_feed_range (crc : UInt32) (byte : UInt8) {n : ℕ} (hn : n ≤ 8) :
    ((List.range n).map byte.toBitVec.getLsbD).foldl (feed poly) crc =
      (shift poly)^[n] (crc ^^^ lowBits byte n) := by
  induction n with
  | zero => simp [lowBits, Nat.mod_one]
  | succ n ih =>
    have hbit : (shift poly)^[n] (if byte.toBitVec.getLsbD n then UInt32.ofNat (2 ^ n) else 0) =
        if byte.toBitVec.getLsbD n then 1 else 0 := by
      split
      · exact iterate_shift_bit poly (by omega)
      · exact iterate_shift_zero poly n
    rw [List.range_succ, List.map_append, List.foldl_append, ih (by omega), lowBits_succ byte hn,
      ← UInt32.xor_assoc, Function.iterate_succ_apply',
      iterate_shift_xor poly n (_ ^^^ _) (ite ..), hbit]
    rfl

theorem foldl_feed_bits (crc : UInt32) (byte : UInt8) :
    (bits byte).foldl (feed poly) crc = update poly crc byte := by
  have hlow : lowBits byte 8 = byte.toUInt32 := by
    have hlt : byte.toNat < 2 ^ 8 := byte.toNat_lt
    rw [lowBits, Nat.mod_eq_of_lt hlt, ← UInt8.toNat_toUInt32, UInt32.ofNat_toNat]
  rw [bits, foldl_feed_range poly crc byte (Nat.le_refl 8), hlow, update]

/-- The check, a bit at a time. -/
theorem crc_eq_serial (data : List UInt8) : crc poly data = serial poly data := by
  have hfold : ∀ register, (data.flatMap bits).foldl (feed poly) register =
      data.foldl (update poly) register := by
    induction data with
    | nil => exact fun _ => rfl
    | cons byte data ih =>
      intro register
      rw [List.flatMap_cons, List.foldl_append, foldl_feed_bits, ih, List.foldl_cons]
  rw [serial, hfold, crc]

end CartaZarr.Crc
