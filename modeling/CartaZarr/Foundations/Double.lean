import Mathlib.Data.Int.Log
import Mathlib.Data.Rat.Floor
import Mathlib.Tactic.Linarith
import Mathlib.Tactic.NormNum

/-!
# Rounding to a double

`nearest x` is the double nearest to a rational that is not negative, of two equally near the even
one: 53 significant bits, and no bound on the exponent, for the numbers rounded here are neither
tiny nor huge. It keeps the order (`nearest_mono`), leaves alone what is a double
(`nearest_eq_self`), and a quotient below one of numbers up to `2 ^ 53` stays below one
(`quotient_lt_one`).
-/

namespace CartaZarr.Double

/-- The nearest integer, of two equally near the even one. -/
def roundEven (x : ℚ) : ℤ :=
  if x - ⌊x⌋ < 1 / 2 then ⌊x⌋
  else if 1 / 2 < x - ⌊x⌋ then ⌊x⌋ + 1
  else if ⌊x⌋ % 2 = 0 then ⌊x⌋ else ⌊x⌋ + 1

/-- How far apart the doubles are where `x` lies. -/
def spacing (x : ℚ) : ℚ := 2 ^ (Int.log 2 x - 52)

/-- The nearest double. -/
def nearest (x : ℚ) : ℚ := if x ≤ 0 then 0 else roundEven (x / spacing x) * spacing x

/-- An integer as a double. -/
def ofNat (n : ℕ) : ℚ := nearest n

/-- The quotient of two doubles. -/
def div (x y : ℚ) : ℚ := nearest (x / y)

theorem floor_le_roundEven (x : ℚ) : ⌊x⌋ ≤ roundEven x := by
  unfold roundEven
  split_ifs <;> omega

theorem roundEven_le_floor_add_one (x : ℚ) : roundEven x ≤ ⌊x⌋ + 1 := by
  unfold roundEven
  split_ifs <;> omega

@[simp] theorem roundEven_intCast (n : ℤ) : roundEven n = n := by
  simp [roundEven]

theorem roundEven_mono {x y : ℚ} (h : x ≤ y) : roundEven x ≤ roundEven y := by
  rcases (Int.floor_mono h).lt_or_eq with hlt | heq
  · calc roundEven x ≤ ⌊x⌋ + 1 := roundEven_le_floor_add_one x
      _ ≤ ⌊y⌋ := hlt
      _ ≤ roundEven y := floor_le_roundEven y
  · unfold roundEven
    rw [← heq]
    split_ifs <;> first | omega | linarith

theorem spacing_pos (x : ℚ) : 0 < spacing x := zpow_pos (by norm_num) _

theorem nearest_of_pos {x : ℚ} (h : 0 < x) : nearest x = roundEven (x / spacing x) * spacing x :=
  if_neg (not_le.2 h)

/-- What is a whole number of spacings is a double. -/
theorem nearest_eq_self {x : ℚ} (h : 0 < x) {n : ℤ} (hn : x / spacing x = n) : nearest x = x := by
  rw [nearest_of_pos h, hn, roundEven_intCast, ← hn, div_mul_cancel₀ _ (spacing_pos x).ne']

theorem zpow_eq_mul_spacing (x : ℚ) : (2 : ℚ) ^ Int.log 2 x = ((2 ^ 52 : ℤ) : ℚ) * spacing x := by
  unfold spacing
  rw [zpow_sub₀ (by norm_num)]
  push_cast
  field_simp

/-- Rounding does not leave the binade of a number, but for its end. -/
theorem nearest_bounds {x : ℚ} (h : 0 < x) :
    (2 : ℚ) ^ Int.log 2 x ≤ nearest x ∧ nearest x ≤ 2 ^ (Int.log 2 x + 1) := by
  have hs := spacing_pos x
  rw [nearest_of_pos h, zpow_add_one₀ (by norm_num), zpow_eq_mul_spacing]
  constructor
  · refine mul_le_mul_of_nonneg_right ?_ hs.le
    rw [Int.cast_le, ← roundEven_intCast (2 ^ 52)]
    refine roundEven_mono ?_
    rw [le_div_iff₀ hs, ← zpow_eq_mul_spacing]
    exact Int.zpow_log_le_self (by norm_num) h
  · rw [mul_right_comm]
    refine mul_le_mul_of_nonneg_right ?_ hs.le
    have h53 : ((2 ^ 52 : ℤ) : ℚ) * 2 = ((2 ^ 53 : ℤ) : ℚ) := by norm_num
    rw [h53, Int.cast_le, ← roundEven_intCast (2 ^ 53)]
    refine roundEven_mono ?_
    rw [div_le_iff₀ hs, ← h53, mul_right_comm, ← zpow_eq_mul_spacing, ← zpow_add_one₀ (by norm_num)]
    exact (Int.lt_zpow_succ_log_self (by norm_num) x).le

/-- A number that is positive does not round to zero. -/
theorem nearest_pos {x : ℚ} (h : 0 < x) : 0 < nearest x :=
  lt_of_lt_of_le (zpow_pos (by norm_num) _) (nearest_bounds h).1

/-- **Rounding keeps the order.** -/
theorem nearest_mono {x y : ℚ} (hx : 0 < x) (h : x ≤ y) : nearest x ≤ nearest y := by
  have hy : 0 < y := hx.trans_le h
  rcases (Int.log_mono_right (b := 2) hx h).lt_or_eq with hlt | heq
  · calc nearest x ≤ 2 ^ (Int.log 2 x + 1) := (nearest_bounds hx).2
      _ ≤ 2 ^ Int.log 2 y := zpow_le_zpow_right₀ (by norm_num) hlt
      _ ≤ nearest y := (nearest_bounds hy).1
  · have hs : spacing x = spacing y := by rw [spacing, spacing, heq]
    rw [nearest_of_pos hx, nearest_of_pos hy, hs]
    refine mul_le_mul_of_nonneg_right ?_ (spacing_pos y).le
    rw [Int.cast_le]
    exact roundEven_mono (div_le_div_of_nonneg_right h (spacing_pos y).le)

/-- **Integers up to `2 ^ 53` are doubles.** -/
theorem ofNat_eq {n : ℕ} (h : n ≤ 2 ^ 53) : ofNat n = n := by
  unfold ofNat
  rcases Nat.eq_zero_or_pos n with rfl | hn
  · simp [nearest]
  · have hlog : Int.log 2 (n : ℚ) = Nat.log 2 n := Int.log_natCast 2 n
    rcases h.lt_or_eq with hlt | rfl
    · -- the spacing divides one
      have hle : Nat.log 2 n ≤ 52 := Nat.lt_succ_iff.1 (Nat.log_lt_of_lt_pow hn.ne' hlt)
      refine nearest_eq_self (by exact_mod_cast hn) (n := n * 2 ^ (52 - Nat.log 2 n)) ?_
      rw [spacing, hlog, show ((Nat.log 2 n : ℤ) - 52) = -((52 - Nat.log 2 n : ℕ) : ℤ) by omega,
        zpow_neg, zpow_natCast, div_inv_eq_mul]
      push_cast
      ring
    · refine nearest_eq_self (by norm_num) (n := 2 ^ 52) ?_
      rw [spacing, hlog, Nat.log_pow (by norm_num)]
      norm_num

/-- **A quotient below one stays below one.** -/
theorem quotient_lt_one {a b : ℕ} (h : a < b) (hb : b ≤ 2 ^ 53) : div (ofNat a) (ofNat b) < 1 := by
  rw [div, ofNat_eq (h.le.trans hb), ofNat_eq hb]
  rcases Nat.eq_zero_or_pos a with rfl | ha
  · simp [nearest]
  have hb0 : (0 : ℚ) < b := by exact_mod_cast (ha.trans h)
  have ha0 : (0 : ℚ) < a := by exact_mod_cast ha
  -- the greatest double below one
  have hlog : Int.log 2 (1 - 1 / 2 ^ 53 : ℚ) = -1 := by
    have hpos : (0 : ℚ) < 1 - 1 / 2 ^ 53 := by norm_num
    have h₁ : Int.log 2 (1 - 1 / 2 ^ 53 : ℚ) < 0 :=
      (Int.lt_zpow_iff_log_lt (b := 2) (by norm_num) hpos).1 (by norm_num)
    have h₂ : -1 ≤ Int.log 2 (1 - 1 / 2 ^ 53 : ℚ) :=
      (Int.zpow_le_iff_le_log (b := 2) (by norm_num) hpos).1 (by norm_num)
    omega
  have hpred : nearest (1 - 1 / 2 ^ 53) = 1 - 1 / 2 ^ 53 := by
    refine nearest_eq_self (by norm_num) (n := 2 ^ 53 - 1) ?_
    rw [spacing, hlog]
    norm_num
  have hle : (a : ℚ) / b ≤ 1 - 1 / 2 ^ 53 := by
    rw [div_le_iff₀ hb0]
    have h₁ : (a : ℚ) + 1 ≤ b := by exact_mod_cast h
    have h₂ : (b : ℚ) ≤ 2 ^ 53 := by exact_mod_cast hb
    have h₃ : (b : ℚ) * (1 / 2 ^ 53) ≤ 1 := by
      rw [mul_one_div, div_le_one (by norm_num)]
      exact h₂
    linarith
  calc nearest (a / b) ≤ nearest (1 - 1 / 2 ^ 53) := nearest_mono (by positivity) hle
    _ = 1 - 1 / 2 ^ 53 := hpred
    _ < 1 := by norm_num

end CartaZarr.Double
