import Mathlib.Algebra.Order.Field.Rat
import Mathlib.Data.List.Induction
import Mathlib.Tactic.FieldSimp
import Mathlib.Tactic.Ring

/-!
# Decimal digits

Numbers written in decimal digits, and fractions by the digits after the point.
-/

namespace CartaZarr.Decimal

/-- A byte that is a digit. -/
def isDigit (c : UInt8) : Bool := 48 ≤ c && c ≤ 57

/-- The value of a digit. -/
def digit (c : UInt8) : ℕ := c.toNat - 48

/-- The number that digits spell. -/
def value (digits : List UInt8) : ℕ := digits.foldl (fun value c => value * 10 + digit c) 0

/-- The fraction that digits after a point spell. -/
def fraction (digits : List UInt8) : ℚ := value digits / 10 ^ digits.length

/-- A number in `width` digits, with zeros before it. -/
def spell : ℕ → ℕ → List UInt8
  | 0, _ => []
  | width + 1, n => spell width (n / 10) ++ [UInt8.ofNat (48 + n % 10)]

theorem isDigit_iff {c : UInt8} : isDigit c = true ↔ 48 ≤ c.toNat ∧ c.toNat ≤ 57 := by
  rw [isDigit, Bool.and_eq_true, decide_eq_true_eq, decide_eq_true_eq, UInt8.le_iff_toNat_le,
    UInt8.le_iff_toNat_le]
  rfl

theorem toNat_ofDigit (n : ℕ) : (UInt8.ofNat (48 + n % 10)).toNat = 48 + n % 10 := by
  rw [UInt8.toNat_ofNat']
  exact Nat.mod_eq_of_lt (by omega)

@[simp] theorem spell_length (width n : ℕ) : (spell width n).length = width := by
  induction width generalizing n with
  | zero => rfl
  | succ width ih => simp [spell, ih]

theorem isDigit_of_mem_spell {width n : ℕ} {c : UInt8}
    (h : c ∈ spell width n) : isDigit c = true := by
  induction width generalizing n with
  | zero => cases h
  | succ width ih =>
    rw [spell, List.mem_append, List.mem_singleton] at h
    rcases h with h | rfl
    · exact ih h
    · rw [isDigit_iff, toNat_ofDigit]
      omega

theorem value_concat (digits : List UInt8) (c : UInt8) :
    value (digits ++ [c]) = value digits * 10 + digit c := by
  rw [value, List.foldl_append]
  rfl

theorem value_cons (c : UInt8) (digits : List UInt8) :
    value (c :: digits) = digit c * 10 ^ digits.length + value digits := by
  induction digits using List.reverseRecOn with
  | nil => simp [value]
  | append_singleton digits last ih =>
    rw [← List.cons_append, value_concat, value_concat, ih, List.length_append]
    simp only [List.length_singleton, pow_succ]
    ring

/-- The digits a number is written in spell it. -/
theorem value_spell {width n : ℕ} (h : n < 10 ^ width) : value (spell width n) = n := by
  induction width generalizing n with
  | zero =>
    obtain rfl : n = 0 := by simpa using h
    rfl
  | succ width ih =>
    rw [pow_succ] at h
    rw [spell, value_concat, ih (by omega), digit, toNat_ofDigit]
    omega

/-- Digits are those their number is written in. -/
theorem spell_value {digits : List UInt8} (h : ∀ c ∈ digits, isDigit c = true) :
    value digits < 10 ^ digits.length ∧ spell digits.length (value digits) = digits := by
  induction digits using List.reverseRecOn with
  | nil => exact ⟨by decide, rfl⟩
  | append_singleton digits last ih =>
    obtain ⟨hlt, hspell⟩ := ih fun c hc => h c (by simp [hc])
    have hlast := isDigit_iff.1 (h last (by simp))
    have hdigit : digit last < 10 := by
      rw [digit]
      omega
    rw [value_concat, List.length_append, List.length_singleton, pow_succ]
    refine ⟨by omega, ?_⟩
    have hdiv : (value digits * 10 + digit last) / 10 = value digits := by omega
    have hmod : (value digits * 10 + digit last) % 10 = digit last := by omega
    rw [spell, hdiv, hmod, hspell]
    congr 2
    apply UInt8.toNat_inj.1
    rw [digit, UInt8.toNat_ofNat']
    omega

theorem fraction_cons (c : UInt8) (digits : List UInt8) :
    fraction (c :: digits) = digit c / 10 + fraction digits / 10 := by
  rw [fraction, fraction, value_cons, List.length_cons]
  push_cast
  field_simp
  ring

end CartaZarr.Decimal
