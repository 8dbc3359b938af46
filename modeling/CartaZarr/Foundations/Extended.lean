import Mathlib.Algebra.Order.Ring.Unbundled.Rat
import Mathlib.Data.Rat.Cast.Order
import Mathlib.Data.Sign.Basic
import Mathlib.Tactic.Linarith

/-!
# Numbers with infinities

An `Extended` is what a double stands for when its arithmetic is exact: a number, an infinity, or
not-a-number. The operations are those of floating point, with no rounding and one zero: what is not
defined is not-a-number, and every comparison with that is false.

`min` and `max` are the library's: each gives its first argument where the comparison is false.
Among what is a number or an infinity they are associative, and the infinities are their identities.
-/

namespace CartaZarr

/-- A number, an infinity, or not-a-number. -/
inductive Extended
  | nan
  | negInf
  | finite (x : ℚ)
  | posInf
  deriving DecidableEq, Repr

namespace Extended

instance : Zero Extended := ⟨finite 0⟩

/-- The infinity of a sign. -/
def inf : SignType → Extended
  | .zero => nan
  | .pos => posInf
  | .neg => negInf

/-- The sign of a number, zero for what has none. -/
def sign : Extended → SignType
  | nan => .zero
  | negInf => .neg
  | finite x => SignType.sign x
  | posInf => .pos

def neg : Extended → Extended
  | nan => nan
  | negInf => posInf
  | finite x => finite (-x)
  | posInf => negInf

def add : Extended → Extended → Extended
  | finite x, finite y => finite (x + y)
  | finite _, y => y
  | x, finite _ => x
  | posInf, posInf => posInf
  | negInf, negInf => negInf
  | _, _ => nan

def mul : Extended → Extended → Extended
  | finite x, finite y => finite (x * y)
  | nan, _ => nan
  | _, nan => nan
  | x, y => inf (x.sign * y.sign)

def div : Extended → Extended → Extended
  | finite x, finite y => if y = 0 then inf (SignType.sign x) else finite (x / y)
  | nan, _ => nan
  | _, nan => nan
  | finite _, _ => finite 0
  | x, finite y => inf (x.sign * if y < 0 then .neg else .pos)
  | _, _ => nan

/-- Less than, of numbers and infinities. -/
def lt : Extended → Extended → Bool
  | finite x, finite y => x < y
  | negInf, finite _ => true
  | negInf, posInf => true
  | finite _, posInf => true
  | _, _ => false

instance : Neg Extended := ⟨neg⟩
instance : Add Extended := ⟨add⟩
instance : Sub Extended := ⟨fun x y => x + -y⟩
instance : Mul Extended := ⟨mul⟩
instance : Div Extended := ⟨div⟩
instance : LT Extended := ⟨fun x y => lt x y = true⟩
instance : LE Extended := ⟨fun x y => lt x y = true ∨ x = y ∧ x ≠ nan⟩
instance (x y : Extended) : Decidable (x < y) := inferInstanceAs (Decidable (lt x y = true))
instance (x y : Extended) : Decidable (x ≤ y) :=
  inferInstanceAs (Decidable (lt x y = true ∨ x = y ∧ x ≠ nan))

/-- The second when it is less, else the first. -/
def min (x y : Extended) : Extended := if y < x then y else x

/-- The second when it is greater, else the first. -/
def max (x y : Extended) : Extended := if x < y then y else x

@[simp] theorem finite_add (x y : ℚ) : finite x + finite y = finite (x + y) := rfl

@[simp] theorem finite_sub (x y : ℚ) : finite x - finite y = finite (x - y) := by
  change finite (x + -y) = _
  rw [← sub_eq_add_neg]

@[simp] theorem finite_mul (x y : ℚ) : finite x * finite y = finite (x * y) := rfl

theorem finite_div {x y : ℚ} (h : y ≠ 0) : finite x / finite y = finite (x / y) := if_neg h

@[simp] theorem finite_lt {x y : ℚ} : finite x < finite y ↔ x < y := decide_eq_true_iff

@[simp] theorem finite_le {x y : ℚ} : finite x ≤ finite y ↔ x ≤ y := by
  change decide (x < y) = true ∨ finite x = finite y ∧ finite x ≠ nan ↔ x ≤ y
  rw [decide_eq_true_iff, le_iff_lt_or_eq]
  simp

theorem zero_def : (0 : Extended) = finite 0 := rfl

@[simp] theorem min_finite (x y : ℚ) : min (finite x) (finite y) = finite (Min.min x y) := by
  unfold min
  rcases lt_or_ge y x with h | h
  · rw [if_pos (finite_lt.2 h), min_eq_right h.le]
  · rw [if_neg (mt finite_lt.1 (not_lt.2 h)), min_eq_left h]

@[simp] theorem max_finite (x y : ℚ) : max (finite x) (finite y) = finite (Max.max x y) := by
  unfold max
  rcases lt_or_ge x y with h | h
  · rw [if_pos (finite_lt.2 h), max_eq_right h.le]
  · rw [if_neg (mt finite_lt.1 (not_lt.2 h)), max_eq_left h]

/-- A number or the infinity that is greater than all. -/
def IsLower (x : Extended) : Prop := x = posInf ∨ ∃ q, x = finite q

/-- A number or the infinity that is less than all. -/
def IsUpper (x : Extended) : Prop := x = negInf ∨ ∃ q, x = finite q

namespace IsLower

variable {x y z : Extended}

theorem ne_nan (h : IsLower x) : x ≠ nan := by
  rcases h with rfl | ⟨q, rfl⟩ <;> simp

theorem posInf_min (h : IsLower x) : Extended.min posInf x = x := by
  rcases h with rfl | ⟨q, rfl⟩ <;> rfl

theorem min_posInf (h : IsLower x) : Extended.min x posInf = x := by
  rcases h with rfl | ⟨q, rfl⟩ <;> rfl

theorem closed (hx : IsLower x) (hy : IsLower y) : IsLower (Extended.min x y) := by
  unfold Extended.min
  split
  · exact hy
  · exact hx

theorem assoc (hx : IsLower x) (hy : IsLower y) (hz : IsLower z) :
    Extended.min (Extended.min x y) z = Extended.min x (Extended.min y z) := by
  rcases hx with rfl | ⟨a, rfl⟩
  · rw [hy.posInf_min, (hy.closed hz).posInf_min]
  · rcases hy with rfl | ⟨b, rfl⟩
    · rw [min_posInf (.inr ⟨a, rfl⟩), hz.posInf_min]
    · rcases hz with rfl | ⟨c, rfl⟩
      · rw [min_posInf (.inr ⟨b, rfl⟩), min_finite, min_posInf (.inr ⟨_, rfl⟩)]
      · simp only [min_finite, min_assoc]

end IsLower

namespace IsUpper

variable {x y z : Extended}

theorem ne_nan (h : IsUpper x) : x ≠ nan := by
  rcases h with rfl | ⟨q, rfl⟩ <;> simp

theorem negInf_max (h : IsUpper x) : Extended.max negInf x = x := by
  rcases h with rfl | ⟨q, rfl⟩ <;> rfl

theorem max_negInf (h : IsUpper x) : Extended.max x negInf = x := by
  rcases h with rfl | ⟨q, rfl⟩ <;> rfl

theorem closed (hx : IsUpper x) (hy : IsUpper y) : IsUpper (Extended.max x y) := by
  unfold Extended.max
  split
  · exact hy
  · exact hx

theorem assoc (hx : IsUpper x) (hy : IsUpper y) (hz : IsUpper z) :
    Extended.max (Extended.max x y) z = Extended.max x (Extended.max y z) := by
  rcases hx with rfl | ⟨a, rfl⟩
  · rw [hy.negInf_max, (hy.closed hz).negInf_max]
  · rcases hy with rfl | ⟨b, rfl⟩
    · rw [max_negInf (.inr ⟨a, rfl⟩), hz.negInf_max]
    · rcases hz with rfl | ⟨c, rfl⟩
      · rw [max_negInf (.inr ⟨b, rfl⟩), max_finite, max_negInf (.inr ⟨_, rfl⟩)]
      · simp only [max_finite, max_assoc]

end IsUpper

end Extended

end CartaZarr
