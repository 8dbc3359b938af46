import Mathlib.Algebra.Order.BigOperators.GroupWithZero.List
import Mathlib.Algebra.Order.Floor.Div
import Mathlib.Tactic.Ring

/-!
# Arithmetic of unsigned machine words

The unsigned 64-bit operations of C++, on naturals: every sum, difference and product is taken
modulo `2 ^ 64`. Division, remainder, minimum, maximum and comparison do not leave the range of
their arguments, so they are the ones of `ℕ`.

Each operation comes with the lemma that it is the exact one when nothing wraps. `ofBool` is the
conversion of a truth value to a number, and `ceilQuot` the quotient rounded up without the sum
`a + b - 1` that would wrap.
-/

namespace CartaZarr.Word

/-- Addition of two words. -/
def add (a b : ℕ) : ℕ := (a + b) % 2 ^ 64

/-- Subtraction of two words. -/
def sub (a b : ℕ) : ℕ := (a + 2 ^ 64 - b) % 2 ^ 64

/-- Multiplication of two words. -/
def mul (a b : ℕ) : ℕ := (a * b) % 2 ^ 64

/-- A truth value as a number. -/
def ofBool (b : Bool) : ℕ := if b then 1 else 0

theorem add_lt (a b : ℕ) : add a b < 2 ^ 64 := Nat.mod_lt _ (by norm_num)

theorem mul_lt (a b : ℕ) : mul a b < 2 ^ 64 := Nat.mod_lt _ (by norm_num)

theorem add_eq {a b : ℕ} (h : a + b < 2 ^ 64) : add a b = a + b := Nat.mod_eq_of_lt h

theorem mul_eq {a b : ℕ} (h : a * b < 2 ^ 64) : mul a b = a * b := Nat.mod_eq_of_lt h

theorem sub_eq {a b : ℕ} (h : b ≤ a) (ha : a < 2 ^ 64) : sub a b = a - b := by
  unfold sub
  omega

/-- A difference that wraps is short of the modulus by what it lacks. -/
theorem sub_wrap {a b : ℕ} (hb : b < 2 ^ 64) (h : a < b) : sub a b = 2 ^ 64 - (b - a) := by
  unfold sub
  omega

@[simp] theorem mul_one_right {a : ℕ} (h : a < 2 ^ 64) : mul a 1 = a := by
  rw [mul_eq (by omega), mul_one]

/-- A product taken factor by factor is the exact one when that fits a word. -/
theorem foldl_mul_eq {ι : Type*} {g : ℕ → ι → ℕ} {f : ι → ℕ} {l : List ι}
    (hg : ∀ i ∈ l, ∀ acc < 2 ^ 64, g acc i = mul acc (f i)) (hpos : ∀ i ∈ l, 0 < f i) {a : ℕ}
    (h : a * (l.map f).prod < 2 ^ 64) : l.foldl g a = a * (l.map f).prod := by
  induction l generalizing a with
  | nil => simp
  | cons i l ih =>
    have hg' : ∀ j ∈ l, ∀ acc < 2 ^ 64, g acc j = mul acc (f j) := fun j hj => hg j (by simp [hj])
    have hpos' : ∀ j ∈ l, 0 < f j := fun j hj => hpos j (by simp [hj])
    have hp : 0 < (l.map f).prod := by
      apply List.prod_pos
      intro x hx
      obtain ⟨j, hj, rfl⟩ := List.mem_map.1 hx
      exact hpos' j hj
    rw [List.map_cons, List.prod_cons, ← mul_assoc] at h ⊢
    have hai : a * f i < 2 ^ 64 := lt_of_le_of_lt (Nat.le_mul_of_pos_right _ hp) h
    have ha : a < 2 ^ 64 := lt_of_le_of_lt (Nat.le_mul_of_pos_right _ (hpos i (by simp))) hai
    rw [List.foldl_cons, hg i (by simp) a ha, mul_eq hai, ih hg' hpos' h]

/-- A product taken factor by factor is the exact one but for the modulus. -/
theorem foldl_mul_mod {ι : Type*} {g : ℕ → ι → ℕ} {f : ι → ℕ} {l : List ι}
    (hg : ∀ i ∈ l, ∀ acc, g acc i = acc * f i % 2 ^ 64) (a : ℕ) :
    l.foldl g (a % 2 ^ 64) = a * (l.map f).prod % 2 ^ 64 := by
  induction l generalizing a with
  | nil => simp
  | cons i l ih =>
    rw [List.foldl_cons, hg i (by simp), Nat.mod_mul_mod, ih fun j hj => hg j (by simp [hj]),
      List.map_cons, List.prod_cons, mul_assoc]

/-- The quotient rounded up, as a quotient and a test of the remainder. -/
def ceilQuot (a b : ℕ) : ℕ := add (a / b) (ofBool (a % b ≠ 0))

theorem ceilQuot_eq {a b : ℕ} (ha : a < 2 ^ 64) (hb : 0 < b) : ceilQuot a b = a ⌈/⌉ b := by
  have hdm := Nat.div_add_mod a b
  have hlt := Nat.mod_lt a hb
  have hq : a / b ≤ a := Nat.div_le_self a b
  rw [Nat.ceilDiv_eq_add_pred_div]
  unfold ceilQuot ofBool
  by_cases h : a % b = 0
  · have e : (a + b - 1) / b = a / b := by
      rw [show a + b - 1 = (b - 1) + b * (a / b) by omega, Nat.add_mul_div_left _ _ hb,
        Nat.div_eq_of_lt (by omega), zero_add]
    rw [if_neg (by simpa using h), add_eq (by omega), add_zero, e]
  · have e : (a + b - 1) / b = a / b + 1 := by
      rw [show a + b - 1 = (a % b - 1) + b * (a / b + 1) by rw [mul_add]; omega,
        Nat.add_mul_div_left _ _ hb, Nat.div_eq_of_lt (by omega), zero_add]
    have hb1 : b ≠ 1 := by
      rintro rfl
      exact h (Nat.mod_one a)
    have : a / b < a := Nat.div_lt_self (Nat.pos_of_ne_zero (by rintro rfl; simp at h)) (by omega)
    rw [if_pos (by simpa using h), add_eq (by omega), e]

/-- **A quotient rounded up through a sum** is the exact one exactly when the sum fits a word. -/
theorem ceil_sum_eq_iff {a b : ℕ} (ha : a < 2 ^ 64) (hb : b < 2 ^ 64) (hpos : 0 < b) :
    sub (add a b) 1 / b = a ⌈/⌉ b ↔ a + b ≤ 2 ^ 64 := by
  have hceil : a ⌈/⌉ b = (a + b - 1) / b := Nat.ceilDiv_eq_add_pred_div _ _
  rcases le_or_gt (a + b) (2 ^ 64) with h | h
  · have hsum : sub (add a b) 1 = a + b - 1 := by
      unfold sub add
      omega
    rw [hsum, hceil]
    exact iff_of_true rfl h
  · -- the sum wraps to less than the divisor, and the quotient is one at least
    have hsum : sub (add a b) 1 < b := by
      unfold sub add
      omega
    have hone : 0 < a ⌈/⌉ b := by
      rw [hceil]
      exact Nat.div_pos (by omega) hpos
    rw [Nat.div_eq_of_lt hsum]
    exact iff_of_false (by omega) (by omega)

end CartaZarr.Word
