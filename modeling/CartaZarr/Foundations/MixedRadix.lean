import Mathlib.Algebra.BigOperators.Ring.Finset
import Mathlib.Data.List.GetD
import Mathlib.Tactic.Ring

/-!
# Dense layouts

A dense box with extents `cs`, its first axis fastest, holds the cell with numbers `d 0, d 1, …` at
position `number cs d`; the number of axis `i` at position `k` is `digit cs k i`. A step along axis
`i` moves the position by the product of the extents before it, `(cs.take i).prod`.

`digit_number` and `number_digit` say that the two are inverse. `digit_cut` is about a box whose
axes after `a` have one cell: the positions from `b` steps along `a` on are those of the box whose
extent along `a` is what is left. `advance` goes from one cell to the next, by its numbers alone.
-/

namespace CartaZarr.MixedRadix

/-- The number of axis `i` at position `k`. -/
def digit (cs : List ℕ) (k i : ℕ) : ℕ := k / (cs.take i).prod % cs.getD i 1

/-- The position of the cell with numbers `d`. -/
def number : List ℕ → (ℕ → ℕ) → ℕ
  | [], _ => 0
  | c :: cs, d => d 0 + c * number cs fun i => d (i + 1)

@[simp] theorem digit_cons_zero (c : ℕ) (cs : List ℕ) (k : ℕ) : digit (c :: cs) k 0 = k % c := by
  simp [digit]

@[simp] theorem digit_cons_succ (c : ℕ) (cs : List ℕ) (k i : ℕ) :
    digit (c :: cs) k (i + 1) = digit cs (k / c) i := by
  simp [digit, Nat.div_div_eq_div_mul]

theorem digit_lt {cs : List ℕ} {i : ℕ} (h : 0 < cs.getD i 1) (k : ℕ) : digit cs k i < cs.getD i 1 :=
  Nat.mod_lt _ h

theorem number_lt {cs : List ℕ} {d : ℕ → ℕ} (h : ∀ i < cs.length, d i < cs.getD i 1) :
    number cs d < cs.prod := by
  induction cs generalizing d with
  | nil => simp [number]
  | cons c cs ih =>
    have h0 : d 0 < c := by simpa using h 0 (by simp)
    have ht := ih (d := fun i => d (i + 1)) fun i hi => by simpa using h (i + 1) (by simpa using hi)
    rw [number, List.prod_cons]
    calc d 0 + c * number cs (fun i => d (i + 1))
        < c + c * number cs (fun i => d (i + 1)) := by omega
      _ = c * (number cs (fun i => d (i + 1)) + 1) := by ring
      _ ≤ c * cs.prod := Nat.mul_le_mul_left _ ht

/-- The numbers of a position are those it was made from. -/
theorem digit_number {cs : List ℕ} {d : ℕ → ℕ} (h : ∀ i < cs.length, d i < cs.getD i 1) {i : ℕ}
    (hi : i < cs.length) : digit cs (number cs d) i = d i := by
  induction cs generalizing d i with
  | nil => simp at hi
  | cons c cs ih =>
    have h0 : d 0 < c := by simpa using h 0 (by simp)
    cases i with
    | zero => rw [digit_cons_zero, number, Nat.add_mul_mod_self_left, Nat.mod_eq_of_lt h0]
    | succ i =>
      rw [digit_cons_succ, number, Nat.add_mul_div_left _ _ (by omega), Nat.div_eq_of_lt h0,
        zero_add]
      exact ih (d := fun i => d (i + 1))
        (fun i hi => by simpa using h (i + 1) (by simpa using hi)) (by simpa using hi)

/-- A position is that of its numbers. -/
theorem number_digit {cs : List ℕ} {k : ℕ} (h : k < cs.prod) : number cs (digit cs k) = k := by
  induction cs generalizing k with
  | nil =>
    rw [List.prod_nil] at h
    simp only [number]
    omega
  | cons c cs ih =>
    rw [List.prod_cons] at h
    have hq : k / c < cs.prod := Nat.div_lt_of_lt_mul h
    rw [number]
    simp only [digit_cons_zero, digit_cons_succ]
    rw [ih hq, Nat.mod_add_div]

/-- The position adds up the steps along the axes. -/
theorem number_eq_sum (cs : List ℕ) (d : ℕ → ℕ) :
    number cs d = ∑ i ∈ Finset.range cs.length, d i * (cs.take i).prod := by
  induction cs generalizing d with
  | nil => simp [number]
  | cons c cs ih =>
    rw [number, ih, List.length_cons, Finset.sum_range_succ', Finset.mul_sum]
    simp only [List.take_zero, List.prod_nil, mul_one, List.take_succ_cons, List.prod_cons]
    rw [Nat.add_comm]
    congr 1
    exact Finset.sum_congr rfl fun i _ => by ring

theorem number_congr {cs : List ℕ} {d d' : ℕ → ℕ} (h : ∀ i < cs.length, d i = d' i) :
    number cs d = number cs d' := by
  rw [number_eq_sum, number_eq_sum]
  exact Finset.sum_congr rfl fun i hi => by rw [h i (Finset.mem_range.1 hi)]

/-! ## A box cut along its slowest axis -/

theorem prod_take_dvd (cs : List ℕ) {i a : ℕ} (h : i < a) (ha : a ≤ cs.length) :
    (cs.take i).prod * cs.getD i 1 ∣ (cs.take a).prod := by
  have e : cs.take i ++ [cs.getD i 1] = cs.take (i + 1) := by
    rw [List.take_succ_eq_append_getElem (by omega), List.getD_eq_getElem _ _ (by omega)]
  have hp : (cs.take i).prod * cs.getD i 1 = (cs.take (i + 1)).prod := by
    rw [← e, List.prod_append, List.prod_singleton]
  have ht : cs.take a = cs.take (i + 1) ++ (cs.take a).drop (i + 1) := by
    conv_lhs => rw [← List.take_append_drop (i + 1) (cs.take a), List.take_take,
      min_eq_left (show i + 1 ≤ a from h)]
  rw [hp, ht, List.prod_append]
  exact Dvd.intro _ rfl

/-- **A box cut along its slowest axis.** The positions from `b` steps along axis `a` on have the
numbers of the positions of the rest, with `b` added along `a`. -/
theorem digit_cut {cs : List ℕ} {a b k : ℕ} (ha : a < cs.length)
    (hone : ∀ i, a < i → cs.getD i 1 = 1)
    (hk : b * (cs.take a).prod + k < cs.prod) (hpos : 0 < (cs.take a).prod) (i : ℕ) :
    digit cs (b * (cs.take a).prod + k) i =
      if i = a then b + k / (cs.take a).prod else digit cs k i := by
  rcases lt_trichotomy i a with h | rfl | h
  · rw [if_neg (by omega)]
    obtain ⟨m, hm⟩ := prod_take_dvd cs h ha.le
    have hp : 0 < (cs.take i).prod := by
      rcases Nat.eq_zero_or_pos (cs.take i).prod with h0 | h0
      · rw [hm, h0, zero_mul, zero_mul] at hpos
        omega
      · exact h0
    have e : (b * (cs.take a).prod + k) / (cs.take i).prod =
        k / (cs.take i).prod + cs.getD i 1 * (m * b) := by
      rw [hm, show b * ((cs.take i).prod * cs.getD i 1 * m) + k =
        k + (cs.take i).prod * (cs.getD i 1 * (m * b)) by ring, Nat.add_mul_div_left _ _ hp]
    rw [digit, digit, e, Nat.add_mul_mod_self_left]
  · rw [if_pos rfl, digit, Nat.add_comm, Nat.add_mul_div_right _ _ hpos, Nat.add_comm]
    apply Nat.mod_eq_of_lt
    -- the axes after `a` hold one cell, so the box is the extents up to `a`
    have hprod : cs.prod = (cs.take i).prod * cs.getD i 1 := by
      conv_lhs => rw [← List.take_append_drop (i + 1) cs, List.prod_append,
        List.take_succ_eq_append_getElem ha, List.prod_append, List.prod_singleton,
        ← List.getD_eq_getElem cs 1 ha]
      refine (congrArg _ (List.prod_eq_one ?_)).trans (mul_one _)
      intro x hx
      obtain ⟨j, hj⟩ := List.mem_iff_getElem?.1 hx
      rw [List.getElem?_drop] at hj
      have := hone (i + 1 + j) (by omega)
      rw [List.getD_eq_getElem?_getD, hj] at this
      simpa using this
    have hlt : (b + k / (cs.take i).prod) * (cs.take i).prod < cs.getD i 1 * (cs.take i).prod := by
      have := Nat.div_mul_le_self k (cs.take i).prod
      rw [hprod] at hk
      rw [Nat.add_mul, Nat.mul_comm (cs.getD i 1)]
      omega
    exact Nat.lt_of_mul_lt_mul_right hlt
  · rw [if_neg (by omega), digit, digit, hone i h, Nat.mod_one, Nat.mod_one]

/-! ## Going through the cells -/

/-- The numbers of the cell after this one, the first axis fastest, or nothing after the last. -/
def advance : List ℕ → List ℕ → Option (List ℕ)
  | c :: cs, x :: xs => if x + 1 < c then some ((x + 1) :: xs) else (advance cs xs).map (0 :: ·)
  | _, _ => none

/-- The numbers are those of a cell. -/
abbrev InBox (cs xs : List ℕ) : Prop := List.Forall₂ (· < ·) xs cs

/-- The position of a cell given by the list of its numbers. -/
def position : List ℕ → List ℕ → ℕ
  | c :: cs, x :: xs => x + c * position cs xs
  | _, _ => 0

@[simp] theorem position_replicate_zero (cs : List ℕ) (n : ℕ) :
    position cs (List.replicate n 0) = 0 := by
  induction cs generalizing n with
  | nil => rfl
  | cons c cs ih =>
    cases n with
    | zero => rfl
    | succ n => rw [List.replicate_succ, position, ih, Nat.mul_zero]

theorem InBox.position_lt {cs xs : List ℕ} (h : InBox cs xs) : position cs xs < cs.prod := by
  induction h with
  | nil => simp [position]
  | @cons x c xs cs hx _ ih =>
    rw [position, List.prod_cons]
    calc x + c * position cs xs < c + c * position cs xs := by omega
      _ = c * (position cs xs + 1) := by ring
      _ ≤ c * cs.prod := Nat.mul_le_mul_left _ ih

theorem InBox.position_inj {cs xs ys : List ℕ} (hx : InBox cs xs) (hy : InBox cs ys)
    (h : position cs xs = position cs ys) : xs = ys := by
  induction hx generalizing ys with
  | nil =>
    cases hy
    rfl
  | @cons x c xs cs hx _ ih =>
    cases hy with
    | @cons y _ ys _ hy hys =>
      rw [position, position] at h
      have hmod : (x + c * position cs xs) % c = (y + c * position cs ys) % c := by rw [h]
      rw [Nat.add_mul_mod_self_left, Nat.add_mul_mod_self_left, Nat.mod_eq_of_lt hx,
        Nat.mod_eq_of_lt hy] at hmod
      subst hmod
      have hc : 0 < c := by omega
      rw [ih hys (Nat.eq_of_mul_eq_mul_left hc (by omega))]

/-- The cell after a cell is the next one. -/
theorem advance_some {cs xs ys : List ℕ} (hx : InBox cs xs) (h : advance cs xs = some ys) :
    InBox cs ys ∧ position cs ys = position cs xs + 1 := by
  induction hx generalizing ys with
  | nil => simp [advance] at h
  | @cons x c xs cs hx hxs ih =>
    rw [advance] at h
    split_ifs at h with hlt
    · rw [Option.some.injEq] at h
      subst h
      refine ⟨.cons hlt hxs, ?_⟩
      rw [position, position]
      omega
    · obtain ⟨zs, hz, rfl⟩ := Option.map_eq_some_iff.1 h
      obtain ⟨hbox, hpos⟩ := ih hz
      refine ⟨.cons (by omega) hbox, ?_⟩
      rw [position, position, hpos, Nat.mul_add]
      omega

/-- Nothing comes after the last cell. -/
theorem advance_none {cs xs : List ℕ} (hx : InBox cs xs) (h : advance cs xs = none) :
    position cs xs + 1 = cs.prod := by
  induction hx with
  | nil => simp [position]
  | @cons x c xs cs hx hxs ih =>
    rw [advance] at h
    split_ifs at h with hlt
    rw [Option.map_eq_none_iff] at h
    rw [position, List.prod_cons, ← ih h, Nat.mul_add]
    omega

end CartaZarr.MixedRadix
