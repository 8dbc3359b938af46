import Mathlib.Algebra.GroupWithZero.Nat
import Mathlib.Data.Finset.Basic
import Mathlib.Order.Interval.Finset.Nat

/-!
# Walking an interval in blocks

`walk next total fuel b` are the blocks `[b, next b)`, `[next b, next (next b))`, … of the loop that
goes on from the end of each block while that is below `total`; it is `none` when the loop has not
ended after `fuel` blocks.

A walk is linked (`walk_linked`): each block begins where the one before it ended. When every block
goes forward and stays inside, the walk ends (`walk_tiling`) and its blocks are a `Tiling`:
every number of the interval lies in exactly one of them (`Tiling.mem_iff`, `Tiling.pairwise`), and
what is additive over adjacent blocks adds up to its value on the whole (`Tiling.sum_eq`).
-/

namespace CartaZarr

/-- The blocks of the loop from `b` on. -/
def walk (next : ℕ → ℕ) (total : ℕ) : ℕ → ℕ → Option (List (ℕ × ℕ))
  | 0, b => if b < total then none else some []
  | fuel + 1, b =>
    if b < total then (walk next total fuel (next b)).map ((b, next b) :: ·) else some []

/-- Each block begins where the one before it ended, the first at `b`, and the last ends at `e`. -/
inductive Linked : ℕ → List (ℕ × ℕ) → ℕ → Prop
  | nil (b : ℕ) : Linked b [] b
  | cons {b m e : ℕ} {blocks : List (ℕ × ℕ)} (h : Linked m blocks e) : Linked b ((b, m) :: blocks) e

/-- Nonempty blocks that are linked from `b` to `e`. -/
structure Tiling (b : ℕ) (blocks : List (ℕ × ℕ)) (e : ℕ) : Prop where
  linked : Linked b blocks e
  forward : ∀ x ∈ blocks, x.1 < x.2

section Walk

variable {next : ℕ → ℕ} {total : ℕ}

theorem walk_of_le {b : ℕ} (h : total ≤ b) (fuel : ℕ) : walk next total fuel b = some [] := by
  cases fuel <;> rw [walk, if_neg (by omega)]

theorem walk_succ {b : ℕ} (h : b < total) (fuel : ℕ) :
    walk next total (fuel + 1) b = (walk next total fuel (next b)).map ((b, next b) :: ·) := by
  rw [walk, if_pos h]

/-- A loop that stays below its end never gets there. -/
theorem walk_eq_none {I : ℕ → Prop} (hstep : ∀ b, I b → b < total ∧ I (next b)) (fuel : ℕ) {b : ℕ}
    (hb : I b) : walk next total fuel b = none := by
  induction fuel generalizing b with
  | zero => rw [walk, if_pos (hstep b hb).1]
  | succ fuel ih => rw [walk_succ (hstep b hb).1, ih (hstep b hb).2, Option.map_none]

/-- A walk that ended is linked, and its blocks are the loop's. -/
theorem walk_linked {fuel b : ℕ} {blocks : List (ℕ × ℕ)}
    (h : walk next total fuel b = some blocks) :
    (∃ e, total ≤ e ∧ Linked b blocks e) ∧ ∀ x ∈ blocks, x.1 < total ∧ x.2 = next x.1 := by
  induction fuel generalizing b blocks with
  | zero =>
    by_cases hb : b < total
    · simp [walk, hb] at h
    · rw [walk_of_le (by omega), Option.some.injEq] at h
      subst h
      exact ⟨⟨b, by omega, .nil b⟩, by simp⟩
  | succ fuel ih =>
    by_cases hb : b < total
    · rw [walk_succ hb, Option.map_eq_some_iff] at h
      obtain ⟨rest, hrest, rfl⟩ := h
      obtain ⟨⟨e, he, hl⟩, hall⟩ := ih hrest
      refine ⟨⟨e, he, .cons hl⟩, fun x hx => ?_⟩
      rcases List.mem_cons.1 hx with rfl | hx
      · exact ⟨hb, rfl⟩
      · exact hall x hx
    · rw [walk_of_le (by omega), Option.some.injEq] at h
      subst h
      exact ⟨⟨b, by omega, .nil b⟩, by simp⟩

/-- What holds where a walk begins, and at the end of each block that is not the last when it holds
at its beginning, holds where every block begins. -/
theorem walk_invariant {P : ℕ → Prop} {fuel b : ℕ} {blocks : List (ℕ × ℕ)}
    (h : walk next total fuel b = some blocks) (hb : P b)
    (hstep : ∀ x, x < total → P x → next x < total → P (next x)) : ∀ x ∈ blocks, P x.1 := by
  induction fuel generalizing b blocks with
  | zero =>
    by_cases hlt : b < total
    · simp [walk, hlt] at h
    · rw [walk_of_le (by omega), Option.some.injEq] at h
      simp [← h]
  | succ fuel ih =>
    by_cases hlt : b < total
    · rw [walk_succ hlt, Option.map_eq_some_iff] at h
      obtain ⟨rest, hrest, rfl⟩ := h
      intro x hx
      rcases List.mem_cons.1 hx with rfl | hx
      · exact hb
      · by_cases hn : next b < total
        · exact ih hrest (hstep b hlt hb hn) x hx
        · rw [walk_of_le (by omega), Option.some.injEq] at hrest
          simp [← hrest] at hx
    · rw [walk_of_le (by omega), Option.some.injEq] at h
      simp [← h]

/-- A walk that goes forward ends, also where it may reach past the interval. -/
theorem walk_ends {P : ℕ → Prop} {fuel b : ℕ} (hP : P b)
    (hstep : ∀ x, x < total → P x → x < next x ∧ (next x < total → P (next x)))
    (hfuel : total - b ≤ fuel) : ∃ blocks, walk next total fuel b = some blocks := by
  induction fuel generalizing b with
  | zero => exact ⟨[], walk_of_le (by omega) _⟩
  | succ fuel ih =>
    by_cases hlt : b < total
    · obtain ⟨h₁, h₂⟩ := hstep b hlt hP
      have hrest : ∃ blocks, walk next total fuel (next b) = some blocks := by
        by_cases h : next b < total
        · exact ih (h₂ h) (by omega)
        · exact ⟨[], walk_of_le (by omega) _⟩
      obtain ⟨blocks, hw⟩ := hrest
      exact ⟨(b, next b) :: blocks, by rw [walk_succ hlt, hw, Option.map_some]⟩
    · exact ⟨[], walk_of_le (by omega) _⟩

/-- **A walk that goes forward and stays inside ends, and tiles the interval.** -/
theorem walk_tiling {P : ℕ → Prop} {fuel b : ℕ} (hP : P b) (hb : b ≤ total)
    (hstep : ∀ x, x < total → P x → x < next x ∧ next x ≤ total ∧ (next x < total → P (next x)))
    (hfuel : total - b ≤ fuel) :
    ∃ blocks, walk next total fuel b = some blocks ∧ Tiling b blocks total := by
  induction fuel generalizing b with
  | zero =>
    obtain rfl : b = total := by omega
    exact ⟨[], walk_of_le le_rfl _, .nil b, by simp⟩
  | succ fuel ih =>
    rcases hb.lt_or_eq with hlt | rfl
    · obtain ⟨h₁, h₂, h₃⟩ := hstep b hlt hP
      have hrest : ∃ blocks, walk next total fuel (next b) = some blocks ∧
          Tiling (next b) blocks total := by
        rcases h₂.lt_or_eq with h | h
        · exact ih (h₃ h) h₂ (by omega)
        · exact ⟨[], walk_of_le h.ge _, h ▸ .nil _, by simp⟩
      obtain ⟨blocks, hw, hl, hf⟩ := hrest
      refine ⟨(b, next b) :: blocks, by rw [walk_succ hlt, hw, Option.map_some], .cons hl, ?_⟩
      intro x hx
      rcases List.mem_cons.1 hx with rfl | hx
      · exact h₁
      · exact hf x hx
    · exact ⟨[], walk_of_le le_rfl _, .nil b, by simp⟩

end Walk

/-! ## Cutting into equal pieces -/

/-- The pieces of the loop that cuts `[0, size)` into pieces of `step`, the last one shorter. -/
def cuts (step size : ℕ) : List (ℕ × ℕ) :=
  (walk (fun b => b + min step (size - b)) size size 0).getD []

theorem cuts_tiling {step : ℕ} (hstep : 0 < step) (size : ℕ) :
    walk (fun b => b + min step (size - b)) size size 0 = some (cuts step size) ∧
      Tiling 0 (cuts step size) size ∧ ∀ x ∈ cuts step size, x.2 = x.1 + min step (size - x.1) := by
  have hforward : ∀ b, b < size → True → b < b + min step (size - b) ∧
      b + min step (size - b) ≤ size ∧ (b + min step (size - b) < size → True) := fun b hb _ =>
    ⟨by omega, by omega, fun _ => trivial⟩
  obtain ⟨pieces, hw, ht⟩ := walk_tiling (P := fun _ => True) trivial (Nat.zero_le size) hforward
    (Nat.sub_le size 0)
  have hcuts : cuts step size = pieces := by rw [cuts, hw, Option.getD_some]
  rw [hcuts]
  exact ⟨hw, ht, fun x hx => ((walk_linked hw).2 x hx).2⟩

/-! ## Linked blocks -/

namespace Linked

theorem append_iff {b e : ℕ} {xs ys : List (ℕ × ℕ)} :
    Linked b (xs ++ ys) e ↔ ∃ m, Linked b xs m ∧ Linked m ys e := by
  induction xs generalizing b with
  | nil => exact ⟨fun h => ⟨b, .nil b, h⟩, fun ⟨m, hm, h⟩ => by cases hm; exact h⟩
  | cons x xs ih =>
    constructor
    · rintro (_ | h)
      obtain ⟨m, h₁, h₂⟩ := ih.1 h
      exact ⟨m, .cons h₁, h₂⟩
    · rintro ⟨m, _ | h₁, h₂⟩
      exact .cons (ih.2 ⟨m, h₁, h₂⟩)

end Linked

namespace Tiling

variable {b e : ℕ} {blocks : List (ℕ × ℕ)}

theorem nil (b : ℕ) : Tiling b [] b := ⟨.nil b, by simp⟩

theorem cons {m : ℕ} (hb : b < m) (h : Tiling m blocks e) : Tiling b ((b, m) :: blocks) e :=
  ⟨.cons h.linked, fun x hx => by
    rcases List.mem_cons.1 hx with rfl | hx
    · exact hb
    · exact h.forward x hx⟩

theorem concat {m : ℕ} (h : Tiling b blocks m) (hlt : m < e) : Tiling b (blocks ++ [(m, e)]) e where
  linked := Linked.append_iff.2 ⟨m, h.linked, .cons (.nil e)⟩
  forward x hx := by
    rcases List.mem_append.1 hx with hx | hx
    · exact h.forward x hx
    · rw [List.mem_singleton.1 hx]
      exact hlt

theorem cons_inv {x : ℕ × ℕ} (h : Tiling b (x :: blocks) e) :
    x.1 = b ∧ b < x.2 ∧ Tiling x.2 blocks e := by
  obtain ⟨hl, hf⟩ := h
  cases hl with
  | cons hl => exact ⟨rfl, hf (b, _) (by simp), hl, fun y hy => hf y (by simp [hy])⟩

theorem le (h : Tiling b blocks e) : b ≤ e := by
  induction blocks generalizing b with
  | nil =>
    cases h.linked
    exact le_rfl
  | cons x blocks ih =>
    obtain ⟨-, hlt, ht⟩ := h.cons_inv
    exact hlt.le.trans (ih ht)

/-- The blocks lie between the two ends. -/
theorem bounds (h : Tiling b blocks e) : ∀ x ∈ blocks, b ≤ x.1 ∧ x.1 < x.2 ∧ x.2 ≤ e := by
  induction blocks generalizing b with
  | nil => simp
  | cons y blocks ih =>
    obtain ⟨hy, hlt, ht⟩ := h.cons_inv
    intro x hx
    rcases List.mem_cons.1 hx with rfl | hx
    · exact ⟨hy.ge, by omega, ht.le⟩
    · obtain ⟨h₁, h₂, h₃⟩ := ih ht x hx
      exact ⟨by omega, h₂, h₃⟩

/-- Earlier blocks end before later ones begin. -/
theorem pairwise (h : Tiling b blocks e) : blocks.Pairwise fun x y => x.2 ≤ y.1 := by
  induction blocks generalizing b with
  | nil => exact List.Pairwise.nil
  | cons x blocks ih =>
    obtain ⟨-, -, ht⟩ := h.cons_inv
    exact List.Pairwise.cons (fun y hy => (ht.bounds y hy).1) (ih ht)

/-- The blocks cover the interval. -/
theorem mem_iff (h : Tiling b blocks e) (i : ℕ) :
    (∃ x ∈ blocks, x.1 ≤ i ∧ i < x.2) ↔ b ≤ i ∧ i < e := by
  induction blocks generalizing b with
  | nil =>
    cases h.linked
    simp only [List.not_mem_nil, false_and, exists_false, false_iff]
    omega
  | cons x blocks ih =>
    obtain ⟨hx, hlt, ht⟩ := h.cons_inv
    have hle := ht.le
    simp only [List.mem_cons, exists_eq_or_imp]
    rw [ih ht, hx]
    omega

/-- The numbers of the blocks are those of the interval, in order. -/
theorem flatMap_range' (h : Tiling b blocks e) :
    (blocks.flatMap fun x => List.range' x.1 (x.2 - x.1)) = List.range' b (e - b) := by
  induction blocks generalizing b with
  | nil =>
    cases h.linked
    rw [Nat.sub_self]
    rfl
  | cons x blocks ih =>
    obtain ⟨rfl, hlt, ht⟩ := h.cons_inv
    have hle := ht.le
    rw [List.flatMap_cons, ih ht, show e - x.1 = (x.2 - x.1) + (e - x.2) by omega,
      ← List.range'_append_1,
      show x.1 + (x.2 - x.1) = x.2 by omega]

/-- What is additive over adjacent blocks adds up to its value on the whole. -/
theorem sum_eq {f : ℕ → ℕ → ℕ} (h : Tiling b blocks e) (h0 : f e e = 0)
    (hadd : ∀ x ∈ blocks, f x.1 e = f x.1 x.2 + f x.2 e) :
    (blocks.map fun x => f x.1 x.2).sum = f b e := by
  induction blocks generalizing b with
  | nil =>
    cases h.linked
    simp [h0]
  | cons x blocks ih =>
    obtain ⟨rfl, -, ht⟩ := h.cons_inv
    rw [List.map_cons, List.sum_cons, ih ht fun y hy => hadd y (by simp [hy]),
      hadd x (by simp)]

end Tiling

end CartaZarr
