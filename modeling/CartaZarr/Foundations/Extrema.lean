import Mathlib.Data.Finset.Max
import Mathlib.Data.Multiset.Lattice
import Mathlib.Order.WithBot
import CartaZarr.Foundations.Extended

/-!
# The extrema of a collection

The least and the greatest number of a collection, kept as loops over it keep them: the infinity
that is an identity as long as there is nothing, and a number from the first one on. Those of two
collections are put together by `min` and `max` (`least_add`, `greatest_add`).
-/

namespace CartaZarr.Extended

/-- A number, or what is above them all. -/
def ofTop : WithTop ℚ → Extended
  | ⊤ => posInf
  | (x : ℚ) => finite x

/-- A number, or what is below them all. -/
def ofBot : WithBot ℚ → Extended
  | ⊥ => negInf
  | (x : ℚ) => finite x

/-- The least number of a collection. -/
def least (s : Multiset ℚ) : Extended := ofTop (s.map (fun x : ℚ => (x : WithTop ℚ))).inf

/-- The greatest number of a collection. -/
def greatest (s : Multiset ℚ) : Extended := ofBot (s.map (fun x : ℚ => (x : WithBot ℚ))).sup

theorem ofTop_inf : ∀ x y : WithTop ℚ, ofTop (x ⊓ y) = Extended.min (ofTop x) (ofTop y)
  | ⊤, ⊤ => rfl
  | ⊤, (_ : ℚ) => rfl
  | (_ : ℚ), ⊤ => rfl
  | (x : ℚ), (y : ℚ) => (min_finite x y).symm

theorem ofBot_sup : ∀ x y : WithBot ℚ, ofBot (x ⊔ y) = Extended.max (ofBot x) (ofBot y)
  | ⊥, ⊥ => rfl
  | ⊥, (_ : ℚ) => rfl
  | (_ : ℚ), ⊥ => rfl
  | (x : ℚ), (y : ℚ) => (max_finite x y).symm

@[simp] theorem least_zero : least 0 = posInf := rfl

@[simp] theorem greatest_zero : greatest 0 = negInf := rfl

@[simp] theorem least_singleton (x : ℚ) : least {x} = finite x := by
  rw [least, Multiset.map_singleton, Multiset.inf_singleton]
  rfl

@[simp] theorem greatest_singleton (x : ℚ) : greatest {x} = finite x := by
  rw [greatest, Multiset.map_singleton, Multiset.sup_singleton]
  rfl

/-- **The least of two collections together** is the less of theirs. -/
theorem least_add (s t : Multiset ℚ) : least (s + t) = Extended.min (least s) (least t) := by
  rw [least, Multiset.map_add, Multiset.inf_add, ofTop_inf, least, least]

/-- **The greatest of two collections together** is the greater of theirs. -/
theorem greatest_add (s t : Multiset ℚ) :
    greatest (s + t) = Extended.max (greatest s) (greatest t) := by
  rw [greatest, Multiset.map_add, Multiset.sup_add, ofBot_sup, greatest, greatest]

/-- A number of the collection that is at most every other is its least. -/
theorem least_of_isLeast {s : Multiset ℚ} {m : ℚ}
    (h : IsLeast {v | v ∈ s} m) : least s = finite m := by
  have hinf : (s.map (fun x : ℚ => (x : WithTop ℚ))).inf = (m : WithTop ℚ) := by
    apply le_antisymm
    · exact Multiset.inf_le (Multiset.mem_map_of_mem _ h.1)
    · rw [Multiset.le_inf]
      intro b hb
      obtain ⟨v, hv, rfl⟩ := Multiset.mem_map.1 hb
      exact WithTop.coe_le_coe.2 (h.2 hv)
  rw [least, hinf]
  rfl

/-- A number of the collection that is at least every other is its greatest. -/
theorem greatest_of_isGreatest {s : Multiset ℚ} {m : ℚ} (h : IsGreatest {v | v ∈ s} m) :
    greatest s = finite m := by
  have hsup : (s.map (fun x : ℚ => (x : WithBot ℚ))).sup = (m : WithBot ℚ) := by
    apply le_antisymm
    · rw [Multiset.sup_le]
      intro b hb
      obtain ⟨v, hv, rfl⟩ := Multiset.mem_map.1 hb
      exact WithBot.coe_le_coe.2 (h.2 hv)
    · exact Multiset.le_sup (Multiset.mem_map_of_mem _ h.1)
  rw [greatest, hsup]
  rfl

/-- A collection that is not empty has a least number and a greatest. -/
theorem exists_extrema {s : Multiset ℚ} (h : s ≠ 0) :
    (∃ m, IsLeast {v | v ∈ s} m) ∧ ∃ m, IsGreatest {v | v ∈ s} m := by
  obtain ⟨x, hx⟩ := Multiset.exists_mem_of_ne_zero h
  have hne : s.toFinset.Nonempty := ⟨x, Multiset.mem_toFinset.2 hx⟩
  have hset : {v | v ∈ s} = (s.toFinset : Set ℚ) := by
    ext v
    simp
  rw [hset]
  exact ⟨⟨_, s.toFinset.isLeast_min' hne⟩, ⟨_, s.toFinset.isGreatest_max' hne⟩⟩

end CartaZarr.Extended
