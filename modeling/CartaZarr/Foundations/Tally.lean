import Mathlib.Algebra.BigOperators.Group.Finset.Basic
import Mathlib.Algebra.BigOperators.Group.Finset.Piecewise
import Mathlib.Data.Multiset.Bind

/-!
# Loops that add up

`holds m s` says that a state has `m` in it. When each pass of a loop adds an amount of its own, the
loop has added them all (`foldl_holds`); when each pass works on the state of its owner, each owner
has what its passes added (`foldl_modify_holds`), and what all owners have is what all passes added
(`sum_owned`).
-/

namespace CartaZarr

section Loop

variable {σ ι M : Type*} [AddCommMonoid M] {holds : M → σ → Prop} {step : ι → σ →
  σ} {amount : ι → M} {l : List ι}

/-- **A loop has added what each of its passes adds.** -/
theorem foldl_holds (h : ∀ i ∈ l, ∀ m s, holds m s → holds (m + amount i) (step i s))
    {m : M} {s : σ}
    (hs : holds m s) : holds (m + (l.map amount).sum) (l.foldl (fun s i => step i s) s) := by
  induction l generalizing m s with
  | nil => simpa using hs
  | cons i l ih =>
    have hstep := h i List.mem_cons_self m s hs
    have hrest := ih (fun j hj => h j (List.mem_cons_of_mem _ hj)) hstep
    rwa [List.map_cons, List.sum_cons, ← add_assoc]

variable {owner : ι → ℕ}

@[simp] theorem length_foldl_modify (states : List σ) :
    (l.foldl (fun states i => states.modify (owner i) (step i)) states).length = states.length := by
  induction l generalizing states with
  | nil => rfl
  | cons i l ih => rw [List.foldl_cons, ih, List.length_modify]

/-- **Each owner has what its passes added.** -/
theorem foldl_modify_holds (h : ∀ i ∈ l, ∀ m s, holds m s → holds (m + amount i) (step i s))
    {k : ℕ} {m : M}
    {states : List σ} (hs : ∀ s ∈ states[k]?, holds m s) :
    ∀ s ∈ (l.foldl (fun states i => states.modify (owner i) (step i)) states)[k]?,
      holds (m + (l.map fun i => if owner i = k then amount i else 0).sum) s := by
  induction l generalizing m states with
  | nil => simpa using hs
  | cons i l ih =>
    have hrest := @ih (fun j hj => h j (List.mem_cons_of_mem _ hj))
      (m + if owner i = k then amount i else 0)
      (states.modify (owner i) (step i)) (fun s hmem => by
        rw [List.getElem?_modify, Option.mem_def, Option.map_eq_map, Option.map_eq_some_iff] at hmem
        obtain ⟨s', hs', rfl⟩ := hmem
        split_ifs with howner
        · exact h i List.mem_cons_self m s' (hs s' hs')
        · rw [add_zero]
          exact hs s' hs')
    rwa [List.map_cons, List.sum_cons, ← add_assoc]

/-- What each of some owners has, of the passes that are theirs, is what all the passes add. -/
theorem sum_owned (amount : ι → M) {n : ℕ} (hlt : ∀ i ∈ l, owner i < n) :
    ∑ k ∈ Finset.range n, (l.map fun i => if owner i = k then amount i else 0).sum =
      (l.map amount).sum := by
  induction l with
  | nil => simp
  | cons i l ih =>
    simp only [List.map_cons, List.sum_cons, Finset.sum_add_distrib]
    rw [ih fun j hj => hlt j (List.mem_cons_of_mem _ hj), Finset.sum_ite_eq,
      if_pos (Finset.mem_range.2 (hlt i List.mem_cons_self))]

/-- What is added part by part. -/
theorem sum_map_flatMap {κ : Type*} (parts : ι → List κ) (amount : κ → M) (l : List ι) :
    ((l.flatMap parts).map amount).sum = (l.map fun i => ((parts i).map amount).sum).sum := by
  induction l with
  | nil => rfl
  | cons i l ih =>
    rw [List.flatMap_cons, List.map_append, List.sum_append, ih, List.map_cons, List.sum_cons]

end Loop

/-- What lists have together is what is in them one after another. -/
theorem sum_map_coe {ι α : Type*} (l : List ι) (f : ι → List α) :
    (l.map fun i => (f i : Multiset α)).sum = (l.flatMap f : List α) := by
  rw [← Multiset.coe_bind, Multiset.bind, Multiset.join, Multiset.map_coe, Multiset.sum_coe]

end CartaZarr
