import Mathlib.Data.List.Sort
import Mathlib.Order.Basic

/-!
# A sorted list without repetition

`unique` of a sorted list has each of its elements once, and `lowerBound` finds the place of an
element in it (`lowerBound_getElem?`), or a place that has another (`lowerBound_ne`).
-/

namespace CartaZarr

/-- Drop each element that equals the one after it. -/
def unique {α : Type} [DecidableEq α] : List α → List α
  | a :: b :: rest => if a = b then unique (b :: rest) else a :: unique (b :: rest)
  | rest => rest

/-- The first place of a sorted list whose element is not below the key. -/
def lowerBound (sorted : List ℕ) (key : ℕ) : ℕ := sorted.findIdx fun element => key ≤ element

theorem mem_unique {α : Type} [DecidableEq α] {a : α} {l : List α} : a ∈ unique l ↔ a ∈ l := by
  induction l using unique.induct with
  | case1 b rest ih =>
    rw [unique, if_pos rfl, ih]
    simp
  | case2 b c rest hne ih =>
    rw [unique, if_neg hne, List.mem_cons, ih, List.mem_cons (b := b)]
  | case3 l h =>
    match l, h with
    | [], _ => rfl
    | [_], _ => rfl
    | b :: c :: rest, h => exact absurd rfl (h b c rest)

theorem unique_pairwise {α : Type} [LinearOrder α] {l : List α} (h : l.Pairwise (· ≤ ·)) :
    (unique l).Pairwise (· < ·) := by
  induction l using unique.induct with
  | case1 b rest ih =>
    rw [unique, if_pos rfl]
    exact ih (List.pairwise_cons.1 h).2
  | case2 b c rest hne ih =>
    obtain ⟨hb, hrest⟩ := List.pairwise_cons.1 h
    rw [unique, if_neg hne, List.pairwise_cons]
    refine ⟨fun a ha => ?_, ih hrest⟩
    -- everything after is at least the next, which is above
    have hbc : b < c := lt_of_le_of_ne (hb c (by simp)) hne
    rcases List.mem_cons.1 (mem_unique.1 ha) with rfl | ha
    · exact hbc
    · exact hbc.trans_le ((List.pairwise_cons.1 hrest).1 a ha)
  | case3 l h' =>
    match l, h' with
    | [], _ => exact .nil
    | [_], _ => exact List.pairwise_singleton _ _
    | b :: c :: rest, h' => exact absurd rfl (h' b c rest)

variable {l : List ℕ} {a b : ℕ}

/-- The place found of an element has it. -/
theorem lowerBound_getElem? (h : l.Pairwise (· < ·))
    (ha : a ∈ l) : l[lowerBound l a]? = some a := by
  induction l with
  | nil => cases ha
  | cons b l ih =>
    obtain ⟨hb, hl⟩ := List.pairwise_cons.1 h
    rw [lowerBound, List.findIdx_cons]
    rcases List.mem_cons.1 ha with rfl | ha
    · simp
    · have := hb a ha
      rw [decide_eq_false (by omega)]
      exact ih hl ha

theorem lowerBound_lt (h : l.Pairwise (· < ·)) (ha : a ∈ l) : lowerBound l a < l.length :=
  (List.getElem?_eq_some_iff.1 (lowerBound_getElem? h ha)).1

theorem lowerBound_injective (h : l.Pairwise (· < ·)) (ha : a ∈ l) (hb : b ∈ l)
    (hab : lowerBound l a = lowerBound l b) : a = b := by
  have := lowerBound_getElem? h ha
  rw [hab, lowerBound_getElem? h hb] at this
  exact (Option.some.inj this).symm

theorem lowerBound_ne (ha : a ∉ l) (i : ℕ) : l[i]? ≠ some a :=
  fun h => ha (List.mem_of_getElem? h)

/-- The sorted elements of a list, each once. -/
theorem unique_insertionSort_pairwise {α : Type} [LinearOrder α] (l : List α) :
    (unique (l.insertionSort (· ≤ ·))).Pairwise (· < ·) :=
  unique_pairwise (List.pairwise_insertionSort (· ≤ ·) l)

theorem mem_unique_insertionSort {α : Type} [LinearOrder α] {a : α} {l : List α} :
    a ∈ unique (l.insertionSort (· ≤ ·)) ↔ a ∈ l := by
  rw [mem_unique, List.mem_insertionSort]

theorem unique_insertionSort_length_le (l : List ℕ) :
    (unique (l.insertionSort (· ≤ ·))).length ≤ l.length := by
  refine (List.subperm_of_subset ?_ fun a ha => mem_unique_insertionSort.1 ha).length_le
  exact (unique_insertionSort_pairwise l).imp fun h => Nat.ne_of_lt h

end CartaZarr
