import CartaZarr.Foundations.Word
import Mathlib.Algebra.BigOperators.Group.Finset.Basic
import Mathlib.Data.List.GetD

/-!
# Counts that are words

A list of counts, each a word. Counting things at their places (`countOne`) adds to each count how
many of them have its place, modulo `2 ^ 64` (`foldl_countOne_getD`); adding numbers into a stretch
of the counts (`addInto`) changes no other.
-/

namespace CartaZarr

open Word

theorem add_mod_left (a b : ℕ) : add (a % 2 ^ 64) b = (a + b) % 2 ^ 64 := Nat.mod_add_mod _ _ _

theorem getD_modify (counts : List ℕ) (f : ℕ → ℕ) (i j : ℕ) :
    (counts.modify i f).getD j 0 = if i = j ∧ j < counts.length then f (counts.getD j 0)
      else counts.getD j 0 := by
  rw [List.getD_eq_getElem?_getD, List.getD_eq_getElem?_getD, List.getElem?_modify]
  by_cases hj : j < counts.length
  · by_cases hij : i = j <;> simp [hij, hj]
  · simp [hj]

section Count

variable {α : Type} (place : α → Option ℕ)

/-- Count a thing at its place, if it has one. -/
def countOne (counts : List ℕ) (x : α) : List ℕ :=
  match place x with
  | some i => counts.modify i (add · 1)
  | none => counts

@[simp] theorem length_countOne (counts : List ℕ)
    (x : α) : (countOne place counts x).length = counts.length := by
  unfold countOne
  split
  · exact List.length_modify _ _ _
  · rfl

@[simp] theorem length_foldl_countOne (counts : List ℕ) (xs : List α) :
    (xs.foldl (countOne place) counts).length = counts.length := by
  induction xs generalizing counts with
  | nil => rfl
  | cons x xs ih => rw [List.foldl_cons, ih, length_countOne]

theorem countOne_getD {counts : List ℕ} (x : α) {i n : ℕ} (hi : i < counts.length)
    (h : counts.getD i 0 = n % 2 ^ 64) :
    (countOne place counts x).getD i 0 = (n + if place x = some i then 1 else 0) % 2 ^ 64 := by
  unfold countOne
  cases hplace : place x with
  | none => simpa using h
  | some j =>
    dsimp only
    rw [getD_modify]
    by_cases hij : j = i
    · subst hij
      rw [if_pos ⟨rfl, hi⟩, if_pos rfl, h, add_mod_left]
    · rw [if_neg fun hboth => hij hboth.1, if_neg (by simpa using hij), h, add_zero]

/-- **Counting some things** adds to a count how many of them have its place. -/
theorem foldl_countOne_getD {counts : List ℕ} (xs : List α) {i n : ℕ} (hi : i < counts.length)
    (h : counts.getD i 0 = n % 2 ^ 64) :
    (xs.foldl (countOne place) counts).getD i 0 =
      (n + xs.countP fun x => place x = some i) % 2 ^ 64 := by
  induction xs generalizing counts n with
  | nil => simpa using h
  | cons x xs ih =>
    rw [List.foldl_cons, ih (by rwa [length_countOne]) (countOne_getD place x hi h),
      List.countP_cons]
    simp only [decide_eq_true_eq]
    congr 1
    omega

end Count

/-! ## Adding counts to counts -/

/-- Add `bins` numbers to the counts from `into` on. -/
def addInto (into bins : ℕ) (more : ℕ → ℕ) (counts : List ℕ) : List ℕ :=
  (List.range bins).foldl (fun counts bin => counts.modify (into + bin) (add · (more bin))) counts

@[simp] theorem length_addInto (into bins : ℕ) (more : ℕ → ℕ) (counts : List ℕ) :
    (addInto into bins more counts).length = counts.length := by
  unfold addInto
  induction bins with
  | zero => rfl
  | succ bins ih => rw [List.range_succ, List.foldl_concat, List.length_modify, ih]

theorem addInto_getD (into bins : ℕ) (more : ℕ → ℕ) {counts : List ℕ} {i : ℕ}
    (hi : i < counts.length) :
    (addInto into bins more counts).getD i 0 =
      if into ≤ i ∧ i < into + bins then add (counts.getD i 0) (more (i - into))
        else counts.getD i 0 := by
  induction bins with
  | zero =>
    rw [if_neg (by omega)]
    rfl
  | succ bins ih =>
    have hlength := length_addInto into bins more counts
    have hlast : addInto into (bins + 1) more counts =
        (addInto into bins more counts).modify (into + bins) (add · (more bins)) := by
      rw [addInto, List.range_succ, List.foldl_concat]
      rfl
    rw [hlast, getD_modify, hlength, ih]
    by_cases hbin : into + bins = i
    · rw [if_pos ⟨hbin, hi⟩, if_neg (by omega), if_pos (by omega), show i - into = bins by omega]
    · rw [if_neg fun hboth => hbin hboth.1]
      by_cases hin : into ≤ i ∧ i < into + bins
      · rw [if_pos hin, if_pos (by omega)]
      · rw [if_neg hin, if_neg (by omega)]

/-- Counts to which several more are added, one after another. -/
theorem foldl_addInto_getD (into bins tasks : ℕ) (more : ℕ → ℕ → ℕ) {counts : List ℕ} {i n : ℕ}
    (hi : i < counts.length) (h : counts.getD i 0 = n % 2 ^ 64) :
    ((List.range tasks).foldl (fun counts task =>
      addInto into bins (more task) counts) counts).getD i 0 =
      (n + if into ≤ i ∧ i < into + bins then ∑ task ∈ Finset.range tasks,
        more task (i - into) else 0) % 2 ^ 64 ∧
    ((List.range tasks).foldl (fun counts task =>
      addInto into bins (more task) counts) counts).length =
      counts.length := by
  induction tasks with
  | zero => simpa using h
  | succ tasks ih =>
    obtain ⟨hget, hlength⟩ := ih
    rw [List.range_succ, List.foldl_concat, length_addInto, addInto_getD _ _ _ (hlength ▸ hi), hget]
    refine ⟨?_, hlength⟩
    split_ifs with hin
    · rw [add_mod_left, Finset.sum_range_succ, add_assoc]
    · rfl

end CartaZarr
