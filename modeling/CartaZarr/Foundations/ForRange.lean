import Mathlib.Data.List.GetD
import Mathlib.Data.List.Range
import Mathlib.Tactic.Common

/-!
# Counted loops

`forRange n body` does `body 0`, ..., `body (n - 1)` to a state. What one pass of it owns, and the
others leave alone, is changed by that pass and no other (`forRange_owned`).
-/

namespace CartaZarr

variable {σ β : Type*}

/-- The passes `0`, ..., `n - 1` of a loop. -/
def forRange (n : ℕ) (body : ℕ → σ → σ) (s : σ) : σ := (List.range n).foldl (fun s i => body i s) s

@[simp] theorem forRange_zero (body : ℕ → σ → σ) (s : σ) : forRange 0 body s = s := rfl

theorem forRange_succ (n : ℕ) (body : ℕ → σ → σ) (s : σ) :
    forRange (n + 1) body s = body n (forRange n body s) := by
  rw [forRange, List.range_succ, List.foldl_concat]
  rfl

/-- What no pass changes, the loop does not. -/
theorem forRange_frame {n : ℕ} {body : ℕ → σ → σ} (view : σ → β)
    (h : ∀ i < n, ∀ s, view (body i s) = view s) (s : σ) : view (forRange n body s) = view s := by
  induction n with
  | zero => rfl
  | succ n ih =>
    rw [forRange_succ, h n (Nat.lt_succ_self n), ih fun i hi => h i (by omega)]

/-- What no later pass changes is as one pass left it. -/
theorem forRange_at {n owner : ℕ} {body : ℕ → σ → σ} (view : σ → β) (howner : owner < n)
    (hother : ∀ i < n, owner < i → ∀ s, view (body i s) = view s) (s : σ) :
    view (forRange n body s) = view (body owner (forRange owner body s)) := by
  induction n with
  | zero => omega
  | succ n ih =>
    rw [forRange_succ]
    rcases (Nat.lt_succ_iff.1 howner).lt_or_eq with h | rfl
    · rw [hother n (Nat.lt_succ_self n) h, ih h fun i hi => hother i (by omega)]
    · rfl

/-- **What one pass owns** is changed by that pass, and no other. -/
theorem forRange_owned {n owner : ℕ} (body : ℕ → σ → σ) (view : σ → β) (change : β → β)
    (howner : owner < n) (hown : ∀ s, view (body owner s) = change (view s))
    (hother : ∀ i < n, i ≠ owner → ∀ s, view (body i s) = view s) (s : σ) :
    view (forRange n body s) = change (view s) := by
  rw [forRange_at view howner (fun i hi hlt => hother i hi (by omega)), hown,
    forRange_frame view fun i hi => hother i (by omega) (by omega)]

/-- What a loop writes, one entry a pass, from the place `base` on. -/
theorem forRange_set_getElem? {α : Type*} {n base : ℕ} (place : ℕ → ℕ) (f : ℕ → α) {l : List α}
    (hplace : ∀ m, place m = base + m) (hlen : base + n ≤ l.length) (i : ℕ) :
    (forRange n (fun m l => l.set (place m) (f m)) l)[i]? =
      if base ≤ i ∧ i < base + n then some (f (i - base)) else l[i]? := by
  induction n with
  | zero => rw [forRange_zero, if_neg (by omega)]
  | succ n ih =>
    have hkeep : (forRange n (fun m l => l.set (place m) (f m)) l).length = l.length :=
      forRange_frame List.length (fun _ _ _ => List.length_set) l
    rw [forRange_succ, hplace, List.getElem?_set, ih (by omega), hkeep]
    by_cases hi : base + n = i
    · rw [if_pos hi, if_pos (by omega), if_pos (by omega), show i - base = n by omega]
    · rw [if_neg hi]
      exact if_congr (by omega) rfl rfl

/-- A list is its entries, place by place. -/
theorem map_getD_range {α : Type*} (l : List α) (d : α) :
    (List.range l.length).map (fun i => l.getD i d) = l := by
  refine List.ext_getElem (by simp) fun i hi hi' => ?_
  rw [List.getElem_map, List.getElem_range, List.getD_eq_getElem _ _ hi']

end CartaZarr
