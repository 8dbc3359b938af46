import Mathlib.Tactic.Common
import CartaZarr.Foundations.Attempt
import CartaZarr.Foundations.Walk

/-!
# Quotients that may not be there

`divide` and `remainder` are none on a zero divisor, and so is whatever is computed from them. A
computation made of them that is `some a`, for an `a` computed without, divides by no zero; the
rules here bring that from the parts of a computation to the whole, for folds and loops
(`foldlM_eq_some`, `walkM_eq_ended`).

A computation that may not end either is a `Divided`: `ended x` divided by no zero, and came to `x`,
if to anything.
-/

namespace CartaZarr

/-- A quotient; none on a zero divisor. -/
def divide {α : Type} [Zero α] [Div α] [DecidableEq α] (a b : α) : Option α :=
  if b = 0 then none else some (a / b)

/-- A remainder; none on a zero divisor. -/
def remainder (a b : ℕ) : Option ℕ := if b = 0 then none else some (a % b)

theorem divide_of_ne {α : Type} [Zero α] [Div α] [DecidableEq α] {a b : α} (h : b ≠ 0) :
    divide a b = some (a / b) := if_neg h

theorem remainder_of_ne {a b : ℕ} (h : b ≠ 0) : remainder a b = some (a % b) := if_neg h

/-- A divisor that is kept from zero. -/
@[simp] theorem divide_max_one (a b : ℕ) : divide a (max 1 b) = some (a / max 1 b) :=
  divide_of_ne (by omega)

section Lists

variable {α β : Type}

theorem foldlM_eq_some {f : β → α → Option β} {g : β → α → β} {l : List α}
    (h : ∀ a ∈ l, ∀ b, f b a = some (g b a)) (b : β) : l.foldlM f b = some (l.foldl g b) := by
  induction l generalizing b with
  | nil => rfl
  | cons a l ih =>
    rw [List.foldlM_cons, h a List.mem_cons_self b]
    exact ih (fun a' ha' => h a' (List.mem_cons_of_mem _ ha')) _

theorem mapM_map_some (l : List α) : (l.map some).mapM id = some l := by
  induction l with
  | nil => rfl
  | cons a l ih =>
    rw [List.map_cons, List.mapM_cons, ih]
    rfl

theorem mapIdx_some (f : ℕ → α → β) (l : List α) :
    l.mapIdx (fun i a => some (f i a)) = (l.mapIdx f).map some := by
  refine List.ext_getElem? fun i => ?_
  rw [List.getElem?_mapIdx, List.getElem?_map, List.getElem?_mapIdx, Option.map_map]
  rfl

end Lists

/-! ## Computations that may not end -/

/-- A computation that may divide by zero, and if it does not, may not end. -/
abbrev Divided (α : Type) : Type := OptionT Option α

section Divided

variable {ε σ α β : Type}

/-- A computation that divided by no zero, and came to `x`, if to anything. -/
def ended (x : Option α) : Divided α := OptionT.mk (some x)

/-- The result of a function that divides and may not end. -/
def Attempt.ofDivided (r : Divided α) : Attempt (Halt ε) σ α := do
  let x ← .ofQuotient r.run
  .ofFuel x

theorem ended_ne_none (x : Option α) : (ended x).run ≠ none := nofun

theorem ended_some (a : α) : ended (some a) = pure a := rfl

theorem lift_some_bind (a : α) (f : α → Divided β) : (OptionT.lift (some a) >>= f) = f a := rfl

theorem ended_bind {x : Option α} {f : α → Divided β} {g : α → Option β}
    (h : ∀ a, f a = ended (g a)) : (ended x >>= f) = ended (x.bind g) := by
  cases x with
  | none => rfl
  | some a => exact h a

theorem ended_map (x : Option α) (f : α → β) :
    (ended x >>= fun a => (pure (f a) : Divided β)) = ended (x.map f) := by
  cases x <;> rfl

theorem Attempt.ofDivided_ended (x : Option α) :
    (Attempt.ofDivided (ended x) : Attempt (Halt ε) σ α) = .ofFuel x := rfl

theorem foldlM_eq_ended {f : β → α → Divided β} {g : β → α → Option β} {l : List α}
    (h : ∀ a b, f b a = ended (g b a)) (b : β) : l.foldlM f b = ended (l.foldlM g b) := by
  induction l generalizing b with
  | nil => rfl
  | cons a l ih =>
    rw [List.foldlM_cons, List.foldlM_cons, h]
    exact ended_bind ih

/-- The blocks of a loop whose step divides. -/
def walkM (next : ℕ → Option ℕ) (total : ℕ) : ℕ → ℕ → Divided (List (ℕ × ℕ))
  | 0, b => ended (if b < total then none else some [])
  | fuel + 1, b =>
    if b < total then do
      let e ← OptionT.lift (next b)
      let blocks ← walkM next total fuel e
      pure ((b, e) :: blocks)
    else pure []

/-- The blocks of a loop whose step divides by no zero. -/
theorem walkM_eq_ended {next : ℕ → Option ℕ} {step : ℕ → ℕ} (h : ∀ b, next b = some (step b))
    (total fuel b : ℕ) : walkM next total fuel b = ended (walk step total fuel b) := by
  induction fuel generalizing b with
  | zero => rfl
  | succ fuel ih =>
    rw [walkM, walk]
    split_ifs
    · rw [h b, lift_some_bind, ih]
      cases walk step total fuel (step b) <;> rfl
    · rfl

end Divided

end CartaZarr
