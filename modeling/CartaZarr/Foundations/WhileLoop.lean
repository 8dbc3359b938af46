import Mathlib.Data.List.Induction
import Mathlib.Tactic.Common

/-!
# Loops that go on while a condition holds

`whileLoop test body` does `body` as long as `test` holds; it is `none` when the loop has not ended
with the passes it is given. A loop whose passes keep an invariant and lower a measure ends
(`whileLoop_ends`).

`Settles run P` says that what is computed with enough fuel is always the same, and has `P`. It has
a rule for one computation after another (`Settles.bind`), and one for a loop over a list whose
passes need fuel (`Settles.foldlM`).
-/

namespace CartaZarr

variable {σ : Type*}

/-- `while (test s) s = body s`. -/
def whileLoop (test : σ → Prop) [DecidablePred test] (body : σ → σ) : ℕ → σ → Option σ
  | 0, s => if test s then none else some s
  | fuel + 1, s => if test s then whileLoop test body fuel (body s) else some s

variable {test : σ → Prop} [DecidablePred test] {body : σ → σ}

theorem whileLoop_of_not {s : σ} (h : ¬ test s) (fuel : ℕ) :
    whileLoop test body fuel s = some s := by
  cases fuel <;> rw [whileLoop, if_neg h]

/-- **A loop ends** when each pass keeps an invariant and lowers a measure. -/
theorem whileLoop_ends {inv : σ → Prop} (size : σ → ℕ)
    (step : ∀ s, inv s → test s → inv (body s) ∧ size (body s) < size s) {s : σ} (h : inv s) :
    ∃ s', inv s' ∧ ¬ test s' ∧ ∀ fuel ≥ size s, whileLoop test body fuel s = some s' := by
  induction hn : size s using Nat.strongRecOn generalizing s with
  | _ n ih =>
    subst hn
    by_cases ht : test s
    · obtain ⟨hinv, hlt⟩ := step s h ht
      obtain ⟨s', hs', hend, hrun⟩ := ih _ hlt hinv rfl
      refine ⟨s', hs', hend, fun fuel hfuel => ?_⟩
      obtain ⟨fuel, rfl⟩ : ∃ k, fuel = k + 1 := ⟨fuel - 1, by omega⟩
      rw [whileLoop, if_pos ht]
      exact hrun fuel (by omega)
    · exact ⟨s, h, ht, fun fuel _ => whileLoop_of_not ht fuel⟩

/-- With enough fuel there is a result, the same with more, and it has `P`. -/
def Settles (run : ℕ → Option σ) (P : σ → Prop) : Prop :=
  ∃ s, P s ∧ ∃ enough, ∀ fuel ≥ enough, run fuel = some s

namespace Settles

variable {τ α : Type*} {run : ℕ → Option σ} {P : σ → Prop} {Q : τ → Prop}

theorem of_some {s : σ} (h : P s) : Settles (fun _ => some s) P := ⟨s, h, 0, fun _ _ => rfl⟩

theorem imp {P' : σ → Prop} (h : Settles run P) (himp : ∀ s, P s → P' s) : Settles run P' := by
  obtain ⟨s, hs, hrun⟩ := h
  exact ⟨s, himp s hs, hrun⟩

theorem congr {run' : ℕ → Option σ} (h : Settles run P) (heq : ∀ fuel, run' fuel = run fuel) :
    Settles run' P := by
  obtain ⟨s, hs, enough, hrun⟩ := h
  exact ⟨s, hs, enough, fun fuel hfuel => (heq fuel).trans (hrun fuel hfuel)⟩

/-- What goes on from a result ends, where each of the two does. -/
theorem bind {next : ℕ → σ → Option τ} (h : Settles run P)
    (hnext : ∀ s, P s → Settles (next · s) Q) :
    Settles (fun fuel => (run fuel).bind (next fuel)) Q := by
  obtain ⟨s, hs, enough, hrun⟩ := h
  obtain ⟨t, ht, enough', hrun'⟩ := hnext s hs
  refine ⟨t, ht, max enough enough', fun fuel hfuel => ?_⟩
  change (run fuel).bind (next fuel) = some t
  rw [hrun fuel (Nat.le_trans (Nat.le_max_left _ _) hfuel), Option.bind_some]
  exact hrun' fuel (Nat.le_trans (Nat.le_max_right _ _) hfuel)

/-- **A loop over a list ends**, with what each pass brings about after those before it. -/
theorem foldlM {step : ℕ → σ → α → Option σ} {as : List α} {I : List α → σ → Prop}
    {s : σ} (h : I [] s)
    (hstep : ∀ before a, before ++ [a] <+: as → ∀ s, I before s →
      Settles (fun fuel => step fuel s a) (I (before ++ [a]))) :
    Settles (fun fuel => as.foldlM (step fuel) s) (I as) := by
  induction as using List.reverseRecOn with
  | nil => exact of_some h
  | append_singleton as a ih =>
    have hbefore := ih fun before b hpre => hstep before b (hpre.trans (List.prefix_append as [a]))
    have hlast := hbefore.bind fun s hs => hstep as a List.prefix_rfl s hs
    refine hlast.congr fun fuel => ?_
    rw [List.foldlM_append]
    cases as.foldlM (step fuel) s with
    | none => rfl
    | some s => exact bind_pure (step fuel s a)

end Settles

end CartaZarr
