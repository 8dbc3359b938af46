import Mathlib.Data.List.Basic

/-!
# Systems that take steps

A system is a function `step` from a state and an action to an event and the next state, where the
action can be taken. `Reaches step s events s'` says that some actions lead from `s` to `s'` past
these events; what holds at first and is kept by every action holds of whatever is reached
(`Reaches.invariant`).
-/

namespace CartaZarr

variable {σ α ε : Type} {step : σ → α → Option (ε × σ)} {s s' s'' : σ}

/-- The events and the state that actions lead to, when each can be taken. -/
def takes (step : σ → α → Option (ε × σ)) : σ → List α → Option (List ε × σ)
  | s, [] => some ([], s)
  | s, a :: actions =>
    match step s a with
    | none => none
    | some (e, s) => (takes step s actions).map fun x => (e :: x.1, x.2)

/-- Some actions lead from `s` past these events. -/
inductive Reaches (step : σ → α → Option (ε × σ)) (s : σ) : List ε → σ → Prop
  | init : Reaches step s [] s
  | step {events : List ε} {s₁ s₂ : σ} {a : α} {e : ε} :
    Reaches step s events s₁ → step s₁ a = some (e, s₂) → Reaches step s (events ++ [e]) s₂

namespace Reaches

theorem trans {events events' : List ε} (h : Reaches step s events s')
    (h' : Reaches step s' events' s'') : Reaches step s (events ++ events') s'' := by
  induction h' with
  | init => rwa [List.append_nil]
  | step _ hstep ih =>
    rw [← List.append_assoc]
    exact ih.step hstep

/-- What actions lead to is reached. -/
theorem of_takes {actions : List α} {events : List ε}
    (h : takes step s actions = some (events, s')) :
    Reaches step s events s' := by
  induction actions generalizing s events with
  | nil =>
    rw [takes, Option.some.injEq, Prod.mk.injEq] at h
    obtain ⟨rfl, rfl⟩ := h
    exact init
  | cons a actions ih =>
    rw [takes] at h
    split at h
    · cases h
    · rename_i e s₁ hstep
      obtain ⟨x, hx, hxe⟩ := Option.map_eq_some_iff.1 h
      rw [Prod.mk.injEq] at hxe
      obtain ⟨rfl, rfl⟩ := hxe
      exact trans (init.step hstep) (ih hx)

/-- **Invariants**: what holds at first, and is kept by every action, holds of what is reached. -/
theorem invariant {P : List ε → σ → Prop} (h₀ : P [] s)
    (hstep : ∀ events s₁ a e s₂, P events s₁ → step s₁ a = some (e, s₂) → P (events ++ [e]) s₂)
    {events : List ε} (h : Reaches step s events s') : P events s' := by
  induction h with
  | init => exact h₀
  | step _ h ih => exact hstep _ _ _ _ _ ih h

/-- The last step of those taken. -/
theorem last {events : List ε} {e : ε} (h : Reaches step s (events ++ [e]) s') :
    ∃ s₁ a, Reaches step s events s₁ ∧ step s₁ a = some (e, s') := by
  generalize hall : events ++ [e] = all at h
  cases h with
  | init => simp at hall
  | @step events₁ s₁ _ a e₁ h₁ hstep =>
    obtain ⟨rfl, hlast⟩ := List.append_inj' hall rfl
    rw [List.cons.injEq] at hlast
    exact ⟨s₁, a, h₁, hlast.1 ▸ hstep⟩

end Reaches

/-- An event of a longer trace is its last, or one of those before. -/
theorem concat_eq_append_cons {events before after : List ε} {e e' : ε}
    (h : events ++ [e] = before ++ e' :: after) :
    (events = before ∧ e = e' ∧ after = []) ∨
      ∃ rest, events = before ++ e' :: rest ∧ after = rest ++ [e] := by
  rcases List.eq_nil_or_concat after with rfl | ⟨rest, last, rfl⟩
  · obtain ⟨h₁, h₂⟩ := List.append_inj' h rfl
    rw [List.cons.injEq] at h₂
    exact Or.inl ⟨h₁, h₂.1, rfl⟩
  · rw [List.concat_eq_append, ← List.cons_append, ← List.append_assoc] at h
    obtain ⟨h₁, h₂⟩ := List.append_inj' h rfl
    rw [List.cons.injEq] at h₂
    exact Or.inr ⟨rest, h₁, by rw [List.concat_eq_append, h₂.1]⟩

end CartaZarr
