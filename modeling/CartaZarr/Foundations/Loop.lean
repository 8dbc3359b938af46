import CartaZarr.Foundations.Attempt
import CartaZarr.Foundations.Walk

/-!
# Loops over blocks

`loop next total body` is the loop that does `body b (next b)` for each block of a walk, handing a
value on from each pass to the next. Where the walk ends, the loop is the fold over its blocks
(`loop_eq_foldlM`), and a fold whose passes each do the steps of a list and update a value is those
steps, one after another (`foldlM_eq_forEach`): a nest of loops becomes one list.

What such a list does is said by `forEach_cases`: it does all of it, or stops at the first step that
fails.
-/

namespace CartaZarr

/-- A walk that ended with some fuel ends in the same way with more. -/
theorem walk_mono {next : ℕ → ℕ} {total fuel fuel' b : ℕ} {blocks : List (ℕ × ℕ)}
    (h : walk next total fuel b = some blocks) (hle : fuel ≤ fuel') :
    walk next total fuel' b = some blocks := by
  induction fuel generalizing fuel' b blocks with
  | zero =>
    by_cases hb : b < total
    · simp [walk, hb] at h
    · rw [walk_of_le (by omega)] at h ⊢
      exact h
  | succ fuel ih =>
    by_cases hb : b < total
    · obtain ⟨fuel', rfl⟩ : ∃ k, fuel' = k + 1 := ⟨fuel' - 1, by omega⟩
      rw [walk_succ hb, Option.map_eq_some_iff] at h ⊢
      obtain ⟨rest, hrest, e⟩ := h
      exact ⟨rest, ih hrest (by omega), e⟩
    · rw [walk_of_le (by omega)] at h ⊢
      exact h

namespace Attempt

variable {ε σ α β γ : Type}

/-- The loop over the blocks `[b, next b)` while `b` is below `total`. -/
def loop (next : ℕ → ℕ) (total : ℕ) (body : ℕ → ℕ → γ → Attempt (Halt ε) σ γ) :
    ℕ → ℕ → γ → Attempt (Halt ε) σ γ
  | 0, b, c => if b < total then fail .outOfFuel else pure c
  | fuel + 1, b, c =>
    if b < total then do
      let c ← body b (next b) c
      loop next total body fuel (next b) c
    else pure c

/-- A loop whose walk ends is the fold over its blocks. -/
theorem loop_eq_foldlM {next : ℕ → ℕ} {total fuel b : ℕ} {blocks : List (ℕ × ℕ)}
    (h : walk next total fuel b = some blocks) (body : ℕ → ℕ → γ → Attempt (Halt ε) σ γ) (c : γ) :
    loop next total body fuel b c = blocks.foldlM (fun c x => body x.1 x.2 c) c := by
  induction fuel generalizing b blocks c with
  | zero =>
    by_cases hb : b < total
    · simp [walk, hb] at h
    · rw [walk_of_le (by omega), Option.some.injEq] at h
      rw [loop, if_neg hb, ← h, List.foldlM_nil]
  | succ fuel ih =>
    by_cases hb : b < total
    · rw [walk_succ hb, Option.map_eq_some_iff] at h
      obtain ⟨rest, hrest, rfl⟩ := h
      rw [loop, if_pos hb, List.foldlM_cons]
      congr 1
      funext c'
      exact ih hrest c'
    · rw [walk_of_le (by omega), Option.some.injEq] at h
      rw [loop, if_neg hb, ← h, List.foldlM_nil]

theorem foldlM_congr {p q : γ → α → Attempt ε σ γ} {as : List α}
    (h : ∀ a ∈ as, ∀ c, p c a = q c a) (c : γ) : as.foldlM p c = as.foldlM q c := by
  induction as generalizing c with
  | nil => rfl
  | cons a as ih =>
    rw [List.foldlM_cons, List.foldlM_cons, h a (by simp)]
    congr 1
    funext c'
    exact ih (fun b hb => h b (by simp [hb])) c'

/-- A fold over the elements of lists is a fold over the list of them all. -/
theorem foldlM_flatMap (f : α → List β) (step : γ → β → Attempt ε σ γ) (as : List α) (c : γ) :
    (as.flatMap f).foldlM step c = as.foldlM (fun c a => (f a).foldlM step c) c := by
  induction as generalizing c with
  | nil => rfl
  | cons a as ih =>
    rw [List.flatMap_cons, List.foldlM_append, List.foldlM_cons]
    congr 1
    funext c'
    exact ih c'

/-- The steps of a fold whose passes each do the steps `f c a` and go on with `g c a`. -/
def steps (f : γ → α → List β) (g : γ → α → γ) : γ → List α → List β
  | _, [] => []
  | c, a :: as => f c a ++ steps f g (g c a) as

/-- The steps of passes that hand nothing on. -/
theorem steps_eq_flatMap (f : γ → α → List β) (c : γ) (as : List α) :
    steps f (fun c _ => c) c as = as.flatMap (f c) := by
  induction as with
  | nil => rfl
  | cons a as ih => rw [steps, ih, List.flatMap_cons]

/-- **A fold is the list of its steps.** -/
theorem foldlM_eq_forEach {p : γ → α → Attempt ε σ γ} {perform : β → Attempt ε σ Unit}
    {f : γ → α → List β} {g : γ → α → γ} {as : List α}
    (h : ∀ a ∈ as, ∀ c, p c a = (do forEach perform (f c a); pure (g c a))) (c : γ) :
    as.foldlM p c = (do forEach perform (steps f g c as); pure (as.foldl g c)) := by
  induction as generalizing c with
  | nil => rfl
  | cons a as ih =>
    rw [List.foldlM_cons, h a (by simp), steps, forEach_append, List.foldl_cons]
    simp only [bind_assoc, pure_bind]
    congr 1
    funext _
    exact ih (fun b hb => h b (by simp [hb])) _

/-- **A list of steps is done to its end, or up to the first that fails.** -/
theorem forEach_cases (perform : α → Attempt ε σ Unit) (as : List α) (s : σ) :
    (∃ s', forEach perform as s = (.ok (), s')) ∨
    ∃ before a after s₁ e s₂, as = before ++ a :: after ∧
      forEach perform before s = (.ok (), s₁) ∧ perform a s₁ = (.error e, s₂) ∧
      forEach perform as s = (.error e, s₂) := by
  induction as generalizing s with
  | nil => exact Or.inl ⟨s, rfl⟩
  | cons a as ih =>
    rcases ha : perform a s with ⟨e | ⟨⟩, s'⟩
    · refine Or.inr ⟨[], a, as, s, e, s', rfl, rfl, ha, ?_⟩
      rw [forEach, bind_of_error ha]
    · have hstep : ∀ bs, forEach perform (a :: bs) s = forEach perform bs s' := fun bs => by
        rw [forEach, bind_of_ok ha]
      rcases ih s' with ⟨s'', h⟩ | ⟨before, b, after, s₁, e, s₂, rfl, h₁, h₂, h₃⟩
      · exact Or.inl ⟨s'', by rw [hstep, h]⟩
      · exact Or.inr ⟨a :: before, b, after, s₁, e, s₂, rfl, by rw [hstep, h₁], h₂,
          by rw [hstep, h₃]⟩

end Attempt

end CartaZarr
