import Mathlib.Tactic.Common

/-!
# Computations that may fail and keep their state

`Attempt ε σ α` is a computation over a state `σ` that returns an `α` or fails with an `ε`, and
leaves a state either way: what a failing function had done before it failed is not undone.

`Ensures P x Q E` is its triple: from a state with `P`, a return leaves `Q` and a failure leaves
`E`. It has a rule for each way computations are put together (`Ensures.bind`, `Ensures.ite`), and
one for a loop over a list (`Ensures.forEach`): what one pass of the body brings about for its
element and the others keep, the loop brings about for every element.
-/

namespace CartaZarr

/-- Why a computation stopped short: it failed, a loop of it had not ended with the fuel given, or
it divided by zero. -/
inductive Halt (ε : Type)
  | error (e : ε)
  | outOfFuel
  | dividedByZero
  deriving DecidableEq, Repr

/-- A computation over `σ` that returns an `α` or fails with an `ε`. -/
def Attempt (ε σ α : Type) : Type := σ → Except ε α × σ

namespace Attempt

variable {ε σ α β : Type}

/-- Go on after a computation that returned. -/
def andThen (x : Attempt ε σ α) (f : α → Attempt ε σ β) : Attempt ε σ β := fun s =>
  match x s with
  | (.ok a, s') => f a s'
  | (.error e, s') => (.error e, s')

instance : Monad (Attempt ε σ) where
  pure a := fun s => (.ok a, s)
  bind := andThen

/-- Fail, leaving the state. -/
def fail (e : ε) : Attempt ε σ α := fun s => (.error e, s)

/-- A computation that halts in no other way than by failing. -/
def halting (x : Attempt ε σ α) : Attempt (Halt ε) σ α := fun s =>
  match x s with
  | (.ok a, s') => (.ok a, s')
  | (.error e, s') => (.error (.error e), s')

/-- The result of a function that has no state. -/
def ofExcept (r : Except ε α) : Attempt (Halt ε) σ α := fun s => (r.mapError .error, s)

/-- The result of a loop that has no state, if it ended. -/
def ofFuel (r : Option α) : Attempt (Halt ε) σ α := fun s =>
  (match r with | some a => .ok a | none => .error .outOfFuel, s)

/-- The result of a function that divides, if it did by no zero. -/
def ofQuotient (r : Option α) : Attempt (Halt ε) σ α := fun s =>
  (match r with | some a => .ok a | none => .error .dividedByZero, s)

/-- The state. -/
def get : Attempt ε σ σ := fun s => (.ok s, s)

/-- Change the state. -/
def modify (f : σ → σ) : Attempt ε σ Unit := fun s => (.ok (), f s)

/-- Do something for each element of a list, in turn, until it fails. -/
def forEach (body : α → Attempt ε σ Unit) : List α → Attempt ε σ Unit
  | [] => pure ()
  | a :: as => do
    body a
    forEach body as

theorem ofExcept_ok (a : α) : (ofExcept (.ok a) : Attempt (Halt ε) σ α) = pure a := rfl

theorem ofFuel_some (a : α) : (ofFuel (some a) : Attempt (Halt ε) σ α) = pure a := rfl

theorem ofQuotient_some (a : α) : (ofQuotient (some a) : Attempt (Halt ε) σ α) = pure a := rfl

theorem bind_apply (x : Attempt ε σ α) (f : α → Attempt ε σ β) (s : σ) :
    (x >>= f) s = match x s with
      | (.ok a, s') => f a s'
      | (.error e, s') => (.error e, s') := rfl

theorem bind_of_ok {x : Attempt ε σ α} {f : α → Attempt ε σ β} {s s' : σ} {a : α}
    (h : x s = (.ok a, s')) : (x >>= f) s = f a s' := by rw [bind_apply, h]

theorem bind_of_error {x : Attempt ε σ α} {f : α → Attempt ε σ β} {s s' : σ} {e : ε}
    (h : x s = (.error e, s')) : (x >>= f) s = (.error e, s') := by rw [bind_apply, h]

instance : LawfulMonad (Attempt ε σ) := LawfulMonad.mk' (Attempt ε σ)
  (fun x => by
    funext s
    change andThen x _ s = _
    unfold andThen
    rcases h : x s with ⟨_ | _, _⟩ <;> rfl)
  (fun a f => rfl)
  (fun x f g => by
    funext s
    simp only [bind_apply]
    rcases h : x s with ⟨_ | _, _⟩ <;> rfl)

theorem forEach_append (body : α → Attempt ε σ Unit) (as bs : List α) :
    forEach body (as ++ bs) = (do forEach body as; forEach body bs) := by
  induction as with
  | nil => rfl
  | cons a as ih => simp only [List.cons_append, forEach, ih, bind_assoc]

theorem forEach_map (body : β → Attempt ε σ Unit) (f : α → β) (as : List α) :
    forEach body (as.map f) = forEach (fun a => body (f a)) as := by
  induction as with
  | nil => rfl
  | cons a as ih => simp only [List.map_cons, forEach, ih]

theorem forEach_flatMap (body : β → Attempt ε σ Unit) (f : α → List β) (as : List α) :
    forEach body (as.flatMap f) = forEach (fun a => forEach body (f a)) as := by
  induction as with
  | nil => rfl
  | cons a as ih => rw [List.flatMap_cons, forEach_append, ih, forEach]

/-- A loop that failed did so at one of its elements, after it was done with those before. -/
theorem exists_of_forEach_error {body : α → Attempt ε σ Unit} {as : List α} {s s' : σ} {e : ε}
    (h : forEach body as s = (.error e, s')) :
    ∃ before a after mid, as = before ++ a :: after ∧ forEach body before s = (.ok (), mid) ∧
      body a mid = (.error e, s') := by
  induction as generalizing s with
  | nil => cases h
  | cons a as ih =>
    rcases hrun : body a s with ⟨e' | _, t⟩
    · rw [forEach, bind_of_error hrun] at h
      cases h
      exact ⟨[], a, as, s, rfl, rfl, hrun⟩
    · rw [forEach, bind_of_ok hrun] at h
      obtain ⟨before, b, after, mid, rfl, hbefore, hb⟩ := ih h
      exact ⟨a :: before, b, after, mid, rfl, by rw [forEach, bind_of_ok hrun, hbefore], hb⟩

/-! ## Triples -/

/-- From a state with `P`, a return leaves `Q` and a failure leaves `E`. -/
def Ensures (P : σ → Prop) (x : Attempt ε σ α) (Q : α → σ → Prop) (E : ε → σ → Prop) : Prop :=
  ∀ s, P s → match x s with
    | (.ok a, s') => Q a s'
    | (.error e, s') => E e s'

namespace Ensures

variable {P P' : σ → Prop} {Q Q' : α → σ → Prop} {R : β → σ → Prop} {E E' : ε → σ → Prop}

theorem of_ok {x : Attempt ε σ α} (h : Ensures P x Q E) {s s' : σ} {a : α} (hs : P s)
    (hx : x s = (.ok a, s')) : Q a s' := by
  have := h s hs
  rwa [hx] at this

theorem of_error {x : Attempt ε σ α} (h : Ensures P x Q E) {s s' : σ} {e : ε} (hs : P s)
    (hx : x s = (.error e, s')) : E e s' := by
  have := h s hs
  rwa [hx] at this

theorem pure {a : α} (h : ∀ s, P s → Q a s) : Ensures P (Pure.pure a) Q E := h

theorem fail {e : ε} (h : ∀ s, P s → E e s) : Ensures P (Attempt.fail e) Q E := h

theorem ofExcept {r : Except ε α} {F : Halt ε → σ → Prop} (hok : ∀ a, r = .ok a → ∀ s, P s → Q a s)
    (herr : ∀ e, r = .error e → ∀ s, P s → F (.error e) s) :
    Ensures P (Attempt.ofExcept r) Q F := by
  intro s hs
  cases r with
  | ok a => exact hok a rfl s hs
  | error e => exact herr e rfl s hs

theorem ofFuel {r : Option α} {F : Halt ε → σ → Prop} (hok : ∀ a, r = some a → ∀ s, P s → Q a s)
    (herr : r = none → ∀ s, P s → F .outOfFuel s) : Ensures P (Attempt.ofFuel r) Q F := by
  intro s hs
  cases r with
  | some a => exact hok a rfl s hs
  | none => exact herr rfl s hs

theorem ofQuotient {r : Option α} {F : Halt ε → σ → Prop} (hok : ∀ a, r = some a → ∀ s, P s → Q a s)
    (herr : r = none → ∀ s, P s → F .dividedByZero s) : Ensures P (Attempt.ofQuotient r) Q F := by
  intro s hs
  cases r with
  | some a => exact hok a rfl s hs
  | none => exact herr rfl s hs

theorem modify {f : σ → σ} {Q : Unit → σ → Prop} (h : ∀ s, P s → Q () (f s)) :
    Ensures P (Attempt.modify (ε := ε) f) Q E := h

theorem bind {x : Attempt ε σ α} {f : α → Attempt ε σ β} (hx : Ensures P x Q E)
    (hf : ∀ a, Ensures (Q a) (f a) R E) : Ensures P (x >>= f) R E := by
  intro s hs
  have h := hx s hs
  rw [bind_apply]
  rcases hxs : x s with ⟨e | a, s'⟩
  · rw [hxs] at h
    exact h
  · rw [hxs] at h
    exact hf a s' h

theorem imp {x : Attempt ε σ α} (hx : Ensures P x Q E) (hP : ∀ s, P' s → P s)
    (hQ : ∀ a s, Q a s → Q' a s) (hE : ∀ e s, E e s → E' e s) : Ensures P' x Q' E' := by
  intro s hs
  have h := hx s (hP s hs)
  rcases hxs : x s with ⟨e | a, s'⟩
  · rw [hxs] at h
    exact hE e s' h
  · rw [hxs] at h
    exact hQ a s' h

theorem get_bind {f : σ → Attempt ε σ β} (hf : ∀ s, P s → Ensures (· = s) (f s) R E) :
    Ensures P (Attempt.get >>= f) R E := fun s hs => hf s hs s rfl

/-- What is known before and is not about the state stays known. -/
theorem of_and {φ : Prop} {x : Attempt ε σ α} (h : φ → Ensures P x Q E) :
    Ensures (fun s => P s ∧ φ) x Q E := fun s hs => h hs.2 s hs.1

theorem ite {c : Prop} [Decidable c] {x y : Attempt ε σ α} (hx : c → Ensures P x Q E)
    (hy : ¬ c → Ensures P y Q E) : Ensures P (if c then x else y) Q E := by
  split
  · exact hx ‹_›
  · exact hy ‹_›

theorem and {x : Attempt ε σ α} (h : Ensures P x Q E) (h' : Ensures P' x Q' E) :
    Ensures (fun s => P s ∧ P' s) x (fun a s => Q a s ∧ Q' a s) E := by
  intro s hs
  have h₁ := h s hs.1
  have h₂ := h' s hs.2
  rcases hxs : x s with ⟨e | a, s'⟩
  · rw [hxs] at h₁
    exact h₁
  · rw [hxs] at h₁ h₂
    exact ⟨h₁, h₂⟩

/-- What every pass of the body keeps, the loop keeps. -/
theorem forEach_keep {body : α → Attempt ε σ Unit} {as : List α}
    (h : ∀ a ∈ as, Ensures P (body a) (fun _ => P) E) :
    Ensures P (Attempt.forEach body as) (fun _ => P) E := by
  induction as with
  | nil => exact pure fun s hs => hs
  | cons a as ih => exact bind (h a (by simp)) fun _ => ih fun b hb => h b (by simp [hb])

/-- **The rule of loops.** What the body brings about for its element, and keeps for the others,
holds for every element when the loop has ended. -/
theorem forEach {body : α → Attempt ε σ Unit} {I : α → σ → Prop} {as : List α}
    (hkeep : ∀ a, ∀ b ∈ as, Ensures (I a) (body b) (fun _ => I a) E)
    (hbody : ∀ b ∈ as, Ensures P (body b) (fun _ s => P s ∧ I b s) E) :
    Ensures P (Attempt.forEach body as) (fun _ s => P s ∧ ∀ a ∈ as, I a s) E := by
  induction as with
  | nil => exact pure fun s hs => ⟨hs, by simp⟩
  | cons a as ih =>
    have hrest := ih (fun c b hb => hkeep c b (by simp [hb])) fun b hb => hbody b (by simp [hb])
    have hfirst : Ensures (I a) (Attempt.forEach body as) (fun _ => I a) E :=
      forEach_keep fun b hb => hkeep a b (by simp [hb])
    exact bind (hbody a (by simp)) fun _ => (hrest.and hfirst).imp (fun _ h => h)
      (fun _ s ⟨⟨hP, hall⟩, ha⟩ => ⟨hP, by simpa using ⟨ha, hall⟩⟩) fun _ _ h => h

end Ensures

end Attempt

end CartaZarr
