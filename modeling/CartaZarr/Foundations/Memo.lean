import Mathlib.Data.List.Basic
import Mathlib.Logic.Function.Basic
import Mathlib.Order.Defs.Unbundled
import Mathlib.Tactic.Common

/-!
# Tables that remember answers

`Memo κ α` keeps the answers computed for each key, in the order they were computed; the last is the
current one, and an answer is never replaced. `remember` hands back the current answer of a key, and
computes one more where there is none or the current one is to be asked `again`.

`Refines sound ext x y` says what a computation over a state is to be held to: it keeps `sound`,
moves the state along `ext`, and returns an answer that is to be asked again or stands for `y`. A
table whose answers are so held gives back answers that are (`Refines.remember`), and computations
that are so held compose (`Refines.bind`). `RefinesUnless` holds a computation to `y` itself, unless
what happened on its way excuses it: a table gives back nothing that is to be asked again, so that
it needs no other excuse than the computation (`RefinesUnless.remember`).
-/

namespace CartaZarr

/-- The answers computed for each key, the last the current one. -/
abbrev Memo (κ α : Type) : Type := κ → List α

namespace Memo

variable {κ α : Type}

def empty : Memo κ α := fun _ => []

/-- A table with at least the answers of another, in the same places. -/
def Extends (memo memo' : Memo κ α) : Prop := ∀ key, memo key <+: memo' key

theorem Extends.refl (memo : Memo κ α) : memo.Extends memo := fun _ => List.prefix_rfl

theorem Extends.trans {a b c : Memo κ α} (h : a.Extends b) (h' : b.Extends c) : a.Extends c :=
  fun key => (h key).trans (h' key)

/-- A table in which the answers that are not to be asked again are the last of their keys still. -/
def Firm (again : α → Bool) (memo memo' : Memo κ α) : Prop :=
  ∀ key answer, (memo key).getLast? = some answer → again answer = false → memo' key = memo key

theorem Firm.refl (again : α → Bool) (memo : Memo κ α) : memo.Firm again memo := fun _ _ _ _ => rfl

theorem Firm.trans {again : α → Bool} {a b c : Memo κ α} (h : a.Firm again b)
    (h' : b.Firm again c) :
    a.Firm again c := by
  intro key answer hlast hagain
  have hsame := h key answer hlast hagain
  rw [h' key answer (hsame ▸ hlast) hagain, hsame]

variable [DecidableEq κ]

/-- One answer more. -/
def push (memo : Memo κ α) (key : κ) (value : α) : Memo κ α :=
  Function.update memo key (memo key ++ [value])

/-- Put an answer in that was not computed here, unless there is one. -/
def insert (memo : Memo κ α) (key : κ) (value : α) : Memo κ α :=
  if memo key = [] then push memo key value else memo

theorem extends_push (memo : Memo κ α) (key : κ)
    (value : α) : memo.Extends (memo.push key value) := by
  intro k
  rw [push]
  by_cases h : k = key
  · subst h
    rw [Function.update_self]
    exact List.prefix_append _ _
  · have hsame : Function.update memo key (memo key ++ [value]) k = memo k :=
      Function.update_of_ne h _ _
    exact hsame ▸ List.prefix_rfl

theorem push_self (memo : Memo κ α) (key : κ) (value : α) :
    memo.push key value key = memo key ++ [value] := Function.update_self _ _ _

theorem getLast?_push_self (memo : Memo κ α) (key : κ) (value : α) :
    (memo.push key value key).getLast? = some value := by
  rw [push_self, List.getLast?_append, List.getLast?_singleton, Option.some_or]

theorem mem_push {memo : Memo κ α} {key k : κ} {value a : α} (h : a ∈ memo.push key value k) :
    a ∈ memo k ∨ k = key ∧ a = value := by
  rw [push] at h
  by_cases hk : k = key
  · subst hk
    rw [Function.update_self, List.mem_append, List.mem_singleton] at h
    exact h.imp_right fun h => ⟨rfl, h⟩
  · rw [Function.update_of_ne hk] at h
    exact .inl h

/-- Another answer supersedes one that is to be asked again. -/
theorem firm_push {again : α → Bool} {memo : Memo κ α} {key : κ}
    (h : ∀ answer, (memo key).getLast? = some answer → again answer = true) (value : α) :
    memo.Firm again (memo.push key value) := by
  intro k answer hlast hagain
  have hne : k ≠ key := by
    rintro rfl
    rw [h answer hlast] at hagain
    cases hagain
  exact Function.update_of_ne hne _ _

end Memo

section Recall

variable {σ κ α : Type}

/-- The current answer of a key, computed where there is none or it is to be asked again. `table`
finds the table in the state, and `keep` puts one answer more in it. -/
def remember (table : σ → Memo κ α) (keep : σ → κ → α → σ) (again : α → Bool) (key : κ)
    (compute : StateM σ α) : StateM σ α := fun s =>
  match (table s key).getLast? with
  | some answer => if again answer then
      let result := compute s
      (result.1, keep result.2 key result.1)
    else (answer, s)
  | none =>
    let result := compute s
    (result.1, keep result.2 key result.1)

variable (table : σ → Memo κ α) (keep : σ → κ → α → σ) (again : α → Bool) (key : κ)
  (compute : StateM σ α) (s : σ)

/-- An answer that is not to be asked again is handed back as it is, and nothing changes. -/
theorem remember_of_current {table : σ → Memo κ α} {key : κ} {s : σ} {answer : α}
    (h : (table s key).getLast? = some answer) (hagain : again answer = false) :
    remember table keep again key compute s = (answer, s) := by
  rw [remember, h]
  simp [hagain]

/-- What remembering does: hand back an answer there is, or compute one more and keep it. -/
theorem remember_cases :
    (∃ answer ∈ table s key, again answer = false ∧
      remember table keep again key compute s = (answer, s)) ∨
    remember table keep again key compute s =
      ((compute s).1, keep (compute s).2 key (compute s).1) := by
  cases h : (table s key).getLast? with
  | none => exact .inr (by rw [remember, h])
  | some answer =>
    cases hagain : again answer with
    | true => exact .inr (by rw [remember, h]; simp [hagain])
    | false =>
      exact .inl ⟨answer, List.mem_of_getLast? h, hagain,
        remember_of_current keep again compute h hagain⟩

/-- What is handed back is the current answer from then on. -/
theorem getLast?_remember
    (hkeep : ∀ s answer, (table (keep s key answer) key).getLast? = some answer) :
    (table (remember table keep again key compute s).2 key).getLast? =
      some (remember table keep again key compute s).1 := by
  cases h : (table s key).getLast? with
  | none => simp only [remember, h, hkeep]
  | some answer =>
    cases hagain : again answer with
    | true => simp only [remember, h, hagain, if_true, hkeep]
    | false => rw [remember_of_current keep again compute h hagain, h]

/-- What is handed back is to be asked again only where what is computed is. -/
theorem again_remember (hcompute : again (compute s).1 = false) :
    again (remember table keep again key compute s).1 = false := by
  obtain ⟨_, -, hagain, h⟩ | h := remember_cases table keep again key compute s
  · rw [h]
    exact hagain
  · rw [h]
    exact hcompute

/-- What is true of the answers there are and of what is computed is true of what is handed back. -/
theorem remember_answer {p : α → Prop}
    (htable : ∀ answer ∈ table s key, again answer = false → p answer)
    (hcompute : p (compute s).1) : p (remember table keep again key compute s).1 := by
  obtain ⟨answer, hmem, hagain, h⟩ | h := remember_cases table keep again key compute s
  · rw [h]
    exact htable answer hmem hagain
  · rw [h]
    exact hcompute

/-- What remembering does to the state: nothing, or it computes an answer and keeps it where the one
there was is to be asked again. -/
theorem remember_state :
    (remember table keep again key compute s).2 = s ∨
    (∀ answer, (table s key).getLast? = some answer → again answer = true) ∧
      (remember table keep again key compute s).2 = keep (compute s).2 key (compute s).1 := by
  cases h : (table s key).getLast? with
  | none => exact .inr ⟨nofun, by rw [remember, h]⟩
  | some answer =>
    cases hagain : again answer with
    | true =>
      refine .inr ⟨?_, by rw [remember, h]; simp [hagain]⟩
      rintro _ ⟨⟩
      exact hagain
    | false => exact .inl (by rw [remember_of_current keep again compute h hagain])

/-- What neither computing an answer nor keeping it changes is as it was. -/
theorem remember_keeps {ρ : Type} {part : σ → ρ}
    (hkeep : ∀ s answer, part (keep s key answer) = part s)
    (hcompute : ∀ s, part (compute s).2 = part s) :
    part (remember table keep again key compute s).2 = part s := by
  obtain ⟨_, -, -, h⟩ | h := remember_cases table keep again key compute s
  · rw [h]
  · rw [h, hkeep, hcompute]

end Recall

/-- A computation that moves the state along a relation. -/
def Moves {σ α : Type} (r : σ → σ → Prop) (x : StateM σ α) : Prop := ∀ s, r s (x s).2

namespace Moves

variable {σ α β : Type} {r : σ → σ → Prop}

theorem mono {r' : σ → σ → Prop} {x : StateM σ α} (h : Moves r x)
    (himp : ∀ s s', r s s' → r' s s') :
    Moves r' x := fun s => himp s _ (h s)

variable [IsPreorder σ r]

theorem pure (a : α) : Moves r (Pure.pure a) := fun s => refl_of r s

theorem bind {x : StateM σ α} {f : α → StateM σ β} (hx : Moves r x) (hf : ∀ a, Moves r (f a)) :
    Moves r (x >>= f) := fun s => trans_of r (hx s) (hf _ _)

end Moves

/-- A computation keeps what is sound of the state, moves it along, and returns an answer that is to
be asked again or stands for another. -/
def Refines {σ α β : Type} (sound : σ → Prop) (ext : σ → σ → Prop) (stands : α → β → Prop)
    (x : StateM σ α) (y : β) : Prop :=
  ∀ s, sound s → sound (x s).2 ∧ ext s (x s).2 ∧ stands (x s).1 y

namespace Refines

variable {σ α β γ δ : Type} {sound : σ → Prop} {ext : σ → σ → Prop}

theorem pure (hrefl : ∀ s, ext s s) {stands : α → β → Prop} {a : α} {b : β} (h : stands a b) :
    Refines sound ext stands (Pure.pure a) b :=
  fun s hs => ⟨hs, hrefl s, h⟩

/-- Go on after a computation, from whatever it stands for. -/
theorem bind {stands : α → β → Prop} {stands' : γ → δ → Prop} {x : StateM σ α} {y : β}
    {f : α → StateM σ γ} {z : δ} (hx : Refines sound ext stands x y)
    (htrans : ∀ a b c, ext a b → ext b c → ext a c)
    (hf : ∀ a, stands a y → Refines sound ext stands' (f a) z) :
    Refines sound ext stands' (x >>= f) z := by
  intro s hs
  obtain ⟨hsound, hext, ha⟩ := hx s hs
  obtain ⟨hsound', hext', hc⟩ := hf _ ha _ hsound
  exact ⟨hsound', htrans _ _ _ hext hext', hc⟩

/-- A table whose answers stand for what they should gives back one that does. -/
theorem remember {κ : Type} {stands : α → β → Prop} {table : σ → Memo κ α}
    {keep : σ → κ → α → σ} {again : α → Bool} {key : κ} {compute : StateM σ α} {y : β}
    (hrefl : ∀ s, ext s s) (htrans : ∀ a b c, ext a b → ext b c → ext a c)
    (htable : ∀ s, sound s → ∀ answer ∈ table s key, stands answer y)
    (hkeep : ∀ s answer, sound s → stands answer y → sound (keep s key answer))
    (hext : ∀ s answer, ext s (keep s key answer))
    (hcompute : Refines sound ext stands compute y) :
    Refines sound ext stands (CartaZarr.remember table keep again key compute) y := by
  intro s hs
  obtain ⟨answer, hmem, -, h⟩ | h := remember_cases table keep again key compute s
  · rw [h]
    exact ⟨hs, hrefl s, htable s hs answer hmem⟩
  · obtain ⟨hsound, hmoved, hstands⟩ := hcompute s hs
    rw [h]
    exact ⟨hkeep _ _ hsound hstands, htrans _ _ _ hmoved (hext _ _), hstands⟩

end Refines

/-- A computation keeps what is sound of the state, moves it along, and returns an answer that
stands for another, unless it is excused by what it went through. -/
def RefinesUnless {σ α β : Type} (sound : σ → Prop) (ext excused : σ → σ → Prop)
    (stands : α → β → Prop)
    (x : StateM σ α) (y : β) : Prop :=
  ∀ s, sound s → sound (x s).2 ∧ ext s (x s).2 ∧ (excused s (x s).2 ∨ stands (x s).1 y)

namespace RefinesUnless

variable {σ α β γ δ : Type} {sound : σ → Prop} {ext excused : σ → σ → Prop} {stands : α → β → Prop}

theorem pure (hrefl : ∀ s, ext s s) {a : α} {b : β} (h : stands a b) :
    RefinesUnless sound ext excused stands (Pure.pure a) b :=
  fun s hs => ⟨hs, hrefl s, .inr h⟩

theorem mono {stands' : α → γ → Prop} {x : StateM σ α} {y : β} {z : γ}
    (hx : RefinesUnless sound ext excused stands x y) (h : ∀ a, stands a y → stands' a z) :
    RefinesUnless sound ext excused stands' x z := by
  intro s hs
  obtain ⟨hsound, hext, ha⟩ := hx s hs
  exact ⟨hsound, hext, ha.imp_right (h _)⟩

/-- Go on after a computation: what excuses a part excuses the whole. -/
theorem bind {stands' : γ → δ → Prop} {x : StateM σ α} {y : β} {f : α → StateM σ γ} {z : δ}
    (hx : RefinesUnless sound ext excused stands x y)
    (htrans : ∀ a b c, ext a b → ext b c → ext a c)
    (hleft : ∀ a b c, excused a b → ext b c → excused a c)
    (hright : ∀ a b c, ext a b → excused b c → excused a c)
    (hmoves : ∀ a s, sound s → sound (f a s).2 ∧ ext s (f a s).2)
    (hf : ∀ a, stands a y → RefinesUnless sound ext excused stands' (f a) z) :
    RefinesUnless sound ext excused stands' (x >>= f) z := by
  intro s hs
  obtain ⟨hsound, hext, ha⟩ := hx s hs
  rcases ha with hexcused | ha
  · obtain ⟨hsound', hext'⟩ := hmoves (x s).1 _ hsound
    exact ⟨hsound', htrans _ _ _ hext hext', .inl (hleft _ _ _ hexcused hext')⟩
  · obtain ⟨hsound', hext', hc⟩ := hf _ ha _ hsound
    exact ⟨hsound', htrans _ _ _ hext hext', hc.imp_left (hright _ _ _ hext)⟩

/-- A table whose answers stand for what they should, where they are not to be asked again, gives
back one that does, or computes it. -/
theorem remember {κ : Type} {table : σ → Memo κ α} {keep : σ → κ → α → σ}
    {again : α → Bool} {key : κ}
    {compute : StateM σ α} {y : β}
    (hmoves : ∀ s, sound s → sound (CartaZarr.remember table keep again key compute s).2 ∧
      ext s (CartaZarr.remember table keep again key compute s).2)
    (htable : ∀ s, sound s → ∀ answer ∈ table s key, again answer = false → stands answer y)
    (hkeep : ∀ s t answer, excused s t → excused s (keep t key answer))
    (hcompute : ∀ s, sound s → excused s (compute s).2 ∨ stands (compute s).1 y) :
    RefinesUnless sound ext excused stands (CartaZarr.remember table keep again key compute) y := by
  intro s hs
  refine ⟨(hmoves s hs).1, (hmoves s hs).2, ?_⟩
  obtain ⟨answer, hmem, hagain, h⟩ | h := remember_cases table keep again key compute s
  · rw [h]
    exact .inr (htable s hs answer hmem hagain)
  · rw [h]
    exact (hcompute s hs).imp_left (hkeep s _ _)

end RefinesUnless

end CartaZarr
