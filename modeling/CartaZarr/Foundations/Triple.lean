import CartaZarr.Foundations.Memo

/-!
# Before and after

`Triple p x q` says of a computation over a state that it leaves `q`, from every state with `p`.
Triples compose (`Triple.bind`), and what survives every move of the state survives a computation
that makes no other (`Triple.frame`). What is kept of a table that remembers answers is kept by
computing one and putting it in where there is none for good (`Triple.remember`).
-/

namespace CartaZarr

/-- From a state with `p`, a computation returns a value and leaves a state that `q` relates. -/
def Triple {σ α : Type} (p : σ → Prop) (x : StateM σ α) (q : α → σ → Prop) : Prop :=
  ∀ s, p s → q (x s).1 (x s).2

namespace Triple

variable {σ α β : Type} {p : σ → Prop} {q : α → σ → Prop} {r : β → σ → Prop} {x : StateM σ α}

theorem pure {a : α} (h : ∀ s, p s → q a s) : Triple p (Pure.pure a) q := h

theorem bind {f : α → StateM σ β} (hx : Triple p x q) (hf : ∀ a, Triple (q a) (f a) r) :
    Triple p (x >>= f) r :=
  fun s hs => hf _ _ (hx s hs)

theorem imp {p' : σ → Prop} {q' : α → σ → Prop} (h : Triple p x q) (hp : ∀ s, p' s → p s)
    (hq : ∀ a s, q a s → q' a s) : Triple p' x q' := fun s hs => hq _ _ (h s (hp s hs))

/-- What survives the moves of a computation is still there after it. -/
theorem frame {m : σ → σ → Prop} {k : σ → Prop} (h : Triple p x q) (hmoves : Moves m x)
    (hkeep : ∀ s t, m s t → k s → k t) : Triple (fun s => p s ∧ k s) x (fun a s => q a s ∧ k s) :=
  fun s hs => ⟨h s hs.1, hkeep s _ (hmoves s) hs.2⟩

/-- Computing an answer leaves the current one of its key alone, and keeping it is told what the
answer rests on. -/
theorem remember {κ : Type} {table : σ → Memo κ α} {keep : σ → κ → α → σ}
    {again : α → Bool} {key : κ}
    (hleaves : ∀ s, table (x s).2 key = table s key) (hx : Triple p x q)
    (hkeep : ∀ s a, (∀ b, (table s key).getLast? = some b → again b = true) →
      q a s → p (keep s key a)) :
    Triple p (CartaZarr.remember table keep again key x) fun _ s => p s := by
  intro s hs
  obtain h | ⟨hopen, h⟩ := remember_state table keep again key x s
  · rw [h]
    exact hs
  · rw [h]
    exact hkeep _ _ (by rwa [hleaves]) (hx s hs)

end Triple

end CartaZarr
