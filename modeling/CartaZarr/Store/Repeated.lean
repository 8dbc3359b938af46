import CartaZarr.Store.Grounded

/-!
# Answers that are given again

`Repeats names p x` says of a computation that an answer of it with `p` is given again in every
later session, and without a read, where the nodes that are named had been settled before. Such
answers compose (`Repeats.bind`): what a failed read can have to do with them was an answer to be
asked again, and those are the ones that `p` leaves out. A run without a read has no failed read to
excuse it, so that what is given again is right (`Right.of_repeats`).
-/

namespace CartaZarr.Store

variable {store : Store} {outages : Outages} {names : List String} {α β : Type}

/-- A session that is reached, in which the nodes that are named are settled. -/
structure Told (store : Store) (outages : Outages) (names : List String) (s : Session) : Prop where
  reached : Reached store outages s
  settles : ∀ name ∈ names, Settles s name

theorem Told.later {s t : Session} (h : Told store outages names s)
    (hlater : Later store outages s t) :
    Told store outages names t :=
  ⟨h.reached.later hlater, fun name hname => (h.settles name hname).firm hlater.firm⟩

/-- An answer that is no error. -/
def IsOk {ε : Type} (r : Except ε α) : Prop := ∃ a, r = .ok a

theorem not_isOk_error {ε : Type} (e : ε) : ¬ IsOk (.error e : Except ε α) := by rintro ⟨a, ⟨⟩⟩

theorem IsOk.definite {r : Except Error α} (h : IsOk r) : askAgain r = false := by
  obtain ⟨a, rfl⟩ := h
  rfl

/-- A computation that makes requests, an answer of which with `p` is given again from then on,
without a read. -/
structure Repeats (store : Store) (outages : Outages) (names : List String) (p : α → Prop)
    (x : StateM Session α) :
    Prop where
  moves : Moves (Later store outages) x
  again : ∀ s, Told store outages names s → p (x s).1 →
    ∀ t, Later store outages (x s).2 t → x t = ((x s).1, t)

namespace Repeats

variable {p : α → Prop} {q : β → Prop} {x : StateM Session α} {f : α → StateM Session β}

theorem pure (a : α) : Repeats store outages names p (Pure.pure a) :=
  ⟨Moves.pure a, fun _ _ _ _ _ => rfl⟩

theorem imp {p' : α → Prop} (h : Repeats store outages names p x) (himp : ∀ a, p' a → p a) :
    Repeats store outages names p' x := ⟨h.moves, fun s hs hp => h.again s hs (himp _ hp)⟩

/-- What the end of a computation needs to be given again is. -/
theorem bind_left (hx : Repeats store outages names p x)
    (hrest : ∀ a, Moves (Later store outages) (f a))
    (hback : ∀ a s, q (f a s).1 → p a) {s t : Session} (hs : Told store outages names s)
    (hq : q ((x >>= f) s).1)
    (ht : Later store outages ((x >>= f) s).2 t) : x t = ((x s).1, t) :=
  hx.again s hs (hback _ _ hq) t ((hrest _ _).trans ht)

/-- Go on after an answer, where what is given again in the end needs it to be. -/
theorem bind (hx : Repeats store outages names p x) (hf : ∀ a, Repeats store outages names q (f a))
    (hback : ∀ a s, q (f a s).1 → p a) : Repeats store outages names q (x >>= f) := by
  refine ⟨hx.moves.bind fun a => (hf a).moves, fun s hs hq t ht => ?_⟩
  have hagain : f (x s).1 t = ((f (x s).1 (x s).2).1, t) :=
    (hf _).again _ (hs.later (hx.moves s)) hq t ht
  change f (x t).1 (x t).2 = _
  rw [hx.bind_left (fun a => (hf a).moves) hback hs hq ht]
  exact hagain

/-- Go on after an answer that is given again whatever it is. -/
theorem andThen (hx : Repeats store outages names (fun _ => True) x)
    (hf : ∀ a, Repeats store outages names q (f a)) :
    Repeats store outages names q (x >>= f) := hx.bind hf fun _ _ _ => trivial

/-- An error ends it. -/
theorem bindOk {ε ε' : Type} {x : StateM Session (Except ε α)}
    {f : Except ε α → StateM Session (Except ε' β)}
    (hx : Repeats store outages names IsOk x)
    (herror : ∀ e, ∃ e', f (.error e) = Pure.pure (.error e'))
    (hf : ∀ a, Repeats store outages names IsOk (f (.ok a))) :
    Repeats store outages names IsOk (x >>= f) := by
  refine hx.bind (fun r => ?_) fun r s hr => ?_
  · cases r with
    | error e =>
      obtain ⟨e', he⟩ := herror e
      rw [he]
      exact pure _
    | ok a => exact hf a
  · cases r with
    | error e =>
      obtain ⟨e', he⟩ := herror e
      rw [he] at hr
      exact absurd hr (not_isOk_error e')
    | ok a => exact ⟨a, rfl⟩

end Repeats

theorem bind_run {x : StateM Session α} {f : α → StateM Session β} {a : α} {s s' : Session}
    (h : x s = (a, s')) :
    (x >>= f) s = f a s' := by
  change f (x s).1 (x s).2 = _
  rw [h]

/-- A run that ends well went well at first. -/
theorem exists_of_bind_ok {ε ε' : Type} {x : StateM Session (Except ε α)}
    {f : Except ε α → StateM Session (Except ε' β)} {s : Session} {b : β}
    (h : ((x >>= f) s).1 = .ok b)
    (herror : ∀ e, ∃ e', f (.error e) = Pure.pure (.error e')) :
    ∃ a, (x s).1 = .ok a ∧ (x >>= f) s = f (.ok a) (x s).2 := by
  have hrun : (x >>= f) s = f (x s).1 (x s).2 := rfl
  rw [hrun] at h ⊢
  cases hx : (x s).1 with
  | error e =>
    obtain ⟨e', he⟩ := herror e
    rw [hx, he] at h
    cases h
  | ok a => exact ⟨a, rfl, rfl⟩

/-- **What is given again is right**: no read that was made for it can have failed. -/
theorem Right.of_repeats {right : α → β → Prop} {x : StateM Session α} {y : β} {s : Session}
    (h : store.Right outages right x y) (hsound : store.Sound True (x s).2)
    (hagain : x (x s).2 = ((x s).1, (x s).2)) : right (x s).1 y := by
  obtain ⟨-, -, hfails | hright⟩ := h _ hsound
  · obtain ⟨n, hle, hlt, -⟩ := hfails
    rw [hagain] at hlt
    exact absurd hlt (not_lt.2 hle)
  · rwa [hagain] at hright

/-! ## What a store is asked for -/

/-- What a table remembers it gives again, unless it is to be asked again. -/
theorem repeats_remember {κ : Type} {table : Session → Memo κ (Except Error α)}
    {keep : Session → κ → Except Error α → Session} {key : κ}
    {compute : StateM Session (Except Error α)}
    (hfirm : ∀ {s t : Session}, s.Firm t → (table s).Firm askAgain (table t))
    (hkeep : ∀ s answer, (table (keep s key answer) key).getLast? = some answer)
    (hmoves : Moves (Later store outages) (remember table keep askAgain key compute)) :
    Repeats store outages names (askAgain · = false)
      (remember table keep askAgain key compute) := by
  refine ⟨hmoves, fun s _ hagain t ht => ?_⟩
  have hlast := getLast?_remember table keep askAgain key compute s hkeep
  exact remember_of_current _ _ _ (hfirm ht.firm _ _ hlast hagain ▸ hlast) hagain

theorem repeats_readArrayMetadata (node : String) :
    Repeats store outages names (askAgain · = false) (store.readArrayMetadata outages node) :=
  repeats_remember Session.Firm.arrayMetadata (fun s => Memo.getLast?_push_self s.arrayMetadata _)
    (later_readArrayMetadata node)

theorem repeats_verifyArray (node : String) :
    Repeats store outages names IsOk (store.verifyArray outages node) :=
  (repeats_remember Session.Firm.verifiedArrays
    (fun s => Memo.getLast?_push_self s.verifiedArrays _)
    (later_verifyArray node)).imp fun _ => IsOk.definite

theorem repeats_inventory : Repeats store outages names IsOk (store.inventory outages) :=
  (repeats_remember Session.Firm.inventory getLast?_keepInventory later_inventory).imp fun _ =>
    IsOk.definite

theorem repeats_readNumericArray (node : String) :
    Repeats store outages names IsOk (store.readNumericArray outages node) :=
  (repeats_remember Session.Firm.doubleArrays (fun s => Memo.getLast?_push_self s.doubleArrays _)
    (moves_request (.numericArray node) fun _ => rfl)).imp fun _ => IsOk.definite

theorem repeats_readStringArray1D (node : String) :
    Repeats store outages names IsOk (store.readStringArray1D outages node) := by
  have hmoves : Moves (Later store outages) (store.readStringArray1D outages node) :=
    moves_request (.stringArray node) fun _ => rfl
  unfold readStringArray1D at hmoves ⊢
  split at hmoves
  · exact Repeats.pure _
  · exact (repeats_remember Session.Firm.stringArrays
      (fun s => Memo.getLast?_push_self s.stringArrays _) hmoves).imp
      fun _ => IsOk.definite

/-- A node is found again that was found. -/
theorem repeats_findNode (name : String) :
    Repeats store outages names (fun found => found.isSome = true)
      (store.findNode outages name) := by
  refine repeats_inventory.bind (fun r => ?_) fun r s hsome => ?_
  · cases r <;> exact Repeats.pure _
  · cases r with
    | error e => cases hsome
    | ok entries => exact ⟨entries, rfl⟩

/-- The document of a node that is settled. -/
theorem repeats_readNodeMetadata {node : String} (h : node ∈ names) :
    Repeats store outages names (fun _ => True) (store.readNodeMetadata outages node) := by
  refine ⟨later_readNodeMetadata node, fun s hs _ => ?_⟩
  obtain ⟨document, hlast⟩ := (hs.settles node h).document
  have hok : (store.readNodeMetadata outages node s).1 = .ok document := by
    rw [readNodeMetadata_eq]
    exact congrArg Prod.fst (remember_of_current _ _ _ hlast rfl)
  have hmoves : Moves (Later store outages) (store.readNodeMetadata outages node) :=
    later_readNodeMetadata node
  rw [readNodeMetadata_eq] at hok hmoves ⊢
  exact (repeats_remember Session.Firm.nodeMetadata
    (fun s => Memo.getLast?_push_self s.nodeMetadata _) hmoves).again s hs
    (by rw [hok]; rfl)

/-- Its metadata. -/
theorem repeats_readSettledArray {node : String} (h : node ∈ names) :
    Repeats store outages names (fun _ => True) (store.readArrayMetadata outages node) := by
  refine ⟨later_readArrayMetadata node, fun s hs _ => ?_⟩
  obtain ⟨image, hlast⟩ := (hs.settles node h).array
  have hok : (store.readArrayMetadata outages node s).1 = .ok image :=
    congrArg Prod.fst (remember_of_current _ _ _ hlast rfl)
  exact (repeats_readArrayMetadata node).again s hs (by rw [hok]; rfl)

end CartaZarr.Store
