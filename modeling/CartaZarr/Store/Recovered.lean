import CartaZarr.Store.Remembered

/-!
# A store recovers

A read that fails to be made is the only excuse for an answer that is wrong, and only for the
answers it was made for: what failed before is asked again. An answer none of whose own reads failed
is the one of a store that is always read, whatever failed in its session before
(`recovered_answers`); a session whose reads are made again answers as if none had ever failed.
-/

namespace CartaZarr

/-- A read that was made between two sessions failed. -/
def Outages.FailBetween (outages : Outages) (s t : Session) : Prop :=
  ∃ n, s.reads ≤ n ∧ n < t.reads ∧ outages n ≠ none

namespace Store

variable {store : Store} {outages : Outages}

/-- A computation keeps a session sound, and forgets nothing. -/
def Keeps {α : Type} (store : Store) (x : StateM Session α) : Prop :=
  ∀ s, store.Sound True s → store.Sound True (x s).2 ∧ s.Extends (x s).2

/-- What a computation returns is right, unless a read it made failed. -/
abbrev Right {α β : Type} (store : Store) (outages : Outages) (right : α → β → Prop)
    (x : StateM Session α)
    (y : β) : Prop :=
  RefinesUnless (store.Sound True) Session.Extends outages.FailBetween right x y

/-- Of whatever a computation returns a predicate holds. -/
def Yields {α : Type} (p : α → Prop) (x : StateM Session α) : Prop := ∀ s, p (x s).1

/-- An answer is right that is another up to how nodes are spelled. -/
def SameAnswer {α : Type} [Unname α] (a b : α) : Prop := unname a = unname b

section SameAnswer

variable {α : Type} [Unname α] {r : Except Error α}

theorem SameAnswer.symm {a b : α} (h : SameAnswer a b) : SameAnswer b a := Eq.symm h

theorem SameAnswer.exists_error {e : Error} (h : SameAnswer (.error e) r) : ∃ e', r = .error e' ∧
    SameAnswer e e' := by
  cases r with
  | error e' => exact ⟨e', rfl, Except.error.inj h⟩
  | ok a => cases h

theorem SameAnswer.exists_ok {a : α} (h : SameAnswer (.ok a) r) : ∃ a', r = .ok a' ∧
    SameAnswer a a' := by
  cases r with
  | error e => cases h
  | ok a' => exact ⟨a', rfl, Except.ok.inj h⟩

theorem SameAnswer.ok [Plain α] {a : α} (h : SameAnswer (.ok a) r) : r = .ok a := by
  obtain ⟨a', rfl, hsame⟩ := h.exists_ok
  rw [SameAnswer, Plain.unname_eq, Plain.unname_eq] at hsame
  rw [hsame]

/-- An error is the same whatever was asked for. -/
theorem SameAnswer.error {β : Type} [Unname β] {e e' : Error} (h : SameAnswer e e') :
    SameAnswer (.error e : Except Error β) (.error e') :=
  congrArg Except.error h

theorem SameAnswer.code {e e' : Error} (h : SameAnswer e e') : e.code = e'.code := by
  have hcode : (unname e).code = (unname e').code := congrArg Error.code h
  exact hcode

end SameAnswer

section Rules

variable {α β γ δ : Type} {right : α → β → Prop} {x : StateM Session α} {y : β}

theorem Keeps.pure (a : α) : store.Keeps (Pure.pure a) := fun s hs => ⟨hs, .refl s⟩

theorem Keeps.bind {f : α → StateM Session γ} (hx : store.Keeps x) (hf : ∀ a, store.Keeps (f a)) :
    store.Keeps (x >>= f) := by
  intro s hs
  obtain ⟨hsound, hext⟩ := hx s hs
  obtain ⟨hsound', hext'⟩ := hf _ _ hsound
  exact ⟨hsound', hext.trans hext'⟩

theorem Right.keeps (h : store.Right outages right x y) : store.Keeps x :=
  fun s hs => ⟨(h s hs).1, (h s hs).2.1⟩

theorem Gives.keeps [Unname α] {x : StateM Session (Except Error α)} {y : Except Error α}
    (h : store.Gives True x y) : store.Keeps x :=
  fun s hs => ⟨(h s hs).1, (h s hs).2.1⟩

theorem Right.pure {a : α} {b : β} (h : right a b) : store.Right outages right (Pure.pure a) b :=
  RefinesUnless.pure Session.Extends.refl h

theorem Right.bind {right' : γ → δ → Prop} {f : α → StateM Session γ} {z : δ}
    (hx : store.Right outages right x y) (hkeeps : ∀ a, store.Keeps (f a))
    (hf : ∀ a, right a y → store.Right outages right' (f a) z) :
    store.Right outages right' (x >>= f) z := by
  refine RefinesUnless.bind hx (fun _ _ _ => Session.Extends.trans) ?_ ?_ hkeeps hf
  · rintro a b c ⟨n, hle, hlt, hfails⟩ hext
    exact ⟨n, hle, hlt.trans_le hext.reads, hfails⟩
  · rintro a b c hext ⟨n, hle, hlt, hfails⟩
    exact ⟨n, hext.reads.trans hle, hlt, hfails⟩

theorem Right.and {p : α → Prop} (h : store.Right outages right x y) (hp : Yields p x) :
    store.Right outages (fun a b => right a b ∧ p a) x y :=
  fun s hs => ⟨(h s hs).1, (h s hs).2.1, (h s hs).2.2.imp_right fun hright => ⟨hright, hp s⟩⟩

theorem Yields.pure {p : α → Prop} {a : α} (h : p a) : Yields p (Pure.pure a) := fun _ => h

theorem Yields.bind_of {p : α → Prop} {q : γ → Prop} {f : α → StateM Session γ} (hx : Yields p x)
    (hf : ∀ a, p a → Yields q (f a)) : Yields q (x >>= f) := fun s => hf _ (hx s) (x s).2

theorem Yields.bind {q : γ → Prop} {f : α → StateM Session γ}
    (hf : ∀ a, Yields q (f a)) : Yields q (x >>= f) :=
  fun s => hf _ (x s).2

/-- What is returned is what a predicate says, and nothing where it says nothing. -/
def Tells {ε : Type} (r : Except ε α) (p : α → Prop) : Prop := ∀ a, r = .ok a ↔ p a

theorem Right.tells_congr {ε : Type} {x : StateM Session (Except ε α)} {p q : α → Prop}
    (h : store.Right outages Tells x p) (hpq : ∀ a, p a ↔ q a) : store.Right outages Tells x q :=
  h.mono fun _ hr a => (hr a).trans (hpq a)

/-- An answer that is right says what the store answers. -/
theorem Right.tells [Unname α] [Plain α] {x : StateM Session (Except Error α)} {y : Except Error α}
    (h : store.Right outages SameAnswer x y) :
    store.Right outages Tells x (fun a => y = .ok a) := by
  refine h.mono fun r hr a => ⟨?_, fun ha => ?_⟩
  · rintro rfl
    exact hr.ok
  · subst ha
    obtain ⟨a', rfl, hsame⟩ := hr.symm.exists_ok
    rw [SameAnswer, Plain.unname_eq, Plain.unname_eq] at hsame
    rw [hsame]

/-- What comes of going on with what was returned. -/
theorem Right.bindOk {ε ε' : Type} {x : StateM Session (Except ε α)} {p : α → Prop}
    {f : Except ε α → StateM Session (Except ε' γ)} {q : α → γ → Prop}
    (hx : store.Right outages Tells x p)
    (herror : ∀ e, ∃ e', f (.error e) = Pure.pure (.error e'))
    (hkeeps : ∀ a, store.Keeps (f (.ok a)))
    (hf : ∀ a, p a → store.Right outages Tells (f (.ok a)) (q a)) :
    store.Right outages Tells (x >>= f) (fun c => ∃ a, p a ∧ q a c) := by
  refine hx.bind (fun r => ?_) fun r hr => ?_
  · cases r with
    | error e =>
      obtain ⟨e', he⟩ := herror e
      rw [he]
      exact Keeps.pure _
    | ok a => exact hkeeps a
  · cases r with
    | error e =>
      obtain ⟨e', he⟩ := herror e
      rw [he]
      refine Right.pure fun c => iff_of_false (by simp) ?_
      rintro ⟨a, ha, -⟩
      cases (hr a).2 ha
    | ok a =>
      refine (hf a ((hr a).1 rfl)).mono fun r' hr' c =>
        (hr' c).trans ⟨fun h => ⟨a, (hr a).1 rfl, h⟩, ?_⟩
      rintro ⟨a', ha', h⟩
      obtain rfl := Except.ok.inj ((hr a').2 ha')
      exact h

/-- Go on with what was answered, unless it is an error. -/
theorem Right.andThen {α β : Type} [Unname α] [Unname β] [Plain α]
    {x : StateM Session (Except Error α)}
    {y : Except Error α} {f : Except Error α → StateM Session (Except Error β)}
    {k : α → Except Error β}
    (hx : store.Right outages SameAnswer x y) (herror : ∀ e, f (.error e) = Pure.pure (.error e))
    (hf : ∀ a, store.Right outages SameAnswer (f (.ok a)) (k a)) :
    store.Right outages SameAnswer (x >>= f) (y >>= k) := by
  refine hx.bind (fun r => ?_) fun r hr => ?_
  · cases r with
    | error e =>
      rw [herror]
      exact Keeps.pure _
    | ok a => exact (hf a).keeps
  · cases r with
    | error e =>
      obtain ⟨e', rfl, hsame⟩ := hr.exists_error
      rw [herror]
      exact Right.pure hsame.error
    | ok a =>
      rw [hr.ok, ok_bind]
      exact hf a

end Rules

section Moves

/-! ## What asking does -/

instance : IsPreorder Session (Later store outages) where
  refl _ := .refl
  trans _ _ _ h h' := h.trans h'

theorem Later.after {s : Session}
    (request : Request) : Later store outages s (store.after outages s request) :=
  .single ⟨request, rfl⟩

/-- A request leads to a later session. -/
theorem moves_request {α : Type} {x : StateM Session α} (request : Request)
    (h : ∀ s, (x s).2 = store.after outages s request) : Moves (Later store outages) x :=
  fun s => h s ▸ Later.after request

theorem later_readNodeMetadata
    (node : String) : Moves (Later store outages) (store.readNodeMetadata outages node) :=
  moves_request (.nodeMetadata node) fun _ => rfl

theorem later_readArrayMetadata
    (node : String) : Moves (Later store outages) (store.readArrayMetadata outages node) :=
  moves_request (.arrayMetadata node) fun _ => rfl

theorem later_verifyArray (node : String) :
    Moves (Later store outages) (store.verifyArray outages node) :=
  moves_request (.verifiedArray node) fun _ => rfl

theorem later_inventory : Moves (Later store outages) (store.inventory outages) :=
  moves_request .inventory fun _ => rfl

/-- A session that comes of requests is as sound as it was. -/
theorem Keeps.of_moves {α : Type} (hfiled : store.Filed) (hout : outages.Transient True)
    {x : StateM Session α}
    (h : Moves (Later store outages) x) : store.Keeps x :=
  fun s hs => Later.extends hfiled hout hs (h s)

end Moves

section Answers

variable {α : Type} [Unname α]

theorem right_ask (hout : outages.Transient True) (answer : Except Error α) :
    store.Right outages SameAnswer (ask outages answer) answer := by
  intro s hs
  obtain ⟨hsound, hext, -⟩ := gives_ask hout answer s hs
  refine ⟨hsound, hext, ?_⟩
  rw [ask]
  dsimp only
  cases h : outages s.reads with
  | none => exact .inr rfl
  | some e => exact .inl ⟨s.reads, le_rfl, Nat.lt_succ_self _, by rw [h]; simp⟩

/-- A table of answers that stand for what they should, or are asked again, gives back right
ones. -/
theorem right_remember {κ : Type} {table : Session → Memo κ (Except Error α)}
    {keep : Session → κ → Except Error α → Session} {key : κ}
    {compute : StateM Session (Except Error α)}
    {y y' : Except Error α} (hgives :
      store.Gives True (remember table keep askAgain key compute) y')
    (htable : ∀ s, store.Sound True s → ∀ answer ∈ table s key, Stands True answer y)
    (hreads : ∀ s answer, (keep s key answer).reads = s.reads)
    (hcompute : store.Right outages SameAnswer compute y) :
    store.Right outages SameAnswer (remember table keep askAgain key compute) y := by
  refine RefinesUnless.remember hgives.keeps (fun s hs answer hmem hagain => ?_) ?_ fun s hs =>
    (hcompute s hs).2.2
  · rcases htable s hs answer hmem with ⟨-, hfails⟩ | hsame
    · rw [hagain] at hfails
      cases hfails
    · exact hsame
  · rintro s t answer ⟨n, hle, hlt, hfails⟩
    exact ⟨n, hle, (hreads t answer).symm ▸ hlt, hfails⟩

variable (hfiled : store.Filed) (hout : outages.Transient True)
include hfiled hout

theorem right_readNodeMetadata (node : String) :
    store.Right outages SameAnswer (store.readNodeMetadata outages node)
      (store.nodeAnswer node) := by
  have hgives := gives_readNodeMetadata hfiled hout node
  cases h : normalizeNodeName node with
  | error e =>
    have hanswer : store.nodeAnswer node = .error e := by rw [nodeAnswer, h]
    unfold readNodeMetadata at hgives ⊢
    rw [h] at hgives ⊢
    exact right_remember hgives (fun s hs => hs.nodeMetadata node) (fun _ _ => rfl)
      (Right.pure (congrArg unname hanswer.symm))
  | ok name =>
    cases hlookup : store.consolidated.lookup name with
    | some document =>
      intro s hs
      rw [hs.readNodeMetadata_of_copy h hlookup, nodeAnswer, h]
      dsimp only
      rw [hlookup]
      exact ⟨hs, .refl s, .inr rfl⟩
    | none =>
      have hkey : unname (store.nodeAnswer node) = unname (store.nodeAnswer name) := by
        rw [unname_nodeAnswer, cacheKey_of_ok h]
      have hanswer : store.nodeAnswer node = store.backing.readNodeBytes name >>= fun bytes =>
          store.backing.parseNodeMetadata bytes node := by
        rw [nodeAnswer, h]
        dsimp only
        rw [hlookup]
      unfold readNodeMetadata at hgives ⊢
      rw [h] at hgives ⊢
      refine right_remember hgives (fun s hs answer hmem =>
        (hs.nodeMetadata name answer hmem).of_unname hkey.symm)
        (fun _ _ => rfl) ?_
      rw [hanswer]
      exact (right_ask hout (store.backing.readNodeBytes name)).andThen (fun _ => rfl) fun bytes =>
        Right.pure rfl

theorem right_readArrayMetadata (node : String) :
    store.Right outages SameAnswer (store.readArrayMetadata outages node)
      (store.arrayAnswer node) := by
  have hkey : unname (store.arrayAnswer node) = _ := unname_arrayAnswer node
  refine right_remember (gives_readArrayMetadata hfiled hout node)
    (fun s hs answer hmem => (hs.arrayMetadata _ answer hmem).of_unname hkey.symm)
      (fun _ _ => rfl) ?_
  cases h : normalizeNodeName node with
  | error e =>
    refine Right.pure ?_
    rw [arrayAnswer, nodeAnswer, h]
    rfl
  | ok name =>
    exact (right_readNodeMetadata hfiled hout node).andThen (fun _ => rfl) fun metadata =>
      Right.pure rfl

theorem right_verifyArray (node : String) :
    store.Right outages SameAnswer (store.verifyArray outages node) (store.verifyAnswer node) := by
  refine right_remember (gives_verifyArray hfiled hout node) (fun s hs =>
    hs.verifiedArrays node) (fun _ _ => rfl) ?_
  refine (right_readArrayMetadata hfiled hout node).andThen (fun _ => rfl) fun copy => ?_
  dsimp only
  split_ifs with hmem
  · refine (right_ask hout _).bind (fun _ => Keeps.pure _) fun b hb => Right.pure ?_
    have hstands : Stands False b (store.backing.readNodeBytes (cacheKey node)) := .inr hb
    exact (stands_verifyOwn copy _ hstands).resolve_left And.left
  · exact Right.pure rfl

omit hfiled in
theorem right_nodeNames :
    store.Right outages SameAnswer (store.nodeNames outages) store.namesAnswer := by
  unfold nodeNames namesAnswer
  split_ifs
  · exact Right.pure rfl
  · exact (right_ask hout store.backing.listNodes).andThen (fun _ => rfl) fun listed =>
      Right.pure rfl

theorem right_readEntry (node : String) :
    store.Right outages SameAnswer (store.readEntry outages node) (store.entryAnswer node) := by
  refine (right_readNodeMetadata hfiled hout node).bind (fun r => ?_) fun r hr => ?_
  · cases r with
    | error e => dsimp only; split_ifs <;> exact Keeps.pure _
    | ok document =>
      dsimp only
      split
      · exact Keeps.pure _
      · exact (right_readArrayMetadata hfiled hout node).keeps.bind fun _ => Keeps.pure _
      · exact Keeps.pure _
  · cases r with
    | error e =>
      obtain ⟨e', hanswer, hsame⟩ := hr.exists_error
      rw [entryAnswer, hanswer]
      dsimp only
      rw [hsame.code]
      split_ifs
      · exact Right.pure (congrArg
          (fun e => (.ok ⟨node, .unrecognised, none, some e⟩ : Except Error NodeEntry)) hsame)
      · exact Right.pure hsame.error
    | ok document =>
      rw [entryAnswer, hr.ok]
      dsimp only
      cases nodeKind document with
      | group => exact Right.pure rfl
      | unrecognised => exact Right.pure rfl
      | array =>
        exact (right_readArrayMetadata hfiled hout node).bind (fun _ => Keeps.pure _) fun r hr =>
          Right.pure (congrArg (fun r =>
            (.ok ⟨node, .array, some r, none⟩ : Except Error NodeEntry)) hr)

theorem right_readEntries (nodes : List String) :
    store.Right outages SameAnswer (store.readEntries outages nodes)
      (nodes.mapM store.entryAnswer) := by
  induction nodes with
  | nil => exact Right.pure rfl
  | cons node nodes ih =>
    rw [List.mapM_cons, readEntries]
    refine (right_readEntry hfiled hout node).bind (fun r => ?_) fun r hr => ?_
    · cases r with
      | error e => exact Keeps.pure _
      | ok entry => exact ih.keeps.bind fun rs => by cases rs <;> exact Keeps.pure _
    · cases r with
      | error e =>
        obtain ⟨e', hanswer, hsame⟩ := hr.exists_error
        rw [hanswer]
        exact Right.pure hsame.error
      | ok entry =>
        obtain ⟨entry', hentry, hunname⟩ := hr.exists_ok
        rw [hentry, ok_bind]
        refine ih.bind (fun rs => by cases rs <;> exact Keeps.pure _) fun rs hrs => ?_
        cases rs with
        | error e =>
          obtain ⟨e', hanswers, hsame⟩ := hrs.exists_error
          rw [hanswers]
          exact Right.pure hsame.error
        | ok entries =>
          obtain ⟨entries', hentries, hunnames⟩ := hrs.exists_ok
          rw [hentries, ok_bind]
          exact Right.pure (congrArg (fun l => (.ok l : Except Error (List NodeEntry)))
            (congrArg₂ List.cons hunname hunnames))

theorem right_inventory :
    store.Right outages SameAnswer (store.inventory outages) store.inventoryAnswer := by
  refine right_remember (gives_inventory hfiled hout) (fun s hs => hs.inventory) (fun _ _ => rfl) ?_
  exact (right_nodeNames hout).andThen (fun _ => rfl) fun names => right_readEntries hfiled hout _

omit hfiled in
theorem right_resolveArrayDirectory (node : String) :
    store.Right outages SameAnswer (store.resolveArrayDirectory outages node)
      (store.directoryAnswer node) := by
  unfold resolveArrayDirectory directoryAnswer
  cases normalizeNodeName node with
  | error e => exact Right.pure rfl
  | ok name => exact right_ask hout _

theorem right_readVerified (node : String)
    {read : ArrayMetadata → String → StateM Session (Except Error α)}
    {answer : ArrayMetadata → String → Except Error α}
    (hread : ∀ own directory, store.Right outages SameAnswer (read own directory)
    (answer own directory)) :
    store.Right outages SameAnswer (store.readVerified outages node read) (do
      let own ← store.verifyAnswer node
      let directory ← store.directoryAnswer node
      answer own directory) :=
  (right_verifyArray hfiled hout node).andThen (fun _ => rfl) fun own =>
    (right_resolveArrayDirectory hout node).andThen (fun _ => rfl) fun directory =>
      hread own directory

theorem right_readNumericArray (node : String) :
    store.Right outages SameAnswer (store.readNumericArray outages node)
      (store.numericAnswer node) := by
  have hkey : unname (store.numericAnswer node) = _ := unname_numericAnswer node
  refine right_remember (gives_readNumericArray hfiled hout node)
    (fun s hs answer hmem => (hs.doubleArrays _ answer hmem).of_unname hkey.symm)
      (fun _ _ => rfl) ?_
  exact right_readVerified hfiled hout node fun own directory =>
    (right_ask hout _).andThen (fun _ => rfl) fun values => Right.pure rfl

theorem right_readStringArray1D (node : String) :
    store.Right outages SameAnswer (store.readStringArray1D outages node)
      (store.stringAnswer node) := by
  have hkey : unname (store.stringAnswer node) = _ := unname_stringAnswer node
  have hgives := gives_readStringArray1D hfiled hout node
  unfold readStringArray1D at hgives ⊢
  cases h : normalizeNodeName node with
  | error e =>
    refine Right.pure ?_
    rw [stringAnswer, verifyAnswer, arrayAnswer, nodeAnswer, h]
    rfl
  | ok name =>
    rw [h] at hgives
    rw [cacheKey_of_ok h] at hkey
    exact right_remember hgives (fun s hs answer hmem =>
      (hs.stringArrays _ answer hmem).of_unname hkey.symm)
      (fun _ _ => rfl) (right_readVerified hfiled hout node fun own directory => right_ask hout _)

theorem right_readPixelsInto (node : String) (read : String → Except Error α) :
    store.Right outages SameAnswer (store.readPixelsInto outages node read) (do
      let _ ← store.verifyAnswer node
      let directory ← store.directoryAnswer node
      read directory) :=
  right_readVerified hfiled hout node fun _ directory => right_ask hout (read directory)

theorem right_findNode (name : String) :
    store.Right outages SameAnswer (store.findNode outages name)
      (store.inventoryAnswer.toOption.bind fun entries => findEntry entries name) := by
  refine (right_inventory hfiled hout).bind
    (fun r => by cases r <;> exact Keeps.pure _) fun r hr => ?_
  cases r with
  | error e =>
    obtain ⟨e', hanswer, -⟩ := hr.exists_error
    rw [hanswer]
    exact Right.pure rfl
  | ok entries =>
    obtain ⟨entries', hentries, hsame⟩ := hr.exists_ok
    rw [hentries]
    refine Right.pure ?_
    change unname (findEntry entries name) = unname (findEntry entries' name)
    rw [← findEntry_unname, show unname entries = unname entries' from hsame, findEntry_unname]

end Answers

/-- The entry with a name, of entries in the order of their names. -/
theorem findEntry_eq_some_iff {entries : List NodeEntry}
    (h : (entries.map NodeEntry.name).Pairwise (· < ·))
    {name : String} {entry : NodeEntry} :
    findEntry entries name = some entry ↔ entry ∈ entries ∧ entry.name = name := by
  unfold findEntry
  rw [Option.filter_eq_some_iff, decide_eq_true_eq]
  constructor
  · rintro ⟨hfind, hname⟩
    exact ⟨List.mem_of_find?_eq_some hfind, hname⟩
  · rintro ⟨hmem, rfl⟩
    refine ⟨?_, rfl⟩
    obtain ⟨before, after, rfl⟩ := List.append_of_mem hmem
    rw [List.map_append, List.pairwise_append] at h
    rw [List.find?_append]
    have hnone : before.find? (fun other => decide (entry.name ≤ other.name)) = none := by
      refine List.find?_eq_none.2 fun other hother hle => ?_
      have hlt := h.2.2 _ (List.mem_map_of_mem hother) entry.name (by simp)
      exact absurd (of_decide_eq_true hle) (not_le.2 hlt)
    rw [hnone]
    simp

/-- The entries of a hierarchy are in the order of their names. -/
theorem inventoryAnswer_pairwise {entries : List NodeEntry}
    (h : store.inventoryAnswer = .ok entries) :
    (entries.map NodeEntry.name).Pairwise (· < ·) := by
  obtain ⟨names, hnames, -⟩ := bind_eq_ok_iff.1 h
  rw [inventoryAnswer_names hnames h]
  exact unique_pairwise (List.pairwise_insertionSort _ _)

theorem transient_none : Outages.Transient (fun _ => none) True := by rintro n e ⟨⟩

/-! ## Recovery -/

/-- An answer none of whose reads failed is the one of a store whose reads are all made. -/
def Recovers {ι α : Type} [Unname α] (store : Store) (outages : Outages) (s : Session)
    (ask : Outages → ι → StateM Session α) : Prop :=
  ∀ node t, Reached store (fun _ => none) t →
    outages.FailBetween s (ask outages node s).2 ∨
      SameAnswer (ask outages node s).1 (ask (fun _ => none) node t).1

/-- What is right in every session recovers. -/
theorem recovers_of_right {ι α : Type} [Unname α]
    {ask : Outages → ι → StateM Session α} {answer : ι → α}
    {backing : Backing} (hopen : openStore backing = .ok store) (hout : outages.Transient True)
    (h : ∀ {outages : Outages}, outages.Transient True →
      ∀ node, store.Right outages SameAnswer (ask outages node) (answer node))
    {s : Session} (hs : Reached store outages s) : store.Recovers outages s ask := by
  intro node t ht
  refine ((h hout node) s (hs.sound hopen hout)).2.2.imp_right fun hsame => ?_
  rcases (h transient_none node t (ht.sound hopen transient_none)).2.2
    with ⟨n, -, -, hfails⟩ | hsame'
  · exact absurd rfl hfails
  · exact Eq.trans hsame hsame'.symm

/-- A session that recovers whatever it is asked. -/
structure RecoversAll (store : Store) (outages : Outages) (s : Session) : Prop where
  nodeMetadata : store.Recovers outages s store.readNodeMetadata
  arrayMetadata : store.Recovers outages s store.readArrayMetadata
  verifiedArrays : store.Recovers outages s store.verifyArray
  inventory : store.Recovers outages s (fun outages (_ : Unit) => store.inventory outages)
  node : store.Recovers outages s store.findNode
  arrayDirectory : store.Recovers outages s store.resolveArrayDirectory
  doubleArrays : store.Recovers outages s store.readNumericArray
  stringArrays : store.Recovers outages s store.readStringArray1D
  pixels : ∀ read : String → Except Error Bytes,
    store.Recovers outages s (fun outages node => store.readPixelsInto outages node read)

/-- **A store recovers**: whatever was asked and failed before, an answer is wrong only where a read
that was made for it failed, and otherwise the one of a store that is always read, up to how nodes
are spelled in it. -/
theorem recovered_answers {backing : Backing} (hopen : openStore backing = .ok store)
    (hout : outages.Transient True) {s : Session} (hs : Reached store outages s) :
    store.RecoversAll outages s := by
  have hfiled := openStore_filed hopen
  exact
    { nodeMetadata := recovers_of_right hopen hout (right_readNodeMetadata hfiled) hs
      arrayMetadata := recovers_of_right hopen hout (right_readArrayMetadata hfiled) hs
      verifiedArrays := recovers_of_right hopen hout (right_verifyArray hfiled) hs
      inventory := recovers_of_right hopen hout (fun hout _ => right_inventory hfiled hout) hs
      node := recovers_of_right hopen hout (right_findNode hfiled) hs
      arrayDirectory := recovers_of_right hopen hout (fun hout =>
        right_resolveArrayDirectory hout) hs
      doubleArrays := recovers_of_right hopen hout (right_readNumericArray hfiled) hs
      stringArrays := recovers_of_right hopen hout (right_readStringArray1D hfiled) hs
      pixels := fun read =>
        recovers_of_right hopen hout (fun hout node =>
          right_readPixelsInto hfiled hout node read) hs }

theorem recovered_answers_afterOutage :
    cutShortStore.RecoversAll firstFails
      (cutShortStore.after firstFails cutShortStore.initial (.nodeMetadata "./A")) :=
  have hopen : openStore cutShort = .ok cutShortStore := rfl
  recovered_answers hopen firstFails_transient (Reached.initial.after (.nodeMetadata "./A"))

end Store

end CartaZarr
