import CartaZarr.Store.Requests
import CartaZarr.Zarr.StringFormat

/-!
# Arrays that are held to their own documents

What a session remembers of a node is, word for word, what the store answers for some spelling of it
(`Worded`), where every read is made. So what a transport says of a document is what is returned of
it, whoever asked first, and an array is verified where its own document says the same as what it is
described by (`verified_arrays`): of an array the root's copy describes, only if the copy was
accepted in the first place, for a copy that is refused is refused as it is and nothing else is
read.
-/

namespace CartaZarr.Store

variable {store : Store}

/-! ## What is remembered, word for word -/

/-- An answer of a node under some spelling of it. -/
def Spelled {α : Type} (answer : String → Except Error α) (node : String)
    (a : Except Error α) : Prop :=
  ∃ node', cacheKey node' = cacheKey node ∧ a = answer node'

theorem Spelled.self {α : Type} (answer : String → Except Error α) (node : String) :
    Spelled answer node (answer node) := ⟨node, rfl, rfl⟩

theorem Spelled.of_key {α : Type} {answer : String → Except Error α} {node : String}
    {a : Except Error α}
    (h : Spelled answer (cacheKey node) a) : Spelled answer node a := by
  obtain ⟨node', hkey, rfl⟩ := h
  exact ⟨node', hkey.trans (cacheKey_cacheKey node), rfl⟩

theorem Spelled.key {α : Type} {answer : String → Except Error α} {node : String}
    {a : Except Error α}
    (h : Spelled answer node a) : Spelled answer (cacheKey node) a := by
  obtain ⟨node', hkey, rfl⟩ := h
  exact ⟨node', hkey.trans (cacheKey_cacheKey node).symm, rfl⟩

/-- The metadata of a session is word for word what the store answers. -/
structure Worded (store : Store) (s : Session) : Prop where
  copy : ∀ name document, store.consolidated.lookup name = some document →
    s.nodeMetadata name = [.ok document]
  nodeMetadata : ∀ key, ∀ a ∈ s.nodeMetadata key, Spelled store.nodeAnswer key a
  arrayMetadata : ∀ key, ∀ a ∈ s.arrayMetadata key, Spelled store.arrayAnswer key a
  verifiedArrays : ∀ key, ∀ a ∈ s.verifiedArrays key, Spelled store.verifyAnswer key a

/-- A computation that keeps the words, and what is true of its answer. -/
abbrev Words {α : Type} (store : Store) (x : StateM Session α) (p : α → Prop) : Prop :=
  Refines store.Worded (fun _ _ => True) (fun a p => p a) x p

section Words

variable {α β : Type}

theorem Words.pure {a : α} {p : α → Prop} (h : p a) : store.Words (Pure.pure a) p :=
  Refines.pure (fun _ => trivial) h

theorem Words.andThen {x : StateM Session α} {p : α → Prop}
    {f : α → StateM Session β} {q : β → Prop}
    (hx : store.Words x p) (hf : ∀ a, p a → store.Words (f a) q) : store.Words (x >>= f) q :=
  fun s hs =>
    have ⟨hs', _, ha⟩ := hx s hs
    have ⟨hs'', _, hb⟩ := hf _ ha _ hs'
    ⟨hs'', trivial, hb⟩

theorem Words.remember {κ : Type} {table : Session → Memo κ α} {keep : Session → κ → α → Session}
    {again : α → Bool} {key : κ} {compute : StateM Session α} {p : α → Prop}
    (htable : ∀ s, store.Worded s → ∀ a ∈ table s key, p a)
    (hkeep : ∀ s a, store.Worded s → p a → store.Worded (keep s key a))
    (h : store.Words compute p) :
    store.Words (CartaZarr.remember table keep again key compute) p :=
  Refines.remember (fun _ => trivial) (fun _ _ _ _ _ => trivial) htable hkeep (fun _ _ => trivial) h

theorem words_ask (answer : Except Error α) :
    store.Words (ask (fun _ => none) answer) (· = answer) :=
  fun _ hs => ⟨⟨hs.copy, hs.nodeMetadata, hs.arrayMetadata, hs.verifiedArrays⟩, trivial, rfl⟩

/-- One answer more, of some spelling of its key. -/
theorem spelled_push {table : Memo String (Except Error α)} {answer : String → Except Error α}
    (h : ∀ key, ∀ a ∈ table key, Spelled answer key a) {key : String} {a : Except Error α}
    (ha : Spelled answer key a) : ∀ k, ∀ b ∈ table.push key a k, Spelled answer k b := by
  intro k b hb
  rcases Memo.mem_push hb with hb | ⟨rfl, rfl⟩
  · exact h k b hb
  · exact ha

end Words

theorem words_readNodeMetadata (hfiled : store.Filed) (node : String) :
    store.Words (store.readNodeMetadata (fun _ => none) node) (Spelled store.nodeAnswer node) := by
  have hkeep : ∀ key, store.consolidated.lookup key = none → ∀ s a, store.Worded s →
      Spelled store.nodeAnswer key a → store.Worded (s.keepNodeMetadata key a) := by
    intro key hlookup s a hs ha
    refine ⟨fun name document h => ?_, spelled_push hs.nodeMetadata ha,
      hs.arrayMetadata, hs.verifiedArrays⟩
    have hne : name ≠ key := by
      rintro rfl
      rw [hlookup] at h
      cases h
    exact (Function.update_of_ne hne _ _).trans (hs.copy name document h)
  cases h : normalizeNodeName node with
  | error e =>
    have hlookup : store.consolidated.lookup node = none := by
      by_contra hne
      rw [hfiled.canonical node (isSome_lookup_iff.1 (Option.isSome_iff_ne_none.2 hne))] at h
      cases h
    have hanswer : store.nodeAnswer node = .error e := by rw [nodeAnswer, h]
    rw [readNodeMetadata, h]
    exact Words.remember (fun s hs => hs.nodeMetadata node) (hkeep node hlookup)
      (Words.pure (hanswer ▸ Spelled.self store.nodeAnswer node))
  | ok name =>
    cases hlookup : store.consolidated.lookup name with
    | some document =>
      intro s hs
      have hanswer : store.nodeAnswer node = .ok document := by
        rw [nodeAnswer, h]
        dsimp only
        rw [hlookup]
      have hrun : store.readNodeMetadata (fun _ => none) node s = (.ok document, s) := by
        rw [readNodeMetadata, h]
        exact remember_of_current _ _ _
          (by rw [hs.copy name document hlookup, List.getLast?_singleton]) rfl
      rw [hrun]
      exact ⟨hs, trivial, hanswer ▸ Spelled.self store.nodeAnswer node⟩
    | none =>
      have hanswer : store.nodeAnswer node = store.backing.readNodeBytes name >>= fun bytes =>
          store.backing.parseNodeMetadata bytes node := by
        rw [nodeAnswer, h]
        dsimp only
        rw [hlookup]
      have hkey := cacheKey_of_ok h
      rw [readNodeMetadata, h]
      refine Words.remember (fun s hs a ha =>
        (hkey ▸ hs.nodeMetadata name a ha : Spelled _ (cacheKey node) a).of_key)
        (fun s a hs ha => hkeep name hlookup s a hs (hkey ▸ ha.key)) ?_
      refine (words_ask (store.backing.readNodeBytes name)).andThen ?_
      rintro _ rfl
      cases hbytes : store.backing.readNodeBytes name with
      | error e =>
        rw [hbytes, error_bind] at hanswer
        exact Words.pure (hanswer ▸ Spelled.self store.nodeAnswer node)
      | ok bytes =>
        rw [hbytes, ok_bind] at hanswer
        exact Words.pure (hanswer ▸ Spelled.self store.nodeAnswer node)

/-- A document that is an answer of a node is one under every spelling. -/
theorem nodeAnswer_of_key {node node' : String}
    (h : cacheKey node' = cacheKey node) {document : Json}
    (hdocument : store.nodeAnswer node' = .ok document) : store.nodeAnswer node = .ok document := by
  have hstands : Stands False (.ok document) (store.nodeAnswer node) :=
    .inr (by rw [← hdocument, unname_nodeAnswer node', unname_nodeAnswer node, h])
  exact hstands.ok

/-- So is the metadata of an array. -/
theorem arrayAnswer_of_key {node node' : String} (h : cacheKey node' = cacheKey node)
    {copy : ArrayMetadata}
    (hcopy : store.arrayAnswer node' = .ok copy) : store.arrayAnswer node = .ok copy := by
  have hstands : Stands False (.ok copy) (store.arrayAnswer node) :=
    .inr (by rw [← hcopy, unname_arrayAnswer node', unname_arrayAnswer node, h])
  exact hstands.ok

/-- And the document an array was verified with. -/
theorem verifyAnswer_of_key {node node' : String} (h : cacheKey node' = cacheKey node)
    {own : ArrayMetadata}
    (hown : store.verifyAnswer node' = .ok own) : store.verifyAnswer node = .ok own := by
  have hstands : Stands False (.ok own) (store.verifyAnswer node) :=
    .inr (by rw [← hown, unname_verifyAnswer node', unname_verifyAnswer node, h])
  exact hstands.ok

theorem words_readArrayMetadata (hfiled : store.Filed) (node : String) :
    store.Words (store.readArrayMetadata (fun _ => none) node)
      (Spelled store.arrayAnswer node) := by
  refine Words.remember (fun s hs a ha => (hs.arrayMetadata _ a ha).of_key)
    (fun s a hs ha => ⟨hs.copy, hs.nodeMetadata, spelled_push hs.arrayMetadata ha.key,
      hs.verifiedArrays⟩) ?_
  cases h : normalizeNodeName node with
  | error e =>
    have hanswer : store.arrayAnswer node = .error e := by
      rw [arrayAnswer, nodeAnswer, h]
      rfl
    exact Words.pure (hanswer ▸ Spelled.self store.arrayAnswer node)
  | ok name =>
    refine (words_readNodeMetadata hfiled node).andThen ?_
    rintro _ ⟨node', hkey, rfl⟩
    cases hdocument : store.nodeAnswer node' with
    | error e =>
      refine Words.pure ⟨node', hkey, ?_⟩
      rw [arrayAnswer, hdocument]
      rfl
    | ok document =>
      refine Words.pure ⟨node, rfl, ?_⟩
      rw [arrayAnswer, nodeAnswer_of_key hkey hdocument, ok_bind]

theorem words_verifyArray (hfiled : store.Filed) (node : String) :
    store.Words (store.verifyArray (fun _ => none) node) (Spelled store.verifyAnswer node) := by
  refine Words.remember (fun s hs => hs.verifiedArrays node)
    (fun s a hs ha => ⟨hs.copy, hs.nodeMetadata, hs.arrayMetadata,
      spelled_push hs.verifiedArrays ha⟩) ?_
  refine (words_readArrayMetadata hfiled node).andThen ?_
  rintro _ ⟨node', hkey, rfl⟩
  cases hcopy : store.arrayAnswer node' with
  | error e =>
    refine Words.pure ⟨node', hkey, ?_⟩
    rw [verifyAnswer, hcopy]
    rfl
  | ok copy =>
    have hanswer := verifyAnswer.eq_1 store node
    rw [arrayAnswer_of_key hkey hcopy, ok_bind] at hanswer
    dsimp only
    split_ifs with hmem
    · rw [if_pos hmem] at hanswer
      refine (words_ask (store.backing.readNodeBytes (cacheKey node))).andThen ?_
      rintro _ rfl
      exact Words.pure ⟨node, rfl, hanswer.symm⟩
    · rw [if_neg hmem] at hanswer
      exact Words.pure ⟨node, rfl, hanswer.symm⟩

/-! ### The other requests -/

section Requests

variable {α : Type}

theorem words_readEntry (hfiled : store.Filed) (node : String) :
    store.Words (store.readEntry (fun _ => none) node) fun _ => True := by
  refine (words_readNodeMetadata hfiled node).andThen fun r _ => ?_
  cases r with
  | error e => dsimp only; split_ifs <;> exact Words.pure trivial
  | ok document =>
    dsimp only
    split
    · exact Words.pure trivial
    · exact (words_readArrayMetadata hfiled node).andThen fun _ _ => Words.pure trivial
    · exact Words.pure trivial

theorem words_readEntries (hfiled : store.Filed) (nodes : List String) :
    store.Words (store.readEntries (fun _ => none) nodes) fun _ => True := by
  induction nodes with
  | nil => exact Words.pure trivial
  | cons node nodes ih =>
    refine (words_readEntry hfiled node).andThen fun r _ => ?_
    cases r with
    | error e => exact Words.pure trivial
    | ok entry =>
      refine ih.andThen fun rs _ => ?_
      cases rs <;> exact Words.pure trivial

theorem words_inventory (hfiled : store.Filed) :
    store.Words (store.inventory (fun _ => none)) fun _ => True := by
  have hnames : store.Words (store.nodeNames (fun _ => none)) fun _ => True := by
    unfold nodeNames
    split_ifs
    · exact Words.pure trivial
    · refine (words_ask store.backing.listNodes).andThen fun r _ => ?_
      cases r <;> exact Words.pure trivial
  refine Words.remember (fun _ _ _ _ => trivial)
    (fun s a hs _ => ⟨hs.copy, hs.nodeMetadata, hs.arrayMetadata, hs.verifiedArrays⟩) ?_
  refine hnames.andThen fun r _ => ?_
  cases r with
  | error e => exact Words.pure trivial
  | ok names => exact words_readEntries hfiled _

theorem words_resolveArrayDirectory (node : String) :
    store.Words (store.resolveArrayDirectory (fun _ => none) node) fun _ => True := by
  unfold resolveArrayDirectory
  cases normalizeNodeName node with
  | error e => exact Words.pure trivial
  | ok name => exact fun s hs => ⟨(words_ask _ s hs).1, trivial, trivial⟩

theorem words_readVerified (hfiled : store.Filed) (node : String)
    {read : ArrayMetadata → String → StateM Session (Except Error α)}
    (hread : ∀ own directory, store.Words (read own directory) fun _ => True) :
    store.Words (store.readVerified (fun _ => none) node read) fun _ => True := by
  refine (words_verifyArray hfiled node).andThen fun r _ => ?_
  cases r with
  | error e => exact Words.pure trivial
  | ok own =>
    refine (words_resolveArrayDirectory node).andThen fun r _ => ?_
    cases r with
    | error e => exact Words.pure trivial
    | ok directory => exact hread own directory

end Requests

/-- A request keeps the words. -/
theorem Worded.after (hfiled : store.Filed) {s : Session} (hs : store.Worded s)
    (request : Request) :
    store.Worded (store.after (fun _ => none) s request) := by
  have hask : ∀ {α : Type} (r : Except Error α),
      store.Words (ask (fun _ => none) r) fun _ => True :=
    fun r s hs => ⟨(words_ask r s hs).1, trivial, trivial⟩
  cases request with
  | nodeMetadata node => exact (words_readNodeMetadata hfiled node s hs).1
  | arrayMetadata node => exact (words_readArrayMetadata hfiled node s hs).1
  | verifiedArray node => exact (words_verifyArray hfiled node s hs).1
  | inventory => exact (words_inventory hfiled s hs).1
  | node name =>
    rw [Store.after, after_findNode]
    exact (words_inventory hfiled s hs).1
  | arrayDirectory node => exact (words_resolveArrayDirectory node s hs).1
  | numericArray node =>
    refine (Words.remember (fun _ _ _ _ => trivial)
      (fun s a hs _ => ⟨hs.copy, hs.nodeMetadata, hs.arrayMetadata, hs.verifiedArrays⟩)
      (words_readVerified hfiled node fun own directory => (hask _).andThen fun r _ => ?_) s hs).1
    cases r <;> exact Words.pure trivial
  | stringArray node =>
    rw [Store.after, readStringArray1D]
    cases normalizeNodeName node with
    | error e => exact hs
    | ok name =>
      exact (Words.remember (fun _ _ _ _ => trivial)
        (fun s a hs _ => ⟨hs.copy, hs.nodeMetadata, hs.arrayMetadata, hs.verifiedArrays⟩)
        (words_readVerified hfiled node fun own directory => hask _) s hs).1
  | pixels node => exact (words_readVerified hfiled node (fun _ directory => hask _) s hs).1

theorem Reached.worded (hfiled : store.Filed) {s : Session} (h : Reached store (fun _ => none) s) :
    store.Worded s := by
  induction h with
  | initial =>
    have hsound : store.Sound False store.initial := hfiled.sound_initial
    exact ⟨hsound.copy, fun key a ha =>
      ⟨key, rfl, hfiled.initial_nodeMetadata key a ha⟩, nofun, nofun⟩
  | after request _ ih => exact ih.after hfiled request

/-! ## What is held to what -/

/-- What the root's copy of an array's document and the document itself have to say the same of. -/
structure SameArray (copy own : ArrayMetadata) : Prop where
  shape : copy.shape = own.shape
  dimensionNames : copy.dimensionNames = own.dimensionNames
  dataType : copy.dataType = own.dataType
  chunkShape : (parseStorageLayout copy).chunkShape = (parseStorageLayout own).chunkShape
  shardShape : (parseStorageLayout copy).shardShape = (parseStorageLayout own).shardShape
  attributes : copy.attributes.same own.attributes = true

theorem SameArray.refl (m : ArrayMetadata) : SameArray m m :=
  ⟨rfl, rfl, rfl, rfl, rfl, Json.same_refl _⟩

theorem requireSameArray_eq_ok_iff {copy own : ArrayMetadata} {node : String} :
    requireSameArray copy own node = .ok () ↔ SameArray copy own := by
  unfold requireSameArray
  constructor
  · intro h
    split_ifs at h with hshape hnames htype hlayout hattributes
    rw [not_or, not_not, not_not] at hlayout
    exact ⟨not_not.1 hshape, not_not.1 hnames, not_not.1 htype, hlayout.1, hlayout.2, hattributes⟩
  · rintro ⟨hshape, hnames, htype, hchunk, hshard, hattributes⟩
    simp [hshape, hnames, htype, hchunk, hshard, hattributes]

/-- What does not agree is refused as invalid metadata. -/
theorem requireSameArray_refused {copy own : ArrayMetadata} (node : String)
    (h : ¬ SameArray copy own) :
    ∃ e, requireSameArray copy own node = .error e ∧ e.code = .invalidMetadata := by
  rw [← @requireSameArray_eq_ok_iff copy own node] at h
  unfold requireSameArray at h ⊢
  split_ifs at h ⊢
  all_goals first | exact ⟨_, rfl, rfl⟩ | exact absurd rfl h

/-- An array by the document that the transport itself holds of it. -/
def ownArray (store : Store) (name : String) : Except Error ArrayMetadata := do
  let bytes ← store.backing.readNodeBytes name
  let document ← store.backing.parseNodeMetadata bytes name
  parseArrayMetadata document name

section Answers

variable {node name : String} (hname : normalizeNodeName node = .ok name)
include hname

/-- An array that the root's copy does not describe is read from its own document. -/
theorem arrayAnswer_of_fresh (hmem : name ∉ store.consolidatedNodes) :
    store.arrayAnswer node = (do
      let bytes ← store.backing.readNodeBytes name
      let document ← store.backing.parseNodeMetadata bytes node
      parseArrayMetadata document node) := by
  have hlookup : store.consolidated.lookup name = none := by
    by_contra hne
    exact hmem (isSome_lookup_iff.1 (Option.isSome_iff_ne_none.2 hne))
  rw [arrayAnswer, nodeAnswer, hname]
  dsimp only
  rw [hlookup]
  cases store.backing.readNodeBytes name <;> rfl

/-- And is verified as it is. -/
theorem verifyAnswer_of_fresh (hmem : name ∉ store.consolidatedNodes) :
    store.verifyAnswer node = store.arrayAnswer node := by
  rw [verifyAnswer, cacheKey_of_ok hname]
  simp only [if_neg hmem]
  cases store.arrayAnswer node <;> rfl

/-- One that it describes is held to its own document, where the copy was accepted. -/
theorem verifyAnswer_of_copy (hmem : name ∈ store.consolidatedNodes) {copy : ArrayMetadata}
    (hcopy : store.arrayAnswer node = .ok copy) :
    store.verifyAnswer node = store.verifyOwn copy name (store.backing.readNodeBytes name) := by
  rw [verifyAnswer, cacheKey_of_ok hname, hcopy, ok_bind, if_pos hmem]

/-- The document of a node is accepted under any spelling of it. -/
theorem ownArray_of_fresh (hmem : name ∉ store.consolidatedNodes) {own : ArrayMetadata}
    (hown : store.arrayAnswer node = .ok own) : store.ownArray name = .ok own := by
  have hkey : cacheKey node = cacheKey name := by
    rw [cacheKey_of_ok hname, cacheKey_of_ok (normalizeNodeName_canonical hname)]
  exact (arrayAnswer_of_fresh (normalizeNodeName_canonical hname) hmem).symm.trans
    (arrayAnswer_of_key hkey hown)

end Answers

/-- An array that is verified has a name, and a document of its own that says what it is described
by. -/
theorem verifyAnswer_eq_ok {node : String} {own : ArrayMetadata}
    (h : store.verifyAnswer node = .ok own) :
    ∃ name copy, normalizeNodeName node = .ok name ∧ store.ownArray name = .ok own ∧
      store.arrayAnswer node = .ok copy ∧ SameArray copy own := by
  obtain ⟨copy, hcopy, -⟩ := bind_eq_ok_iff.1 h
  cases hname : normalizeNodeName node with
  | error e =>
    rw [arrayAnswer, nodeAnswer, hname] at hcopy
    cases hcopy
  | ok name =>
    by_cases hmem : name ∈ store.consolidatedNodes
    · rw [verifyAnswer_of_copy hname hmem hcopy] at h
      unfold verifyOwn at h
      cases hbytes : store.backing.readNodeBytes name with
      | error e =>
        rw [hbytes] at h
        dsimp only at h
        split_ifs at h
      | ok bytes =>
        rw [hbytes] at h
        simp only [bind_eq_ok_iff] at h
        obtain ⟨document, hdocument, own, hown, _, hsame, ⟨⟩⟩ := h
        refine ⟨name, copy, rfl, ?_, hcopy, requireSameArray_eq_ok_iff.1 hsame⟩
        rw [ownArray, hbytes, ok_bind, hdocument, ok_bind, hown]
    · rw [verifyAnswer_of_fresh hname hmem] at h
      exact ⟨name, own, rfl, ownArray_of_fresh hname hmem h, h, SameArray.refl own⟩

/-- What comes of holding an array to its own document. -/
structure HeldToOwn (store : Store) (node : String)
    (read verified : Except Error ArrayMetadata) : Prop where
  /-- What is verified is the document itself, and says the same as what the array is described
  by. -/
  own : ∀ m, verified = .ok m → ∃ name copy, normalizeNodeName node = .ok name ∧
    store.ownArray name = .ok m ∧ read = .ok copy ∧ SameArray copy m
  /-- A copy that outlived its document is invalid metadata. -/
  missing : ∀ name copy e, normalizeNodeName node = .ok name → name ∈ store.consolidatedNodes →
    read = .ok copy → store.backing.readNodeBytes name = .error e → e.code = .notFound →
    ∃ e', verified = .error e' ∧ e'.code = .invalidMetadata
  /-- So is one that says something else than its document. -/
  stale : ∀ name copy m, normalizeNodeName node = .ok name → name ∈ store.consolidatedNodes →
    read = .ok copy → store.ownArray name = .ok m → ¬ SameArray copy m →
    ∃ e', verified = .error e' ∧ e'.code = .invalidMetadata
  /-- A document that is refused is refused as it is. -/
  refusedOwn : ∀ name copy bytes e, normalizeNodeName node = .ok name →
    name ∈ store.consolidatedNodes →
    read = .ok copy → store.backing.readNodeBytes name = .ok bytes →
      store.ownArray name = .error e →
    verified = .error e
  /-- What the transport says else is said. -/
  unread : ∀ name copy e, normalizeNodeName node = .ok name → read = .ok copy →
    store.backing.readNodeBytes name = .error e → e.code ≠ .notFound → verified = .error e
  /-- Also where there is no copy, whatever it says. -/
  unreadFresh : ∀ name e, normalizeNodeName node = .ok name → name ∉ store.consolidatedNodes →
    store.backing.readNodeBytes name = .error e → verified = .error e
  /-- A copy that is refused is refused as it is, whatever became of its document. -/
  refused : ∀ e, read = .error e → ∃ e', verified = .error e' ∧ e'.code = e.code ∧
    e'.message = e.message

theorem heldToOwn (hfiled : store.Filed) {s : Session} (hs : store.Worded s) (node : String) :
    store.HeldToOwn node (store.readArrayMetadata (fun _ => none) node s).1
      (store.verifyArray (fun _ => none) node s).1 := by
  obtain ⟨-, -, node₁, hkey₁, hread⟩ := words_readArrayMetadata hfiled node s hs
  obtain ⟨-, -, node₂, hkey₂, hverified⟩ := words_verifyArray hfiled node s hs
  have hkey : cacheKey node₁ = cacheKey node₂ := hkey₁.trans hkey₂.symm
  rw [hread, hverified]
  refine ⟨?_, ?_, ?_, ?_, ?_, ?_, ?_⟩
  · intro m h
    obtain ⟨name, copy, hname, hown, hcopy, hsame⟩ :=
      verifyAnswer_eq_ok (verifyAnswer_of_key hkey₂ h)
    exact ⟨name, copy, hname, hown, arrayAnswer_of_key hkey₁.symm hcopy, hsame⟩
  · intro name copy e hname hmem hcopy hbytes hcode
    rw [verifyAnswer_of_copy (normalizeNodeName_of_cacheKey hname hkey₂) hmem
      (arrayAnswer_of_key hkey hcopy),
      hbytes, verifyOwn, if_pos hcode]
    exact ⟨_, rfl, rfl⟩
  · intro name copy m hname hmem hcopy hown hsame
    rw [verifyAnswer_of_copy (normalizeNodeName_of_cacheKey hname hkey₂) hmem
      (arrayAnswer_of_key hkey hcopy)]
    obtain ⟨bytes, hbytes, document, hdocument, hm⟩ :
        ∃ bytes, store.backing.readNodeBytes name = .ok bytes ∧ ∃ document,
          store.backing.parseNodeMetadata bytes name = .ok document ∧
              parseArrayMetadata document name = .ok m := by
      simpa only [ownArray, bind_eq_ok_iff] using hown
    obtain ⟨e, he, hcode⟩ := requireSameArray_refused name hsame
    refine ⟨e, ?_, hcode⟩
    rw [hbytes, verifyOwn, hdocument, ok_bind, hm, ok_bind, he, error_bind]
  · intro name copy bytes e hname hmem hcopy hbytes hown
    rw [verifyAnswer_of_copy (normalizeNodeName_of_cacheKey hname hkey₂) hmem
      (arrayAnswer_of_key hkey hcopy),
      hbytes, verifyOwn]
    rw [ownArray, hbytes, ok_bind] at hown
    cases hdocument : store.backing.parseNodeMetadata bytes name with
    | error e' =>
      rw [hdocument, error_bind] at hown
      rw [← hown]
      rfl
    | ok document =>
      rw [hdocument, ok_bind] at hown
      rw [ok_bind, hown, error_bind]
  · intro name copy e hname hcopy hbytes hcode
    by_cases hmem : name ∈ store.consolidatedNodes
    · rw [verifyAnswer_of_copy (normalizeNodeName_of_cacheKey hname hkey₂) hmem
        (arrayAnswer_of_key hkey hcopy),
        hbytes, verifyOwn, if_neg hcode]
    · rw [arrayAnswer_of_fresh (normalizeNodeName_of_cacheKey hname hkey₁) hmem, hbytes] at hcopy
      cases hcopy
  · intro name e hname hmem hbytes
    have hname₂ := normalizeNodeName_of_cacheKey hname hkey₂
    rw [verifyAnswer_of_fresh hname₂ hmem, arrayAnswer_of_fresh hname₂ hmem, hbytes, error_bind]
  · intro e he
    have hunname : unname (store.arrayAnswer node₂) = .error (unname e) := by
      rw [unname_arrayAnswer, ← hkey, ← unname_arrayAnswer, he, unname_error]
    cases h : store.arrayAnswer node₂ with
    | ok copy =>
      rw [h] at hunname
      cases hunname
    | error e' =>
      rw [h, unname_error, Except.error.injEq] at hunname
      have hcode : (unname e').code = (unname e).code := congrArg Error.code hunname
      have hmessage : (unname e').message = (unname e).message := congrArg Error.message hunname
      refine ⟨e', ?_, hcode, hmessage⟩
      rw [verifyAnswer, h, error_bind]

/-- Whether the values of an array were read, in one of the three ways there are. -/
def ReadsValues (store : Store) (node : String) (s : Session) : Prop :=
  (∃ values, (store.readNumericArray (fun _ => none) node s).1 = .ok values) ∨
  (∃ labels, (store.readStringArray1D (fun _ => none) node s).1 = .ok labels) ∨
  ∃ (α : Type) (read : String → Except Error α) (value : α),
    (store.readPixelsInto (fun _ => none) node read s).1 = .ok value

/-- Values are read of an array that is verified, under every spelling of it. -/
theorem ReadsValues.verified (hfiled : store.Filed) {s : Session}
    (hs : store.Sound False s) {node : String}
    (h : store.ReadsValues node s) : ∃ own, store.verifyAnswer node = .ok own := by
  have hout : Outages.Transient (fun _ => none) False := by rintro n e ⟨⟩
  rcases h with ⟨values, h⟩ | ⟨labels, h⟩ | ⟨α, read, value, h⟩
  · obtain ⟨-, -, hstands⟩ := gives_readNumericArray hfiled hout node s hs
    rw [h] at hstands
    obtain ⟨answer, hanswer, -⟩ := Stands.exists_ok hstands
    obtain ⟨own, hown, -⟩ := bind_eq_ok_iff.1 hanswer
    exact ⟨own, hown⟩
  · obtain ⟨-, -, hstands⟩ := gives_readStringArray1D hfiled hout node s hs
    rw [h] at hstands
    obtain ⟨answer, hanswer, -⟩ := Stands.exists_ok hstands
    obtain ⟨own, hown, -⟩ := bind_eq_ok_iff.1 hanswer
    exact ⟨own, hown⟩
  · let : Unname α := ⟨id⟩
    obtain ⟨-, -, hstands⟩ := gives_readPixelsInto hfiled hout node read s hs
    rw [h] at hstands
    obtain ⟨answer, hanswer, -⟩ := Stands.exists_ok hstands
    obtain ⟨own, hown, -⟩ := bind_eq_ok_iff.1 hanswer
    exact ⟨own, hown⟩

/-- **An array is verified by its own document**, whatever was asked before and however it is
spelled: what is verified is what the transport holds and says the same as what the array is
described by, what does not is invalid metadata, and no values are read of what is not verified. -/
theorem verified_arrays {backing : Backing} (hopen : openStore backing = .ok store) {s : Session}
    (hs : Reached store (fun _ => none) s) (node : String) :
    store.HeldToOwn node (store.readArrayMetadata (fun _ => none) node s).1
        (store.verifyArray (fun _ => none) node s).1 ∧
      ∀ node' t, Reached store (fun _ => none) t → cacheKey node' = cacheKey node →
        store.ReadsValues node' t → ∃ own,
          (store.verifyArray (fun _ => none) node s).1 = .ok own := by
  have hfiled := openStore_filed hopen
  have hout : Outages.Transient (fun _ => none) False := by rintro n e ⟨⟩
  have hworded := hs.worded hfiled
  refine ⟨heldToOwn hfiled hworded node, fun node' t ht hkey hreads => ?_⟩
  obtain ⟨own, hown⟩ := hreads.verified hfiled (ht.sound hopen hout)
  obtain ⟨-, -, node₁, hkey₁, hverified⟩ := words_verifyArray hfiled node s hworded
  refine ⟨own, ?_⟩
  rw [hverified]
  exact verifyAnswer_of_key (hkey.trans hkey₁.symm) hown

/-- The document of a vector of doubles, in a format. -/
def vectorDocument (format extent : UInt64) : Json :=
  .object [("zarr_format", .unsigned format), ("node_type", .string "array"),
    ("shape", .array [.unsigned extent]), ("data_type", .string "float64"),
    ("chunk_grid", .object [("name", .string "regular"),
      ("configuration", .object [("chunk_shape", .array [.unsigned 2])])])]

/-- A root that describes a vector as it was before it grew, and one of an older format that is
gone. -/
def staleCopies : Backing where
  readNodeBytes name := if name = "" then .ok [] else if name = "A" then .ok [0]
    else .error ⟨.notFound, "Zarr node was not found", name⟩
  listNodes := .ok ["A"]
  arrayDirectory name := .ok name
  parseJson bytes := .document <|
    if bytes = [] then .object [("zarr_format", .unsigned 3), ("node_type", .string "group"),
      ("consolidated_metadata", .object [("metadata",
        .object [("A", vectorDocument 3 2), ("B", vectorDocument 2 2)])])]
    else vectorDocument 3 3
  numericValues _ := .ok []
  decompressors := storedStreams
  files _ := .missing

def staleStore : Store where
  backing := staleCopies
  rootAttributes := .object []
  consolidated := [("A", vectorDocument 3 2), ("B", vectorDocument 2 2)]
  hasConsolidatedMetadata := true

theorem verified_arrays_staleCopy :
    staleStore.HeldToOwn "A" (staleStore.readArrayMetadata (fun _ => none) "A" staleStore.initial).1
        (staleStore.verifyArray (fun _ => none) "A" staleStore.initial).1 ∧
      ∀ node' t, Reached staleStore (fun _ => none) t → cacheKey node' = cacheKey "A" →
        staleStore.ReadsValues node' t →
        ∃ own, (staleStore.verifyArray (fun _ => none) "A" staleStore.initial).1 = .ok own :=
  have hopen : openStore staleCopies = .ok staleStore := rfl
  verified_arrays hopen .initial "A"

/-- The copy of an array of another format is refused for its format, though its document is
gone. -/
theorem verified_arrays_refusedCopy :
    openStore staleCopies = .ok staleStore ∧ "B" ∈ staleStore.consolidatedNodes ∧
      staleCopies.readNodeBytes "B" = .error ⟨.notFound, "Zarr node was not found", "B"⟩ ∧
      (staleStore.verifyArray (fun _ => none) "B" staleStore.initial).1 =
        .error ⟨.unsupportedZarrVersion, "Only Zarr format 3 arrays are supported", "B"⟩ := by
  refine ⟨rfl, by decide, rfl, rfl⟩

end CartaZarr.Store
