import CartaZarr.Store.HandedBack

/-!
# Nodes asked for by their canonical names

A store remembers an answer under the canonical name of its node, and names the node in it as the
first to be answered spelt it. Where every node is asked for by its canonical name there is one
spelling, and an answer is the store's word for word, unless it is to be asked again: `Verbatim`. A
computation `Answers` what it should if it returns that, or the error of a read of its own that
failed; two computations `Agree` if, in any two such sessions, they return the same unless a read of
the first failed.
-/

namespace CartaZarr

/-- The schedule of reads that are all made. -/
abbrev allMade : Outages := fun _ => none

theorem not_failBetween_allMade (s t : Session) : ¬ allMade.FailBetween s t := by
  rintro ⟨n, -, -, hfails⟩
  exact hfails rfl

/-- A failed read is one of any longer stretch. -/
theorem Outages.FailBetween.extend {outages : Outages} {a b c d : Session}
    (h : outages.FailBetween b c) (hab : a.Extends b) (hcd : c.Extends d) :
    outages.FailBetween a d := by
  obtain ⟨n, hle, hlt, hfails⟩ := h
  exact ⟨n, hab.reads.trans hle, hlt.trans_le hcd.reads, hfails⟩

namespace Store

variable {store : Store} {outages : Outages} {α β : Type}

/-- A session whose answers, but those to be asked again, are the store's for the names they are
remembered under. -/
structure Verbatim (store : Store) (s : Session) : Prop where
  sound : store.Sound True s
  nodeMetadata : ∀ key, ∀ answer ∈ s.nodeMetadata key, askAgain answer = false →
    answer = store.nodeAnswer key
  arrayMetadata : ∀ key, ∀ answer ∈ s.arrayMetadata key, askAgain answer = false →
    answer = store.arrayAnswer key
  inventory : ∀ answer ∈ s.inventory (), askAgain answer = false → answer = store.inventoryAnswer

theorem verbatim_initial (hfiled : store.Filed) : store.Verbatim store.initial where
  sound := hfiled.sound_initial
  nodeMetadata key answer hanswer _ := hfiled.initial_nodeMetadata key answer hanswer
  arrayMetadata _ _ h := by cases h
  inventory _ h := by cases h

/-- One answer more that is the store's, or is to be asked again. -/
theorem verbatim_push {κ : Type} [DecidableEq κ] {table : Memo κ (Except Error α)}
    {answer : κ → Except Error α}
    (h : ∀ key, ∀ a ∈ table key, askAgain a = false → a = answer key) {key : κ}
    {a : Except Error α} (ha : askAgain a = true ∨ a = answer key) :
    ∀ k, ∀ b ∈ table.push key a k, askAgain b = false → b = answer k := by
  intro k b hb hagain
  rcases Memo.mem_push hb with hb | ⟨rfl, rfl⟩
  · exact h k b hb hagain
  · exact ha.resolve_left (by simp [hagain])

section Keep

variable {s : Session} [Unname α]

theorem stands_of_answer {a y : Except Error α} (h : askAgain a = true ∨ a = y) :
    Stands True a y := by
  rcases h with h | rfl
  · exact .inl ⟨trivial, h⟩
  · exact .refl _

theorem Verbatim.keepNodeMetadata (hs : store.Verbatim s) {key : String} {a : Except Error Json}
    (hlookup : store.consolidated.lookup key = none)
    (ha : askAgain a = true ∨ a = store.nodeAnswer key) :
    store.Verbatim (s.keepNodeMetadata key a) :=
  ⟨hs.sound.keepNodeMetadata hlookup (stands_of_answer ha), verbatim_push hs.nodeMetadata ha,
    hs.arrayMetadata, hs.inventory⟩

theorem Verbatim.keepArrayMetadata (hs : store.Verbatim s) {key : String}
    {a : Except Error ArrayMetadata} (ha : askAgain a = true ∨ a = store.arrayAnswer key) :
    store.Verbatim (s.keepArrayMetadata key a) :=
  ⟨hs.sound.keepArrayMetadata (stands_of_answer ha), hs.nodeMetadata,
    verbatim_push hs.arrayMetadata ha, hs.inventory⟩

theorem Verbatim.keepInventory (hs : store.Verbatim s) {a : Except Error (List NodeEntry)}
    (ha : askAgain a = true ∨ a = store.inventoryAnswer) :
    store.Verbatim (s.keepInventory () a) := by
  refine ⟨hs.sound.keepInventory (stands_of_answer ha), hs.nodeMetadata, hs.arrayMetadata,
    fun b hb hagain => ?_⟩
  have hpush : b ∈ s.inventory.push () a () := hb
  rcases Memo.mem_push hpush with hb | ⟨-, rfl⟩
  · exact hs.inventory b hb hagain
  · exact ha.resolve_left (by simp [hagain])

end Keep

/-! ## What is answered -/

/-- A computation returns an answer, or the error of a read that it made and that failed. -/
def Answers (store : Store) (outages : Outages) (x : StateM Session (Except Error α))
    (y : Except Error α) : Prop :=
  ∀ s, store.Verbatim s → store.Verbatim (x s).2 ∧ s.Extends (x s).2 ∧
    ((x s).1 = y ∨ askAgain (x s).1 = true ∧ outages.FailBetween s (x s).2)

theorem Answers.pure (y : Except Error α) : store.Answers outages (Pure.pure y) y :=
  fun s hs => ⟨hs, .refl s, .inl rfl⟩

theorem answers_ask (hout : outages.Transient True) (answer : Except Error α) :
    store.Answers outages (ask outages answer) answer := by
  intro s hs
  refine ⟨⟨?_, hs.nodeMetadata, hs.arrayMetadata, hs.inventory⟩, ?_, ?_⟩
  · exact ⟨hs.sound.copy, hs.sound.nodeMetadata, hs.sound.arrayMetadata, hs.sound.verifiedArrays,
      hs.sound.inventory, hs.sound.doubleArrays, hs.sound.stringArrays⟩
  · exact { Session.Extends.refl s with reads := Nat.le_succ _ }
  · rw [ask]
    dsimp only
    cases h : outages s.reads with
    | none => exact .inl rfl
    | some e =>
      exact .inr ⟨(hout _ _ h).2, s.reads, le_rfl, Nat.lt_succ_self _, by rw [h]; simp⟩

/-- Go on with what was answered, unless it is an error. -/
theorem Answers.andThen {x : StateM Session (Except Error α)} {y : Except Error α}
    {f : Except Error α → StateM Session (Except Error β)} {k : α → Except Error β}
    (hx : store.Answers outages x y) (herror : ∀ e, f (.error e) = Pure.pure (.error e))
    (hf : ∀ a, y = .ok a → store.Answers outages (f (.ok a)) (k a)) :
    store.Answers outages (x >>= f) (y >>= k) := by
  intro s hs
  obtain ⟨hverbatim, hext, hanswers⟩ := hx s hs
  change store.Verbatim (f (x s).1 (x s).2).2 ∧ s.Extends (f (x s).1 (x s).2).2 ∧
    ((f (x s).1 (x s).2).1 = y >>= k ∨ askAgain (f (x s).1 (x s).2).1 = true ∧
      outages.FailBetween s (f (x s).1 (x s).2).2)
  generalize hr : (x s).1 = r at hanswers ⊢
  cases r with
  | error e =>
    rw [herror]
    refine ⟨hverbatim, hext, hanswers.imp ?_ fun h => h⟩
    rintro rfl
    rfl
  | ok a =>
    have hy : y = .ok a := (hanswers.resolve_right (by rintro ⟨⟨⟩, -⟩)).symm
    obtain ⟨hverbatim', hext', hanswers'⟩ := hf a hy _ hverbatim
    rw [hy, ok_bind]
    exact ⟨hverbatim', hext.trans hext', hanswers'.imp_right fun h =>
      ⟨h.1, h.2.extend hext (.refl _)⟩⟩

/-- A table gives back what it should, or computes it. -/
theorem Answers.remember {κ : Type} {table : Session → Memo κ (Except Error α)}
    {keep : Session → κ → Except Error α → Session} {key : κ}
    {compute : StateM Session (Except Error α)} {y : Except Error α}
    (htable : ∀ s, store.Verbatim s → ∀ answer ∈ table s key, askAgain answer = false → answer = y)
    (hkeep : ∀ s answer, store.Verbatim s → (askAgain answer = true ∨ answer = y) →
      store.Verbatim (keep s key answer))
    (hext : ∀ (s : Session) answer, s.Extends (keep s key answer))
    (hcompute : store.Answers outages compute y) :
    store.Answers outages (CartaZarr.remember table keep askAgain key compute) y := by
  intro s hs
  obtain ⟨answer, hmem, hagain, h⟩ | h := remember_cases table keep askAgain key compute s
  · rw [h]
    exact ⟨hs, .refl s, .inl (htable s hs answer hmem hagain)⟩
  · obtain ⟨hverbatim, hmoved, hanswers⟩ := hcompute s hs
    rw [h]
    exact ⟨hkeep _ _ hverbatim (hanswers.symm.imp_left And.left), hmoved.trans (hext _ _),
      hanswers.imp_right fun h => ⟨h.1, h.2.extend (.refl _) (hext _ _)⟩⟩

section Asked

variable (hfiled : store.Filed) (hout : outages.Transient True)
include hfiled hout

theorem answers_readNodeMetadata {node : String} (hnode : cacheKey node = node) :
    store.Answers outages (store.readNodeMetadata outages node) (store.nodeAnswer node) := by
  cases h : normalizeNodeName node with
  | error e =>
    have hanswer : store.nodeAnswer node = .error e := by rw [nodeAnswer, h]
    have hlookup : store.consolidated.lookup node = none := by
      by_contra hne
      have hmem : node ∈ store.consolidatedNodes :=
        isSome_lookup_iff.1 (Option.isSome_iff_ne_none.2 hne)
      rw [hfiled.canonical node hmem] at h
      cases h
    unfold readNodeMetadata
    rw [h]
    exact Answers.remember (fun s hs => hs.nodeMetadata node)
      (fun s answer hs => hs.keepNodeMetadata hlookup)
      (fun s answer => s.extends_keepNodeMetadata node answer) (hanswer ▸ Answers.pure _)
  | ok name =>
    obtain rfl : name = node := (cacheKey_of_ok h).symm.trans hnode
    cases hlookup : store.consolidated.lookup name with
    | some document =>
      intro s hs
      rw [hs.sound.readNodeMetadata_of_copy h hlookup, nodeAnswer, h]
      dsimp only
      rw [hlookup]
      exact ⟨hs, .refl s, .inl rfl⟩
    | none =>
      have hanswer : store.nodeAnswer name = store.backing.readNodeBytes name >>= fun bytes =>
          store.backing.parseNodeMetadata bytes name := by
        rw [nodeAnswer, h]
        dsimp only
        rw [hlookup]
      unfold readNodeMetadata
      rw [h]
      refine Answers.remember (fun s hs => hs.nodeMetadata name)
        (fun s answer hs => hs.keepNodeMetadata hlookup)
        (fun s answer => s.extends_keepNodeMetadata name answer) ?_
      rw [hanswer]
      exact (answers_ask hout _).andThen (fun _ => rfl) fun bytes _ => Answers.pure _

theorem answers_readArrayMetadata {node : String} (hnode : cacheKey node = node) :
    store.Answers outages (store.readArrayMetadata outages node) (store.arrayAnswer node) := by
  unfold readArrayMetadata
  rw [hnode]
  refine Answers.remember (fun s hs => hs.arrayMetadata node)
    (fun s answer hs => hs.keepArrayMetadata)
    (fun s answer => s.extends_keepArrayMetadata node answer) ?_
  cases h : normalizeNodeName node with
  | error e =>
    have hanswer : store.arrayAnswer node = .error e := by
      rw [arrayAnswer, nodeAnswer, h]
      rfl
    exact hanswer ▸ Answers.pure _
  | ok name =>
    exact (answers_readNodeMetadata hfiled hout hnode).andThen (fun _ => rfl) fun metadata _ =>
      Answers.pure _

omit hfiled in
theorem answers_nodeNames : store.Answers outages (store.nodeNames outages) store.namesAnswer := by
  unfold nodeNames namesAnswer
  split_ifs
  · exact Answers.pure _
  · exact (answers_ask hout _).andThen (fun _ => rfl) fun listed _ => Answers.pure _

/-- The metadata of an array whose document is there has no failed read in it. -/
theorem readArrayMetadata_of_document {node : String} (hnode : cacheKey node = node) {s : Session}
    (hs : store.Verbatim s) {document : Json}
    (hread : store.readNodeMetadata outages node s = (.ok document, s)) :
    store.Verbatim (store.readArrayMetadata outages node s).2 ∧
    s.Extends (store.readArrayMetadata outages node s).2 ∧
      (store.readArrayMetadata outages node s).1 = store.arrayAnswer node := by
  obtain ⟨hverbatim, hext, hanswers⟩ := answers_readArrayMetadata hfiled hout hnode s hs
  have hsettled := askAgain_readArrayMetadata hread
  exact ⟨hverbatim, hext, hanswers.resolve_right (by rintro ⟨hagain, -⟩; simp [hsettled] at hagain)⟩

theorem answers_readEntry {node : String} (hnode : cacheKey node = node) :
    store.Answers outages (store.readEntry outages node) (store.entryAnswer node) := by
  intro s hs
  obtain ⟨hverbatim, hext, hanswers⟩ := answers_readNodeMetadata hfiled hout hnode s hs
  have hagain := fun document =>
    @Sound.readNodeMetadata_again store True outages s hs.sound node document
  unfold readEntry
  rcases hread : store.readNodeMetadata outages node s with ⟨r, s'⟩
  rw [hread] at hverbatim hext hanswers hagain
  simp only [bind, StateT.bind, hread]
  cases r with
  | error e =>
    dsimp only
    rcases hanswers with hanswers | ⟨htransient, hfails⟩
    · rw [entryAnswer, ← hanswers]
      dsimp only
      split_ifs <;> exact ⟨hverbatim, hext, .inl rfl⟩
    · have hcode : e.code ≠ .invalidMetadata := by
        intro hcode
        rw [askAgain, hcode] at htransient
        cases htransient
      rw [if_neg hcode]
      exact ⟨hverbatim, hext, .inr ⟨htransient, hfails⟩⟩
  | ok document =>
    have hanswer : store.nodeAnswer node = .ok document :=
      (hanswers.resolve_right (by rintro ⟨⟨⟩, -⟩)).symm
    rw [entryAnswer, hanswer]
    dsimp only
    cases nodeKind document with
    | group => exact ⟨hverbatim, hext, .inl rfl⟩
    | unrecognised => exact ⟨hverbatim, hext, .inl rfl⟩
    | array =>
      obtain ⟨hverbatim', hext', hsame⟩ := readArrayMetadata_of_document hfiled hout hnode hverbatim
        (hagain document rfl hfiled hout)
      refine ⟨hverbatim', hext.trans hext', .inl ?_⟩
      rw [← hsame]
      rfl

theorem answers_readEntries {nodes : List String} (h : ∀ node ∈ nodes, cacheKey node = node) :
    store.Answers outages (store.readEntries outages nodes) (nodes.mapM store.entryAnswer) := by
  induction nodes with
  | nil => exact Answers.pure _
  | cons node nodes ih =>
    rw [List.mapM_cons, readEntries]
    refine (answers_readEntry hfiled hout (h node List.mem_cons_self)).andThen (fun _ => rfl)
      fun entry _ => ?_
    exact (ih fun node hnode => h node (List.mem_cons_of_mem _ hnode)).andThen (fun _ => rfl)
      fun entries _ => Answers.pure _

/-- **The inventory** is the store's word for word, or was cut short by a read that failed. -/
theorem answers_inventory :
    store.Answers outages (store.inventory outages) store.inventoryAnswer := by
  refine Answers.remember (fun s hs => hs.inventory) (fun s answer hs => hs.keepInventory)
    (fun s answer => s.extends_keepInventory () answer) ?_
  refine (answers_nodeNames hout).andThen (fun _ => rfl) fun names hnames =>
    answers_readEntries hfiled hout fun node hnode => cacheKey_of_ok ?_
  exact namesAnswer_canonical hfiled hnames _ ((List.mem_insertionSort _).1 (mem_unique.1 hnode))

omit hfiled hout in
/-- An inventory that was taken is handed back, without a read. -/
theorem inventory_again {s : Session} {entries : List NodeEntry}
    (h : (store.inventory outages s).1 = .ok entries) :
    store.inventory outages (store.inventory outages s).2 =
      (.ok entries, (store.inventory outages s).2) := by
  have hlast : ((store.inventory outages s).2.inventory ()).getLast? =
      some (store.inventory outages s).1 :=
    getLast?_remember _ _ _ _ _ s getLast?_keepInventory
  exact remember_of_current _ _ _ (hlast.trans (congrArg some h)) rfl

end Asked

/-! ## What agrees -/

/-- Two computations that return the same in any two such sessions, unless a read of the first
fails. -/
def Agree (store : Store) (outages : Outages) (x x' : StateM Session α) : Prop :=
  ∀ t, store.Verbatim t → store.Verbatim (x' t).2 ∧
    RefinesUnless store.Verbatim Session.Extends outages.FailBetween Eq x (x' t).1

theorem Agree.pure (a : α) : store.Agree outages (Pure.pure a) (Pure.pure a) :=
  fun _ ht => ⟨ht, RefinesUnless.pure Session.Extends.refl rfl⟩

/-- Computations that go on in the same way agree where they do at first. -/
theorem Agree.bind {x x' : StateM Session α} {f f' : α → StateM Session β}
    (hx : store.Agree outages x x') (hf : ∀ a, store.Agree outages (f a) (f' a)) :
    store.Agree outages (x >>= f) (x' >>= f') := by
  intro t ht
  obtain ⟨ht', hagree⟩ := hx t ht
  refine ⟨(hf _ _ ht').1, RefinesUnless.bind hagree (fun _ _ _ => Session.Extends.trans)
    (fun _ _ _ h hext => h.extend (.refl _) hext) (fun _ _ _ hext h => h.extend hext (.refl _))
    (fun a s hs => ?_) ?_⟩
  · obtain ⟨hverbatim, hext, -⟩ := (hf a t ht).2 s hs
    exact ⟨hverbatim, hext⟩
  · rintro a rfl
    exact (hf _ _ ht').2

/-- What answers as it should agrees with what is never kept from it. -/
theorem Answers.agree {x x' : StateM Session (Except Error α)} {y : Except Error α}
    (hx : store.Answers outages x y) (hx' : store.Answers allMade x' y) :
    store.Agree outages x x' := by
  intro t ht
  obtain ⟨ht', -, hanswers'⟩ := hx' t ht
  refine ⟨ht', fun s hs => ?_⟩
  obtain ⟨hverbatim, hext, hanswers⟩ := hx s hs
  have hsame := hanswers'.resolve_right fun h => not_failBetween_allMade _ _ h.2
  exact ⟨hverbatim, hext, hanswers.symm.imp And.right fun h => h.trans hsame.symm⟩

theorem agree_readArrayMetadata (hfiled : store.Filed) (hout : outages.Transient True)
    {node : String} (hnode : cacheKey node = node) :
    store.Agree outages (store.readArrayMetadata outages node)
      (store.readArrayMetadata allMade node) :=
  (answers_readArrayMetadata hfiled hout hnode).agree
    (answers_readArrayMetadata hfiled transient_none hnode)

end Store

end CartaZarr
