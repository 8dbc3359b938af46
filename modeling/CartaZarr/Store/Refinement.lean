import CartaZarr.Store.Answers

/-!
# A session holds what the store has to answer

`Store.Sound` says of every answer in a session's tables that it stands for the one its key should
have, and of the nodes of the root's copy that the copy is all there is. Each operation keeps a
session sound, only adds to it, and returns an answer that stands for the one it should be.
`failing` is whether reads may fail to be made at all: where they do not, answers are what they
should be up to spelling, also those that are to be asked again.
-/

namespace CartaZarr

/-- A session that remembers at least as much as another. -/
structure Session.Extends (s s' : Session) : Prop where
  reads : s.reads ≤ s'.reads
  nodeMetadata : s.nodeMetadata.Extends s'.nodeMetadata
  arrayMetadata : s.arrayMetadata.Extends s'.arrayMetadata
  verifiedArrays : s.verifiedArrays.Extends s'.verifiedArrays
  inventory : s.inventory.Extends s'.inventory
  doubleArrays : s.doubleArrays.Extends s'.doubleArrays
  stringArrays : s.stringArrays.Extends s'.stringArrays

theorem Session.Extends.refl (s : Session) : s.Extends s :=
  ⟨le_rfl, .refl _, .refl _, .refl _, .refl _, .refl _, .refl _⟩

theorem Session.Extends.trans {a b c : Session} (h : a.Extends b)
    (h' : b.Extends c) : a.Extends c :=
  ⟨h.reads.trans h'.reads, h.nodeMetadata.trans h'.nodeMetadata,
    h.arrayMetadata.trans h'.arrayMetadata, h.verifiedArrays.trans h'.verifiedArrays,
    h.inventory.trans h'.inventory, h.doubleArrays.trans h'.doubleArrays,
    h.stringArrays.trans h'.stringArrays⟩

section Keep

variable (s : Session)

theorem Session.extends_keepNodeMetadata (key : String) (answer : Except Error Json) :
    s.Extends (s.keepNodeMetadata key answer) :=
  { Session.Extends.refl s with nodeMetadata := Memo.extends_push s.nodeMetadata key answer }

theorem Session.extends_keepArrayMetadata (key : String) (answer : Except Error ArrayMetadata) :
    s.Extends (s.keepArrayMetadata key answer) :=
  { Session.Extends.refl s with arrayMetadata := Memo.extends_push s.arrayMetadata key answer }

theorem Session.extends_keepVerifiedArrays (key : String) (answer : Except Error ArrayMetadata) :
    s.Extends (s.keepVerifiedArrays key answer) :=
  { Session.Extends.refl s with verifiedArrays := Memo.extends_push s.verifiedArrays key answer }

theorem Session.extends_keepInventory (key : Unit) (answer : Except Error (List NodeEntry)) :
    s.Extends (s.keepInventory key answer) :=
  { Session.Extends.refl s with inventory := Memo.extends_push s.inventory key answer }

theorem Session.extends_keepDoubleArrays (key : String) (answer : Except Error NumericArray) :
    s.Extends (s.keepDoubleArrays key answer) :=
  { Session.Extends.refl s with doubleArrays := Memo.extends_push s.doubleArrays key answer }

theorem Session.extends_keepStringArrays (key : String) (answer : Except Error (List Bytes)) :
    s.Extends (s.keepStringArrays key answer) :=
  { Session.Extends.refl s with stringArrays := Memo.extends_push s.stringArrays key answer }

end Keep

/-- Outages that are of reads that could not be made, if there are any. -/
def Outages.Transient (outages : Outages) (failing : Prop) : Prop :=
  ∀ n e, outages n = some e → failing ∧ e.code.isTransient = true

namespace Store

variable (store : Store) (failing : Prop)

/-- The root's copy as opening a store files it. -/
structure Filed : Prop where
  sorted : store.consolidated.Sorted
  canonical : ∀ name ∈ store.consolidatedNodes, normalizeNodeName name = .ok name

/-- Every answer in a session stands for the one its key should have. -/
structure Sound (s : Session) : Prop where
  copy : ∀ name document, store.consolidated.lookup name = some document →
    s.nodeMetadata name = [.ok document]
  nodeMetadata : ∀ key, ∀ answer ∈ s.nodeMetadata key, Stands failing answer (store.nodeAnswer key)
  arrayMetadata : ∀ key, ∀ answer ∈ s.arrayMetadata key,
    Stands failing answer (store.arrayAnswer key)
  verifiedArrays : ∀ key, ∀ answer ∈ s.verifiedArrays key,
    Stands failing answer (store.verifyAnswer key)
  inventory : ∀ answer ∈ s.inventory (), Stands failing answer store.inventoryAnswer
  doubleArrays : ∀ key, ∀ answer ∈ s.doubleArrays key,
    Stands failing answer (store.numericAnswer key)
  stringArrays : ∀ key, ∀ answer ∈ s.stringArrays key,
    Stands failing answer (store.stringAnswer key)

variable {store failing} {outages : Outages}

theorem mem_consolidatedNodes_iff {name : String} :
    name ∈ store.consolidatedNodes ↔
    ∃ document, store.consolidated.lookup name = some document := by
  rw [consolidatedNodes, ← isSome_lookup_iff, Option.isSome_iff_exists]

/-- What comes of a new session's table: what was filed under a name, first come. -/
theorem foldl_insert_apply (documents : Documents) (memo : Memo String (Except Error Json))
    (hnodup : (documents.map Prod.fst).Nodup)
    (hnew : ∀ name ∈ documents.map Prod.fst, memo name = []) (name : String) :
    documents.foldl (fun memo document => memo.insert document.1 (.ok document.2)) memo name =
      match documents.lookup name with
      | some document => [.ok document]
      | none => memo name := by
  induction documents generalizing memo with
  | nil => rfl
  | cons entry documents ih =>
    obtain ⟨key, document⟩ := entry
    rw [List.map_cons, List.nodup_cons] at hnodup
    have hempty : memo key = [] := hnew key (by simp)
    have hinsert : memo.insert key (.ok document) = memo.push key (.ok document) := if_pos hempty
    rw [List.foldl_cons, hinsert, ih _ hnodup.2 ?_]
    · rw [List.lookup_cons]
      by_cases h : name = key
      · subst h
        have hlookup : documents.lookup name = none := by
          by_contra hne
          exact hnodup.1 (isSome_lookup_iff.1 (Option.isSome_iff_ne_none.2 hne))
        simp [hlookup, Memo.push_self, hempty]
      · have hne : (name == key) = false := by simpa using h
        rw [hne]
        dsimp only
        rw [Memo.push, Function.update_of_ne h]
    · intro other hother
      have hne : other ≠ key := fun h => hnodup.1 (h ▸ hother)
      rw [Memo.push, Function.update_of_ne hne]
      exact hnew other (List.mem_cons_of_mem _ hother)

/-- What a new store remembers of a node is what it answers. -/
theorem Filed.initial_nodeMetadata (h : store.Filed) (key : String) (answer : Except Error Json)
    (hanswer : answer ∈ store.initial.nodeMetadata key) : answer = store.nodeAnswer key := by
  have happly : store.initial.nodeMetadata key = _ :=
    foldl_insert_apply store.consolidated .empty h.sorted.nodup (fun _ _ => rfl) key
  rw [happly] at hanswer
  cases hlookup : store.consolidated.lookup key with
  | none =>
    rw [hlookup] at hanswer
    cases hanswer
  | some document =>
    rw [hlookup] at hanswer
    have hcanonical := h.canonical key (mem_consolidatedNodes_iff.2 ⟨document, hlookup⟩)
    rw [List.mem_singleton.1 hanswer, nodeAnswer, hcanonical]
    dsimp only
    rw [hlookup]

/-- A store that has just been made remembers the root's copy, and nothing else. -/
theorem Filed.sound_initial (h : store.Filed) : store.Sound failing store.initial := by
  refine ⟨fun name document hlookup => ?_, fun key answer hanswer => ?_, ?_, ?_, ?_, ?_, ?_⟩
  · have happly := foldl_insert_apply store.consolidated .empty h.sorted.nodup (fun _ _ => rfl) name
    exact happly.trans (by rw [hlookup])
  · rw [h.initial_nodeMetadata key answer hanswer]
    exact .refl _
  all_goals intros; contradiction

/-! ### One operation after another -/

section Operations

variable {α β : Type} [Unname α] [Unname β]

/-- One answer more that stands for what its key should have. -/
theorem stands_push {κ : Type} [DecidableEq κ] {table : Memo κ (Except Error α)}
    {answer : κ → Except Error α} (h : ∀ key, ∀ a ∈ table key, Stands failing a (answer key))
    {key : κ} {a : Except Error α} (ha : Stands failing a (answer key)) :
    ∀ k, ∀ b ∈ table.push key a k, Stands failing b (answer k) := by
  intro k b hb
  rcases Memo.mem_push hb with hb | ⟨rfl, rfl⟩
  · exact h k b hb
  · exact ha

/-- What an operation is held to. -/
abbrev Gives (store : Store) (failing : Prop) (x : StateM Session (Except Error α))
    (y : Except Error α) : Prop :=
  Refines (store.Sound failing) Session.Extends (Stands failing) x y

theorem Gives.pure {a b : Except Error α} (h : Stands failing a b) :
    store.Gives failing (Pure.pure a) b := Refines.pure Session.Extends.refl h

/-- Go on with what an operation gave, unless it failed. -/
theorem Gives.andThen [Plain α] {x : StateM Session (Except Error α)} {y : Except Error α}
    {f : Except Error α → StateM Session (Except Error β)} {k : α → Except Error β}
    (hx : store.Gives failing x y) (herror : ∀ e, f (.error e) = Pure.pure (.error e))
    (hf : ∀ a, y = .ok a → store.Gives failing (f (.ok a)) (k a)) :
    store.Gives failing (x >>= f) (y >>= k) := by
  refine Refines.bind hx (fun _ _ _ => Session.Extends.trans) fun r hr => ?_
  cases r with
  | error e =>
    rw [herror]
    exact Gives.pure (hr.error k)
  | ok a =>
    rw [hr.ok, ok_bind]
    exact hf a hr.ok

theorem Gives.of_unname {x : StateM Session (Except Error α)} {y z : Except Error α}
    (hx : store.Gives failing x y) (h : unname y = unname z) : store.Gives failing x z := by
  intro s hs
  obtain ⟨hsound, hext, hstands⟩ := hx s hs
  exact ⟨hsound, hext, hstands.of_unname h⟩

theorem gives_ask (hout : outages.Transient failing) (answer : Except Error α) :
    store.Gives failing (ask outages answer) answer := by
  intro s hs
  refine ⟨⟨hs.copy, hs.nodeMetadata, hs.arrayMetadata, hs.verifiedArrays, hs.inventory,
    hs.doubleArrays, hs.stringArrays⟩, ⟨Nat.le_succ _, .refl _, .refl _, .refl _, .refl _, .refl _,
    .refl _⟩, ?_⟩
  rw [ask]
  dsimp only
  cases h : outages s.reads with
  | none => exact .refl _
  | some e => exact .inl (hout _ _ h)

end Operations

theorem Sound.keepNodeMetadata {s : Session} (hs : store.Sound failing s) {key : String}
    {answer : Except Error Json} (hlookup : store.consolidated.lookup key = none)
    (hanswer : Stands failing answer (store.nodeAnswer key)) :
    store.Sound failing (s.keepNodeMetadata key answer) := by
  refine ⟨fun name document h => ?_, stands_push hs.nodeMetadata hanswer, hs.arrayMetadata,
    hs.verifiedArrays, hs.inventory, hs.doubleArrays, hs.stringArrays⟩
  have hne : name ≠ key := by
    rintro rfl
    rw [hlookup] at h
    cases h
  exact (Function.update_of_ne hne _ _).trans (hs.copy name document h)

/-- A node of the root's copy is handed back from it, under every spelling and without a read. -/
theorem Sound.readNodeMetadata_of_copy {s : Session} (hs : store.Sound failing s)
    {node name : String} (h : normalizeNodeName node = .ok name) {document : Json}
    (hlookup : store.consolidated.lookup name = some document) :
    store.readNodeMetadata outages node s = (.ok document, s) := by
  rw [readNodeMetadata, h]
  exact remember_of_current _ _ _
    (by rw [hs.copy name document hlookup, List.getLast?_singleton]) rfl

theorem gives_readNodeMetadata (hfiled : store.Filed) (hout : outages.Transient failing)
    (node : String) :
    store.Gives failing (store.readNodeMetadata outages node) (store.nodeAnswer node) := by
  cases h : normalizeNodeName node with
  | error e =>
    have hanswer : store.nodeAnswer node = .error e := by rw [nodeAnswer, h]
    have hlookup : store.consolidated.lookup node = none := by
      by_contra hne
      have hmem : node ∈ store.consolidatedNodes :=
        isSome_lookup_iff.1 (Option.isSome_iff_ne_none.2 hne)
      rw [hfiled.canonical node hmem] at h
      cases h
    unfold readNodeMetadata
    rw [h]
    exact Refines.remember Session.Extends.refl (fun _ _ _ => Session.Extends.trans)
      (fun s hs => hs.nodeMetadata node) (fun s answer hs => hs.keepNodeMetadata hlookup)
      (fun s answer => s.extends_keepNodeMetadata node answer)
      (Gives.pure (by rw [hanswer]; exact .refl _))
  | ok name =>
    cases hlookup : store.consolidated.lookup name with
    | some document =>
      intro s hs
      rw [hs.readNodeMetadata_of_copy h hlookup, nodeAnswer, h]
      dsimp only
      rw [hlookup]
      exact ⟨hs, .refl s, .refl _⟩
    | none =>
      have hkey : unname (store.nodeAnswer node) = unname (store.nodeAnswer name) := by
        rw [unname_nodeAnswer, cacheKey_of_ok h]
      have hanswer : store.nodeAnswer node = store.backing.readNodeBytes name >>= fun bytes =>
          store.backing.parseNodeMetadata bytes node := by
        rw [nodeAnswer, h]
        dsimp only
        rw [hlookup]
      unfold readNodeMetadata
      rw [h]
      refine Refines.remember Session.Extends.refl (fun _ _ _ => Session.Extends.trans)
        (fun s hs answer hmem => (hs.nodeMetadata name answer hmem).of_unname hkey.symm)
        (fun s answer hs hstands => hs.keepNodeMetadata hlookup (hstands.of_unname hkey))
        (fun s answer => s.extends_keepNodeMetadata name answer) ?_
      rw [hanswer]
      exact (gives_ask hout (store.backing.readNodeBytes name)).andThen
          (fun _ => rfl) fun bytes _ =>
        Gives.pure (Stands.refl (store.backing.parseNodeMetadata bytes node))

theorem Sound.keepArrayMetadata {s : Session} (hs : store.Sound failing s) {key : String}
    {answer : Except Error ArrayMetadata}
    (hanswer : Stands failing answer (store.arrayAnswer key)) :
    store.Sound failing (s.keepArrayMetadata key answer) :=
  ⟨hs.copy, hs.nodeMetadata, stands_push hs.arrayMetadata hanswer, hs.verifiedArrays, hs.inventory,
    hs.doubleArrays, hs.stringArrays⟩

theorem Sound.keepVerifiedArrays {s : Session} (hs : store.Sound failing s) {key : String}
    {answer : Except Error ArrayMetadata}
    (hanswer : Stands failing answer (store.verifyAnswer key)) :
    store.Sound failing (s.keepVerifiedArrays key answer) :=
  ⟨hs.copy, hs.nodeMetadata, hs.arrayMetadata, stands_push hs.verifiedArrays hanswer, hs.inventory,
    hs.doubleArrays, hs.stringArrays⟩

theorem Sound.keepInventory {s : Session} (hs : store.Sound failing s)
    {answer : Except Error (List NodeEntry)}
    (hanswer : Stands failing answer store.inventoryAnswer) :
    store.Sound failing (s.keepInventory () answer) := by
  refine ⟨hs.copy, hs.nodeMetadata, hs.arrayMetadata, hs.verifiedArrays, fun a ha => ?_,
    hs.doubleArrays, hs.stringArrays⟩
  have hpush : a ∈ s.inventory.push () answer () := ha
  rcases Memo.mem_push hpush with ha | ⟨-, rfl⟩
  · exact hs.inventory a ha
  · exact hanswer

theorem Sound.keepDoubleArrays {s : Session} (hs : store.Sound failing s) {key : String}
    {answer : Except Error NumericArray}
    (hanswer : Stands failing answer (store.numericAnswer key)) :
    store.Sound failing (s.keepDoubleArrays key answer) :=
  ⟨hs.copy, hs.nodeMetadata, hs.arrayMetadata, hs.verifiedArrays, hs.inventory,
    stands_push hs.doubleArrays hanswer, hs.stringArrays⟩

theorem Sound.keepStringArrays {s : Session} (hs : store.Sound failing s) {key : String}
    {answer : Except Error (List Bytes)}
    (hanswer : Stands failing answer (store.stringAnswer key)) :
    store.Sound failing (s.keepStringArrays key answer) :=
  ⟨hs.copy, hs.nodeMetadata, hs.arrayMetadata, hs.verifiedArrays, hs.inventory, hs.doubleArrays,
    stands_push hs.stringArrays hanswer⟩

theorem gives_readArrayMetadata (hfiled : store.Filed) (hout : outages.Transient failing)
    (node : String) :
    store.Gives failing (store.readArrayMetadata outages node) (store.arrayAnswer node) := by
  have hkey : unname (store.arrayAnswer node) = _ := unname_arrayAnswer node
  refine Refines.remember Session.Extends.refl (fun _ _ _ => Session.Extends.trans)
    (fun s hs answer hmem => (hs.arrayMetadata _ answer hmem).of_unname hkey.symm)
    (fun s answer hs hstands => hs.keepArrayMetadata (hstands.of_unname hkey))
    (fun s answer => s.extends_keepArrayMetadata _ answer) ?_
  cases h : normalizeNodeName node with
  | error e =>
    refine Gives.pure ?_
    rw [arrayAnswer, nodeAnswer, h]
    exact Stands.refl _
  | ok name =>
    exact (gives_readNodeMetadata hfiled hout node).andThen (fun _ => rfl) fun metadata _ =>
      Gives.pure (Stands.refl (parseArrayMetadata metadata node))

/-- Holding the copy to what stands for the own document. -/
theorem stands_verifyOwn (copy : ArrayMetadata) (name : String) {b y : Except Error Bytes}
    (h : Stands failing b y) :
    Stands failing (store.verifyOwn copy name b) (store.verifyOwn copy name y) := by
  rcases h with ⟨hfailing, h⟩ | h
  · cases b with
    | ok bytes => cases h
    | error e =>
      have hcode : e.code ≠ .notFound := by
        intro hcode
        rw [askAgain, hcode] at h
        cases h
      rw [verifyOwn, if_neg hcode]
      exact .inl ⟨hfailing, h⟩
  · cases b with
    | ok bytes =>
      have hstands : Stands True (.ok bytes) y := .inr h
      rw [hstands.ok]
      exact Stands.refl _
    | error e =>
      cases y with
      | ok bytes => cases h
      | error e' =>
        rw [unname_error, unname_error, Except.error.injEq] at h
        have hcode : (unname e).code = (unname e').code := congrArg Error.code h
        change e.code = e'.code at hcode
        rw [verifyOwn, verifyOwn, hcode]
        split_ifs
        · exact Stands.refl _
        · exact .inr (by rw [unname_error, unname_error, h])

theorem gives_verifyArray (hfiled : store.Filed)
    (hout : outages.Transient failing) (node : String) :
    store.Gives failing (store.verifyArray outages node) (store.verifyAnswer node) := by
  refine Refines.remember Session.Extends.refl (fun _ _ _ => Session.Extends.trans)
    (fun s hs => hs.verifiedArrays node) (fun s answer hs => hs.keepVerifiedArrays)
    (fun s answer => s.extends_keepVerifiedArrays _ answer) ?_
  refine (gives_readArrayMetadata hfiled hout node).andThen (fun _ => rfl) fun copy _ => ?_
  dsimp only
  split_ifs with hmem
  · exact Refines.bind (gives_ask hout _) (fun _ _ _ => Session.Extends.trans) fun b hb =>
      Gives.pure (stands_verifyOwn copy _ hb)
  · exact Gives.pure (Stands.refl (.ok copy))

theorem gives_nodeNames (hout : outages.Transient failing) :
    store.Gives failing (store.nodeNames outages) store.namesAnswer := by
  unfold nodeNames namesAnswer
  split_ifs
  · exact Gives.pure (Stands.refl _)
  · exact (gives_ask hout store.backing.listNodes).andThen (fun _ => rfl) fun listed _ =>
      Gives.pure (Stands.refl _)

end Store

end CartaZarr
