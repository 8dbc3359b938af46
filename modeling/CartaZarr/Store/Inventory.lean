import CartaZarr.Image.StoredGeometry
import CartaZarr.Store.NodePaths
import CartaZarr.Store.Refinement

/-!
# The inventory a store has to answer

An inventory has an entry for each node, of what its document says. An entry is made of two answers,
and an array whose document was read is parsed or refused for good, so that no entry holds a failure
that was of a read (`gives_inventory`).
-/

namespace CartaZarr

/-- A computation that is refused only for what is written, not for a read that failed. -/
def Settled {α : Type} (x : Except Failure α) : Prop := ∀ f, x = .error f → f.1.isTransient = false

section Settled

variable {α β : Type}

theorem Settled.ok (a : α) : Settled (.ok a) := by
  rintro f ⟨⟩

theorem Settled.bind {x : Except Failure α} {f : α → Except Failure β} (hx : Settled x)
    (hf : ∀ a, Settled (f a)) : Settled (x >>= f) := by
  cases x with
  | error e => exact fun g h => hx g (congrArg Except.error (Except.error.inj h))
  | ok a => exact hf a

theorem settled_require (condition : Bool) {code : ErrorCode} (hcode : code.isTransient = false)
    (message : String) : Settled (require condition code message) := by
  unfold require
  split
  · exact .ok _
  · rintro f ⟨⟩
    exact hcode

theorem settled_demand (value : Option α) {code : ErrorCode} (hcode : code.isTransient = false)
    (message : String) : Settled (demand value code message) := by
  unfold demand
  split
  · exact .ok _
  · rintro f ⟨⟩
    exact hcode

theorem Settled.mapM {f : α → Except Failure β} (hf : ∀ a, Settled (f a)) (xs : List α) :
    Settled (xs.mapM f) := by
  induction xs with
  | nil => exact .ok _
  | cons x xs ih =>
    rw [List.mapM_cons]
    exact (hf x).bind fun _ => ih.bind fun _ => .ok _

theorem settled_parseExtents (value : Option Json) (rank : ℕ) (message : String) :
    Settled (parseExtents value rank message) :=
  (settled_demand _ rfl _).bind fun _ => (settled_require _ rfl _).bind fun _ => .ok _

theorem settled_parseDimensionNames (metadata : Json) (rank : ℕ) :
    Settled (parseDimensionNames metadata rank) := by
  unfold parseDimensionNames
  split
  · exact .ok _
  · exact (settled_demand _ rfl _).bind fun _ => (settled_require _ rfl _).bind fun _ =>
      (Settled.mapM (fun _ => settled_demand _ rfl _) _).bind fun _ =>
        (settled_require _ rfl _).bind fun _ => .ok _

theorem settled_parseDataTypeMember (metadata : Json) : Settled (parseDataTypeMember metadata) := by
  refine (settled_demand _ rfl _).bind fun dataType => ?_
  split
  · exact .ok _
  · refine (settled_demand _ rfl _).bind fun _ => ?_
    split
    · exact .ok _
    · exact (settled_require _ rfl _).bind fun _ => .ok _

theorem settled_parseAttributes (metadata : Json) : Settled (parseAttributes metadata) := by
  unfold parseAttributes
  split
  · exact .ok _
  · exact (settled_require _ rfl _).bind fun _ => .ok _

theorem settled_parseCodecsMember (metadata : Json) : Settled (parseCodecsMember metadata) := by
  unfold parseCodecsMember
  split
  · exact .ok _
  · exact (settled_require _ rfl _).bind fun _ => .ok _

theorem settled_checkSharding (codecs : List Json)
    (rank : ℕ) : Settled (checkSharding codecs rank) := by
  unfold checkSharding
  split
  · exact .ok _
  · refine (settled_parseExtents _ _ _).bind fun _ => ?_
    split
    · exact .ok _
    · exact settled_require _ rfl _

/-- A document is refused for good. -/
theorem settled_parseArray (metadata : Json) : Settled (parseArray metadata) := by
  unfold parseArray
  refine (settled_require _ rfl _).bind fun _ => (settled_require _ rfl _).bind fun _ =>
    (settled_demand _ rfl _).bind fun _ => (settled_require _ rfl _).bind fun _ => ?_
  have hshape : Settled (parseShape metadata) :=
    (settled_demand _ rfl _).bind fun _ => Settled.mapM (fun _ => settled_demand _ rfl _) _
  have hchunks : ∀ rank, Settled (parseChunkShape metadata rank) := fun rank =>
    (settled_require _ rfl _).bind fun _ => settled_parseExtents _ _ _
  exact hshape.bind fun _ => (settled_parseDimensionNames _ _).bind fun _ =>
    (settled_parseDataTypeMember _).bind fun _ => (settled_parseAttributes _).bind fun _ =>
    (settled_parseCodecsMember _).bind fun _ => (hchunks _).bind fun _ =>
    (settled_require _ rfl _).bind fun _ => (settled_checkSharding _ _).bind fun _ => .ok _

theorem askAgain_parseArrayMetadata (metadata : Json) (node : String) :
    askAgain (parseArrayMetadata metadata node) = false := by
  unfold parseArrayMetadata
  cases h : parseArray metadata with
  | ok m => rfl
  | error f => exact settled_parseArray metadata f h

end Settled

namespace Store

variable {store : Store} {failing : Prop} {outages : Outages}

/-- An array whose document was read is parsed or refused for good. -/
theorem askAgain_readArrayMetadata {node : String} {document : Json} {s : Session}
    (hread : store.readNodeMetadata outages node s = (.ok document, s)) :
    askAgain (store.readArrayMetadata outages node s).1 = false := by
  refine again_remember _ _ _ _ _ s ?_
  cases h : normalizeNodeName node with
  | error e =>
    rw [normalizeNodeName_eq_error h]
    rfl
  | ok name =>
    simp only [bind, StateT.bind, hread]
    exact askAgain_parseArrayMetadata document node

/-- What was read of a node is read of it again, without a read. -/
theorem Sound.readNodeMetadata_again {s : Session} (hs : store.Sound failing s) {node : String}
    {document : Json} (h : (store.readNodeMetadata outages node s).1 = .ok document)
    (hfiled : store.Filed) (hout : outages.Transient failing) :
    store.readNodeMetadata outages node (store.readNodeMetadata outages node s).2 =
      (.ok document, (store.readNodeMetadata outages node s).2) := by
  have hkept := (isEntry_nodeMetadata store outages node).kept s
  rw [h] at hkept
  have hanswer : store.nodeAnswer node = .ok document := by
    obtain ⟨-, -, hstands⟩ := gives_readNodeMetadata hfiled hout node s hs
    rw [h] at hstands
    exact hstands.ok
  cases hname : normalizeNodeName node with
  | error e =>
    rw [nodeAnswer, hname] at hanswer
    cases hanswer
  | ok name =>
    rw [cacheKey_of_ok hname] at hkept
    generalize (store.readNodeMetadata outages node s).2 = s' at hkept ⊢
    rw [readNodeMetadata, hname]
    exact remember_of_current _ _ _ hkept rfl

theorem gives_readEntry (hfiled : store.Filed) (hout : outages.Transient failing) (node : String) :
    store.Gives failing (store.readEntry outages node) (store.entryAnswer node) := by
  intro s hs
  obtain ⟨hsound, hext, hstands⟩ := gives_readNodeMetadata hfiled hout node s hs
  have hagain := fun document =>
    @Sound.readNodeMetadata_again store failing outages s hs node document
  unfold readEntry
  rcases hread : store.readNodeMetadata outages node s with ⟨r, s'⟩
  rw [hread] at hsound hext hstands hagain
  simp only [bind, StateT.bind, hread]
  cases r with
  | error e =>
    dsimp only
    rcases hstands with ⟨hfailing, htransient⟩ | hunname
    · have hcode : e.code ≠ .invalidMetadata := by
        intro hcode
        rw [askAgain, hcode] at htransient
        cases htransient
      rw [if_neg hcode]
      exact ⟨hsound, hext, .inl ⟨hfailing, htransient⟩⟩
    · cases hanswer : store.nodeAnswer node with
      | ok document =>
        rw [hanswer] at hunname
        cases hunname
      | error e' =>
        rw [hanswer, unname_error, unname_error, Except.error.injEq] at hunname
        have hcode : (unname e).code = (unname e').code := congrArg Error.code hunname
        change e.code = e'.code at hcode
        rw [entryAnswer, hanswer]
        dsimp only
        rw [hcode]
        split_ifs
        · exact ⟨hsound, hext, .inr (congrArg
            (fun e => (.ok ⟨node, .unrecognised, none, some e⟩ : Except Error NodeEntry)) hunname)⟩
        · exact ⟨hsound, hext, .inr (congrArg
            (fun e => (.error e : Except Error NodeEntry)) hunname)⟩
  | ok document =>
    dsimp only
    have hanswer := hstands.ok
    rw [entryAnswer, hanswer]
    dsimp only
    cases nodeKind document with
    | group => exact ⟨hsound, hext, Stands.refl _⟩
    | unrecognised => exact ⟨hsound, hext, Stands.refl _⟩
    | array =>
      obtain ⟨hsound', hext', hstands'⟩ := gives_readArrayMetadata hfiled hout node s' hsound
      have hsettled := askAgain_readArrayMetadata (hagain document rfl hfiled hout)
      refine ⟨hsound', hext.trans hext', .inr ?_⟩
      rcases hstands' with ⟨-, htransient⟩ | hunname
      · rw [hsettled] at htransient
        cases htransient
      · exact congrArg (fun r => (.ok ⟨node, .array, some r, none⟩ :
          Except Error NodeEntry)) hunname

/-- An answer that is no error stands for one that is none. -/
theorem Stands.exists_ok {α : Type} [Unname α] {a : α} {b : Except Error α}
    (h : Stands failing (.ok a) b) : ∃ b', b = .ok b' ∧ unname a = unname b' := by
  rcases h with ⟨-, h⟩ | h
  · cases h
  · cases b with
    | ok b' => exact ⟨b', rfl, Except.ok.inj h⟩
    | error e => cases h

theorem gives_readEntries (hfiled : store.Filed) (hout : outages.Transient failing)
    (nodes : List String) :
    store.Gives failing (store.readEntries outages nodes) (nodes.mapM store.entryAnswer) := by
  induction nodes with
  | nil => exact Gives.pure (Stands.refl (.ok []))
  | cons node nodes ih =>
    rw [List.mapM_cons, readEntries]
    refine Refines.bind (gives_readEntry hfiled hout node) (fun _ _ _ => Session.Extends.trans)
      fun r hr => ?_
    cases r with
    | error e => exact Gives.pure (hr.error _)
    | ok entry =>
      obtain ⟨entry', hentry, hunname⟩ := Stands.exists_ok hr
      rw [hentry, ok_bind]
      refine Refines.bind ih (fun _ _ _ => Session.Extends.trans) fun rs hrs => ?_
      cases rs with
      | error e => exact Gives.pure (hrs.error _)
      | ok entries =>
        obtain ⟨entries', hentries, hunnames⟩ := Stands.exists_ok hrs
        rw [hentries, ok_bind]
        exact Gives.pure (.inr (congrArg (fun l => (.ok l : Except Error (List NodeEntry)))
          (congrArg₂ List.cons hunname hunnames)))

theorem gives_inventory (hfiled : store.Filed) (hout : outages.Transient failing) :
    store.Gives failing (store.inventory outages) store.inventoryAnswer := by
  refine Refines.remember Session.Extends.refl (fun _ _ _ => Session.Extends.trans)
    (fun s hs => hs.inventory) (fun s answer hs => hs.keepInventory)
    (fun s answer => s.extends_keepInventory () answer) ?_
  exact (gives_nodeNames hout).andThen (fun _ => rfl) fun names _ => gives_readEntries hfiled hout _

end Store

/-! ## What the inventory has -/

section Entries

variable {store : Store}

/-- An entry is of its node, and has the answer about its array. -/
theorem entryAnswer_eq_ok {node : String} {entry : NodeEntry}
    (h : store.entryAnswer node = .ok entry) :
    entry.name = node ∧ ∀ r, entry.array = some r → entry.kind = .array ∧
    r = store.arrayAnswer node := by
  unfold Store.entryAnswer at h
  split at h
  · split_ifs at h
    cases h
    exact ⟨rfl, by rintro r ⟨⟩⟩
  · split at h
    · cases h
      exact ⟨rfl, by rintro r ⟨⟩⟩
    · cases h
      refine ⟨rfl, ?_⟩
      rintro r ⟨⟩
      exact ⟨rfl, rfl⟩
    · cases h
      exact ⟨rfl, by rintro r ⟨⟩⟩

/-- The names of the nodes are canonical. -/
theorem namesAnswer_canonical (hfiled : store.Filed) {names : List String}
    (h : store.namesAnswer = .ok names) : ∀ name ∈ names, normalizeNodeName name = .ok name := by
  unfold Store.namesAnswer at h
  split_ifs at h
  · cases h
    exact hfiled.canonical
  · obtain ⟨listed, -, hlisted⟩ := bind_eq_ok_iff.1 h
    intro name hname
    obtain ⟨i, hi, rfl⟩ := List.mem_iff_getElem.1 hname
    have hforall := mapM_eq_ok_iff.1 hlisted
    have hnode := (List.forall₂_iff_get.1 hforall).2 i (by rw [hforall.length_eq]; exact hi) hi
    dsimp only [List.get_eq_getElem] at hnode
    split at hnode
    · cases hnode
      rename_i hcanonical
      exact normalizeNodeName_canonical hcanonical
    · cases hnode

/-- The entries are of the nodes that are named, each once and in order. -/
theorem inventoryAnswer_names {names : List String} (hnames : store.namesAnswer = .ok names)
    {entries : List NodeEntry} (h : store.inventoryAnswer = .ok entries) :
    entries.map NodeEntry.name = unique (names.insertionSort (· ≤ ·)) := by
  rw [Store.inventoryAnswer, hnames, ok_bind] at h
  have hforall := mapM_eq_ok_iff.1 h
  refine List.ext_getElem (by simp [hforall.length_eq]) fun i h₁ h₂ => ?_
  rw [List.getElem_map]
  exact (entryAnswer_eq_ok ((List.forall₂_iff_get.1 hforall).2 i h₂ (by simpa using h₁))).1

/-- The entries are of different nodes, under their canonical names, and have the answers about
their arrays. -/
theorem inventoryAnswer_eq_ok (hfiled : store.Filed) {entries : List NodeEntry}
    (h : store.inventoryAnswer = .ok entries) :
    (entries.map NodeEntry.name).Nodup ∧
    ∀ entry ∈ entries, normalizeNodeName entry.name = .ok entry.name ∧
      ∀ r, entry.array = some r → entry.kind = .array ∧ r = store.arrayAnswer entry.name := by
  obtain ⟨names, hnames, hentries⟩ := bind_eq_ok_iff.1 h
  have hforall := mapM_eq_ok_iff.1 hentries
  refine ⟨?_, fun entry hentry => ?_⟩
  · rw [inventoryAnswer_names hnames h]
    exact (unique_pairwise (List.pairwise_insertionSort _ _)).imp ne_of_lt
  · obtain ⟨i, hi, rfl⟩ := List.mem_iff_getElem.1 hentry
    have hi' : i < (unique (names.insertionSort (· ≤ ·))).length := by
      rw [hforall.length_eq]; exact hi
    obtain ⟨hname, harray⟩ := entryAnswer_eq_ok ((List.forall₂_iff_get.1 hforall).2 i hi' hi)
    simp only [List.get_eq_getElem] at hname harray
    rw [hname]
    refine ⟨namesAnswer_canonical hfiled hnames _ ?_, harray⟩
    exact (List.mem_insertionSort _).1 (mem_unique.1 (List.getElem_mem hi'))

end Entries

/-- What is filed under a name is filed under its canonical one. -/
theorem normalizeNodeName_of_mem_filed {entries : List (String × Json)} {name : String}
    (h : name ∈ (filed entries).map Prod.fst) : normalizeNodeName name = .ok name := by
  obtain ⟨document, hdocument, rfl⟩ := List.mem_map.1 h
  obtain ⟨entry, -, hentry⟩ := List.mem_filterMap.1 hdocument
  obtain ⟨-, hentry⟩ := Option.ite_none_left_eq_some.1 hentry
  cases hnode : normalizeNodeName (normalizeMetadataKey entry.1) with
  | error e =>
    rw [hnode] at hentry
    cases hentry
  | ok node =>
    rw [hnode] at hentry
    obtain rfl := Option.some.inj hentry
    exact normalizeNodeName_canonical hnode

/-- **A store that was opened** has its root's copy filed. -/
theorem openStore_filed {backing : Backing} {store : Store} (h : openStore backing = .ok store) :
    store.Filed := by
  unfold openStore at h
  simp only [bind_eq_ok_iff] at h
  obtain ⟨metadata, -, _, -, consolidated, hconsolidated, ⟨⟩⟩ := h
  have hnone : ∀ backing attributes, Store.Filed ⟨backing, attributes, [], false⟩ := fun _ _ =>
    ⟨List.Pairwise.nil, fun name hname => by cases hname⟩
  unfold readConsolidated at hconsolidated
  split at hconsolidated
  · cases hconsolidated
    exact hnone _ _
  · cases hconsolidated
    exact hnone _ _
  · split at hconsolidated
    · obtain ⟨documents, hdocuments, rfl⟩ := map_eq_ok_iff.1 hconsolidated
      obtain ⟨-, hsorted, hperm⟩ := collectConsolidatedMetadata_eq_ok
        (mapError_eq_ok_iff.1 hdocuments)
      exact ⟨hsorted, fun name hname => normalizeNodeName_of_mem_filed
        ((hperm.map Prod.fst).mem_iff.1 hname)⟩
    · cases hconsolidated

end CartaZarr
