import CartaZarr.Store.Requests
import CartaZarr.Zarr.StringFormat

/-!
# The nodes a consolidated block accounts for

A store whose root has a copy of its children's documents takes the copy at its word: what the
traversal reaches is what there is. Either the root is refused, for a key that names no node or for
two that name one, or every document reached is in the inventory under its canonical name and is
read under every spelling of it, whatever reads fail (`openStore_accounts`).
-/

namespace CartaZarr

/-- A backing whose root is a group with a block of its children's documents. -/
def Consolidates (backing : Backing) (block : Json) : Prop :=
  ∃ root member, readRoot backing = .ok root ∧ checkRoot root = .ok () ∧
    root.get? "consolidated_metadata" = some member ∧ member.get? "metadata" = some block

/-- The canonical name of a document that is reached, which is not the root's. -/
def NamedIn (block : Json) (name : String) (document : Json) : Prop :=
  ∃ spelled, (spelled, document) ∈ reached block "" ∧ normalizeMetadataKey spelled ≠ "" ∧
    normalizeNodeName (normalizeMetadataKey spelled) = .ok name

/-- A block that can be filed: an object, no key of which names no node and no two name one. -/
def Fileable (block : Json) : Prop := block.isObject = true ∧ Listable (reached block "")

/-- A store has the nodes of a block, and no others. -/
structure Accounts (store : Store) (block : Json) : Prop where
  inventory : ∀ {failing : Prop} {outages : Outages}, outages.Transient failing →
    ∀ s, store.Reached outages s → ∃ entries, (store.inventory outages s).1 = .ok entries ∧
      (entries.map NodeEntry.name).Pairwise (· < ·) ∧
      ∀ name, name ∈ entries.map NodeEntry.name ↔ ∃ document, NamedIn block name document
  read : ∀ {failing : Prop} {outages : Outages}, outages.Transient failing →
    ∀ s, store.Reached outages s → ∀ name document spelling, NamedIn block name document →
      normalizeNodeName spelling = .ok name →
        (store.readNodeMetadata outages spelling s).1 = .ok document

namespace Store

variable {store : Store} {failing : Prop} {outages : Outages} {s : Session}

/-- A node of the root's copy has its entry without a read. -/
theorem readEntry_of_copy (hfiled : store.Filed) (hs : store.Sound failing s) {name : String}
    (h : name ∈ store.consolidatedNodes) :
    ∃ entry, (store.readEntry outages name s).1 = .ok entry := by
  obtain ⟨document, hlookup⟩ := mem_consolidatedNodes_iff.1 h
  have hread := @Sound.readNodeMetadata_of_copy store failing outages s hs name name
    (hfiled.canonical name h) document hlookup
  unfold readEntry
  simp only [bind, StateT.bind, hread]
  cases nodeKind document <;> exact ⟨_, rfl⟩

theorem readEntries_of_copy (hfiled : store.Filed) (hout : outages.Transient failing)
    (hs : store.Sound failing s) {names : List String}
    (h : ∀ name ∈ names, name ∈ store.consolidatedNodes) :
    ∃ entries, (store.readEntries outages names s).1 = .ok entries := by
  induction names generalizing s with
  | nil => exact ⟨[], rfl⟩
  | cons name names ih =>
    have hentry := @readEntry_of_copy store failing outages s hfiled hs name (h name (by simp))
    have hsound := (gives_readEntry hfiled hout name s hs).1
    unfold readEntries
    rcases hrun : store.readEntry outages name s with ⟨r, s'⟩
    rw [hrun] at hentry hsound
    simp only [bind, StateT.bind, hrun]
    obtain ⟨entry, rfl⟩ := hentry
    have hrest := @ih s' hsound fun other hother => h other (by simp [hother])
    dsimp only
    rcases hruns : store.readEntries outages names s' with ⟨rs, s''⟩
    rw [hruns] at hrest
    obtain ⟨entries, rfl⟩ := hrest
    refine ⟨entry :: entries, ?_⟩
    simp only [StateT.bind, hruns]
    rfl

theorem inventory_of_current (hfiled : store.Filed) (hcopy : store.hasConsolidatedMetadata = true)
    (hout : outages.Transient failing) (hs : store.Sound failing s)
    (hcurrent : ∀ answer ∈ s.inventory (), askAgain answer = false →
      ∃ entries, answer = .ok entries) :
    ∃ entries, (store.inventory outages s).1 = .ok entries := by
  refine remember_answer Session.inventory Session.keepInventory askAgain () _ s
    (p := fun answer : Except Error (List NodeEntry) => ∃ entries, answer = .ok entries) hcurrent ?_
  rw [nodeNames, if_pos hcopy]
  exact readEntries_of_copy hfiled hout hs fun name hname => mem_unique_insertionSort.1 hname

/-- A store with a copy has an inventory to answer. -/
theorem exists_inventoryAnswer (hfiled : store.Filed)
    (hcopy : store.hasConsolidatedMetadata = true) :
    ∃ entries, store.inventoryAnswer = .ok entries := by
  have hout : Outages.Transient (fun _ => none) False := fun _ _ h => by cases h
  have hs := @Filed.sound_initial store False hfiled
  obtain ⟨entries, h⟩ := inventory_of_current hfiled hcopy hout hs fun _ h => by cases h
  obtain ⟨-, -, hstands⟩ := gives_inventory hfiled hout store.initial hs
  rw [h] at hstands
  obtain ⟨entries', h', -⟩ := Stands.exists_ok hstands
  exact ⟨entries', h'⟩

/-- The inventory of a store with a copy is of the nodes of the copy, whatever reads fail. -/
theorem inventory_of_copy (hfiled : store.Filed) (hcopy : store.hasConsolidatedMetadata = true)
    (hout : outages.Transient failing) (hs : store.Sound failing s) :
    ∃ entries, (store.inventory outages s).1 = .ok entries ∧
      (entries.map NodeEntry.name).Pairwise (· < ·) ∧
      ∀ name, name ∈ entries.map NodeEntry.name ↔ name ∈ store.consolidatedNodes := by
  obtain ⟨answer, hanswer⟩ := exists_inventoryAnswer hfiled hcopy
  have hnames : answer.map NodeEntry.name = _ :=
    inventoryAnswer_names (show store.namesAnswer =
      .ok store.consolidatedNodes from if_pos hcopy) hanswer
  obtain ⟨entries, h⟩ := inventory_of_current hfiled hcopy hout hs fun r hr hagain => by
    rcases hs.inventory r hr with ⟨-, htransient⟩ | hunname
    · rw [hagain] at htransient
      cases htransient
    · rw [hanswer] at hunname
      cases r with
      | ok entries => exact ⟨entries, rfl⟩
      | error e => cases hunname
  obtain ⟨-, -, hstands⟩ := gives_inventory hfiled hout s hs
  rw [h] at hstands
  obtain ⟨answer', hanswer', hunname⟩ := Stands.exists_ok hstands
  obtain rfl := Except.ok.inj (hanswer.symm.trans hanswer')
  have hsame : entries.map NodeEntry.name = answer.map NodeEntry.name := by
    have hmap := congrArg (List.map NodeEntry.name) hunname
    change (entries.map unname).map NodeEntry.name = (answer.map unname).map NodeEntry.name at hmap
    rwa [List.map_map, List.map_map] at hmap
  refine ⟨entries, h, ?_, fun name => ?_⟩
  · rw [hsame, hnames]
    exact unique_insertionSort_pairwise _
  · rw [hsame, hnames, mem_unique_insertionSort]

end Store

/-! ## What becomes of a block -/

theorem readConsolidated_of {root member block : Json}
    (hmember : root.get? "consolidated_metadata" = some member)
    (hblock : member.get? "metadata" = some block) :
    readConsolidated root = if block.isObject then
      ((collectConsolidatedMetadata block "" []).mapError .refused).map some
    else refuseRoot .invalidMetadata
      "Zarr consolidated_metadata must contain an object metadata member" := by
  have hnull : member ≠ .null := by
    rintro rfl
    cases hblock
  unfold readConsolidated
  rw [hmember]
  cases member with
  | null => exact absurd rfl hnull
  | object members =>
    dsimp only
    rw [hblock]
    cases block <;> rfl
  | _ => cases hblock

/-- A root with a block is opened, with the block filed, or refused, as the block can be filed or
not. -/
theorem openStore_cases {backing : Backing} {block : Json} (h : Consolidates backing block) :
    (¬ Fileable block ∧ ∃ e, openStore backing = .error (.refused e) ∧ e.code = .invalidMetadata) ∨
    Fileable block ∧ ∃ store, openStore backing = .ok store ∧ store.hasConsolidatedMetadata = true ∧
      collectConsolidatedMetadata block "" [] = .ok store.consolidated := by
  obtain ⟨root, member, hroot, hcheck, hmember, hblock⟩ := h
  have hopen : openStore backing = (readConsolidated root >>= fun consolidated =>
      .ok ⟨backing, (root.get? "attributes").getD (.object []), consolidated.getD [],
        consolidated.isSome⟩) := by
    rw [openStore, hroot]
    change (checkRoot root >>= fun _ => _) = _
    rw [hcheck]
    rfl
  rw [hopen, readConsolidated_of hmember hblock]
  by_cases hobject : block.isObject = true
  swap
  · rw [if_neg hobject]
    exact .inl ⟨fun h => hobject h.1, _, rfl, rfl⟩
  rw [if_pos hobject]
  rcases collectConsolidatedMetadata_cases block
    with ⟨hlist, documents, hcollect⟩ | ⟨hlist, e, hcollect, he⟩
  · rw [hcollect]
    exact .inr ⟨⟨hobject, hlist⟩, _, rfl, rfl, rfl⟩
  · rw [hcollect]
    exact .inl ⟨fun h => hlist h.2, e, rfl, he⟩

/-- What is looked up in a list without a key twice is what is in it. -/
theorem lookup_eq_some_iff_mem {α : Type} {entries : List (String × α)}
    (h : (entries.map Prod.fst).Nodup)
    {key : String} {value : α} : entries.lookup key = some value ↔ (key, value) ∈ entries := by
  induction entries with
  | nil => simp
  | cons entry entries ih =>
    obtain ⟨key', value'⟩ := entry
    rw [List.map_cons, List.nodup_cons] at h
    rw [List.lookup_cons, List.mem_cons, Prod.mk.injEq]
    by_cases hkey : key = key'
    · subst hkey
      have hnot : (key, value) ∉ entries := fun hmem =>
        h.1 (List.mem_map.2 ⟨_, hmem, rfl⟩)
      simp [hnot, eq_comm]
    · have hne : (key == key') = false := by simpa using hkey
      rw [hne]
      simp [hkey, ih h.2]

theorem mem_filed_iff {block : Json} {name : String} {document : Json} :
    (name, document) ∈ filed (reached block "") ↔ NamedIn block name document := by
  unfold filed filedAs NamedIn
  rw [List.mem_filterMap]
  constructor
  · rintro ⟨⟨spelled, document'⟩, hmem, hfiled⟩
    obtain ⟨hroot, hfiled⟩ := Option.ite_none_left_eq_some.1 hfiled
    cases hname : normalizeNodeName (normalizeMetadataKey spelled) with
    | error e =>
      rw [hname] at hfiled
      cases hfiled
    | ok name' =>
      rw [hname] at hfiled
      cases hfiled
      exact ⟨spelled, hmem, hroot, hname⟩
  · rintro ⟨spelled, hmem, hroot, hname⟩
    exact ⟨(spelled, document), hmem, by rw [if_neg hroot, hname]; rfl⟩

/-- What a store has filed is what is named in the block. -/
theorem lookup_consolidated_iff {block : Json} {documents : Documents}
    (h : collectConsolidatedMetadata block "" [] = .ok documents)
    (name : String) (document : Json) :
    documents.lookup name = some document ↔ NamedIn block name document := by
  obtain ⟨-, hsorted, hperm⟩ := collectConsolidatedMetadata_eq_ok h
  rw [lookup_eq_some_iff_mem hsorted.nodup, hperm.mem_iff, mem_filed_iff]

theorem accounts_of_open {backing : Backing} {block : Json} {store : Store}
    (hopen : openStore backing = .ok store) (hcopy : store.hasConsolidatedMetadata = true)
    (hcollect : collectConsolidatedMetadata block "" [] = .ok store.consolidated) :
    Accounts store block := by
  have hfiled := openStore_filed hopen
  have hlookup := lookup_consolidated_iff hcollect
  refine ⟨fun hout s hs => ?_,
    fun {failing} {outages} hout s hs name document spelling hnamed hname => ?_⟩
  · obtain ⟨entries, h, hsorted, hnames⟩ :=
      Store.inventory_of_copy hfiled hcopy hout (hs.sound hopen hout)
    refine ⟨entries, h, hsorted, fun name => (hnames name).trans ?_⟩
    rw [Store.mem_consolidatedNodes_iff]
    exact exists_congr fun document => hlookup name document
  · rw [(hs.sound hopen hout).readNodeMetadata_of_copy hname ((hlookup name document).2 hnamed)]

/-- Whether a block can be filed does not depend on the order of its keys, nor what it is filed
as. -/
theorem fileable_of_reordered {members members' : List (String × Json)}
    (h : Reordered members members') :
    (Fileable (.object members) ↔ Fileable (.object members')) ∧
    ∀ documents documents', collectConsolidatedMetadata (.object members) "" [] = .ok documents →
      collectConsolidatedMetadata (.object members') "" [] = .ok documents' →
      documents = documents' := by
  have hperm := h.perm_reached ""
  refine ⟨⟨fun hf => ⟨rfl, hf.2.of_perm hperm⟩, fun hf => ⟨rfl, hf.2.of_perm hperm.symm⟩⟩,
    fun documents documents' hd hd' => ?_⟩
  obtain ⟨-, hsorted, hfiled⟩ := collectConsolidatedMetadata_eq_ok hd
  obtain ⟨-, hsorted', hfiled'⟩ := collectConsolidatedMetadata_eq_ok hd'
  exact hsorted.eq_of_perm hsorted' (hfiled.trans ((hperm.filterMap filedAs).trans hfiled'.symm))

/-- **No node of a consolidated block is lost.** A root with a block is refused, where the block
cannot be filed, or is opened as a store that accounts for it; and what becomes of a block does not
depend on the order of its keys. -/
theorem openStore_accounts {backing : Backing} {block : Json} (h : Consolidates backing block) :
    ((¬ Fileable block ∧ ∃ e, openStore backing = .error (.refused e) ∧ e.code = .invalidMetadata) ∨
      Fileable block ∧ ∃ store, openStore backing = .ok store ∧ Accounts store block) ∧
    ∀ members members' backing', block = .object members → Reordered members members' →
      Consolidates backing' (.object members') →
      ((∃ e, openStore backing = .error (.refused e) ∧ e.code = .invalidMetadata) ↔
        ∃ e, openStore backing' = .error (.refused e) ∧ e.code = .invalidMetadata) ∧
      ∀ store store', openStore backing = .ok store → openStore backing' = .ok store' →
        store.consolidated = store'.consolidated := by
  have hcases := openStore_cases h
  constructor
  · refine hcases.imp_right fun hopened => ?_
    obtain ⟨hfileable, store, hopen, hcopy, hcollect⟩ := hopened
    exact ⟨hfileable, store, hopen, accounts_of_open hopen hcopy hcollect⟩
  rintro members members' backing' rfl hreordered h'
  obtain ⟨hiff, hsame⟩ := fileable_of_reordered hreordered
  rcases hcases with ⟨hnot, e, hrefused, he⟩ | ⟨hfileable, store, hopen, -, hcollect⟩
  · rcases openStore_cases h' with ⟨-, e', hrefused', he'⟩ | ⟨hfileable', -⟩
    · refine ⟨iff_of_true ⟨e, hrefused, he⟩ ⟨e', hrefused', he'⟩, fun store store' hopen => ?_⟩
      rw [hrefused] at hopen
      cases hopen
    · exact absurd (hiff.2 hfileable') hnot
  · rcases openStore_cases h' with ⟨hnot', -⟩ | ⟨-, store', hopen', -, hcollect'⟩
    · exact absurd (hiff.1 hfileable) hnot'
    · rw [hopen, hopen']
      refine ⟨iff_of_false (by rintro ⟨e, ⟨⟩, -⟩) (by rintro ⟨e, ⟨⟩, -⟩), ?_⟩
      rintro store store' ⟨⟩ ⟨⟩
      exact hsame _ _ hcollect hcollect'

/-- A block with the document of one node, keyed by a path to it. -/
def pathBlock : Json := .object [("/tables", .object [("./BEAM/zarr.json",
  .object [("node_type", .string "group")])])]

/-- A root with that block. -/
def keyedByPath : Backing where
  readNodeBytes _ := .ok []
  listNodes := .ok []
  arrayDirectory name := .ok name
  parseJson _ := .document (.object [("zarr_format", .unsigned 3), ("node_type", .string "group"),
    ("consolidated_metadata", .object [("metadata", pathBlock)])])
  numericValues _ := .ok []
  decompressors := storedStreams
  files _ := .missing

theorem openStore_accounts_keyedByPath :
    ((¬ Fileable pathBlock ∧ ∃ e, openStore keyedByPath = .error (.refused e) ∧
      e.code = .invalidMetadata) ∨
      Fileable pathBlock ∧ ∃ store, openStore keyedByPath = .ok store ∧ Accounts store pathBlock) ∧
    ∀ members members' backing', pathBlock = .object members → Reordered members members' →
      Consolidates backing' (.object members') →
      ((∃ e, openStore keyedByPath = .error (.refused e) ∧ e.code = .invalidMetadata) ↔
        ∃ e, openStore backing' = .error (.refused e) ∧ e.code = .invalidMetadata) ∧
      ∀ store store', openStore keyedByPath = .ok store → openStore backing' = .ok store' →
        store.consolidated = store'.consolidated :=
  openStore_accounts ⟨_, _, rfl, rfl, rfl, rfl⟩

example : collectConsolidatedMetadata pathBlock "" [] =
    .ok [("tables/BEAM", .object [("node_type", .string "group")])] := rfl

end CartaZarr
