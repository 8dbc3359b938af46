import CartaZarr.Store.NodePaths
import CartaZarr.Store.Requests
import CartaZarr.Zarr.StringFormat
import Mathlib.Logic.Relation

/-!
# What a store remembers

Reads may fail to be made, and what is asked again later is answered then. What a session has
answered for good it answers from then on, in the same words and without a read (`Session.Firm`): an
answer is superseded only where it is to be asked again, and the tables lie over each other so that
computing an answer never reaches the table it is for. With what the answers stand for this is all
there is to rely on (`remembered_answers`). How a node is spelled in an error, and that a node is
not found where the hierarchy could not be taken, still depend on which reads failed.
-/

namespace CartaZarr

open Relation (ReflTransGen)

/-- A session in which no answer is superseded that is not to be asked again. -/
structure Session.Firm (s s' : Session) : Prop where
  nodeMetadata : s.nodeMetadata.Firm askAgain s'.nodeMetadata
  arrayMetadata : s.arrayMetadata.Firm askAgain s'.arrayMetadata
  verifiedArrays : s.verifiedArrays.Firm askAgain s'.verifiedArrays
  inventory : s.inventory.Firm askAgain s'.inventory
  doubleArrays : s.doubleArrays.Firm askAgain s'.doubleArrays
  stringArrays : s.stringArrays.Firm askAgain s'.stringArrays

namespace Session

theorem Firm.refl (s : Session) : s.Firm s :=
  ⟨.refl _ _, .refl _ _, .refl _ _, .refl _ _, .refl _ _, .refl _ _⟩

theorem Firm.trans {a b c : Session} (h : a.Firm b) (h' : b.Firm c) : a.Firm c :=
  ⟨h.nodeMetadata.trans h'.nodeMetadata, h.arrayMetadata.trans h'.arrayMetadata,
    h.verifiedArrays.trans h'.verifiedArrays, h.inventory.trans h'.inventory,
    h.doubleArrays.trans h'.doubleArrays, h.stringArrays.trans h'.stringArrays⟩

/-- The answer of a key is none, or to be asked again. -/
def Open {κ α : Type} (memo : Memo κ (Except Error α)) (key : κ) : Prop :=
  ∀ answer, (memo key).getLast? = some answer → askAgain answer = true

section Keep

variable {s : Session}

theorem firm_keepNodeMetadata {key : String} (h : Open s.nodeMetadata key)
    (answer : Except Error Json) :
    s.Firm (s.keepNodeMetadata key answer) :=
  { Firm.refl s with nodeMetadata := Memo.firm_push h answer }

theorem firm_keepArrayMetadata {key : String} (h : Open s.arrayMetadata key)
    (answer : Except Error ArrayMetadata) : s.Firm (s.keepArrayMetadata key answer) :=
  { Firm.refl s with arrayMetadata := Memo.firm_push h answer }

theorem firm_keepVerifiedArrays {key : String} (h : Open s.verifiedArrays key)
    (answer : Except Error ArrayMetadata) : s.Firm (s.keepVerifiedArrays key answer) :=
  { Firm.refl s with verifiedArrays := Memo.firm_push h answer }

theorem firm_keepInventory {key : Unit} (h : Open s.inventory key)
    (answer : Except Error (List NodeEntry)) :
    s.Firm (s.keepInventory key answer) :=
  { Firm.refl s with inventory := Memo.firm_push h answer }

theorem firm_keepDoubleArrays {key : String} (h : Open s.doubleArrays key)
    (answer : Except Error NumericArray) : s.Firm (s.keepDoubleArrays key answer) :=
  { Firm.refl s with doubleArrays := Memo.firm_push h answer }

theorem firm_keepStringArrays {key : String} (h : Open s.stringArrays key)
    (answer : Except Error (List Bytes)) : s.Firm (s.keepStringArrays key answer) :=
  { Firm.refl s with stringArrays := Memo.firm_push h answer }

end Keep

/-! ## What computing an answer does -/

/-- No answer is superseded for good, and a part of the session is as it was. -/
def FirmAnd {ρ : Type} (part : Session → ρ) (s s' : Session) : Prop := s.Firm s' ∧ part s' = part s

instance {ρ : Type} (part : Session → ρ) : IsPreorder Session (FirmAnd part) where
  refl s := ⟨.refl s, rfl⟩
  trans _ _ _ h h' := ⟨h.1.trans h'.1, h'.2.trans h.2⟩

/-- The tables, from the lowest on: computing an answer for one reaches those below it only. -/
def tables (s : Session) :=
  (s.nodeMetadata, s.arrayMetadata, s.verifiedArrays, s.inventory, s.doubleArrays,
  s.stringArrays)

def aboveNodes (s : Session) :=
  (s.arrayMetadata, s.verifiedArrays, s.inventory, s.doubleArrays, s.stringArrays)

def aboveArrays (s : Session) := (s.verifiedArrays, s.inventory, s.doubleArrays, s.stringArrays)

def aboveVerified (s : Session) := (s.inventory, s.doubleArrays, s.stringArrays)

/-- An answer is kept where there was none for good, for computing it left the table alone. -/
theorem FirmAnd.remember {α κ ρ ρ' : Type} {part : Session → ρ} {part' : Session → ρ'}
    {table : Session → Memo κ (Except Error α)}
    {keep : Session → κ → Except Error α → Session} {key : κ}
    {compute : StateM Session (Except Error α)}
    (hpart : ∀ s s' : Session, part s' = part s → table s' = table s ∧ part' s' = part' s)
    (hkeep : ∀ (s : Session) answer, Open (table s) key → FirmAnd part' s (keep s key answer))
    (h : Moves (FirmAnd part) compute) :
    Moves (FirmAnd part') (CartaZarr.remember table keep askAgain key compute) := by
  intro s
  obtain hstate | ⟨hopen, hstate⟩ := remember_state table keep askAgain key compute s
  · rw [hstate]
    exact refl_of (FirmAnd part') s
  · obtain ⟨hfirm, hsame⟩ := h s
    obtain ⟨htable, hsame'⟩ := hpart _ _ hsame
    rw [hstate]
    have hkept : FirmAnd part' (compute s).2 (keep (compute s).2 key (compute s).1) :=
      hkeep _ _ (by rw [htable]; exact hopen)
    exact trans_of (FirmAnd part') ⟨hfirm, hsame'⟩ hkept

end Session

namespace Store

open Session

variable {store : Store} {outages : Outages}

theorem moves_ask {α : Type} (answer : Except Error α) :
    Moves (FirmAnd tables) (ask outages answer) :=
  fun s => ⟨{ Firm.refl s with }, rfl⟩

theorem moves_readNodeMetadata (node : String) :
    Moves (FirmAnd aboveNodes) (store.readNodeMetadata outages node) := by
  have hpart : ∀ s s' : Session, tables s' = tables s →
      s'.nodeMetadata = s.nodeMetadata ∧ aboveNodes s' = aboveNodes s := fun s s' h =>
    ⟨congrArg Prod.fst h, congrArg Prod.snd h⟩
  have hkeep : ∀ key (s : Session) answer, Open s.nodeMetadata key →
      FirmAnd aboveNodes s (s.keepNodeMetadata key answer) := fun key s answer h =>
    ⟨firm_keepNodeMetadata h answer, rfl⟩
  unfold readNodeMetadata
  split
  · exact FirmAnd.remember hpart (hkeep node) (Moves.pure _)
  · rename_i name _
    refine FirmAnd.remember hpart (hkeep name) ((moves_ask _).bind fun r => ?_)
    cases r <;> exact Moves.pure _

theorem moves_readArrayMetadata (node : String) :
    Moves (FirmAnd aboveArrays) (store.readArrayMetadata outages node) := by
  refine FirmAnd.remember (fun s s' (h : aboveNodes s' = aboveNodes s) =>
    ⟨congrArg Prod.fst h, congrArg Prod.snd h⟩)
    (fun s answer h => ⟨firm_keepArrayMetadata h answer, rfl⟩) ?_
  split
  · exact Moves.pure _
  · refine (moves_readNodeMetadata node).bind fun r => ?_
    cases r <;> exact Moves.pure _

theorem moves_verifyArray (node : String) :
    Moves (FirmAnd aboveVerified) (store.verifyArray outages node) := by
  refine FirmAnd.remember
    (fun s s' (h : aboveArrays s' = aboveArrays s) => ⟨congrArg Prod.fst h, congrArg Prod.snd h⟩)
    (fun s answer h => ⟨firm_keepVerifiedArrays h answer, rfl⟩) ?_
  refine (moves_readArrayMetadata node).bind fun r => ?_
  cases r with
  | error e => exact Moves.pure _
  | ok copy =>
    dsimp only
    split_ifs
    · refine Moves.bind ((moves_ask _).mono fun s s' h => ⟨h.1, ?_⟩) fun _ => Moves.pure _
      exact congrArg (fun t => t.2.2) h.2
    · exact Moves.pure _

theorem moves_readEntries (nodes : List String) :
    Moves (FirmAnd aboveArrays) (store.readEntries outages nodes) := by
  have hentry : ∀ node, Moves (FirmAnd aboveArrays) (store.readEntry outages node) := by
    intro node
    have hnode : Moves (FirmAnd aboveArrays) (store.readNodeMetadata outages node) :=
      (moves_readNodeMetadata node).mono fun s s' h => ⟨h.1, congrArg Prod.snd h.2⟩
    refine hnode.bind fun r => ?_
    cases r with
    | error e => dsimp only; split_ifs <;> exact Moves.pure _
    | ok document =>
      dsimp only
      split
      · exact Moves.pure _
      · exact (moves_readArrayMetadata node).bind fun _ => Moves.pure _
      · exact Moves.pure _
  induction nodes with
  | nil => exact Moves.pure _
  | cons node nodes ih =>
    refine (hentry node).bind fun r => ?_
    cases r with
    | error e => exact Moves.pure _
    | ok entry =>
      refine ih.bind fun rs => ?_
      cases rs <;> exact Moves.pure _

theorem firm_inventory (s : Session) : s.Firm (store.inventory outages s).2 := by
  have hnames : Moves (FirmAnd aboveArrays) (store.nodeNames outages) := by
    unfold nodeNames
    split_ifs
    · exact Moves.pure _
    · refine Moves.bind ((moves_ask _).mono fun s s' h =>
        ⟨h.1, congrArg (fun t => t.2.2) h.2⟩) fun r => ?_
      cases r <;> exact Moves.pure _
  have hmoves : Moves (FirmAnd fun _ => ()) (store.inventory outages) := by
    refine FirmAnd.remember
      (fun s s' (h : aboveArrays s' = aboveArrays s) => ⟨congrArg (fun t => t.2.1) h, rfl⟩)
      (fun s answer h => ⟨firm_keepInventory h answer, rfl⟩) ?_
    refine hnames.bind fun r => ?_
    cases r with
    | error e => exact Moves.pure _
    | ok names => exact moves_readEntries _
  exact (hmoves s).1

theorem moves_resolveArrayDirectory (node : String) :
    Moves (FirmAnd tables) (store.resolveArrayDirectory outages node) := by
  unfold resolveArrayDirectory
  split
  · exact Moves.pure _
  · exact moves_ask _

theorem moves_readVerified {α : Type} (node : String)
    {read : ArrayMetadata → String → StateM Session (Except Error α)}
    (hread : ∀ own directory, Moves (FirmAnd tables) (read own directory)) :
    Moves (FirmAnd aboveVerified) (store.readVerified outages node read) := by
  have hmono : ∀ {β : Type} {x : StateM Session β}, Moves (FirmAnd tables) x →
      Moves (FirmAnd aboveVerified) x :=
    fun h => h.mono fun s s' h => ⟨h.1, congrArg (fun t => t.2.2.2) h.2⟩
  refine (moves_verifyArray node).bind fun r => ?_
  cases r with
  | error e => exact Moves.pure _
  | ok own =>
    refine (hmono (moves_resolveArrayDirectory node)).bind fun r => ?_
    cases r with
    | error e => exact Moves.pure _
    | ok directory => exact hmono (hread own directory)

theorem firm_readNumericArray (node : String) (s : Session) :
    s.Firm (store.readNumericArray outages node s).2 := by
  have hmoves : Moves (FirmAnd fun _ => ()) (store.readNumericArray outages node) := by
    refine FirmAnd.remember
      (fun s s' (h : aboveVerified s' = aboveVerified s) => ⟨congrArg (fun t => t.2.1) h, rfl⟩)
      (fun s answer h => ⟨firm_keepDoubleArrays h answer, rfl⟩) ?_
    refine moves_readVerified node fun own directory => (moves_ask _).bind fun r => ?_
    cases r <;> exact Moves.pure _
  exact (hmoves s).1

theorem firm_readStringArray1D (node : String) (s : Session) :
    s.Firm (store.readStringArray1D outages node s).2 := by
  have hmoves : Moves (FirmAnd fun _ => ()) (store.readStringArray1D outages node) := by
    unfold readStringArray1D
    split
    · exact Moves.pure _
    · exact FirmAnd.remember
        (fun s s' (h : aboveVerified s' = aboveVerified s) => ⟨congrArg (fun t => t.2.2) h, rfl⟩)
        (fun s answer h => ⟨firm_keepStringArrays h answer, rfl⟩)
        (moves_readVerified node fun own directory => moves_ask _)
  exact (hmoves s).1

/-- A request supersedes no answer for good. -/
theorem firm_after (s : Session) (request : Request) : s.Firm (store.after outages s request) := by
  cases request with
  | nodeMetadata node => exact (moves_readNodeMetadata node s).1
  | arrayMetadata node => exact (moves_readArrayMetadata node s).1
  | verifiedArray node => exact (moves_verifyArray node s).1
  | inventory => exact firm_inventory s
  | node name =>
    rw [after, after_findNode]
    exact firm_inventory s
  | arrayDirectory node => exact (moves_resolveArrayDirectory node s).1
  | numericArray node => exact firm_readNumericArray node s
  | stringArray node => exact firm_readStringArray1D node s
  | pixels node => exact (moves_readVerified node (fun _ _ => moves_ask _) s).1

variable (store outages) in
/-- The sessions that come of a session by requests. -/
def Later : Session → Session → Prop :=
  ReflTransGen fun s s' => ∃ request, s' = store.after outages s request

theorem Later.firm {s t : Session} (h : Later store outages s t) : s.Firm t := by
  induction h with
  | refl => exact Firm.refl s
  | tail _ h ih =>
    obtain ⟨request, rfl⟩ := h
    exact ih.trans (firm_after _ request)

theorem Later.extends {s t : Session} (hfiled : store.Filed) {failing : Prop}
    (hout : outages.Transient failing) (hs : store.Sound failing s) (h : Later store outages s t) :
    store.Sound failing t ∧ s.Extends t := by
  induction h with
  | refl => exact ⟨hs, .refl s⟩
  | tail _ h ih =>
    obtain ⟨request, rfl⟩ := h
    obtain ⟨hsound, hext⟩ := ih.1.after hfiled hout request
    exact ⟨hsound, ih.2.trans hext⟩

/-! ## What there is to rely on -/

section Asked

variable {ι κ α : Type} {ask : Outages → ι → StateM Session (Except Error α)} {key : ι → κ}

/-- What is handed back stays in its place in a table, whatever is answered later. -/
def Stays (store : Store) (outages : Outages) (s : Session)
    (ask : Outages → ι → StateM Session (Except Error α)) (key : ι → κ)
    (table : Session → Memo κ (Except Error α)) : Prop :=
  ∀ node : ι, ∃ i : ℕ, ∀ t : Session, Later store outages (ask outages node s).2 t →
    (table t (key node))[i]? = some (ask outages node s).1

section Remember

variable [DecidableEq κ] {table : Session → Memo κ (Except Error α)}
  {keep : Session → κ → Except Error α → Session} {compute : ι → StateM Session (Except Error α)}
  (htable : ∀ s k a, table (keep s k a) = (table s).push k a)
include htable

/-- What is remembered is the current answer. -/
theorem getLast?_ask {node : ι}
    (hask : ask outages node = remember table keep askAgain (key node) (compute node))
    (s : Session) : (table (ask outages node s).2 (key node)).getLast? =
      some (ask outages node s).1 := by
  rw [hask]
  refine getLast?_remember table keep askAgain (key node) (compute node) s fun s answer => ?_
  rw [htable]
  exact Memo.getLast?_push_self _ _ _

/-- It is handed back from then on, unless it is to be asked again. -/
theorem definite_of_remember (hfirm : ∀ {s t : Session}, s.Firm t →
    (table s).Firm askAgain (table t))
    {node node' : ι} (hkey : key node' = key node)
    (hask : ∀ other, key other = key node →
      ask outages other = remember table keep askAgain (key other) (compute other)) {s t : Session}
    (hagain : askAgain (ask outages node s).1 = false)
    (ht : Later store outages (ask outages node s).2 t) :
    ask outages node' t = ((ask outages node s).1, t) := by
  have hlast := getLast?_ask htable (hask node rfl) s
  have hsame : table t (key node) = table (ask outages node s).2 (key node) :=
    hfirm ht.firm _ _ hlast hagain
  rw [hask node' hkey, hkey]
  exact remember_of_current _ _ _ (hsame ▸ hlast) hagain

/-- And stays where it was kept. -/
theorem stays_of_remember (hfiled : store.Filed) (hout : outages.Transient True) {s : Session}
    (hsound : ∀ node, store.Sound True (ask outages node s).2)
    (hext : ∀ {s t : Session}, s.Extends t → (table s).Extends (table t))
    (hask : ∀ node, ask outages node = remember table keep askAgain (key node) (compute node)) :
    store.Stays outages s ask key table := by
  intro node
  obtain ⟨before, hlast⟩ := List.getLast?_eq_some_iff.1 (getLast?_ask htable (hask node) s)
  refine ⟨before.length, fun t ht => ?_⟩
  obtain ⟨after, hafter⟩ := hext (ht.extends hfiled hout (hsound node)).2 (key node)
  rw [← hafter, hlast]
  simp

end Remember

variable [Unname α]

/-- What there is to rely on of what is asked of a session, whatever comes of it later. -/
structure Reliable (store : Store) (outages : Outages) (s : Session)
    (ask : Outages → ι → StateM Session (Except Error α)) (key : ι → κ) : Prop where
  /-- An answer is asked again or is, up to spelling, the one of a store whose reads are all
  made. -/
  right : ∀ node t, Reached store (fun _ => none) t →
    askAgain (ask outages node s).1 = true ∨
      unname (ask outages node s).1 = unname (ask (fun _ => none) node t).1
  /-- One that is not asked again is the answer from then on, and nothing is read for it. -/
  definite : ∀ node, askAgain (ask outages node s).1 = false →
    ∀ t, Later store outages (ask outages node s).2 t → ∀ node', key node' = key node →
      ask outages node' t = ((ask outages node s).1, t)

/-- Two answers that stand for one thing are one, unless it is asked again. -/
theorem right_of_gives {backing : Backing} (hopen : openStore backing = .ok store)
    {answer : ι → Except Error α}
    (h : ∀ {outages : Outages} {failing : Prop}, outages.Transient failing →
      ∀ node, store.Gives failing (ask outages node) (answer node))
    (hout : outages.Transient True) {s : Session} (hs : Reached store outages s)
    (node : ι) {t : Session}
    (ht : Reached store (fun _ => none) t) :
    askAgain (ask outages node s).1 = true ∨
      unname (ask outages node s).1 = unname (ask (fun _ => none) node t).1 := by
  have hnone : Outages.Transient (fun _ => none) False := by rintro n e ⟨⟩
  obtain ⟨-, -, hstands⟩ := h hout node s (hs.sound hopen hout)
  obtain ⟨-, -, hright⟩ := h hnone node t (ht.sound hopen hnone)
  refine hstands.imp And.right fun hsame => ?_
  rw [hsame, hright.resolve_left fun h => h.1]

/-- What is remembered is relied on. -/
theorem reliable_of_remember [DecidableEq κ] {table : Session → Memo κ (Except Error α)}
    {keep : Session → κ → Except Error α → Session} {compute : ι → StateM Session (Except Error α)}
    {backing : Backing} (hopen : openStore backing = .ok store) (hout : outages.Transient True)
    (htable : ∀ s k a, table (keep s k a) = (table s).push k a)
    (hfirm : ∀ {s t : Session}, s.Firm t → (table s).Firm askAgain (table t))
    (hask : ∀ node, ask outages node = remember table keep askAgain (key node) (compute node))
    {answer : ι → Except Error α}
    (h : ∀ {outages : Outages} {failing : Prop}, outages.Transient failing →
      ∀ node, store.Gives failing (ask outages node) (answer node))
    {s : Session} (hs : Reached store outages s) : store.Reliable outages s ask key where
  right node _ := right_of_gives hopen h hout hs node
  definite _ hagain _ ht _ hkey :=
    definite_of_remember htable hfirm hkey (fun other _ => hask other) hagain ht

end Asked

theorem readNodeMetadata_eq (outages : Outages)
    (node : String) : store.readNodeMetadata outages node =
    remember Session.nodeMetadata Session.keepNodeMetadata askAgain (cacheKey node)
      (match normalizeNodeName node with
        | .error e => pure (.error e)
        | .ok name => do
          match ← ask outages (store.backing.readNodeBytes name) with
          | .error e => return .error e
          | .ok bytes => return store.backing.parseNodeMetadata bytes node) := by
  unfold readNodeMetadata cacheKey
  cases normalizeNodeName node <;> rfl

/-- An entry is found up to spelling. -/
theorem findEntry_unname (entries : List NodeEntry) (name : String) :
    findEntry (unname entries) name = unname (findEntry entries name) := by
  have hname : ∀ entry : NodeEntry, (unname entry).name = entry.name := fun _ => rfl
  unfold findEntry
  have hmap : unname entries = entries.map unname := rfl
  rw [hmap, List.find?_map]
  simp only [Function.comp_def, hname]
  cases entries.find? fun entry => decide (name ≤ entry.name) with
  | none => rfl
  | some entry =>
    rw [Option.map_some]
    simp only [Option.filter, hname]
    split_ifs <;> rfl

/-- What is found is found in the inventory. -/
theorem findNode_eq (outages : Outages) (name : String)
    (s : Session) : store.findNode outages name s =
    ((store.inventory outages s).1.toOption.bind fun entries => findEntry entries name,
      (store.inventory outages s).2) := by
  unfold findNode
  rcases hrun : store.inventory outages s with ⟨r, s'⟩
  simp only [bind, StateT.bind, hrun]
  cases r <;> rfl

section FindNode

variable {s : Session} (h : store.Reliable outages s (fun outages (_ : Unit) =>
  store.inventory outages) id)
include h

theorem findNode_right (name : String) {t : Session} (ht : Reached store (fun _ => none) t) :
    askAgain (store.inventory outages s).1 = true ∧ (store.findNode outages name s).1 = none ∨
      unname (store.findNode outages name s).1 =
        unname (store.findNode (fun _ => none) name t).1 := by
  rw [findNode_eq, findNode_eq]
  refine (h.right () t ht).imp (fun hagain => ⟨hagain, ?_⟩) fun hsame => ?_
  · cases hinventory : (store.inventory outages s).1 with
    | ok entries =>
      rw [hinventory] at hagain
      cases hagain
    | error e => rfl
  · cases hinventory : (store.inventory outages s).1 with
    | error e =>
      cases hinventory' : (store.inventory (fun _ => none) t).1 with
      | error e' => rfl
      | ok entries' =>
        rw [hinventory, hinventory'] at hsame
        cases hsame
    | ok entries =>
      cases hinventory' : (store.inventory (fun _ => none) t).1 with
      | error e' =>
        rw [hinventory, hinventory'] at hsame
        cases hsame
      | ok entries' =>
        rw [hinventory, hinventory', unname_ok, unname_ok, Except.ok.injEq] at hsame
        change unname (findEntry entries name) = unname (findEntry entries' name)
        rw [← findEntry_unname, ← findEntry_unname, hsame]

theorem findNode_definite {name : String} {t : Session}
    (hagain : askAgain (store.inventory outages s).1 = false)
    (ht : Later store outages (store.findNode outages name s).2 t) :
    store.findNode outages name t = ((store.findNode outages name s).1, t) := by
  rw [findNode_eq] at ht
  have hdefinite : store.inventory outages t = ((store.inventory outages s).1, t) :=
    h.definite () hagain t ht () rfl
  rw [findNode_eq, hdefinite, findNode_eq]

end FindNode

/-- A name that is refused is refused each time; the labels of another are remembered. -/
theorem reliable_readStringArray1D {backing : Backing} (hopen : openStore backing = .ok store)
    (hout : outages.Transient True) {s : Session} (hs : Reached store outages s) :
    store.Reliable outages s store.readStringArray1D cacheKey := by
  refine ⟨fun node t => right_of_gives hopen
    (gives_readStringArray1D (openStore_filed hopen)) hout hs node,
    fun node hagain t ht node' hkey => ?_⟩
  cases hname : normalizeNodeName node with
  | error e =>
    have hsame : node' = node := by
      rw [cacheKey_of_error hname] at hkey
      cases hname' : normalizeNodeName node' with
      | error e' => rw [← hkey, cacheKey_of_error hname']
      | ok name' =>
        rw [cacheKey_of_ok hname'] at hkey
        exact absurd hkey.symm (ne_of_refused hname hname')
    subst hsame
    rw [readStringArray1D, hname]
    rfl
  | ok name =>
    have hask : ∀ other, cacheKey other = cacheKey node → store.readStringArray1D outages other =
        remember Session.stringArrays Session.keepStringArrays askAgain (cacheKey other)
          (store.readVerified outages other fun own directory =>
            ask outages (readFixedLengthUtf32StringArray
              store.backing.decompressors store.backing.files
              directory own other)) := by
      intro other hother
      have hother' := normalizeNodeName_of_cacheKey hname hother
      rw [readStringArray1D, hother', cacheKey_of_ok hother']
    exact definite_of_remember (fun _ _ _ => rfl) Firm.stringArrays hkey hask hagain ht

/-- A session is relied on for everything that is asked of a store. Labels are handed back as a
copy, and the rest where it is kept; a node is asked of the inventory. -/
structure Remembers (store : Store) (outages : Outages) (s : Session) : Prop where
  nodeMetadata : store.Reliable outages s store.readNodeMetadata cacheKey
  arrayMetadata : store.Reliable outages s store.readArrayMetadata cacheKey
  verifiedArrays : store.Reliable outages s store.verifyArray id
  inventory : store.Reliable outages s (fun outages (_ : Unit) => store.inventory outages) id
  doubleArrays : store.Reliable outages s store.readNumericArray cacheKey
  stringArrays : store.Reliable outages s store.readStringArray1D cacheKey
  staysNodeMetadata : store.Stays outages s store.readNodeMetadata cacheKey Session.nodeMetadata
  staysArrayMetadata : store.Stays outages s store.readArrayMetadata cacheKey Session.arrayMetadata
  staysVerifiedArrays : store.Stays outages s store.verifyArray id Session.verifiedArrays
  staysInventory : store.Stays outages s (fun outages (_ : Unit) =>
    store.inventory outages) id Session.inventory
  staysDoubleArrays : store.Stays outages s store.readNumericArray cacheKey Session.doubleArrays
  /-- A node is not found where the inventory is asked again, or is the one of a store whose reads
  are made. -/
  node : ∀ name t, Reached store (fun _ => none) t →
    askAgain (store.inventory outages s).1 = true ∧ (store.findNode outages name s).1 = none ∨
      unname (store.findNode outages name s).1 = unname (store.findNode (fun _ => none) name t).1
  /-- Once there is an inventory for good it is found or not for good. -/
  nodeDefinite : ∀ name, askAgain (store.inventory outages s).1 = false →
    ∀ t, Later store outages (store.findNode outages name s).2 t →
      store.findNode outages name t = ((store.findNode outages name s).1, t)
  /-- What the root's copy says of a node is what is answered, without a read. -/
  copy : ∀ node name document, normalizeNodeName node = .ok name →
    store.consolidated.lookup name = some document →
    store.readNodeMetadata outages node s = (.ok document, s)

/-- **What a store remembers is right, and is remembered**: whatever is asked in whatever order and
whichever reads fail to be made, an answer that is not of such a read is the one of a store that is
always read, up to how nodes are spelled in it, and is the answer from then on. -/
theorem remembered_answers {backing : Backing} (hopen : openStore backing = .ok store)
    (hout : outages.Transient True) {s : Session} (hs : Reached store outages s) :
    store.Remembers outages s := by
  have hfiled := openStore_filed hopen
  have hsound := hs.sound hopen hout
  have hinventory : store.Reliable outages s (fun outages (_ : Unit) =>
      store.inventory outages) id :=
    reliable_of_remember hopen hout (fun _ _ _ => rfl) Firm.inventory (fun _ => rfl)
      (fun hout _ => gives_inventory hfiled hout) hs
  exact
    { nodeMetadata := reliable_of_remember hopen hout (fun _ _ _ => rfl) Firm.nodeMetadata
        (readNodeMetadata_eq outages) (gives_readNodeMetadata hfiled) hs
      arrayMetadata := reliable_of_remember hopen hout (fun _ _ _ =>
        rfl) Firm.arrayMetadata (fun _ => rfl)
        (gives_readArrayMetadata hfiled) hs
      verifiedArrays := reliable_of_remember hopen hout (fun _ _ _ =>
        rfl) Firm.verifiedArrays (fun _ => rfl)
        (gives_verifyArray hfiled) hs
      inventory := hinventory
      doubleArrays := reliable_of_remember hopen hout (fun _ _ _ =>
        rfl) Firm.doubleArrays (fun _ => rfl)
        (gives_readNumericArray hfiled) hs
      stringArrays := reliable_readStringArray1D hopen hout hs
      staysNodeMetadata := stays_of_remember (fun _ _ _ => rfl) hfiled hout
        (fun node => (gives_readNodeMetadata hfiled hout node s hsound).1)
          Session.Extends.nodeMetadata
        (readNodeMetadata_eq outages)
      staysArrayMetadata := stays_of_remember (fun _ _ _ => rfl) hfiled hout
        (fun node => (gives_readArrayMetadata hfiled hout node s hsound).1)
          Session.Extends.arrayMetadata
        fun _ => rfl
      staysVerifiedArrays := stays_of_remember (fun _ _ _ => rfl) hfiled hout
        (fun node => (gives_verifyArray hfiled hout node s hsound).1)
          Session.Extends.verifiedArrays fun _ => rfl
      staysInventory := stays_of_remember (fun _ _ _ => rfl) hfiled hout
        (fun _ => (gives_inventory hfiled hout s hsound).1) Session.Extends.inventory fun _ => rfl
      staysDoubleArrays := stays_of_remember (fun _ _ _ => rfl) hfiled hout
        (fun node => (gives_readNumericArray hfiled hout node s hsound).1)
          Session.Extends.doubleArrays
        fun _ => rfl
      node := fun name t ht => findNode_right hinventory name ht
      nodeDefinite := fun name hagain t ht => findNode_definite hinventory hagain ht
      copy := fun node name document hname hlookup =>
        hsound.readNodeMetadata_of_copy hname hlookup }

/-- A store of one node, whose document is cut short. -/
def cutShort : Backing where
  readNodeBytes name := if name = "" then .ok [] else if name = "A" then .ok [0]
    else .error ⟨.notFound, "Zarr node was not found", name⟩
  listNodes := .ok ["A"]
  arrayDirectory name := .ok name
  parseJson bytes := if bytes = [] then
      .document (.object [("zarr_format", .unsigned 3), ("node_type", .string "group")])
    else .malformed "unexpected end of input"
  numericValues _ := .ok []
  decompressors := storedStreams
  files _ := .missing

def cutShortStore : Store where
  backing := cutShort
  rootAttributes := .object []
  consolidated := []
  hasConsolidatedMetadata := false

/-- The first read fails to be made. -/
def firstFails : Outages := fun n =>
  if n = 0 then some ⟨.ioError, "Unable to read Zarr node", "A"⟩ else none

theorem firstFails_transient : firstFails.Transient True := by
  intro n e h
  unfold firstFails at h
  split_ifs at h
  cases h
  exact ⟨trivial, rfl⟩

theorem remembered_answers_afterOutage :
    cutShortStore.Remembers firstFails
      (cutShortStore.after firstFails cutShortStore.initial (.nodeMetadata "./A")) :=
  have hopen : openStore cutShort = .ok cutShortStore := rfl
  remembered_answers hopen firstFails_transient (Reached.initial.after (.nodeMetadata "./A"))

/-- Asked for `./A` and then for `A`, the store names the node in its error as the first to be
answered spelt it; and with no inventory to find it in, a node is not found that is there. -/
theorem remembered_answers_spelling :
    openStore cutShort = .ok cutShortStore ∧ firstFails.Transient True ∧
      (cutShortStore.readNodeMetadata firstFails "A"
        (cutShortStore.after firstFails cutShortStore.initial (.nodeMetadata "./A"))).1 =
          .error ⟨.invalidMetadata, "Invalid JSON in Zarr metadata: unexpected end of input", "A"⟩ ∧
      (cutShortStore.readNodeMetadata (fun _ => none) "A"
        (cutShortStore.after (fun _ => none) cutShortStore.initial (.nodeMetadata "./A"))).1 =
          .error ⟨.invalidMetadata, "Invalid JSON in Zarr metadata: unexpected end of input",
            "./A"⟩ ∧
      (cutShortStore.findNode firstFails "A" cutShortStore.initial).1.isSome = false ∧
      (cutShortStore.findNode (fun _ => none) "A" cutShortStore.initial).1.isSome = true :=
  ⟨rfl, firstFails_transient, rfl, rfl, rfl, rfl⟩

end Store

end CartaZarr
