import CartaZarr.Foundations.Triple
import CartaZarr.Store.Recovered

/-!
# What a store has parsed it hands back

The inventory of a store and the metadata of its arrays are remembered apart, and a caller that was
told of an array by the one asks for it of the other. It is there: whichever reads fail, the arrays
of an inventory that was taken are in the table of arrays as they were parsed (`Reached.holds`), and
asking for one again makes no read and cannot fail (`Known.readArrayMetadata`).
-/

namespace CartaZarr

open Relation (ReflTransGen)

namespace Session

/-- An array that a session has parsed. -/
def Parsed (s : Session) (node : String) (image : ArrayMetadata) : Prop :=
  (s.arrayMetadata (Store.cacheKey node)).getLast? = some (.ok image)

/-- The array of an entry is one that a session has parsed. -/
def ParsedEntry (s : Session) (entry : NodeEntry) : Prop :=
  ∀ image, entry.array = some (.ok image) → s.Parsed entry.name image

/-- The arrays of the inventory of a session are ones it has parsed. -/
def Holds (s : Session) : Prop :=
  ∀ entries, (s.inventory ()).getLast? = some (.ok entries) → ∀ entry ∈ entries, s.ParsedEntry entry

variable {s t : Session}

theorem Firm.parsed (h : s.Firm t) {node : String} {image : ArrayMetadata}
    (hs : s.Parsed node image) :
    t.Parsed node image := by
  rw [Parsed, h.arrayMetadata _ _ hs rfl]
  exact hs

/-- A move that leaves the inventory alone. -/
theorem Holds.of_firm (hs : s.Holds) (h : FirmAnd Session.inventory s t) : t.Holds := by
  intro entries hentries entry hentry image himage
  rw [h.2] at hentries
  exact h.1.parsed (hs entries hentries entry hentry image himage)

end Session

namespace Store

open Session

variable {store : Store} {outages : Outages}

/-- What is kept of a table by computing an answer for it, which leaves it alone, is kept by
remembering. -/
theorem triple_remember {α κ ρ : Type} {part : Session → ρ}
    {table : Session → Memo κ (Except Error α)}
    {keep : Session → κ → Except Error α → Session} {key : κ}
    {compute : StateM Session (Except Error α)}
    {p : Session → Prop} {q : Except Error α → Session → Prop}
    (hpart : ∀ s s' : Session, part s' = part s → table s' = table s)
    (hmoves : Moves (FirmAnd part) compute)
    (hcompute : Triple p compute q)
    (hkeep : ∀ s answer, Open (table s) key → q answer s → p (keep s key answer)) :
    Triple p (remember table keep askAgain key compute) fun _ s => p s :=
  Triple.remember (fun s => congrFun (hpart _ _ (hmoves s).2) key) hcompute hkeep

theorem moves_nodeNames : Moves (FirmAnd aboveArrays) (store.nodeNames outages) := by
  unfold nodeNames
  split_ifs
  · exact Moves.pure _
  · refine ((moves_ask _).mono fun s s' h => ⟨h.1, congrArg (fun t => t.2.2) h.2⟩).bind fun r => ?_
    cases r <;> exact Moves.pure _

theorem parsed_readArrayMetadata
    (node : String) : Triple (fun _ => True) (store.readArrayMetadata outages node)
    (fun r s => ∀ image, r = .ok image → s.Parsed node image) := by
  intro s _ image himage
  rw [Session.Parsed, ← himage]
  exact getLast?_remember _ _ _ _ _ s fun s answer =>
    Memo.getLast?_push_self s.arrayMetadata _ answer

/-- An entry that was read has its array parsed. -/
theorem parsed_readEntry (node : String) : Triple (fun _ => True) (store.readEntry outages node)
    (fun r s => ∀ entry, r = .ok entry → s.ParsedEntry entry) := by
  refine Triple.bind (q := fun _ _ => True) (fun _ _ => trivial) fun r => ?_
  cases r with
  | error e =>
    dsimp only
    split_ifs
    · refine Triple.pure ?_
      rintro s - entry ⟨⟩ image ⟨⟩
    · exact Triple.pure fun s _ entry h => by cases h
  | ok document =>
    dsimp only
    split
    · refine Triple.pure ?_
      rintro s - entry ⟨⟩ image ⟨⟩
    · refine (parsed_readArrayMetadata node).bind fun r => Triple.pure ?_
      rintro s hs entry ⟨⟩ image himage
      exact hs image (Option.some.inj himage)
    · refine Triple.pure ?_
      rintro s - entry ⟨⟩ image ⟨⟩

theorem parsed_readEntries (nodes : List String) :
    Triple (fun _ => True) (store.readEntries outages nodes)
    (fun r s => ∀ entries, r = .ok entries → ∀ entry ∈ entries, s.ParsedEntry entry) := by
  induction nodes with
  | nil =>
    refine Triple.pure ?_
    rintro s - entries ⟨⟩ entry ⟨⟩
  | cons node nodes ih =>
    refine (parsed_readEntry node).bind fun r => ?_
    cases r with
    | error e => exact Triple.pure fun s _ entries h => by cases h
    | ok entry =>
      -- what was parsed of the first entry is not superseded by reading the others
      have hrest := ih.frame (k := fun s => s.ParsedEntry entry) (moves_readEntries nodes)
        fun s t h hs image himage => h.1.parsed (hs image himage)
      refine (hrest.imp (fun s hs => ⟨trivial, hs entry rfl⟩) fun _ _ h => h).bind fun rs => ?_
      cases rs with
      | error e => exact Triple.pure fun s _ entries h => by cases h
      | ok entries =>
        refine Triple.pure ?_
        rintro s ⟨hentries, hentry⟩ _ ⟨⟩
        exact List.forall_mem_cons.2 ⟨hentry, hentries entries rfl⟩

theorem getLast?_keepInventory (s : Session) (answer : Except Error (List NodeEntry)) :
    ((s.keepInventory () answer).inventory ()).getLast? = some answer :=
  Memo.getLast?_push_self s.inventory () answer

/-- The inventory is kept with its arrays parsed. -/
theorem holds_inventory : Triple Session.Holds (store.inventory outages) fun _ s => s.Holds := by
  refine triple_remember (q := fun r s => ∀ entries, r = .ok entries →
    ∀ entry ∈ entries, s.ParsedEntry entry)
    (fun s s' (h : aboveArrays s' = aboveArrays s) =>
      congrArg (fun t => t.2.1) h) ?_ ?_ fun s answer _ hentries => ?_
  · refine moves_nodeNames.bind fun r => ?_
    cases r with
    | error e => exact Moves.pure _
    | ok names => exact moves_readEntries _
  · refine Triple.bind (q := fun _ _ => True) (fun _ _ => trivial) fun r => ?_
    cases r with
    | error e => exact Triple.pure fun s _ entries h => by cases h
    | ok names => exact parsed_readEntries _
  · intro entries hlast entry hentry
    rw [getLast?_keepInventory] at hlast
    exact hentries entries (Option.some.inj hlast) entry hentry

/-- A request but for the inventory leaves it alone. -/
theorem firmAnd_readVerified {α : Type} {table : Session → Memo String (Except Error α)}
    {keep : Session → String → Except Error α → Session} {key : String}
    {read : ArrayMetadata → String → StateM Session (Except Error α)} {node : String}
    (htable : ∀ s s' : Session, aboveVerified s' = aboveVerified s → table s' = table s)
    (hkeep : ∀ (s : Session) answer, Open (table s) key →
      FirmAnd Session.inventory s (keep s key answer))
    (hread : ∀ own directory, Moves (FirmAnd tables) (read own directory)) :
    Moves (FirmAnd Session.inventory)
      (remember table keep askAgain key (store.readVerified outages node read)) :=
  FirmAnd.remember (fun s s' h => ⟨htable s s' h, congrArg Prod.fst h⟩) hkeep
    (moves_readVerified node hread)

theorem firmAnd_readNumericArray (node : String) :
    Moves (FirmAnd Session.inventory) (store.readNumericArray outages node) :=
  firmAnd_readVerified (fun _ _ h => congrArg (fun t => t.2.1) h)
    (fun s answer h => ⟨firm_keepDoubleArrays h answer, rfl⟩) fun own directory =>
        (moves_ask _).bind fun r => by
      cases r <;> exact Moves.pure _

theorem firmAnd_readStringArray1D (node : String) :
    Moves (FirmAnd Session.inventory) (store.readStringArray1D outages node) := by
  unfold readStringArray1D
  split
  · exact Moves.pure _
  · exact firmAnd_readVerified (fun _ _ h => congrArg (fun t => t.2.2) h)
      (fun s answer h => ⟨firm_keepStringArrays h answer, rfl⟩) fun own directory => moves_ask _

theorem holds_after {s : Session} (hs : s.Holds)
    (request : Request) : (store.after outages s request).Holds := by
  cases request with
  | nodeMetadata node =>
    have hmoves : Moves (FirmAnd aboveNodes) (store.readNodeMetadata outages node) :=
      moves_readNodeMetadata node
    exact hs.of_firm ⟨(hmoves s).1, congrArg (fun t => t.2.2.1) (hmoves s).2⟩
  | arrayMetadata node =>
    have hmoves : Moves (FirmAnd aboveArrays) (store.readArrayMetadata outages node) :=
      moves_readArrayMetadata node
    exact hs.of_firm ⟨(hmoves s).1, congrArg (fun t => t.2.1) (hmoves s).2⟩
  | verifiedArray node =>
    have hmoves : Moves (FirmAnd aboveVerified) (store.verifyArray outages node) :=
      moves_verifyArray node
    exact hs.of_firm ⟨(hmoves s).1, congrArg Prod.fst (hmoves s).2⟩
  | inventory => exact holds_inventory s hs
  | node name =>
    rw [after, after_findNode]
    exact holds_inventory s hs
  | arrayDirectory node =>
    have hmoves : Moves (FirmAnd tables) (store.resolveArrayDirectory outages node) :=
      moves_resolveArrayDirectory node
    exact hs.of_firm ⟨(hmoves s).1, congrArg (fun t => t.2.2.2.1) (hmoves s).2⟩
  | numericArray node => exact hs.of_firm (firmAnd_readNumericArray node s)
  | stringArray node => exact hs.of_firm (firmAnd_readStringArray1D node s)
  | pixels node =>
    have hmoves : Moves (FirmAnd aboveVerified) (store.readPixelsInto outages node Except.ok) :=
      moves_readVerified node fun _ _ => moves_ask _
    exact hs.of_firm ⟨(hmoves s).1, congrArg Prod.fst (hmoves s).2⟩

/-- **The arrays of an inventory are ones that were parsed**, in every session that is reached. -/
theorem Reached.holds {s : Session} (h : Reached store outages s) : s.Holds := by
  induction h with
  | initial => rintro entries ⟨⟩
  | after request _ ih => exact holds_after ih request

/-! ## An image that is known -/

/-- The metadata of an array of the inventory that a session has taken. -/
def Knows (s : Session) (node : String) (image : ArrayMetadata) : Prop :=
  ∃ entries, (s.inventory ()).getLast? = some (.ok entries) ∧ ∃ entry ∈ entries, entry.name = node ∧
    entry.array = some (.ok image)

/-- It is known from then on. -/
theorem Knows.firm {s t : Session} {node : String} {image : ArrayMetadata} (h : Knows s node image)
    (hfirm : s.Firm t) : Knows t node image := by
  obtain ⟨entries, hlast, hentry⟩ := h
  exact ⟨entries, by rw [hfirm.inventory () _ hlast rfl, hlast], hentry⟩

/-- **What is known is handed back**, without a read. -/
theorem Knows.readArrayMetadata {s : Session} {node : String} {image : ArrayMetadata}
    (h : Knows s node image)
    (hs : Reached store outages s) : store.readArrayMetadata outages node s = (.ok image, s) := by
  obtain ⟨entries, hlast, entry, hentry, rfl, himage⟩ := h
  exact remember_of_current _ _ _ (hs.holds entries hlast entry hentry image himage) rfl

theorem Reached.later {s t : Session} (hs : Reached store outages s) (h : Later store outages s t) :
    Reached store outages t := by
  induction h with
  | refl => exact hs
  | tail _ h ih =>
    obtain ⟨request, rfl⟩ := h
    exact ih.after request

theorem triple_inventory : Triple (Reached store outages) (store.inventory outages) (fun r s =>
    Reached store outages s ∧ ∀ entries, r = .ok entries →
    (s.inventory ()).getLast? = some (.ok entries)) := by
  intro s hs
  refine ⟨hs.after .inventory, fun entries hentries => ?_⟩
  rw [← hentries]
  exact getLast?_remember _ _ _ _ _ s getLast?_keepInventory

/-- A node that is found is of the inventory. -/
theorem triple_findNode (name : String) :
    Triple (Reached store outages) (store.findNode outages name) (fun r s =>
    Reached store outages s ∧ ∀ entry, r = some entry → entry.name = name ∧
      ∀ image, entry.array = some (.ok image) → Knows s name image) := by
  refine triple_inventory.bind fun r => ?_
  cases r with
  | error e => exact Triple.pure fun s hs => ⟨hs.1, fun entry h => by cases h⟩
  | ok entries =>
    refine Triple.pure fun s hs => ⟨hs.1, fun entry hentry => ?_⟩
    obtain ⟨hfind, hname⟩ := Option.filter_eq_some_iff.1 hentry
    have hname : entry.name = name := of_decide_eq_true hname
    exact ⟨hname, fun image himage =>
      ⟨entries, hs.2 entries rfl, entry, List.mem_of_find?_eq_some hfind, hname, himage⟩⟩

end Store

end CartaZarr
