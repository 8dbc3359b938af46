import Mathlib.Data.String.Basic
import Mathlib.Data.List.Sort
import CartaZarr.Foundations.Json
import CartaZarr.Store.NodeName

/-!
# The consolidated block

A root may carry a copy of its children's documents, under keys that spell where each document is.
`collectConsolidatedMetadata` files every document it comes to under the canonical name of its node,
or refuses the block: where a key names no node, and where two keys name one.

What it comes to is `reached`, a list of spellings and documents, and what becomes of a block
depends on that list alone (`collectConsolidatedMetadata_eq`), so not on the order of the keys
(`Reordered.perm_reached`).
-/

namespace CartaZarr

/-- A key without what makes it name a document rather than a node: slashes before it, and
`zarr.json` at its end. -/
def normalizeMetadataKey (key : String) : String :=
  let chars := key.toList.dropWhile (· = '/')
  let chars := if "/zarr.json".toList <:+ chars then chars.take (chars.length - 10) else chars
  if chars = "zarr.json".toList then "" else String.ofList chars

/-- The documents filed so far, by name and in the order of the names. -/
abbrev Documents := List (String × Json)

/-- File a document, unless its name is taken. -/
def Documents.emplace (output : Documents) (name : String) (value : Json) : Option Documents :=
  if name ∈ output.map Prod.fst then none
  else some (output.orderedInsert (fun a b => a.1 ≤ b.1) (name, value))

/-- A document that says what its node is. -/
def Json.isNode (value : Json) : Bool := value.isObject && (value.get? "node_type").isSome

/-- File the document of a node under its canonical name. The root's own is left out. -/
def fileDocument (output : Documents) (spelled : String) (value : Json) : Except Error Documents :=
  let path := normalizeMetadataKey spelled
  if path = "" then .ok output
  else match normalizeNodeName path with
    | .error _ => .error ⟨.invalidMetadata,
        "Zarr consolidated_metadata lists '" ++ spelled ++ "', which is not a node path",
        "zarr.json"⟩
    | .ok node => match output.emplace node value with
      | none => .error ⟨.invalidMetadata, "Zarr consolidated_metadata lists the node '" ++ node ++
          "' twice, once as '" ++ spelled ++ "'", "zarr.json"⟩
      | some output => .ok output

/-- How a key is spelled from the root. -/
def spell (pre key : String) : String := if pre = "" then key else pre ++ "/" ++ key

mutual

/-- File every document of a block, going into the objects that are none. -/
def collectConsolidatedMetadata (metadata : Json) (pre : String) (output : Documents) :
    Except Error Documents :=
  match metadata with
  | .object members => collectMembers members pre output
  | _ => .ok output

def collectMembers : List (String × Json) → String → Documents → Except Error Documents
  | [], _, output => .ok output
  | (key, value) :: members, pre, output => do
    let spelled := spell pre key
    let output ←
      if value.isNode then fileDocument output spelled value
      else if value.isObject then
        collectConsolidatedMetadata value (normalizeMetadataKey spelled) output
      else .ok output
    collectMembers members pre output

end

mutual

/-- The documents a block has, each with the spelling of its key: those of its members that are one,
and those of its members that are objects and none. -/
def reached (metadata : Json) (pre : String) : List (String × Json) :=
  match metadata with
  | .object members => reachedMembers members pre
  | _ => []

def reachedMembers : List (String × Json) → String → List (String × Json)
  | [], _ => []
  | (key, value) :: members, pre =>
    (if value.isNode then [(spell pre key, value)]
      else reached value (normalizeMetadataKey (spell pre key))) ++ reachedMembers members pre

end

mutual

theorem collectConsolidatedMetadata_eq (metadata : Json) (pre : String) (output : Documents) :
    collectConsolidatedMetadata metadata pre output =
      (reached metadata pre).foldlM (fun output entry =>
        fileDocument output entry.1 entry.2) output := by
  cases metadata with
  | object members => exact collectMembers_eq members pre output
  | _ => rfl

theorem collectMembers_eq (members : List (String × Json)) (pre : String) (output : Documents) :
    collectMembers members pre output = (reachedMembers members pre).foldlM
      (fun output entry => fileDocument output entry.1 entry.2) output := by
  cases members with
  | nil => rfl
  | cons member members =>
    obtain ⟨key, value⟩ := member
    have hrest := collectMembers_eq members pre
    rw [collectMembers, reachedMembers, List.foldlM_append]
    dsimp only
    split
    · simp only [List.foldlM_cons, List.foldlM_nil, bind_pure, hrest]
    · have hnested := collectConsolidatedMetadata_eq value
        (normalizeMetadataKey (spell pre key)) output
      split
      · simp only [hnested, hrest]
      · rename_i hobject
        have hnone : reached value (normalizeMetadataKey (spell pre key)) = [] := by
          cases value <;> first | rfl | simp [Json.isObject] at hobject
        simp only [hnone, List.foldlM_nil, hrest]
        rfl

end

/-! ### What is filed -/

/-- What a key and its document are filed as: nothing for the root, or for a key that names no
node. -/
def filedAs (entry : String × Json) : Option (String × Json) :=
  if normalizeMetadataKey entry.1 = "" then none
  else (normalizeNodeName (normalizeMetadataKey entry.1)).toOption.map (·, entry.2)

/-- A key that is of the root, or names a node. -/
def IsNodePath (spelled : String) : Prop :=
  normalizeMetadataKey spelled = "" ∨
    ∃ name, normalizeNodeName (normalizeMetadataKey spelled) = .ok name

/-- The names and documents of a block. -/
def filed (entries : List (String × Json)) : Documents := entries.filterMap filedAs

/-- Documents in the order of their names, with no name twice. -/
def Documents.Sorted (documents : Documents) : Prop := documents.Pairwise fun a b => a.1 < b.1

theorem Documents.Sorted.nodup {documents : Documents} (h : documents.Sorted) :
    (documents.map Prod.fst).Nodup :=
  List.pairwise_map.2 (h.imp ne_of_lt)

theorem Documents.emplace_eq_some {output output' : Documents} {name : String} {value : Json}
    (hsorted : output.Sorted) (h : output.emplace name value = some output') :
    output'.Sorted ∧ output'.Perm ((name, value) :: output) := by
  unfold Documents.emplace at h
  split_ifs at h with hmem
  cases h
  have hperm := List.perm_orderedInsert (fun a b : String × Json => a.1 ≤ b.1) (name, value) output
  have htotal : Std.Total fun a b : String × Json => a.1 ≤ b.1 := ⟨fun a b => le_total a.1 b.1⟩
  have htrans : IsTrans (String × Json) fun a b => a.1 ≤ b.1 := ⟨fun _ _ _ => le_trans⟩
  have hle : (output.orderedInsert (fun a b => a.1 ≤ b.1) (name, value)).Pairwise
      (fun a b => a.1 ≤ b.1) :=
    List.Pairwise.orderedInsert _ _ (hsorted.imp le_of_lt)
  have hnodup : ((output.orderedInsert (fun a b => a.1 ≤ b.1) (name, value)).map
      Prod.fst).Nodup := by
    rw [(hperm.map Prod.fst).nodup_iff, List.map_cons, List.nodup_cons]
    exact ⟨hmem, hsorted.nodup⟩
  refine ⟨?_, hperm⟩
  exact (hle.and (List.pairwise_map.1 hnodup)).imp fun h => lt_of_le_of_ne h.1 h.2

/-- What filing one document does. -/
theorem fileDocument_eq_ok {output output' : Documents} {spelled : String} {value : Json}
    (hsorted : output.Sorted) (h : fileDocument output spelled value = .ok output') :
    IsNodePath spelled ∧ output'.Sorted ∧ output'.Perm (filed [(spelled, value)] ++ output) := by
  unfold fileDocument at h
  dsimp only at h
  split_ifs at h with hroot
  · cases h
    exact ⟨.inl hroot, hsorted, by simp [filed, filedAs, hroot]⟩
  · split at h
    · cases h
    · rename_i node hnode
      split at h
      · cases h
      · rename_i output'' hplaced
        cases h
        obtain ⟨hs, hp⟩ := Documents.emplace_eq_some hsorted hplaced
        exact ⟨.inr ⟨node, hnode⟩, hs, by
          simpa [filed, filedAs, hroot, hnode, Except.toOption] using hp⟩

/-- A document is filed where its key names a node, or the root, and no other was filed under the
name. -/
theorem exists_fileDocument {output : Documents} {spelled : String} (value : Json)
    (hpath : IsNodePath spelled)
    (hnew : ((filed [(spelled, value)] ++ output).map Prod.fst).Nodup) :
    ∃ output', fileDocument output spelled value = .ok output' := by
  unfold fileDocument
  dsimp only
  split_ifs with hroot
  · exact ⟨output, rfl⟩
  · rcases hpath with h | ⟨name, hname⟩
    · exact absurd h hroot
    · have hfiled : filed [(spelled, value)] = [(name, value)] := by
        simp [filed, filedAs, hroot, hname, Except.toOption]
      rw [hfiled, List.singleton_append, List.map_cons, List.nodup_cons] at hnew
      rw [hname]
      dsimp only
      rw [Documents.emplace, if_neg hnew.1]
      exact ⟨_, rfl⟩

/-- Only for what a block says of itself is it refused. -/
theorem fileDocument_eq_error {output : Documents} {spelled : String} {value : Json} {e : Error}
    (h : fileDocument output spelled value = .error e) : e.code = .invalidMetadata := by
  unfold fileDocument at h
  dsimp only at h
  split_ifs at h
  split at h
  · cases h
    rfl
  · split at h
    · cases h
      rfl
    · cases h

/-- A block that can be filed: every key names a node or the root, and no two name one node. -/
structure Listable (entries : List (String × Json)) : Prop where
  isNodePath : ∀ entry ∈ entries, IsNodePath entry.1
  nodup : ((filed entries).map Prod.fst).Nodup

theorem filed_cons_append_perm (entry : String × Json) (entries : List (String × Json))
    (output : Documents) : (filed (entry :: entries) ++ output).Perm
      (filed entries ++ (filed [entry] ++ output)) := by
  have hsplit : filed (entry :: entries) = filed [entry] ++ filed entries := by
    rw [filed, filed, filed, ← List.filterMap_append, List.singleton_append]
  rw [hsplit, ← List.append_assoc (filed entries)]
  exact List.perm_append_comm.append_right output

theorem fileAll_eq_ok {entries : List (String × Json)} {output documents : Documents}
    (hsorted : output.Sorted)
    (h : entries.foldlM (fun output entry => fileDocument output entry.1 entry.2) output =
      .ok documents) :
    (∀ entry ∈ entries, IsNodePath entry.1) ∧ documents.Sorted ∧
      documents.Perm (filed entries ++ output) := by
  induction entries generalizing output with
  | nil =>
    cases h
    exact ⟨by simp, hsorted, .refl _⟩
  | cons entry entries ih =>
    rw [List.foldlM_cons, bind_eq_ok_iff] at h
    obtain ⟨next, hnext, hrest⟩ := h
    obtain ⟨hpath, hnextSorted, hperm⟩ := fileDocument_eq_ok hsorted hnext
    obtain ⟨hpaths, hdone, hall⟩ := ih hnextSorted hrest
    refine ⟨List.forall_mem_cons.2 ⟨hpath, hpaths⟩, hdone, ?_⟩
    exact hall.trans ((hperm.append_left _).trans
      (filed_cons_append_perm entry entries output).symm)

theorem exists_fileAll {entries : List (String × Json)} {output : Documents}
    (hsorted : output.Sorted) (hpaths : ∀ entry ∈ entries, IsNodePath entry.1)
    (hnodup : ((filed entries ++ output).map Prod.fst).Nodup) :
    ∃ documents, entries.foldlM (fun output entry => fileDocument output entry.1 entry.2) output =
      .ok documents := by
  induction entries generalizing output with
  | nil => exact ⟨output, rfl⟩
  | cons entry entries ih =>
    rw [((filed_cons_append_perm entry entries output).map Prod.fst).nodup_iff] at hnodup
    obtain ⟨next, hnext⟩ := exists_fileDocument entry.2 (hpaths entry (by simp)) (hnodup.sublist
      ((List.sublist_append_right _ _).map Prod.fst))
    obtain ⟨-, hnextSorted, hperm⟩ := fileDocument_eq_ok hsorted hnext
    obtain ⟨documents, hrest⟩ := ih hnextSorted (fun e he => hpaths e (by simp [he])) (by
      rw [((hperm.append_left (filed entries)).map Prod.fst).nodup_iff]
      exact hnodup)
    exact ⟨documents, by rw [List.foldlM_cons, hnext, ok_bind, hrest]⟩

theorem fileAll_eq_error {entries : List (String × Json)} {output : Documents} {e : Error}
    (h : entries.foldlM (fun output entry => fileDocument output entry.1 entry.2) output =
      .error e) : e.code = .invalidMetadata := by
  induction entries generalizing output with
  | nil => cases h
  | cons entry entries ih =>
    rw [List.foldlM_cons] at h
    cases hnext : fileDocument output entry.1 entry.2 with
    | error e' =>
      rw [hnext, error_bind, Except.error.injEq] at h
      exact h ▸ fileDocument_eq_error hnext
    | ok next =>
      rw [hnext, ok_bind] at h
      exact ih h

/-- What a block is filed as, where it can be. -/
theorem collectConsolidatedMetadata_eq_ok {metadata : Json} {documents : Documents}
    (h : collectConsolidatedMetadata metadata "" [] = .ok documents) :
    Listable (reached metadata "") ∧ documents.Sorted ∧
      documents.Perm (filed (reached metadata "")) := by
  rw [collectConsolidatedMetadata_eq] at h
  obtain ⟨hpaths, hsorted, hperm⟩ := fileAll_eq_ok List.Pairwise.nil h
  rw [List.append_nil] at hperm
  exact ⟨⟨hpaths, (hperm.map Prod.fst).nodup_iff.1 hsorted.nodup⟩, hsorted, hperm⟩

/-- A block is refused for what it says of itself, and where it cannot be filed. -/
theorem collectConsolidatedMetadata_cases (metadata : Json) :
    (Listable (reached metadata "") ∧
      ∃ documents, collectConsolidatedMetadata metadata "" [] = .ok documents) ∨
    (¬ Listable (reached metadata "") ∧
      ∃ e, collectConsolidatedMetadata metadata "" [] = .error e ∧ e.code = .invalidMetadata) := by
  cases h : collectConsolidatedMetadata metadata "" [] with
  | ok documents => exact .inl ⟨(collectConsolidatedMetadata_eq_ok h).1, documents, rfl⟩
  | error e =>
    refine .inr ⟨fun hlist => ?_, e, rfl, ?_⟩
    · have hempty : Documents.Sorted [] := List.Pairwise.nil
      obtain ⟨documents, hok⟩ := exists_fileAll hempty hlist.isNodePath
        (by rw [List.append_nil]; exact hlist.nodup)
      rw [collectConsolidatedMetadata_eq, hok] at h
      cases h
    · rw [collectConsolidatedMetadata_eq] at h
      exact fileAll_eq_error h

/-! ### The order of the keys -/

/-- The members of a block in another order: its own, or those of an object in it that is no
document. -/
inductive Reordered : List (String × Json) → List (String × Json) → Prop
  | perm {members members' : List (String × Json)} (h : members.Perm members') :
    Reordered members members'
  | inside {front back inner inner' : List (String × Json)} {key : String}
    (hnode : (Json.object inner).isNode = false) (h : Reordered inner inner') :
    Reordered (front ++ (key, .object inner) :: back) (front ++ (key, .object inner') :: back)
  | trans {a b c : List (String × Json)} (h : Reordered a b) (h' : Reordered b c) : Reordered a c

theorem reachedMembers_eq_flatMap (members : List (String × Json)) (pre : String) :
    reachedMembers members pre = members.flatMap fun member =>
      if member.2.isNode then [(spell pre member.1, member.2)]
      else reached member.2 (normalizeMetadataKey (spell pre member.1)) := by
  induction members with
  | nil => rfl
  | cons member members ih =>
    obtain ⟨key, value⟩ := member
    rw [reachedMembers, ih, List.flatMap_cons]

theorem Reordered.perm_keys {members members' : List (String × Json)}
    (h : Reordered members members') : (members.map Prod.fst).Perm (members'.map Prod.fst) := by
  induction h with
  | perm h => exact h.map Prod.fst
  | inside _ _ _ => simp
  | trans _ _ ih ih' => exact ih.trans ih'

theorem isSome_lookup_iff {key : String} {members : List (String × Json)} :
    (members.lookup key).isSome = true ↔ key ∈ members.map Prod.fst := by
  induction members with
  | nil => simp
  | cons member members ih =>
    obtain ⟨key', value⟩ := member
    rw [List.lookup_cons]
    by_cases h : key = key'
    · simp [h]
    · have : (key == key') = false := by simpa using h
      simp [this, ih, h]

/-- The order of the members has no say in which an object has. -/
theorem Reordered.isNode_eq {members members' : List (String × Json)}
    (h : Reordered members members') :
    (Json.object members).isNode = (Json.object members').isNode := by
  have : (members.lookup "node_type").isSome = (members'.lookup "node_type").isSome := by
    rw [Bool.eq_iff_iff, isSome_lookup_iff, isSome_lookup_iff, h.perm_keys.mem_iff]
  simpa [Json.isNode, Json.isObject] using this

theorem reached_object (members : List (String × Json)) (pre : String) :
    reached (.object members) pre = members.flatMap fun member =>
      if member.2.isNode then [(spell pre member.1, member.2)]
      else reached member.2 (normalizeMetadataKey (spell pre member.1)) :=
  reachedMembers_eq_flatMap members pre

/-- What a block comes to does not depend on the order of its keys. -/
theorem Reordered.perm_reached {members members' : List (String × Json)}
    (h : Reordered members members') (pre : String) :
    (reached (.object members) pre).Perm (reached (.object members') pre) := by
  induction h generalizing pre with
  | perm h =>
    rw [reached_object, reached_object]
    exact h.flatMap_right _
  | inside hnode h ih =>
    rename_i front back inner inner' key
    have hnode' : (Json.object inner').isNode = false := h.isNode_eq ▸ hnode
    rw [reached_object, reached_object, List.flatMap_append, List.flatMap_append,
      List.flatMap_cons, List.flatMap_cons]
    refine List.Perm.append_left _ (List.Perm.append_right _ ?_)
    dsimp only
    rw [hnode, hnode', if_neg Bool.false_ne_true, if_neg Bool.false_ne_true]
    exact ih _
  | trans _ _ ih ih' => exact (ih pre).trans (ih' pre)

theorem Listable.of_perm {entries entries' : List (String × Json)} (h : entries.Perm entries')
    (hlist : Listable entries) : Listable entries' :=
  ⟨fun entry hentry => hlist.isNodePath entry (h.mem_iff.2 hentry),
    ((h.filterMap filedAs).map Prod.fst).nodup_iff.1 hlist.nodup⟩

/-- Two lists of the same documents in the order of their names are one. -/
theorem Documents.Sorted.eq_of_perm {documents documents' : Documents} (h : documents.Sorted)
    (h' : documents'.Sorted) (hperm : documents.Perm documents') : documents = documents' :=
  hperm.eq_of_pairwise (fun _ _ _ _ hab hba => absurd (hab.trans hba) (lt_irrefl _)) h h'

end CartaZarr
