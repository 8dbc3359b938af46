import CartaZarr.Store.Answers

/-!
# The names of nodes and the paths of arrays

A store and its transport each hold a name of a node to a rule of their own, and the store files
what it knows of a node under a name. That a name has one canonical spelling, that what is refused
is filed apart from every node, and that a canonical name leads to a place below the root is
`nodeNames_agree`.

A name is a string of bytes, of which a character stands for each: only `/`, `.` and `\` mean
anything.
-/

namespace CartaZarr

/-- The components of a relative path, an empty one between two slashes. -/
def components (node : String) : List (List Char) := node.toList.splitOn '/'

/-- A component that names something in the directory before it. -/
def Proper (component : List Char) : Prop := component ≠ [] ∧ component ≠ ['.']

instance (component : List Char) : Decidable (Proper component) :=
  inferInstanceAs (Decidable (_ ∧ _))

def backslash : Char := Char.ofNat 92

/-- A path below a directory: a slash between the two where the directory does not end in one. -/
def appendPath (root node : String) : String :=
  if root = "" ∨ root.toList.getLast? = some '/' then root ++ node else root ++ "/" ++ node

/-- Where a transport over a file system has the array of a node. -/
def FilesystemTransport.arrayDirectory (root node : String) : Except Error String :=
  if node = "" ∨ node.toList.head? = some '/' ∨ backslash ∈ node.toList then
    .error ⟨.invalidArgument, "Invalid Zarr array path " ++ node ++
      (if backslash ∈ node.toList then ": TensorStore reads a backslash as a path separator"
        else ""), node⟩
  else if (components node).contains ['.'] || (components node).contains ['.', '.'] then
    .error ⟨.invalidArgument, "Invalid Zarr array path " ++ node, node⟩
  else .ok (appendPath root node)

/-- What a path names, from one directory to the next. -/
def pathNames (path : String) : List (List Char) := (components path).filter fun name => name ≠ []

/-- A path below a directory, as they are spelled: it goes on from the directory by names, of which
none leads back. -/
def StrictlyUnder (root path : String) : Prop :=
  root.toList <+: path.toList ∧ ∃ names, names ≠ [] ∧
    (∀ name ∈ names, name ≠ [] ∧ name ≠ ['.'] ∧ name ≠ ['.', '.'] ∧ '/' ∉ name) ∧
    pathNames path = pathNames root ++ names

/-- The entry of a name in a table: what is read of the node is what the entry has afterwards, and
no other entry changes. -/
structure IsEntry {α : Type} (read : String → StateM Session α) (table : Session → Memo String α)
    (node key : String) : Prop where
  kept : ∀ s, (table (read node s).2 key).getLast? = some (read node s).1
  others : ∀ s other, other ≠ key → table (read node s).2 other = table s other

/-! ## Names -/

section Names

variable {node name : String}

/-- **A name is accepted** just in case it is relative, does not climb and names something; and then
it is what its components are without those that name nothing. -/
theorem normalizeNodeName_eq_ok_iff : normalizeNodeName node = .ok name ↔
    node.toList.head? ≠ some '/' ∧ ['.', '.'] ∉ components node ∧
    (∃ part ∈ components node, Proper part) ∧
      name = String.ofList (['/'].intercalate
        ((components node).filter fun part => Proper part)) := by
  have hkept : (components node).filter (fun part => part ≠ ['.'] ∧ part ≠ []) =
      (components node).filter fun part => Proper part :=
    List.filter_congr fun part _ => by
      rw [Bool.eq_iff_iff, decide_eq_true_eq, decide_eq_true_eq]
      exact And.comm
  have hempty : node = "" → ¬ ∃ part ∈ components node, Proper part := by
    rintro rfl ⟨part, hpart, hproper⟩
    exact hproper.1 (by simpa [components] using hpart)
  have hnone : (components node).filter (fun part => Proper part) = [] ↔
      ¬ ∃ part ∈ components node, Proper part := by
    rw [List.filter_eq_nil_iff]
    simp
  unfold normalizeNodeName
  dsimp only
  rw [← components, hkept]
  split_ifs with hstart hparent hnil
  · simp only [false_iff]
    rintro ⟨hhead, -, hsome, -⟩
    rcases hstart with hstart | hstart
    · exact hempty hstart hsome
    · exact hhead hstart
  · simp only [false_iff]
    exact fun h => h.2.1 hparent
  · simp only [false_iff]
    exact fun h => hnone.1 hnil h.2.2.1
  · rw [Except.ok.injEq]
    push Not at hstart
    exact ⟨fun h => ⟨hstart.2, hparent, not_not.1 fun h => hnil (hnone.2 h), h.symm⟩,
      fun h => h.2.2.2.symm⟩

/-- A name that is refused is no canonical one. -/
theorem ne_of_refused {e : Error} (h : normalizeNodeName node = .error e) {other : String}
    (hother : normalizeNodeName other = .ok name) : node ≠ name := by
  rintro rfl
  rw [normalizeNodeName_canonical hother] at h
  cases h

end Names

/-! ## Entries -/

section Entries

variable (store : Store) (outages : Outages) (node : String)

theorem push_of_ne {κ α : Type} [DecidableEq κ] (memo : Memo κ α) {key other : κ} (h : other ≠ key)
    (value : α) : memo.push key value other = memo other := Function.update_of_ne h _ _

/-- A table that is read through `remember` has its answers under the key. -/
theorem isEntry_remember {α : Type} {read : String → StateM Session α}
    {table : Session → Memo String α}
    {keep : Session → String → α → Session} {again : α → Bool} {key : String}
    {compute : StateM Session α}
    (hread : read node = remember table keep again key compute)
    (htable : ∀ s answer, table (keep s key answer) = (table s).push key answer)
    (hcompute : ∀ s other, other ≠ key → table (compute s).2 other = table s other) :
    IsEntry read table node key := by
  refine ⟨fun s => ?_, fun s other hne => ?_⟩
  · rw [hread]
    refine getLast?_remember table keep again key compute s fun s answer => ?_
    rw [htable]
    exact Memo.getLast?_push_self _ _ _
  · rw [hread]
    obtain ⟨_, -, -, h⟩ | h := remember_cases table keep again key compute s
    · rw [h]
    · rw [h, htable, push_of_ne _ hne, hcompute s other hne]

/-- What follows a computation and changes nothing leaves the state it left. -/
theorem state_bind {α β : Type} {x : StateM Session α} {f : α → StateM Session β}
    (hf : ∀ a s, (f a s).2 = s) (s : Session) : ((x >>= f) s).2 = (x s).2 := hf _ _

theorem isEntry_nodeMetadata : IsEntry (store.readNodeMetadata outages) Session.nodeMetadata node
    (Store.cacheKey node) := by
  cases h : normalizeNodeName node with
  | error e =>
    rw [Store.cacheKey_of_error h]
    exact isEntry_remember node (by rw [Store.readNodeMetadata, h])
      (fun _ _ => rfl) fun _ _ _ => rfl
  | ok name =>
    rw [Store.cacheKey_of_ok h]
    refine isEntry_remember node (by rw [Store.readNodeMetadata, h])
      (fun _ _ => rfl) fun s other _ => ?_
    rw [state_bind fun a s => by cases a <;> rfl]
    rfl

/-- Reading the document of a node files no array. -/
theorem arrayMetadata_readNodeMetadata (s : Session) :
    (store.readNodeMetadata outages node s).2.arrayMetadata = s.arrayMetadata := by
  rw [Store.readNodeMetadata]
  cases normalizeNodeName node with
  | error e => exact remember_keeps _ _ _ _ _ s (fun _ _ => rfl) fun _ => rfl
  | ok name =>
    refine remember_keeps _ _ _ _ _ s (fun _ _ => rfl) fun s => ?_
    rw [state_bind fun a s => by cases a <;> rfl]
    rfl

theorem isEntry_arrayMetadata : IsEntry (store.readArrayMetadata outages) Session.arrayMetadata node
    (Store.cacheKey node) := by
  refine isEntry_remember node rfl (fun _ _ => rfl) fun s other _ => ?_
  cases h : normalizeNodeName node with
  | error e => rfl
  | ok name =>
    dsimp only
    rw [state_bind fun a s => by cases a <;> rfl, arrayMetadata_readNodeMetadata]

/-- A name has one entry. -/
theorem IsEntry.unique {α : Type} {read : String → StateM Session α}
    {table : Session → Memo String α}
    (hempty : ∀ key, table {} key = []) {node key key' : String} (h : IsEntry read table node key)
    (h' : IsEntry read table node key') : key = key' := by
  by_contra hne
  have hkept := h'.kept {}
  rw [h.others {} key' (Ne.symm hne), hempty] at hkept
  cases hkept

end Entries

/-! ## Paths -/

section Paths

variable {root node name : String}

/-- The components of a canonical name are names that do not lead back. -/
theorem components_canonical (h : normalizeNodeName node = .ok name) :
    components name ≠ [] ∧ ∀ component ∈ components name,
      component ≠ [] ∧ component ≠ ['.'] ∧ component ≠ ['.', '.'] ∧ '/' ∉ component := by
  obtain ⟨parts, hne, hparts, rfl⟩ := normalizeNodeName_eq_ok h
  have hsplit : components (String.ofList (['/'].intercalate parts)) = parts := by
    rw [components, String.toList_ofList]
    exact List.splitOn_intercalate '/' (fun part hpart => (hparts part hpart).2.2.2) hne
  rw [hsplit]
  exact ⟨hne, hparts⟩

/-- A canonical name is appended by its components. -/
theorem pathNames_appendPath (h : ∀ component ∈ components name, component ≠ []) (root : String) :
    pathNames (appendPath root name) = pathNames root ++ components name := by
  have hname : (components name).filter (fun name => name ≠ []) = components name :=
    List.filter_eq_self.2 fun component hcomponent => by simpa using h component hcomponent
  have hsplit : ∀ before : List Char, (before ++ '/' :: name.toList).splitOn '/' =
      before.splitOn '/' ++ components name := fun before => List.splitOn_append_cons_self _ _
  unfold appendPath
  by_cases hempty : root = ""
  · subst hempty
    rw [if_pos (Or.inl rfl), String.empty_append, pathNames, hname]
    rfl
  by_cases hlast : root.toList.getLast? = some '/'
  · obtain ⟨before, hbefore⟩ := List.getLast?_eq_some_iff.1 hlast
    have hroot : pathNames root = (before.splitOn '/').filter fun name => name ≠ [] := by
      rw [pathNames, components, hbefore, List.splitOn_append_cons_self, List.filter_append]
      simp
    rw [if_pos (Or.inr hlast), hroot, pathNames, components, String.toList_append, hbefore,
      List.append_assoc, List.singleton_append, hsplit, List.filter_append, hname]
  · rw [if_neg (not_or.2 ⟨hempty, hlast⟩), pathNames, components, String.toList_append,
      String.toList_append, List.append_assoc]
    change List.filter _ ((root.toList ++ '/' :: name.toList).splitOn '/') = _
    rw [hsplit, List.filter_append, hname]
    rfl

theorem strictlyUnder_appendPath (h : normalizeNodeName node = .ok name) :
    StrictlyUnder root (appendPath root name) := by
  obtain ⟨hne, hproper⟩ := components_canonical h
  refine ⟨?_, components name, hne, hproper,
    pathNames_appendPath (fun c hc => (hproper c hc).1) root⟩
  unfold appendPath
  split
  · rw [String.toList_append]
    exact List.prefix_append _ _
  · rw [String.append_assoc, String.toList_append]
    exact List.prefix_append _ _

/-- **A canonical name is located** just in case it has no backslash. -/
theorem arrayDirectory_eq_ok_iff (h : normalizeNodeName node = .ok name) {path : String} :
    FilesystemTransport.arrayDirectory root name = .ok path ↔
      backslash ∉ name.toList ∧ path = appendPath root name := by
  obtain ⟨-, hproper⟩ := components_canonical h
  obtain ⟨hhead, -, ⟨part, hpart, hpart'⟩, -⟩ :=
    normalizeNodeName_eq_ok_iff.1 (normalizeNodeName_canonical h)
  have hempty : name ≠ "" := by
    rintro rfl
    exact hpart'.1 (by simpa [components] using hpart)
  have hdots : ¬ (['.'] ∈ components name ∨ ['.', '.'] ∈ components name) := by
    rintro (hmem | hmem)
    · exact (hproper _ hmem).2.1 rfl
    · exact (hproper _ hmem).2.2.1 rfl
  unfold FilesystemTransport.arrayDirectory
  by_cases hbackslash : backslash ∈ name.toList
  · rw [if_pos (Or.inr (Or.inr hbackslash))]
    exact iff_of_false (by simp) fun h => h.1 hbackslash
  · rw [if_neg (by simp [hempty, hhead, hbackslash]),
      if_neg (by simpa using hdots), Except.ok.injEq]
    exact ⟨fun h => ⟨hbackslash, h.symm⟩, fun h => h.2.symm⟩

end Paths

/-- **The names of nodes agree** between a store, its tables and its transport. -/
theorem nodeNames_agree :
    (∀ node, (∃ name, normalizeNodeName node = .ok name) ↔
      node.toList.head? ≠ some '/' ∧ ['.', '.'] ∉ components node ∧
        ∃ part ∈ components node, Proper part) ∧
    (∀ node name, normalizeNodeName node = .ok name →
      name = String.ofList (['/'].intercalate ((components node).filter fun part => Proper part)) ∧
      normalizeNodeName name = .ok name ∧
      ∀ root path, FilesystemTransport.arrayDirectory root name = .ok path ↔
        backslash ∉ name.toList ∧ path = appendPath root name ∧ StrictlyUnder root path) ∧
    (∀ (store : Store) (outages : Outages) (node node' name name' : String),
      normalizeNodeName node = .ok name → normalizeNodeName node' = .ok name' →
      ((∃ key, IsEntry (store.readNodeMetadata outages) Session.nodeMetadata node key ∧
          IsEntry (store.readNodeMetadata outages) Session.nodeMetadata node' key) ↔ name = name') ∧
      ((∃ key, IsEntry (store.readArrayMetadata outages) Session.arrayMetadata node key ∧
          IsEntry (store.readArrayMetadata outages) Session.arrayMetadata node' key) ↔
          name = name')) ∧
    ∀ (store : Store) (outages : Outages) (node : String) (e : Error),
      normalizeNodeName node = .error e →
      ∀ key, IsEntry (store.readNodeMetadata outages) Session.nodeMetadata node key ∨
          IsEntry (store.readArrayMetadata outages) Session.arrayMetadata node key →
        ∀ other, normalizeNodeName other ≠ .ok key := by
  refine ⟨fun node => ?_, fun node name h => ⟨(normalizeNodeName_eq_ok_iff.1 h).2.2.2,
    normalizeNodeName_canonical h, fun root path => ?_⟩,
    fun store outages node node' name name' h h' => ?_,
    fun store outages node e h key hkey other hother => ?_⟩
  · constructor
    · rintro ⟨name, h⟩
      obtain ⟨hhead, hparent, hsome, -⟩ := normalizeNodeName_eq_ok_iff.1 h
      exact ⟨hhead, hparent, hsome⟩
    · rintro ⟨hhead, hparent, hsome⟩
      exact ⟨_, normalizeNodeName_eq_ok_iff.2 ⟨hhead, hparent, hsome, rfl⟩⟩
  · rw [arrayDirectory_eq_ok_iff h]
    constructor
    · rintro ⟨hbackslash, rfl⟩
      exact ⟨hbackslash, rfl, strictlyUnder_appendPath h⟩
    · exact fun hpath => ⟨hpath.1, hpath.2.1⟩
  · have hkey := Store.cacheKey_of_ok h
    have hkey' := Store.cacheKey_of_ok h'
    refine ⟨⟨?_, ?_⟩, ?_, ?_⟩
    · rintro ⟨key, hentry, hentry'⟩
      rw [← hkey, ← hkey', ← hentry.unique (fun _ => rfl) (isEntry_nodeMetadata store outages node),
        ← hentry'.unique (fun _ => rfl) (isEntry_nodeMetadata store outages node')]
    · rintro rfl
      exact ⟨name, hkey ▸ isEntry_nodeMetadata store outages node,
        hkey' ▸ isEntry_nodeMetadata store outages node'⟩
    · rintro ⟨key, hentry, hentry'⟩
      rw [← hkey, ← hkey', ← hentry.unique (fun _ => rfl)
        (isEntry_arrayMetadata store outages node),
        ← hentry'.unique (fun _ => rfl) (isEntry_arrayMetadata store outages node')]
    · rintro rfl
      exact ⟨name, hkey ▸ isEntry_arrayMetadata store outages node,
        hkey' ▸ isEntry_arrayMetadata store outages node'⟩
  · have hnode : node = key := by
      rw [← Store.cacheKey_of_error h]
      rcases hkey with hkey | hkey
      · exact (hkey.unique (fun _ => rfl) (isEntry_nodeMetadata store outages node)).symm
      · exact (hkey.unique (fun _ => rfl) (isEntry_arrayMetadata store outages node)).symm
    exact ne_of_refused h hother hnode

theorem nodeNames_agree_dotted :
    normalizeNodeName "SKY/MASK_0" = .ok "SKY/MASK_0" ∧
    ∀ store outages, ∃ key, IsEntry (Store.readNodeMetadata store outages) Session.nodeMetadata
        "./SKY//MASK_0/" key ∧
      IsEntry (Store.readNodeMetadata store outages) Session.nodeMetadata "SKY/./MASK_0" key := by
  have hdotted : normalizeNodeName "./SKY//MASK_0/" = .ok "SKY/MASK_0" := by rfl
  have hinner : normalizeNodeName "SKY/./MASK_0" = .ok "SKY/MASK_0" := by rfl
  exact ⟨(nodeNames_agree.2.1 _ _ hdotted).2.1,
    fun store outages => (nodeNames_agree.2.2.1 store outages _ _ _ _ hdotted hinner).1.2 rfl⟩

end CartaZarr
