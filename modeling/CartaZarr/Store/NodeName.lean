import CartaZarr.Foundations.Fallible
import CartaZarr.Image.Descriptor

/-!
# The names of nodes

A node of a store is named by a relative path that does not climb out of it. `normalizeNodeName`
gives the one name a node is filed under, however it is spelled: it drops what a path may say
without naming another node. A name that was given so is its own canonical name
(`normalizeNodeName_canonical`).
-/

namespace CartaZarr

/-- The canonical name of a node: the parts of the path that are neither `.` nor empty, joined by
slashes. A path that is empty, absolute or has a `..` part, or has no other part, names no node. -/
def normalizeNodeName (node : String) : Except Error String :=
  let invalid : Error := ⟨.invalidArgument, "Invalid Zarr node path", node⟩
  if node = "" ∨ node.toList.head? = some '/' then .error invalid
  else
    let parts := node.toList.splitOn '/'
    if ['.', '.'] ∈ parts then .error invalid
    else
      let kept := parts.filter fun part => part ≠ ['.'] ∧ part ≠ []
      if kept = [] then .error invalid else .ok (String.ofList (['/'].intercalate kept))

/-- A part between separators has none. -/
theorem not_mem_of_mem_splitOn {α : Type} [DecidableEq α] {a : α} {xs part : List α}
    (h : part ∈ xs.splitOn a) : a ∉ part := by
  induction xs generalizing part with
  | nil =>
    rw [List.splitOn_nil, List.mem_singleton] at h
    simp [h]
  | cons x xs ih =>
    rw [List.splitOn_cons_eq_if_modifyHead] at h
    split at h
    · rcases List.mem_cons.1 h with rfl | h
      · simp
      · exact ih h
    · rename_i hx
      cases hparts : xs.splitOn a with
      | nil => exact absurd hparts (List.splitOn_ne_nil a xs)
      | cons first rest =>
        rw [hparts] at h ih
        rcases List.mem_cons.1 h with rfl | h
        · have := ih List.mem_cons_self
          have hne : a ≠ x := fun e => hx (by simp [e])
          simp [this, hne]
        · exact ih (List.mem_cons_of_mem _ h)

/-- What a canonical name is made of. -/
theorem normalizeNodeName_eq_ok {node name : String} (h : normalizeNodeName node = .ok name) :
    ∃ parts : List (List Char), parts ≠ [] ∧
      (∀ part ∈ parts, part ≠ [] ∧ part ≠ ['.'] ∧ part ≠ ['.', '.'] ∧ '/' ∉ part) ∧
      name = String.ofList (['/'].intercalate parts) := by
  unfold normalizeNodeName at h
  dsimp only at h
  split_ifs at h with hempty hparent hnone
  cases h
  refine ⟨_, hnone, fun part hpart => ?_, rfl⟩
  obtain ⟨hmem, hkept⟩ := List.mem_filter.1 hpart
  simp only [ne_eq, decide_eq_true_eq] at hkept
  exact ⟨hkept.2, hkept.1, fun e => hparent (e ▸ hmem), not_mem_of_mem_splitOn hmem⟩

/-- Such parts make a name that is canonical. -/
theorem normalizeNodeName_intercalate {parts : List (List Char)} (hne : parts ≠ [])
    (h : ∀ part ∈ parts, part ≠ [] ∧ part ≠ ['.'] ∧ part ≠ ['.', '.'] ∧ '/' ∉ part) :
    normalizeNodeName (String.ofList (['/'].intercalate parts)) =
      .ok (String.ofList (['/'].intercalate parts)) := by
  have hsplit : (['/'].intercalate parts).splitOn '/' = parts :=
    List.splitOn_intercalate '/' (fun part hpart => (h part hpart).2.2.2) hne
  obtain ⟨first, rest, rfl⟩ := List.exists_cons_of_ne_nil hne
  obtain ⟨c, first, rfl⟩ := List.exists_cons_of_ne_nil (h first (by simp)).1
  have hc : c ≠ '/' := by
    have := (h (c :: first) (by simp)).2.2.2
    simp only [List.mem_cons, not_or] at this
    exact fun e => this.1 e.symm
  have hchars : ∃ tail, ['/'].intercalate ((c :: first) :: rest) = c :: tail := by
    cases rest with
    | nil => exact ⟨first, by simp⟩
    | cons part rest =>
      exact ⟨first ++ ['/'] ++ ['/'].intercalate (part :: rest), by
        simp [List.intercalate_cons_cons]⟩
  obtain ⟨tail, htail⟩ := hchars
  have hstart : ¬ (String.ofList (['/'].intercalate ((c :: first) :: rest)) = "" ∨
      (String.ofList (['/'].intercalate ((c :: first) :: rest))).toList.head? = some '/') := by
    rw [htail]
    simp [hc]
  have hkept : ((c :: first) :: rest).filter (fun part => part ≠ ['.'] ∧ part ≠ []) =
      (c :: first) :: rest := by
    rw [List.filter_eq_self]
    intro part hpart
    simp [(h part hpart).1, (h part hpart).2.1]
  have hparent : ['.', '.'] ∉ (c :: first) :: rest := fun hmem => (h _ hmem).2.2.1 rfl
  unfold normalizeNodeName
  dsimp only
  rw [if_neg hstart, String.toList_ofList, hsplit, if_neg hparent, hkept, if_neg hne]

/-- The name a node is filed under is its own. -/
theorem normalizeNodeName_canonical {node name : String} (h : normalizeNodeName node = .ok name) :
    normalizeNodeName name = .ok name := by
  obtain ⟨parts, hne, hparts, rfl⟩ := normalizeNodeName_eq_ok h
  exact normalizeNodeName_intercalate hne hparts

/-- What is refused is refused as one thing, whatever it is called. -/
theorem normalizeNodeName_eq_error {node : String} {e : Error}
    (h : normalizeNodeName node = .error e) :
    e = ⟨.invalidArgument, "Invalid Zarr node path", node⟩ := by
  unfold normalizeNodeName at h
  dsimp only at h
  split_ifs at h <;> cases h <;> rfl

end CartaZarr
