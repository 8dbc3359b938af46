import CartaZarr.Store.Inventory
import CartaZarr.Xradio.Attributes
import CartaZarr.Zarr.StringFormat

/-!
# The flag of an image

The pixel mask of an image is a flag that the image declares, or that a data group declares for it,
or the only array of the store that could be one. `determineFlag` tells which: a declaration is
binding, so that one that cannot serve is an error, and where there is none no flag is taken that is
declared for another image, nor one of several (`determineFlag_selects`).
-/

namespace CartaZarr

/-- An array is a flag by its `type`. -/
def isFlag (metadata : ArrayMetadata) : Bool :=
  (metadata.attributes.get? "type").bind Json.string? = some "flag"

/-- Values that are booleans, or encode them. -/
def holdsBooleans (metadata : ArrayMetadata) : Bool :=
  metadata.dataType = "bool" ||
    (metadata.dataType = "int8" && (metadata.attributes.get? "dtype").bind Json.string? =
      some "bool")

/-- What a variable has to be before it can mask the pixels of an image. -/
def requireUsableFlag (flag image : ArrayMetadata) (node : String) : Except Error Unit :=
  if ¬ isFlag flag then .error ⟨.invalidMetadata,
    "Pixel mask variable is not marked as a flag", node⟩
  else if ¬ holdsBooleans flag then
    .error ⟨.unsupportedDataType, "Pixel mask variable is not boolean", node⟩
  else if flag.dimensionNames ≠ image.dimensionNames ∨ flag.shape ≠ image.shape then
    .error ⟨.invalidMetadata, "Pixel mask variable does not share the image's dimensions", node⟩
  else .ok ()

/-- A name as the store files it; one that is refused as it is written. -/
def canonical (node : String) : String :=
  match normalizeNodeName node with
  | .ok name => name
  | .error _ => node

/-- The members of a member that is an object. -/
def memberObject (object : Json) (name : String) : Option (List (String × Json)) :=
  match object.get? name with
  | some (.object members) => some members
  | _ => none

/-- The flags that data groups declare, each once: of an image, and of others. -/
structure DeclaredFlags where
  own : List String := []
  others : List String := []

def flagsOfDataGroups (rootAttributes : Json) (imageId : String) : DeclaredFlags :=
  ((memberObject rootAttributes "data_groups").getD []).foldl (fun declared group =>
    let flag := attributeString group.2 "flag"
    if ¬ group.2.isObject then declared
    else if flag = "" then declared
    else if canonical (attributeString group.2 "sky") = imageId then
      { declared with own := declared.own.insert (canonical flag) }
    else { declared with others := declared.others.insert (canonical flag) }) {}

section Determine

variable (store : Store) (outages : Outages) (image : ArrayMetadata)

def requireDeclaredFlag (spelt : String) : StateM Session (Except Error String) := do
  let declared := canonical spelt
  match ← store.readArrayMetadata outages declared with
  | .error e => return .error e
  | .ok flag => return (requireUsableFlag flag image declared).map fun _ => declared

/-- The flag an image declares, or an empty name. -/
def declaredFlag (imageId : String) : StateM Session (Except Error String) :=
  let declared := attributeString image.attributes "flag"
  if declared ≠ "" then requireDeclaredFlag store outages image declared
  else
    match (flagsOfDataGroups store.rootAttributes imageId).own with
    | [] => return .ok ""
    | [flag] => requireDeclaredFlag store outages image flag
    | _ =>
      return .error ⟨.invalidMetadata, "data_groups name more than one flag for the image", imageId⟩

/-- An entry that could be the flag of an image, and is declared for no other. -/
def isMatchingFlag (groups : DeclaredFlags) (entry : NodeEntry) : Bool :=
  entry.kind = .array &&
    match entry.array with
    | some (.ok flag) =>
      !groups.others.contains entry.name &&
        (requireUsableFlag flag image entry.name).toOption.isSome
    | _ => false

def matchingFlags (groups : DeclaredFlags) (entries : List NodeEntry) : List String :=
  (entries.filter (isMatchingFlag image groups)).map NodeEntry.name

def ambiguousPixelMask (imageId : String) : Diagnostic :=
  ⟨.ambiguousPixelMask, "More than one flag variable matches the image; no pixel mask was selected",
    imageId⟩

/-- The flag that supplies the pixel mask of an image, or an empty name. -/
def determineFlag (imageId : String) (diagnostics : List Diagnostic) :
    StateM Session (Except Error String × List Diagnostic) := do
  match ← declaredFlag store outages image imageId with
  | .error e => return (.error e, diagnostics)
  | .ok declared =>
    if declared ≠ "" then return (.ok declared, diagnostics)
    else
      match ← store.inventory outages with
      | .error e => return (.error e, diagnostics)
      | .ok entries =>
        match matchingFlags image (flagsOfDataGroups store.rootAttributes imageId) entries with
        | [] => return (.ok "", diagnostics)
        | [flag] => return (.ok flag, diagnostics)
        | _ => return (.ok "", diagnostics ++ [ambiguousPixelMask imageId])

end Determine

/-! ## What a flag is to be -/

/-- A flag that masks the pixels of an image. -/
structure Masks (flag image : ArrayMetadata) : Prop where
  marked : (flag.attributes.get? "type").bind Json.string? = some "flag"
  booleans : flag.dataType = "bool" ∨
    flag.dataType = "int8" ∧ (flag.attributes.get? "dtype").bind Json.string? = some "bool"
  dimensionNames : flag.dimensionNames = image.dimensionNames
  shape : flag.shape = image.shape

/-- A data group declares a flag for an image, as it spells the two. -/
def Declares (rootAttributes : Json) (sky flag : String) : Prop :=
  ∃ groups name group, rootAttributes.get? "data_groups" = some (.object groups) ∧
    (name, group) ∈ groups ∧
    attributeString group "sky" = sky ∧ attributeString group "flag" = flag ∧ flag ≠ ""

/-- A node that is declared for an image, however the two are spelled. -/
def DeclaredFor (rootAttributes : Json) (imageId name : String) : Prop :=
  ∃ sky flag, Declares rootAttributes sky flag ∧ canonical sky = imageId ∧ canonical flag = name

/-- A node that is declared for another image. -/
def DeclaredElsewhere (rootAttributes : Json) (imageId name : String) : Prop :=
  ∃ sky flag, Declares rootAttributes sky flag ∧ canonical sky ≠ imageId ∧ canonical flag = name

/-- A node that could be the flag of an image for which none is declared. -/
def Remains (store : Store) (image : ArrayMetadata) (imageId : String) (entries : List NodeEntry)
    (name : String) : Prop :=
  ¬ DeclaredElsewhere store.rootAttributes imageId name ∧
    ∃ entry ∈ entries, entry.name = name ∧ ∃ flag, entry.array = some (.ok flag) ∧ Masks flag image

theorem requireUsableFlag_eq_ok_iff {flag image : ArrayMetadata} {node : String} :
    requireUsableFlag flag image node = .ok () ↔ Masks flag image := by
  unfold requireUsableFlag
  by_cases hflag : isFlag flag = true
  swap
  · rw [if_pos hflag]
    exact iff_of_false (by simp) fun h => hflag (by simpa [isFlag] using h.marked)
  by_cases hbooleans : holdsBooleans flag = true
  swap
  · rw [if_neg (not_not.2 hflag), if_pos hbooleans]
    exact iff_of_false (by simp) fun h => hbooleans (by simpa [holdsBooleans] using h.booleans)
  rw [if_neg (not_not.2 hflag), if_neg (not_not.2 hbooleans)]
  by_cases hdimensions : flag.dimensionNames = image.dimensionNames ∧ flag.shape = image.shape
  · rw [if_neg (by simp [hdimensions])]
    exact iff_of_true rfl ⟨by simpa [isFlag] using hflag, by simpa [holdsBooleans] using hbooleans,
      hdimensions.1, hdimensions.2⟩
  · rw [if_pos (not_and_or.1 hdimensions)]
    exact iff_of_false (by simp) fun h => hdimensions ⟨h.dimensionNames, h.shape⟩

theorem canonical_of_ok {node name : String} (h : normalizeNodeName node = .ok name) :
    canonical node = name := by rw [canonical, h]

theorem canonical_ne_empty {node : String} (h : node ≠ "") : canonical node ≠ "" := by
  rw [canonical]
  cases hname : normalizeNodeName node with
  | error e => exact h
  | ok name =>
    rintro rfl
    have hcanonical := normalizeNodeName_canonical hname
    cases hcanonical

/-! ## What data groups declare -/

section Groups

variable {rootAttributes : Json} {imageId name : String}

/-- The flags of data groups are those declared, each once. -/
theorem flagsOfDataGroups_spec (rootAttributes : Json) (imageId : String) :
    (flagsOfDataGroups rootAttributes imageId).own.Nodup ∧
    (∀ name, name ∈ (flagsOfDataGroups rootAttributes imageId).own ↔
      DeclaredFor rootAttributes imageId name) ∧
    ∀ name, name ∈ (flagsOfDataGroups rootAttributes imageId).others ↔
      DeclaredElsewhere rootAttributes imageId name := by
  have hfold : ∀ (groups : List (String × Json)) (declared : DeclaredFlags), declared.own.Nodup →
      let declared' := groups.foldl (fun declared group =>
        let flag := attributeString group.2 "flag"
        if ¬ group.2.isObject then declared
        else if flag = "" then declared
        else if canonical (attributeString group.2 "sky") = imageId then
          { declared with own := declared.own.insert (canonical flag) }
        else { declared with others := declared.others.insert (canonical flag) }) declared
      declared'.own.Nodup ∧
      (∀ name, name ∈ declared'.own ↔ name ∈ declared.own ∨ ∃ group ∈ groups,
        attributeString group.2 "flag" ≠ "" ∧ canonical (attributeString group.2 "sky") = imageId ∧
          canonical (attributeString group.2 "flag") = name) ∧
      ∀ name, name ∈ declared'.others ↔ name ∈ declared.others ∨ ∃ group ∈ groups,
        attributeString group.2 "flag" ≠ "" ∧ canonical (attributeString group.2 "sky") ≠ imageId ∧
          canonical (attributeString group.2 "flag") = name := by
    intro groups
    induction groups with
    | nil => exact fun declared hnodup => ⟨hnodup, by simp, by simp⟩
    | cons group groups ih =>
      intro declared hnodup
      dsimp only
      rw [List.foldl_cons]
      by_cases hobject : group.2.isObject = true
      swap
      · have hflag : attributeString group.2 "flag" = "" := by
          cases hget : group.2.get? "flag" with
          | none => rw [attributeString, hget]; rfl
          | some value => exact absurd (Json.isObject_of_get? hget) hobject
        rw [if_pos hobject]
        simpa [hflag] using ih declared hnodup
      rw [if_neg (not_not.2 hobject)]
      by_cases hflag : attributeString group.2 "flag" = ""
      · rw [if_pos hflag]
        simpa [hflag] using ih declared hnodup
      rw [if_neg hflag]
      by_cases hsky : canonical (attributeString group.2 "sky") = imageId
      · rw [if_pos hsky]
        obtain ⟨hnodup', hown, hothers⟩ := ih { declared with
          own := declared.own.insert (canonical (attributeString group.2 "flag")) } (hnodup.insert)
        refine ⟨hnodup', fun name => ?_, fun name => ?_⟩
        · rw [hown, List.mem_insert_iff, List.exists_mem_cons_iff, and_iff_right hflag,
            and_iff_right hsky, eq_comm (a := name), or_assoc, or_left_comm]
        · rw [hothers]
          simp [hsky]
      · rw [if_neg hsky]
        obtain ⟨hnodup', hown, hothers⟩ := ih { declared with
          others := declared.others.insert (canonical (attributeString group.2 "flag")) } hnodup
        refine ⟨hnodup', fun name => ?_, fun name => ?_⟩
        · rw [hown]
          simp [hsky]
        · rw [hothers, List.mem_insert_iff, List.exists_mem_cons_iff, and_iff_right hflag,
            and_iff_right hsky, eq_comm (a := name), or_assoc, or_left_comm]
  have hgroups : ∀ p : Json → Prop, (∃ group ∈ (memberObject rootAttributes "data_groups").getD [],
      p group.2) ↔ ∃ groups name group, rootAttributes.get? "data_groups" = some (.object groups) ∧
        (name, group) ∈ groups ∧ p group := by
    intro p
    unfold memberObject
    constructor
    · rintro ⟨⟨name, group⟩, hmem, hp⟩
      split at hmem
      · rename_i groups hgroups
        exact ⟨groups, name, group, hgroups, hmem, hp⟩
      · cases hmem
    · rintro ⟨groups, name, group, hgroups, hmem, hp⟩
      rw [hgroups]
      exact ⟨(name, group), hmem, hp⟩
  obtain ⟨hnodup, hown, hothers⟩ := hfold ((memberObject rootAttributes "data_groups").getD []) {}
    List.nodup_nil
  refine ⟨hnodup, fun name => (hown name).trans ?_, fun name => (hothers name).trans ?_⟩
  · rw [or_iff_right (by simp), hgroups fun group => attributeString group "flag" ≠ "" ∧
      canonical (attributeString group "sky") = imageId ∧
        canonical (attributeString group "flag") = name]
    constructor
    · rintro ⟨groups, key, group, hget, hmem, hflag, hsky, hname⟩
      exact ⟨_, _, ⟨groups, key, group, hget, hmem, rfl, rfl, hflag⟩, hsky, hname⟩
    · rintro ⟨_, _, ⟨groups, key, group, hget, hmem, rfl, rfl, hflag⟩, hsky, hname⟩
      exact ⟨groups, key, group, hget, hmem, hflag, hsky, hname⟩
  · rw [or_iff_right (by simp), hgroups fun group => attributeString group "flag" ≠ "" ∧
      canonical (attributeString group "sky") ≠ imageId ∧
        canonical (attributeString group "flag") = name]
    constructor
    · rintro ⟨groups, key, group, hget, hmem, hflag, hsky, hname⟩
      exact ⟨_, _, ⟨groups, key, group, hget, hmem, rfl, rfl, hflag⟩, hsky, hname⟩
    · rintro ⟨_, _, ⟨groups, key, group, hget, hmem, rfl, rfl, hflag⟩, hsky, hname⟩
      exact ⟨groups, key, group, hget, hmem, hflag, hsky, hname⟩

end Groups

/-! ## Which flag is taken -/

/-- What `determineFlag` comes to: a result, and the diagnostics with what it adds. -/
structure Selects (store : Store) (image : ArrayMetadata) (imageId : String)
    (diagnostics : List Diagnostic)
    (result : Except Error String) (diagnostics' : List Diagnostic) : Prop where
  /-- A name that is given is the canonical one of an array that masks the image. -/
  usable : (∃ e, result = .error e) ∨ result = .ok "" ∨
    ∃ name flag, result = .ok name ∧ normalizeNodeName name = .ok name ∧
      store.arrayAnswer name = .ok flag ∧ Masks flag image
  /-- The attribute of the image comes first. -/
  declared : attributeString image.attributes "flag" ≠ "" →
    (∃ e, result = .error e) ∨ result = .ok (canonical (attributeString image.attributes "flag"))
  /-- Then come the data groups of the image, where they agree. -/
  groups : attributeString image.attributes "flag" = "" →
    ∀ name, DeclaredFor store.rootAttributes imageId name →
      (∀ other, DeclaredFor store.rootAttributes imageId other → other = name) →
      (∃ e, result = .error e) ∨ result = .ok name
  contradiction : attributeString image.attributes "flag" = "" →
    ∀ name other, DeclaredFor store.rootAttributes imageId name →
      DeclaredFor store.rootAttributes imageId other → name ≠ other → ∃ e, result = .error e
  /-- No flag is taken that is another image's. -/
  others : attributeString image.attributes "flag" = "" →
    (∀ name, ¬ DeclaredFor store.rootAttributes imageId name) →
    ∀ name, DeclaredElsewhere store.rootAttributes imageId name → result ≠ .ok name
  /-- The only one that remains is taken. -/
  only : attributeString image.attributes "flag" = "" →
    (∀ name, ¬ DeclaredFor store.rootAttributes imageId name) →
    ∀ entries, store.inventoryAnswer = .ok entries →
      (∀ name, Remains store image imageId entries name →
        (∀ other, Remains store image imageId entries other → other = name) →
        result = .ok name ∧ diagnostics' = diagnostics) ∧
      ((∀ name, ¬ Remains store image imageId entries name) →
        result = .ok "" ∧ diagnostics' = diagnostics) ∧
      ∀ name other, Remains store image imageId entries name →
        Remains store image imageId entries other →
        name ≠ other → result = .ok "" ∧ diagnostics' = diagnostics ++ [ambiguousPixelMask imageId]

section Run

variable {store : Store} {outages : Outages} {image : ArrayMetadata}
  {imageId : String} {s : Session}

theorem transient_of_none (h : ∀ n, outages n = none) : outages.Transient False :=
  fun n e he => by rw [h n] at he; cases he

variable {failing : Prop}

/-- A flag that is declared is that node, or refused. -/
theorem requireDeclaredFlag_cases (hfiled : store.Filed) (hout : outages.Transient failing)
    (hs : store.Sound failing s) (spelt : String) :
    (∃ e, (requireDeclaredFlag store outages image spelt s).1 = .error e) ∨
    ∃ flag, (requireDeclaredFlag store outages image spelt s).1 = .ok (canonical spelt) ∧
      normalizeNodeName (canonical spelt) = .ok (canonical spelt) ∧
      store.arrayAnswer (canonical spelt) = .ok flag ∧ Masks flag image := by
  obtain ⟨-, -, hstands⟩ := Store.gives_readArrayMetadata hfiled hout (canonical spelt) s hs
  unfold requireDeclaredFlag
  rcases hread : store.readArrayMetadata outages (canonical spelt) s with ⟨r, s'⟩
  rw [hread] at hstands
  simp only [bind, StateT.bind, hread]
  cases r with
  | error e => exact Or.inl ⟨e, rfl⟩
  | ok flag =>
    have hanswer := hstands.ok
    dsimp only
    cases husable : requireUsableFlag flag image (canonical spelt) with
    | error e => exact Or.inl ⟨e, rfl⟩
    | ok u =>
      refine Or.inr ⟨flag, rfl, ?_, hanswer, requireUsableFlag_eq_ok_iff.1 husable⟩
      cases hname : normalizeNodeName (canonical spelt) with
      | error e =>
        rw [Store.arrayAnswer, Store.nodeAnswer, hname] at hanswer
        cases hanswer
      | ok name =>
        cases hspelt : normalizeNodeName spelt with
        | error e =>
          rw [canonical, hspelt] at hname
          rw [hspelt] at hname
          cases hname
        | ok name' =>
          rw [canonical_of_ok hspelt] at hname ⊢
          rw [← hname, normalizeNodeName_canonical hspelt]

/-- What could be the flag of an image does not depend on how errors name their nodes. -/
theorem matchingFlags_unname (image : ArrayMetadata) (groups : DeclaredFlags)
    (entries : List NodeEntry) :
    matchingFlags image groups (unname entries) = matchingFlags image groups entries := by
  have hmatching : ∀ entry : NodeEntry, isMatchingFlag image groups (unname entry) =
      isMatchingFlag image groups entry := by
    rintro ⟨name, kind, array, reason⟩
    rcases array with _ | _ | _ <;> rfl
  change ((entries.map unname).filter (isMatchingFlag image groups)).map NodeEntry.name = _
  rw [List.filter_map, List.map_map, matchingFlags]
  congr 1
  exact List.filter_congr fun entry _ => hmatching entry

theorem matchingFlags_nodup (groups : DeclaredFlags) {entries : List NodeEntry}
    (h : (entries.map NodeEntry.name).Nodup) : (matchingFlags image groups entries).Nodup :=
  h.sublist (List.filter_sublist.map NodeEntry.name)

/-- The flags that match are those that remain. -/
theorem mem_matchingFlags_iff (hfiled : store.Filed) {entries : List NodeEntry}
    (h : store.inventoryAnswer = .ok entries) {name : String} :
    name ∈ matchingFlags image (flagsOfDataGroups store.rootAttributes imageId) entries ↔
      Remains store image imageId entries name := by
  obtain ⟨-, -, hothers⟩ := flagsOfDataGroups_spec store.rootAttributes imageId
  obtain ⟨-, hentries⟩ := inventoryAnswer_eq_ok hfiled h
  have hmatching : ∀ entry ∈ entries,
      (isMatchingFlag image (flagsOfDataGroups store.rootAttributes imageId) entry = true ↔
        ¬ DeclaredElsewhere store.rootAttributes imageId entry.name ∧
          ∃ flag, entry.array = some (.ok flag) ∧ Masks flag image) := by
    intro entry hentry
    rw [isMatchingFlag, Bool.and_eq_true, decide_eq_true_eq]
    rcases harray : entry.array with _ | e | flag
    · simp
    · simp
    · have hkind := ((hentries entry hentry).2 _ harray).1
      have husable : (requireUsableFlag flag image entry.name).toOption.isSome = true ↔
          Masks flag image := by
        rw [← @requireUsableFlag_eq_ok_iff flag image entry.name]
        cases requireUsableFlag flag image entry.name <;> simp [Except.toOption]
      simp only [hkind, true_and, Bool.and_eq_true, Bool.not_eq_true', List.contains_eq_mem,
        decide_eq_false_iff_not, hothers, husable, Option.some.injEq,
        Except.ok.injEq, exists_eq_left']
  constructor
  · intro hmem
    obtain ⟨entry, hentry, rfl⟩ := List.mem_map.1 hmem
    obtain ⟨hentry, hmatch⟩ := List.mem_filter.1 hentry
    obtain ⟨hother, flag, harray, hmasks⟩ := (hmatching entry hentry).1 hmatch
    exact ⟨hother, entry, hentry, rfl, flag, harray, hmasks⟩
  · rintro ⟨hother, entry, hentry, rfl, flag, harray, hmasks⟩
    exact List.mem_map.2 ⟨entry, List.mem_filter.2
      ⟨hentry, (hmatching entry hentry).2 ⟨hother, flag, harray, hmasks⟩⟩, rfl⟩

variable {diagnostics : List Diagnostic}

/-- A flag that is declared is all there is to it. -/
theorem determineFlag_required (hfiled : store.Filed) (hout : outages.Transient failing)
    (hs : store.Sound failing s) {spelt : String} (hspelt : spelt ≠ "")
    (h : declaredFlag store outages image imageId s =
      requireDeclaredFlag store outages image spelt s) :
    (∃ e, (determineFlag store outages image imageId diagnostics s).1 = (.error e, diagnostics)) ∨
    ∃ flag, (determineFlag store outages image imageId diagnostics s).1 =
        (.ok (canonical spelt), diagnostics) ∧
      normalizeNodeName (canonical spelt) = .ok (canonical spelt) ∧
      store.arrayAnswer (canonical spelt) = .ok flag ∧ Masks flag image := by
  have hcases := @requireDeclaredFlag_cases store outages image s failing hfiled hout hs spelt
  unfold determineFlag
  rcases hrun : requireDeclaredFlag store outages image spelt s with ⟨r, s'⟩
  rw [hrun] at h hcases
  simp only [bind, StateT.bind, h]
  rcases hcases with ⟨e, rfl⟩ | ⟨flag, rfl, hname, hanswer, hmasks⟩
  · exact Or.inl ⟨e, rfl⟩
  · refine Or.inr ⟨flag, ?_, hname, hanswer, hmasks⟩
    dsimp only
    rw [if_pos (canonical_ne_empty hspelt)]
    rfl

/-- With nothing declared it is the inventory that is looked through. -/
theorem determineFlag_undeclared
    (h : declaredFlag store outages image imageId s = (.ok "", s)) :
    (determineFlag store outages image imageId diagnostics s).1 =
      match (store.inventory outages s).1 with
      | .error e => (.error e, diagnostics)
      | .ok entries =>
        match matchingFlags image (flagsOfDataGroups store.rootAttributes imageId) entries with
        | [] => (.ok "", diagnostics)
        | [flag] => (.ok flag, diagnostics)
        | _ => (.ok "", diagnostics ++ [ambiguousPixelMask imageId]) := by
  unfold determineFlag
  rcases hrun : store.inventory outages s with ⟨r, s'⟩
  simp only [bind, StateT.bind, h, ne_eq, not_true_eq_false, if_false, hrun]
  cases r with
  | error e => rfl
  | ok entries =>
    dsimp only
    rcases matchingFlags image (flagsOfDataGroups store.rootAttributes imageId) entries with
      _ | ⟨_, _ | ⟨_, _⟩⟩ <;> rfl

theorem canonical_canonical (node : String) : canonical (canonical node) = canonical node :=
  Store.cacheKey_cacheKey node

theorem ne_empty_of_declared {rootAttributes : Json} {sky flag : String}
    (h : Declares rootAttributes sky flag) : flag ≠ "" := by
  obtain ⟨_, _, _, _, _, _, _, hne⟩ := h
  exact hne

/-- What is declared is required, or there is nothing, or too much of it. -/
theorem declaredFlag_cases :
    (∃ spelt, spelt ≠ "" ∧
      declaredFlag store outages image imageId s =
        requireDeclaredFlag store outages image spelt s) ∨
    declaredFlag store outages image imageId s = (.ok "", s) ∨
    ∃ e, declaredFlag store outages image imageId s = (.error e, s) := by
  unfold declaredFlag
  by_cases hattribute : attributeString image.attributes "flag" = ""
  swap
  · exact .inl ⟨_, hattribute, by simp only [ne_eq, hattribute, not_false_eq_true, if_true]⟩
  simp only [hattribute, ne_eq, not_true_eq_false, if_false]
  obtain ⟨-, hown, -⟩ := flagsOfDataGroups_spec store.rootAttributes imageId
  rcases hlist : (flagsOfDataGroups store.rootAttributes imageId).own
    with _ | ⟨first, _ | ⟨second, rest⟩⟩
  · exact .inr (.inl rfl)
  · obtain ⟨sky, flag, hdeclares, -, rfl⟩ := (hown first).1 (by rw [hlist]; simp)
    exact .inl ⟨_, canonical_ne_empty (ne_empty_of_declared hdeclares), rfl⟩
  · exact .inr (.inr ⟨_, rfl⟩)

/-- A flag that is taken masks the image, whatever reads failed. -/
theorem determineFlag_masks (hfiled : store.Filed) (hout : outages.Transient failing)
    (hs : store.Sound failing s) {name : String} (hname : name ≠ "")
    (h : (determineFlag store outages image imageId diagnostics s).1.1 = .ok name) :
    ∃ flag, store.arrayAnswer name = .ok flag ∧ Masks flag image := by
  rcases @declaredFlag_cases store outages image imageId s
    with ⟨spelt, hspelt, hdeclared⟩ | hnone | ⟨e, he⟩
  · rcases @determineFlag_required store outages image imageId s failing diagnostics
      hfiled hout hs _ hspelt
      hdeclared with ⟨e, he⟩ | ⟨flag, hflag, -, hanswer, hmasks⟩
    · rw [he] at h
      cases h
    · rw [hflag] at h
      cases h
      exact ⟨flag, hanswer, hmasks⟩
  · have hundeclared := @determineFlag_undeclared store outages image imageId s diagnostics hnone
    obtain ⟨-, -, hstands⟩ := Store.gives_inventory hfiled hout s hs
    rw [hundeclared] at h
    cases hrun : (store.inventory outages s).1 with
    | error e =>
      rw [hrun] at h
      cases h
    | ok entries =>
      rw [hrun] at h hstands
      obtain ⟨entries', hentries', hunname⟩ := Store.Stands.exists_ok hstands
      have hmem := fun other => @mem_matchingFlags_iff store image imageId hfiled
        entries' hentries' other
      rw [← matchingFlags_unname, ← hunname, matchingFlags_unname] at hmem
      dsimp only at h
      generalize matchingFlags image
        (flagsOfDataGroups store.rootAttributes imageId) entries = found
        at h hmem
      rcases found with _ | ⟨first, _ | ⟨second, rest⟩⟩
      · exact absurd (Except.ok.inj h).symm hname
      · obtain rfl := Except.ok.inj h
        obtain ⟨-, entry, hentry, rfl, flag, harray, hmasks⟩ := (hmem first).1 (by simp)
        exact ⟨flag, ((((inventoryAnswer_eq_ok hfiled hentries').2 entry hentry).2 _
          harray).2).symm, hmasks⟩
      · exact absurd (Except.ok.inj h).symm hname
  · unfold determineFlag at h
    simp only [bind, StateT.bind, he] at h
    cases h

/-- What is taken of the flags that match. -/
theorem selects_of_found (hattribute : attributeString image.attributes "flag" = "")
    (hnone : ∀ name, ¬ DeclaredFor store.rootAttributes imageId name) (hfiled : store.Filed)
    {entries : List NodeEntry} (hentries : store.inventoryAnswer = .ok entries)
    {selected : Except Error String × List Diagnostic}
    (h : selected = match matchingFlags image
    (flagsOfDataGroups store.rootAttributes imageId) entries with
      | [] => (.ok "", diagnostics)
      | [flag] => (.ok flag, diagnostics)
      | _ => (.ok "", diagnostics ++ [ambiguousPixelMask imageId])) :
    Selects store image imageId diagnostics selected.1 selected.2 := by
  obtain ⟨hnodup, hspec⟩ := inventoryAnswer_eq_ok hfiled hentries
  have hmem : ∀ name, _ ↔ Remains store image imageId entries name := fun name =>
    mem_matchingFlags_iff hfiled hentries
  have hdistinct := @matchingFlags_nodup image
    (flagsOfDataGroups store.rootAttributes imageId) _ hnodup
  have hempty : ∀ name, DeclaredElsewhere store.rootAttributes imageId name → name ≠ "" := by
    rintro name ⟨sky, flag, hdeclares, -, rfl⟩
    exact canonical_ne_empty (ne_empty_of_declared hdeclares)
  generalize matchingFlags image (flagsOfDataGroups store.rootAttributes imageId) entries =
    found at *
  rcases found with _ | ⟨first, _ | ⟨second, rest⟩⟩
  · subst h
    have hno : ∀ name, ¬ Remains store image imageId entries name := fun name h => by
      cases (hmem name).2 h
    refine ⟨Or.inr (Or.inl rfl), fun h => absurd hattribute h, fun _ name h =>
      absurd h (hnone name),
      fun _ name _ h => absurd h (hnone name), fun _ _ name h hname => hempty name h ?_,
      fun _ _ entries' hentries' => ?_⟩
    · exact (Except.ok.inj hname).symm
    · obtain rfl := Except.ok.inj (hentries.symm.trans hentries')
      exact ⟨fun name h => absurd h (hno name), fun _ => ⟨rfl, rfl⟩, fun name _ h =>
        absurd h (hno name)⟩
  · subst h
    have honly : ∀ name, Remains store image imageId entries name ↔ name = first := fun name => by
      rw [← hmem, List.mem_singleton]
    obtain ⟨hother, entry, hentry, rfl, flag, harray, hmasks⟩ := (honly first).2 rfl
    obtain ⟨hname, hanswer⟩ := hspec entry hentry
    refine ⟨Or.inr (Or.inr ⟨_, flag, rfl, hname, ((hanswer _ harray).2).symm, hmasks⟩),
      fun h => absurd hattribute h, fun _ name h => absurd h (hnone name),
      fun _ name _ h => absurd h (hnone name), fun _ _ name h hname => hother ?_,
      fun _ _ entries' hentries' => ?_⟩
    · exact (Except.ok.inj hname) ▸ h
    · obtain rfl := Except.ok.inj (hentries.symm.trans hentries')
      refine ⟨fun name h _ => ⟨by rw [(honly name).1 h], rfl⟩, fun h =>
        absurd ((honly _).2 rfl) (h _),
        fun name other h h' hne => absurd (((honly name).1 h).trans ((honly other).1 h').symm) hne⟩
  · subst h
    have hfirst := (hmem first).1 (by simp)
    have hsecond := (hmem second).1 (by simp)
    have hne : first ≠ second := by
      rintro rfl
      simp at hdistinct
    refine ⟨Or.inr (Or.inl rfl), fun h => absurd hattribute h, fun _ name h =>
      absurd h (hnone name),
      fun _ name _ h => absurd h (hnone name), fun _ _ name h hname => hempty name h ?_,
      fun _ _ entries' hentries' => ?_⟩
    · exact (Except.ok.inj hname).symm
    · obtain rfl := Except.ok.inj (hentries.symm.trans hentries')
      exact ⟨fun name _ h => absurd ((h first hfirst).trans (h second hsecond).symm) hne,
        fun h => absurd hfirst (h first), fun _ _ _ _ _ => ⟨rfl, rfl⟩⟩

/-- **The flag of an image** is the one that is declared for it or, with none declared, the only one
that could be and is declared for no other. -/
theorem determineFlag_selects {backing : Backing} (hopen : openStore backing = .ok store)
    (hout : ∀ n, outages n = none) (hs : store.Sound False s)
    (image : ArrayMetadata) (imageId : String)
    (diagnostics : List Diagnostic) :
    Selects store image imageId diagnostics
      (determineFlag store outages image imageId diagnostics s).1.1
      (determineFlag store outages image imageId diagnostics s).1.2 := by
  have hfiled := openStore_filed hopen
  obtain ⟨hnodup, hown, hothers⟩ := flagsOfDataGroups_spec store.rootAttributes imageId
  by_cases hattribute : attributeString image.attributes "flag" = ""
  swap
  · have hdeclared : declaredFlag store outages image imageId s =
        requireDeclaredFlag store outages image (attributeString image.attributes "flag") s := by
      rw [declaredFlag]
      simp only [ne_eq, hattribute, not_false_eq_true, if_true]
    rcases @determineFlag_required store outages image imageId s False diagnostics hfiled
      (transient_of_none hout) hs _ hattribute
      hdeclared with ⟨e, he⟩ | ⟨flag, hflag, hname, hanswer, hmasks⟩
    · rw [he]
      exact ⟨Or.inl ⟨e, rfl⟩, fun _ => Or.inl ⟨e, rfl⟩, fun h => absurd h hattribute,
        fun h => absurd h hattribute, fun h => absurd h hattribute, fun h => absurd h hattribute⟩
    · rw [hflag]
      exact ⟨Or.inr (Or.inr ⟨_, flag, rfl, hname, hanswer, hmasks⟩), fun _ => Or.inr rfl,
        fun h => absurd h hattribute, fun h => absurd h hattribute, fun h => absurd h hattribute,
        fun h => absurd h hattribute⟩
  have hdeclared : declaredFlag store outages image imageId s =
      (match (flagsOfDataGroups store.rootAttributes imageId).own with
      | [] => pure (.ok "")
      | [flag] => requireDeclaredFlag store outages image flag
      | _ =>
        pure (.error ⟨.invalidMetadata,
          "data_groups name more than one flag for the image", imageId⟩) :
        StateM Session (Except Error String)) s := by
    rw [declaredFlag]
    simp only [ne_eq, hattribute, not_true_eq_false, if_false]
  rcases hlist : (flagsOfDataGroups store.rootAttributes imageId).own
    with _ | ⟨first, _ | ⟨second, rest⟩⟩
  · rw [hlist] at hdeclared
    have hnone : ∀ name, ¬ DeclaredFor store.rootAttributes imageId name := fun name h => by
      have := (hown name).2 h
      rw [hlist] at this
      cases this
    have hundeclared := @determineFlag_undeclared store outages image imageId s
      diagnostics hdeclared
    obtain ⟨-, -, hstands⟩ := Store.gives_inventory hfiled (transient_of_none hout) s hs
    cases hrun : (store.inventory outages s).1 with
    | error e =>
      rw [hrun] at hundeclared hstands
      rw [hundeclared]
      refine ⟨Or.inl ⟨e, rfl⟩, fun h => absurd hattribute h, fun _ name h => absurd h (hnone name),
        fun _ name _ h => absurd h (hnone name), fun _ _ name _ h => (by cases h),
        fun _ _ entries hentries => ?_⟩
      rcases hstands with ⟨hfalse, -⟩ | hstands
      · exact hfalse.elim
      · rw [hentries] at hstands
        cases hstands
    | ok entries =>
      rw [hrun] at hundeclared hstands
      obtain ⟨entries', hentries', hunname⟩ := Store.Stands.exists_ok hstands
      have hfound : matchingFlags image (flagsOfDataGroups store.rootAttributes imageId) entries =
          matchingFlags image (flagsOfDataGroups store.rootAttributes imageId) entries' := by
        rw [← matchingFlags_unname, hunname, matchingFlags_unname]
      dsimp only at hundeclared
      rw [hfound] at hundeclared
      exact selects_of_found hattribute hnone hfiled hentries' hundeclared
  · rw [hlist] at hdeclared
    have honly : ∀ name, DeclaredFor store.rootAttributes imageId name ↔
        name = first := fun name => by
      rw [← hown, hlist, List.mem_singleton]
    obtain ⟨sky, flag, hdeclares, -, hfirst⟩ := (honly first).2 rfl
    have hne : first ≠ "" := hfirst ▸ canonical_ne_empty (ne_empty_of_declared hdeclares)
    have hcanonical : canonical first = first := by rw [← hfirst, canonical_canonical]
    have hsome : ¬ ∀ name, ¬ DeclaredFor store.rootAttributes imageId name :=
      fun h => h first ((honly first).2 rfl)
    have hsame : ∀ name other, DeclaredFor store.rootAttributes imageId name →
        DeclaredFor store.rootAttributes imageId other → name = other := fun name other h h' =>
      ((honly name).1 h).trans ((honly other).1 h').symm
    rcases @determineFlag_required store outages image imageId s False diagnostics hfiled
      (transient_of_none hout) hs _ hne
      hdeclared with ⟨e, he⟩ | ⟨flag, hflag, hname, hanswer, hmasks⟩
    · rw [he]
      exact ⟨Or.inl ⟨e, rfl⟩, fun h => absurd hattribute h, fun _ _ _ _ => Or.inl ⟨e, rfl⟩,
        fun _ _ _ _ _ _ => ⟨e, rfl⟩, fun _ h => absurd h hsome, fun _ h => absurd h hsome⟩
    · rw [hflag]
      refine ⟨Or.inr (Or.inr ⟨_, flag, rfl, hname, hanswer, hmasks⟩), fun h => absurd hattribute h,
        fun _ name h _ => Or.inr ?_, fun _ name other h h' hne =>
          absurd (hsame name other h h') hne,
        fun _ h => absurd h hsome, fun _ h => absurd h hsome⟩
      rw [hcanonical, (honly name).1 h]
  · have hfirst := (hown first).1 (by rw [hlist]; simp)
    have hsecond := (hown second).1 (by rw [hlist]; simp)
    have hne : first ≠ second := by
      rw [hlist] at hnodup
      rintro rfl
      simp at hnodup
    have herror : (determineFlag store outages image imageId diagnostics s).1 =
        (.error ⟨.invalidMetadata, "data_groups name more than one flag for the image", imageId⟩,
          diagnostics) := by
      rw [hlist] at hdeclared
      unfold determineFlag
      simp only [bind, StateT.bind, hdeclared]
      rfl
    rw [herror]
    exact ⟨Or.inl ⟨_, rfl⟩, fun h => absurd hattribute h, fun _ _ _ _ => Or.inl ⟨_, rfl⟩,
      fun _ _ _ _ _ _ => ⟨_, rfl⟩, fun _ h => absurd hfirst (h first), fun _ h =>
        absurd hfirst (h first)⟩

end Run

/-- The document of a flag of `2 × 2` values. -/
def flagDocument : Json :=
  .object [("zarr_format", .unsigned 3), ("node_type", .string "array"),
    ("shape", .array [.unsigned 2, .unsigned 2]),
    ("dimension_names", .array [.string "l", .string "m"]), ("data_type", .string "bool"),
    ("attributes", .object [("type", .string "flag")]),
    ("chunk_grid", .object [("name", .string "regular"),
      ("configuration", .object [("chunk_shape", .array [.unsigned 2, .unsigned 2])])])]

/-- A store of one flag, which a data group declares for an image. -/
def oneFlag : Backing where
  readNodeBytes name := if name = "" then .ok [] else .ok [0]
  listNodes := .ok ["FLAG"]
  arrayDirectory name := .ok name
  parseJson bytes := .document (if bytes = [] then
    .object [("zarr_format", .unsigned 3), ("node_type", .string "group"),
      ("attributes", .object [("data_groups", .object [("base",
        .object [("sky", .string "./SKY"), ("flag", .string "FLAG/")])])])] else flagDocument)
  numericValues _ := .ok []
  decompressors := storedStreams
  files _ := .missing

def oneFlagStore : Store where
  backing := oneFlag
  rootAttributes := .object [("data_groups", .object [("base",
    .object [("sky", .string "./SKY"), ("flag", .string "FLAG/")])])]
  consolidated := []
  hasConsolidatedMetadata := false

/-- An image that declares no flag itself. -/
def maskedImage : ArrayMetadata where
  shape := [2, 2]
  dimensionNames := ["l", "m"]
  dataType := "float32"
  attributes := .object []
  chunkShape := [2, 2]

theorem determineFlag_selects_oneFlag :
    Selects oneFlagStore maskedImage "SKY" []
      (determineFlag oneFlagStore (fun _ => none) maskedImage "SKY" [] oneFlagStore.initial).1.1
      (determineFlag oneFlagStore (fun _ => none) maskedImage "SKY"
      [] oneFlagStore.initial).1.2 := by
  have hopen : openStore oneFlag = .ok oneFlagStore := rfl
  exact determineFlag_selects hopen (fun _ => rfl)
    (openStore_filed hopen).sound_initial maskedImage "SKY" []

example :
    (determineFlag oneFlagStore (fun _ => none) maskedImage "SKY" [] oneFlagStore.initial).1.1 =
    .ok "FLAG" := by rfl

end CartaZarr
