import Mathlib.Data.List.Pairwise
import Mathlib.Order.Lattice
import Mathlib.Tactic.Common

/-!
# Maps kept in the order of their keys

A map whose entries stand in the order of their keys, each key once. `update` changes the value of a
key, which is put in where it was not there; what a map holds after it is `find?_update`, and its
entries are what it finds (`mem_entries_iff`).
-/

namespace CartaZarr

/-- A map, as its entries in the order of their keys. -/
structure OrderedMap (κ α : Type*) [LinearOrder κ] where
  entries : List (κ × α)
  sorted : entries.Pairwise fun a b => a.1 < b.1

namespace OrderedMap

variable {κ α : Type*} [LinearOrder κ]

/-- The map of nothing. -/
def empty : OrderedMap κ α := ⟨[], .nil⟩

/-- The value of a key, where there is one. -/
def find? (m : OrderedMap κ α) (key : κ) : Option α := m.entries.lookup key

/-- The entries with the value of one key changed, or put in its place. -/
def updateEntries (key : κ) (f : Option α → α) : List (κ × α) → List (κ × α)
  | [] => [(key, f none)]
  | (k, a) :: rest =>
    if key < k then (key, f none) :: (k, a) :: rest
    else if key = k then (k, f (some a)) :: rest
    else (k, a) :: updateEntries key f rest

theorem key_of_mem_updateEntries {key : κ} {f : Option α → α} {entries : List (κ × α)} {e : κ × α}
    (h : e ∈ updateEntries key f entries) : e.1 = key ∨ ∃ e' ∈ entries, e'.1 = e.1 := by
  induction entries with
  | nil => exact Or.inl (by rw [List.mem_singleton.1 h])
  | cons entry rest ih =>
    obtain ⟨k, a⟩ := entry
    rw [updateEntries] at h
    split_ifs at h with h₁ h₂
    · rcases List.mem_cons.1 h with rfl | h
      · exact Or.inl rfl
      · exact Or.inr ⟨e, h, rfl⟩
    · rcases List.mem_cons.1 h with rfl | h
      · exact Or.inl h₂.symm
      · exact Or.inr ⟨e, List.mem_cons_of_mem _ h, rfl⟩
    · rcases List.mem_cons.1 h with rfl | h
      · exact Or.inr ⟨_, List.mem_cons_self, rfl⟩
      · exact (ih h).imp_right fun ⟨e', he', hkey⟩ => ⟨e', List.mem_cons_of_mem _ he', hkey⟩

theorem updateEntries_sorted {key : κ} {f : Option α → α} {entries : List (κ × α)}
    (h : entries.Pairwise fun a b => a.1 < b.1) :
    (updateEntries key f entries).Pairwise fun a b => a.1 < b.1 := by
  induction entries with
  | nil => exact List.pairwise_singleton _ _
  | cons entry rest ih =>
    obtain ⟨k, a⟩ := entry
    obtain ⟨hhead, htail⟩ := List.pairwise_cons.1 h
    rw [updateEntries]
    split_ifs with h₁ h₂
    · refine List.pairwise_cons.2 ⟨fun e he => ?_, h⟩
      rcases List.mem_cons.1 he with rfl | he
      · exact h₁
      · exact h₁.trans (hhead e he)
    · exact List.pairwise_cons.2 ⟨hhead, htail⟩
    · refine List.pairwise_cons.2 ⟨fun e he => ?_, ih htail⟩
      rcases key_of_mem_updateEntries he with hkey | ⟨e', he', hkey⟩
      · rw [hkey]
        exact lt_of_le_of_ne (not_lt.1 h₁) (Ne.symm h₂)
      · rw [← hkey]
        exact hhead e' he'

/-- The map with the value of one key changed. -/
def update (m : OrderedMap κ α) (key : κ) (f : Option α → α) : OrderedMap κ α where
  entries := updateEntries key f m.entries
  sorted := updateEntries_sorted m.sorted

theorem lookup_cons_eq (key k : κ) (a : α) (rest : List (κ × α)) :
    ((k, a) :: rest).lookup key = if key = k then some a else rest.lookup key := by
  by_cases h : key = k
  · rw [if_pos h, List.lookup_cons, beq_iff_eq.2 h]
  · rw [if_neg h, List.lookup_cons, beq_eq_false_iff_ne.2 h]

theorem lookup_of_lt {key : κ} {entries : List (κ × α)} (h : ∀ e ∈ entries, key < e.1) :
    entries.lookup key = none :=
  List.lookup_eq_none_iff.2 fun e he => bne_iff_ne.2 (h e he).ne

theorem lookup_updateEntries {key : κ} {f : Option α → α} {entries : List (κ × α)}
    (h : entries.Pairwise fun a b => a.1 < b.1) (key' : κ) :
    (updateEntries key f entries).lookup key' =
      if key' = key then some (f (entries.lookup key)) else entries.lookup key' := by
  induction entries with
  | nil => rw [updateEntries, lookup_cons_eq, List.lookup_nil, List.lookup_nil]
  | cons entry rest ih =>
    obtain ⟨k, a⟩ := entry
    obtain ⟨hhead, htail⟩ := List.pairwise_cons.1 h
    rw [updateEntries, lookup_cons_eq, lookup_cons_eq]
    by_cases h₁ : key < k
    · have hnone : rest.lookup key = none := lookup_of_lt fun e he => h₁.trans (hhead e he)
      rw [if_pos h₁, lookup_cons_eq, lookup_cons_eq, if_neg h₁.ne, hnone]
    · by_cases h₂ : key = k
      · subst h₂
        rw [if_neg h₁, if_pos rfl, if_pos rfl, lookup_cons_eq]
        by_cases h₃ : key' = key
        · rw [if_pos h₃, if_pos h₃]
        · rw [if_neg h₃, if_neg h₃, if_neg h₃]
      · rw [if_neg h₁, if_neg h₂, if_neg h₂, lookup_cons_eq, ih htail]
        by_cases h₃ : key' = k
        · rw [if_pos h₃, if_pos h₃, if_neg fun h => h₂ (h.symm.trans h₃)]
        · rw [if_neg h₃, if_neg h₃]

/-- **What an update changes.** -/
@[simp] theorem find?_update (m : OrderedMap κ α) (key key' : κ) (f : Option α → α) :
    (m.update key f).find? key' = if key' = key then some (f (m.find? key)) else m.find? key' :=
  lookup_updateEntries m.sorted key'

/-- What a run of updates makes of a key: the ones to it, in turn. -/
theorem find?_foldl_update {β : Type*} (key : β → κ) (f : β → Option α → α) (xs : List β)
    (m : OrderedMap κ α) (k : κ) :
    (xs.foldl (fun m x => m.update (key x) (f x)) m).find? k =
      (xs.filter (key · = k)).foldl (fun a x => some (f x a)) (m.find? k) := by
  induction xs generalizing m with
  | nil => rfl
  | cons x xs ih =>
    rw [List.foldl_cons, ih, find?_update]
    by_cases h : key x = k
    · subst h
      rw [if_pos rfl, List.filter_cons_of_pos (by simp), List.foldl_cons]
    · rw [if_neg (Ne.symm h), List.filter_cons_of_neg (by simpa using h)]

@[simp] theorem find?_empty (key : κ) : (empty : OrderedMap κ α).find? key = none := rfl

/-- **The entries of a map are what it finds.** -/
theorem mem_entries_iff {m : OrderedMap κ α} {key : κ} {a : α} :
    (key, a) ∈ m.entries ↔ m.find? key = some a := by
  obtain ⟨entries, hsorted⟩ := m
  simp only [find?]
  induction entries with
  | nil => simp
  | cons entry rest ih =>
    obtain ⟨k, b⟩ := entry
    obtain ⟨hhead, htail⟩ := List.pairwise_cons.1 hsorted
    rw [List.mem_cons, ih htail, lookup_cons_eq]
    by_cases hkey : key = k
    · subst hkey
      simp [lookup_of_lt hhead, eq_comm]
    · simp [hkey]

end OrderedMap

end CartaZarr
