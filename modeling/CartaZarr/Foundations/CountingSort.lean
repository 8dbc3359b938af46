import Mathlib.Algebra.Order.Group.Nat
import Mathlib.Data.List.GetD

/-!
# Counting sort

Items with a key below `n` are put in the order of their keys: what each key has is counted, the
counts are added up to where each key begins (`keyOffsets`), and every item is written to the place
its key has come to (`placeByKey`). The items of a key keep their order, and lie between its offset
and the next (`placeByKey_slice`).
-/

namespace CartaZarr

/-- How many items each key has, counted one place up. -/
def tally (n : ℕ) (keys : List ℕ) : List ℕ :=
  keys.foldl (fun counts key => counts.modify (key + 1) (· + 1)) (List.replicate (n + 1) 0)

/-- Add each entry to the next. -/
def addUp (n : ℕ) (counts : List ℕ) : List ℕ :=
  (List.range n).foldl (fun sums key => sums.modify (key + 1) (· + sums.getD key 0)) counts

/-- Where each of the `n` keys begins, and where the last ends. -/
def keyOffsets (n : ℕ) (keys : List ℕ) : List ℕ := addUp n (tally n keys)

/-- Write an item to the place its key has come to. -/
def placeItem {α : Type} (state : List ℕ × List α) (item : ℕ × α) : List ℕ × List α :=
  (state.1.modify item.1 (· + 1), state.2.set (state.1.getD item.1 0) item.2)

/-- The items in the order of their keys. -/
def placeByKey {α : Type} (fill : α) (n : ℕ) (offsets : List ℕ) (items : List (ℕ × α)) : List α :=
  (items.foldl placeItem (offsets.take n, List.replicate items.length fill)).2

/-- How many keys are below `c`. -/
def below (keys : List ℕ) (c : ℕ) : ℕ := keys.countP (· < c)

theorem below_succ (keys : List ℕ) (c : ℕ) : below keys (c + 1) = below keys c + keys.count c := by
  induction keys with
  | nil => rfl
  | cons key keys ih =>
    rw [below, below, List.countP_cons, List.countP_cons, List.count_cons]
    rw [below, below] at ih
    rw [ih]
    rcases Nat.lt_trichotomy key c with h | h | h
    · simp [h, show key < c + 1 by omega, show key ≠ c by omega]
      omega
    · simp [h]
      omega
    · simp [show ¬ key < c + 1 by omega, show ¬ key < c by omega, show key ≠ c by omega]

theorem below_mono (keys : List ℕ) {c c' : ℕ} (h : c ≤ c') : below keys c ≤ below keys c' :=
  List.countP_mono_left fun key _ hkey => by
    simp only [decide_eq_true_eq] at hkey ⊢
    omega

theorem below_zero (keys : List ℕ) : below keys 0 = 0 := by simp [below]

theorem below_eq_length {keys : List ℕ} {n : ℕ} (h : ∀ key ∈ keys, key < n) :
    below keys n = keys.length := by
  rw [below, List.countP_eq_length]
  exact fun key hkey => by simpa using h key hkey

/-! ## Offsets -/

theorem tally_length (n : ℕ) (keys : List ℕ) : (tally n keys).length = n + 1 := by
  rw [tally]
  have : ∀ counts : List ℕ, (keys.foldl (fun counts key =>
    counts.modify (key + 1) (· + 1)) counts).length =
      counts.length := by
    induction keys with
    | nil => exact fun _ => rfl
    | cons key keys ih => exact fun counts => by rw [List.foldl_cons, ih, List.length_modify]
  rw [this, List.length_replicate]

theorem tally_getD {n : ℕ} {keys : List ℕ} (h : ∀ key ∈ keys, key < n) {j : ℕ} :
    (tally n keys).getD j 0 = if j = 0 then 0 else keys.count (j - 1) := by
  have hfold : ∀ (keys counts : List ℕ), (∀ key ∈ keys, key + 1 < counts.length) →
      (keys.foldl (fun counts key => counts.modify (key + 1) (· + 1)) counts).getD j 0 =
        counts.getD j 0 + if j = 0 then 0 else keys.count (j - 1) := by
    intro keys
    induction keys with
    | nil => intro counts _; split_ifs <;> rfl
    | cons key keys ih =>
      intro counts hlt
      have hkey : key + 1 < counts.length := hlt key (by simp)
      rw [List.foldl_cons, ih _ fun k hk => by
        rw [List.length_modify]
        exact hlt k (by simp [hk])]
      by_cases hj : j = key + 1
      · subst hj
        simp [List.getD_eq_getElem?_getD, List.getElem?_eq_getElem hkey]
        omega
      · have hmod : (counts.modify (key + 1) (· + 1)).getD j 0 = counts.getD j 0 := by
          simp [List.getD_eq_getElem?_getD, Ne.symm hj]
        rw [hmod, List.count_cons]
        split_ifs with h0 hk
        · rfl
        · simp at hk
          omega
        · rfl
  rw [tally, hfold keys _ fun key hkey => by simpa using h key hkey]
  simp [List.getD_eq_getElem?_getD, List.getElem?_replicate]
  split_ifs <;> rfl

theorem addUp_length (n : ℕ) (counts : List ℕ) : (addUp n counts).length = counts.length := by
  induction n with
  | zero => rfl
  | succ n ih =>
    rw [addUp] at ih ⊢
    rw [List.range_succ, List.foldl_append, List.foldl_cons, List.foldl_nil, List.length_modify, ih]

@[simp] theorem keyOffsets_length (n : ℕ) (keys : List ℕ) : (keyOffsets n keys).length = n + 1 := by
  rw [keyOffsets, addUp_length, tally_length]

/-- **Each key begins after the keys below it.** -/
theorem keyOffsets_getD {n : ℕ} {keys : List ℕ} (h : ∀ key ∈ keys, key < n) {c : ℕ} (hc : c ≤ n) :
    (keyOffsets n keys).getD c 0 = below keys c := by
  -- after `m` steps the entries up to `m` are sums, and the others still counts
  have hsteps : ∀ m ≤ n, ∀ j, j ≤ n → (addUp m (tally n keys)).getD j 0 =
      if j ≤ m then below keys j else keys.count (j - 1) := by
    intro m
    induction m with
    | zero =>
      intro _ j _
      rw [addUp, List.range_zero, List.foldl_nil, tally_getD h]
      rcases Nat.eq_zero_or_pos j with rfl | hj
      · simp [below_zero]
      · rw [if_neg (by omega), if_neg (by omega)]
    | succ m ih =>
      intro hm j hj
      have hlen : m + 1 < (addUp m (tally n keys)).length := by
        rw [addUp_length, tally_length]
        omega
      have hstep : addUp (m + 1) (tally n keys) = (addUp m (tally n keys)).modify (m + 1)
          (· + (addUp m (tally n keys)).getD m 0) := by
        rw [addUp, List.range_succ, List.foldl_append]
        rfl
      rw [hstep]
      by_cases hjm : j = m + 1
      · subst hjm
        have hnext := ih (by omega) (m + 1) (by omega)
        rw [if_neg (by omega), Nat.add_sub_cancel] at hnext
        rw [List.getD_eq_getElem _ _ hlen] at hnext
        rw [if_pos le_rfl, below_succ, ih (by omega) m (by omega), if_pos le_rfl]
        simp [List.getD_eq_getElem?_getD, List.getElem?_eq_getElem hlen, hnext, Nat.add_comm]
      · have hsame : ((addUp m (tally n keys)).modify (m + 1)
            (· + (addUp m (tally n keys)).getD m 0)).getD j 0 =
                (addUp m (tally n keys)).getD j 0 := by
          simp [List.getD_eq_getElem?_getD, Ne.symm hjm]
        rw [hsame, ih (by omega) j hj]
        split_ifs <;> first | rfl | omega
  rw [keyOffsets, hsteps n le_rfl c hc, if_pos hc]

/-! ## Placing -/

section Place

variable {α : Type} {n : ℕ} {items : List (ℕ × α)}

/-- The items of a key, in order. -/
def ofKey (items : List (ℕ × α)) (c : ℕ) : List α := (items.filter (·.1 = c)).map Prod.snd

theorem ofKey_length (items : List (ℕ × α)) (c : ℕ) :
    (ofKey items c).length = (items.map Prod.fst).count c := by
  rw [ofKey, List.length_map, List.count, List.countP_map, ← List.countP_eq_length_filter]
  exact List.countP_congr fun item _ => by simp

theorem ofKey_append (items items' : List (ℕ × α)) (c : ℕ) :
    ofKey (items ++ items') c = ofKey items c ++ ofKey items' c := by
  simp [ofKey]

/-- What has been placed of the items `done`: as many places of each key as it has of them, in
order. -/
structure Placed (offsets : List ℕ) (n : ℕ) (done : List (ℕ × α))
    (state : List ℕ × List α) : Prop where
  cursor_length : state.1.length = n
  cursor : ∀ c < n, state.1.getD c 0 = offsets.getD c 0 + (ofKey done c).length
  places : ∀ c < n, ∀ i < (ofKey done c).length,
    state.2[offsets.getD c 0 + i]? = (ofKey done c)[i]?

theorem foldl_placeItem (hkeys : ∀ item ∈ items, item.1 < n) :
    ∀ done rest : List (ℕ × α), items = done ++ rest → ∀ state : List ℕ × List α,
      state.2.length = items.length →
      Placed (keyOffsets n (items.map Prod.fst)) n done state →
      (rest.foldl placeItem state).2.length = items.length ∧
        Placed (keyOffsets n (items.map Prod.fst)) n items (rest.foldl placeItem state) := by
  have hoffset : ∀ c ≤ n, (keyOffsets n (items.map Prod.fst)).getD c 0 =
      below (items.map Prod.fst) c := fun c hc =>
    keyOffsets_getD (fun key hkey => by
      obtain ⟨item, hitem, rfl⟩ := List.mem_map.1 hkey
      exact hkeys item hitem) hc
  intro done rest
  induction rest generalizing done with
  | nil =>
    intro hitems state hlen hplaced
    rw [List.append_nil] at hitems
    exact ⟨hlen, hitems ▸ hplaced⟩
  | cons item rest ih =>
    intro hitems state hlen hplaced
    rw [List.foldl_cons]
    have hitem : item.1 < n := hkeys item (by simp [hitems])
    refine ih (done ++ [item]) (by simp [hitems]) _ (by rw [placeItem, List.length_set, hlen]) ?_
    -- an item goes behind those of its key
    have hofKey : ∀ c, ofKey (done ++ [item]) c =
        ofKey done c ++ if item.1 = c then [item.2] else [] := fun c => by
      by_cases hc : item.1 = c <;> simp [ofKey, hc]
    -- of which there are no more than its key has
    have hcount : ∀ c, (ofKey done c).length + (if item.1 = c then 1 else 0) ≤
        (items.map Prod.fst).count c := fun c => by
      have hle := ofKey_length items c
      rw [hitems, show done ++ item :: rest = (done ++ [item]) ++ rest by simp] at hle ⊢
      rw [← hle, ofKey_append, hofKey c, List.length_append, List.length_append]
      split_ifs <;> simp
    have hend : ∀ c < n, (keyOffsets n (items.map Prod.fst)).getD c 0 +
        (items.map Prod.fst).count c = below (items.map Prod.fst) (c + 1) := fun c hc => by
      rw [hoffset c hc.le, below_succ]
    have hcursor := hplaced.cursor item.1 hitem
    refine ⟨by rw [placeItem, List.length_modify, hplaced.cursor_length], fun c hc => ?_,
      fun c hc i hi => ?_⟩
    · rw [placeItem, hofKey c, List.length_append]
      have hc' : c < state.1.length := by rw [hplaced.cursor_length]; exact hc
      have hold := hplaced.cursor c hc
      rw [List.getD_eq_getElem _ _ hc'] at hold
      by_cases heq : item.1 = c
      · subst heq
        simp [List.getD_eq_getElem?_getD, List.getElem?_eq_getElem hc', hold]
        omega
      · simp [List.getD_eq_getElem?_getD, List.getElem?_eq_getElem hc', heq, hold]
    · rw [placeItem, hcursor, List.getElem?_set]
      rw [hofKey c] at hi ⊢
      by_cases heq : item.1 = c
      · subst heq
        rw [if_pos rfl, List.length_append, List.length_singleton] at hi
        by_cases hlast : i = (ofKey done item.1).length
        · subst hlast
          have hroom : (keyOffsets n (items.map Prod.fst)).getD item.1 0 +
              (ofKey done item.1).length < state.2.length := by
            have h₁ := hcount item.1
            rw [if_pos rfl] at h₁
            have h₂ := hend item.1 hitem
            have h₃ : below (items.map Prod.fst) (item.1 + 1) ≤ (items.map Prod.fst).length :=
              List.countP_le_length
            rw [List.length_map] at h₃
            omega
          rw [if_pos rfl, if_pos hroom, if_pos rfl, List.getElem?_append_right le_rfl, Nat.sub_self]
          rfl
        · rw [if_neg (by omega), hplaced.places _ hitem i (by omega), if_pos rfl,
            List.getElem?_append_left (by omega)]
      · rw [if_neg heq, List.append_nil] at hi ⊢
        -- the places of another key are elsewhere
        have h₁ := hcount item.1
        have h₂ := hcount c
        have h₃ := hend item.1 hitem
        have h₄ := hend c hc
        rw [if_pos rfl] at h₁
        rw [if_neg heq] at h₂
        have hne : (keyOffsets n (items.map Prod.fst)).getD item.1 0 + (ofKey done item.1).length ≠
            (keyOffsets n (items.map Prod.fst)).getD c 0 + i := by
          rcases Nat.lt_or_gt_of_ne heq with hlt | hgt
          · have := below_mono (items.map Prod.fst) (show item.1 + 1 ≤ c by omega)
            have := hoffset c hc.le
            omega
          · have := below_mono (items.map Prod.fst) (show c + 1 ≤ item.1 by omega)
            have := hoffset item.1 hitem.le
            omega
        rw [if_neg hne]
        exact hplaced.places c hc i hi

theorem placeByKey_length (fill : α) (n : ℕ) (offsets : List ℕ) (items : List (ℕ × α)) :
    (placeByKey fill n offsets items).length = items.length := by
  have hfold : ∀ (items : List (ℕ × α)) (state : List ℕ × List α),
      (items.foldl placeItem state).2.length = state.2.length := by
    intro items
    induction items with
    | nil => exact fun _ => rfl
    | cons item items ih =>
      exact fun state => by rw [List.foldl_cons, ih, placeItem, List.length_set]
  rw [placeByKey, hfold, List.length_replicate]

/-- **The items of a key, in order, lie from its offset to the next.** -/
theorem placeByKey_slice (fill : α) (hkeys : ∀ item ∈ items, item.1 < n) {c : ℕ} (hc : c < n) :
    ((placeByKey fill n (keyOffsets n (items.map Prod.fst)) items).drop
        ((keyOffsets n (items.map Prod.fst)).getD c 0)).take
      ((keyOffsets n (items.map Prod.fst)).getD (c + 1) 0 -
        (keyOffsets n (items.map Prod.fst)).getD c 0) = ofKey items c := by
  have hkeys' : ∀ key ∈ items.map Prod.fst, key < n := fun key hkey => by
    obtain ⟨item, hitem, rfl⟩ := List.mem_map.1 hkey
    exact hkeys item hitem
  obtain ⟨-, hplaced⟩ := foldl_placeItem hkeys [] items rfl
    ((keyOffsets n (items.map Prod.fst)).take n, List.replicate items.length fill) (by simp)
    ⟨by simp, fun c hc => by
      rw [List.getD_eq_getElem?_getD, List.getElem?_take, if_pos hc]; simp [ofKey],
      fun c _ i hi => by simp [ofKey] at hi⟩
  have hwidth : (keyOffsets n (items.map Prod.fst)).getD (c + 1) 0 -
      (keyOffsets n (items.map Prod.fst)).getD c 0 = (ofKey items c).length := by
    rw [keyOffsets_getD hkeys' (by omega), keyOffsets_getD hkeys' hc.le, below_succ, ofKey_length]
    omega
  rw [hwidth]
  refine List.ext_getElem? fun i => ?_
  rw [List.getElem?_take]
  split_ifs with hi
  · rw [List.getElem?_drop]
    exact hplaced.places c hc i hi
  · rw [List.getElem?_eq_none (by omega)]

/-- The items of the keys below `c`, key by key. -/
theorem length_flatMap_ofKey (items : List (ℕ × α)) (c : ℕ) :
    ((List.range c).flatMap (ofKey items)).length = below (items.map Prod.fst) c := by
  induction c with
  | zero => rw [below_zero]; rfl
  | succ c ih =>
    rw [List.range_succ, List.flatMap_append, List.flatMap_singleton,
      List.length_append, ih, below_succ,
      ofKey_length]

/-- **What is placed are the items, key by key.** -/
theorem placeByKey_eq_flatMap (fill : α) (hkeys : ∀ item ∈ items, item.1 < n) :
    placeByKey fill n (keyOffsets n (items.map Prod.fst)) items =
      (List.range n).flatMap (ofKey items) := by
  have hkeys' : ∀ key ∈ items.map Prod.fst, key < n := fun key hkey => by
    obtain ⟨item, hitem, rfl⟩ := List.mem_map.1 hkey
    exact hkeys item hitem
  generalize hplaced : placeByKey fill n (keyOffsets n (items.map Prod.fst)) items = placed
  have hsteps : ∀ c ≤ n, placed.take (below (items.map Prod.fst) c) =
      (List.range c).flatMap (ofKey items) := by
    intro c
    induction c with
    | zero => intro _; rw [below_zero]; rfl
    | succ c ih =>
      intro hc
      have hslice := placeByKey_slice fill hkeys (c := c) hc
      rw [hplaced, keyOffsets_getD hkeys' (by omega), keyOffsets_getD hkeys' (by omega), below_succ,
        Nat.add_sub_cancel_left] at hslice
      rw [below_succ, List.take_add, hslice, ih (by omega), List.range_succ, List.flatMap_append,
        List.flatMap_singleton]
  rw [← hsteps n le_rfl, below_eq_length hkeys', List.length_map, ← placeByKey_length fill n
    (keyOffsets n (items.map Prod.fst)) items, hplaced, List.take_length]

theorem keyOffsets_eq_map {keys : List ℕ} (hkeys : ∀ key ∈ keys, key < n) :
    keyOffsets n keys = (List.range (n + 1)).map (below keys) := by
  refine List.ext_getElem (by simp) fun c hc hc' => ?_
  have hget := keyOffsets_getD hkeys (c := c) (by simpa [Nat.lt_succ_iff] using hc)
  rw [List.getD_eq_getElem _ _ hc] at hget
  rw [hget, List.getElem_map, List.getElem_range]

end Place

end CartaZarr
