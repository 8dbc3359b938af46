import Mathlib.Algebra.Order.Group.Nat
import Mathlib.Data.Finset.Prod
import Mathlib.Data.List.Basic

/-!
# A selection by its edges

The pixels of a line that are selected, told by where selection begins and ends:
`edges sel k y prev` are the places from `y` on, among `k` pixels, where it changes, the last of
them where the line ends. Two by two (`pairs`) they are runs, apart and in order, and a pixel is
selected exactly when it lies in one of them (`IsRuns`, `isRuns_edges`).
-/

namespace CartaZarr

/-- Where selection changes among the `k` pixels from `y` on, `prev` being that of the pixel before;
what is still selected at their end ends there. -/
def edges (sel : ℕ → Bool) : ℕ → ℕ → Bool → List ℕ
  | 0, y, prev => if prev then [y] else []
  | k + 1, y, prev => (if sel y = prev then [] else [y]) ++ edges sel k (y + 1) (sel y)

/-- A list two by two. -/
def pairs : List ℕ → List (ℕ × ℕ)
  | b :: e :: rest => (b, e) :: pairs rest
  | _ => []

/-- These runs are exactly what is selected from `y` on, below `n`: apart and in order. -/
inductive IsRuns (sel : ℕ → Bool) (n : ℕ) : ℕ → List (ℕ × ℕ) → Prop
  | nil {y : ℕ} (hoff : ∀ x, y ≤ x → x < n → sel x = false) : IsRuns sel n y []
  | cons {y b e : ℕ} {rest : List (ℕ × ℕ)} (hyb : y ≤ b) (hbe : b < e) (hen : e ≤ n)
      (hoff : ∀ x, y ≤ x → x < b → sel x = false) (hon : ∀ x, b ≤ x → x < e → sel x = true)
      (hrest : IsRuns sel n e rest) : IsRuns sel n y ((b, e) :: rest)

variable {sel : ℕ → Bool} {n y : ℕ}

theorem IsRuns.of_off {runs : List (ℕ × ℕ)} {y' : ℕ} (h : IsRuns sel n y' runs) (hy : y ≤ y')
    (hoff : ∀ x, y ≤ x → x < y' → sel x = false) : IsRuns sel n y runs := by
  have hoff' : ∀ {x m}, (∀ x, y' ≤ x → x < m → sel x = false) → y ≤ x → x < m → sel x = false := by
    intro x m h' hyx hxm
    by_cases hx : x < y'
    · exact hoff x hyx hx
    · exact h' x (by omega) hxm
  cases h with
  | nil h => exact .nil fun x => hoff' h
  | cons hyb hbe hen h hon hrest => exact .cons (hy.trans hyb) hbe hen (fun x => hoff' h) hon hrest

theorem IsRuns.le_of_mem {runs : List (ℕ × ℕ)} (h : IsRuns sel n y runs) {run : ℕ × ℕ}
    (hrun : run ∈ runs) : y ≤ run.1 ∧ run.1 < run.2 ∧ run.2 ≤ n := by
  induction h with
  | nil => cases hrun
  | cons hyb hbe hen _ _ _ ih =>
    rcases List.mem_cons.1 hrun with rfl | hrun
    · exact ⟨hyb, hbe, hen⟩
    · have := ih hrun
      omega

/-- What follows the start of a run: its end, and runs from there on. -/
theorem edges_spec (sel : ℕ → Bool) (k y : ℕ) :
    IsRuns sel (y + k) y (pairs (edges sel k y false)) ∧
      ∃ e rest, edges sel k y true = e :: rest ∧ y ≤ e ∧ e ≤ y + k ∧
        (∀ x, y ≤ x → x < e → sel x = true) ∧ IsRuns sel (y + k) e (pairs rest) := by
  induction k generalizing y with
  | zero =>
    refine ⟨.nil fun x _ _ => by omega, y, [], rfl, le_rfl, le_rfl, fun x _ _ => by omega, ?_⟩
    exact .nil fun x _ _ => by omega
  | succ k ih =>
    obtain ⟨hoff, e, rest, he, hye, hek, hon, hrest⟩ := ih (y + 1)
    have hk : y + 1 + k = y + (k + 1) := by omega
    rw [hk] at hoff hek hrest
    cases hsel : sel y with
    | false =>
      constructor
      · -- still off
        simp only [edges, hsel, if_true, List.nil_append]
        exact hoff.of_off (by omega) fun x _ _ => by
          obtain rfl : x = y := by omega
          exact hsel
      · refine ⟨y, edges sel k (y + 1) false, by simp [edges, hsel], le_rfl, by omega,
          fun x _ _ => by omega, ?_⟩
        exact hoff.of_off (by omega) fun x _ _ => by
          obtain rfl : x = y := by omega
          exact hsel
    | true =>
      have hon' : ∀ x, y ≤ x → x < e → sel x = true := fun x hyx hxe => by
        by_cases hx : x = y
        · exact hx ▸ hsel
        · exact hon x (by omega) hxe
      constructor
      · -- a run begins here
        have hedges : edges sel (k + 1) y false = y :: e :: rest := by
          simp [edges, hsel, he]
        rw [hedges, pairs]
        exact .cons le_rfl (by omega) hek (fun x _ _ => by omega) hon' hrest
      · exact ⟨e, rest, by simp [edges, hsel, he], by omega, hek, hon', hrest⟩

/-- **The edges of a selection, two by two, are its runs.** -/
theorem isRuns_edges (sel : ℕ → Bool) (n : ℕ) : IsRuns sel n 0 (pairs (edges sel n 0 false)) := by
  simpa using (edges_spec sel n 0).1

theorem edges_length_even (sel : ℕ → Bool) (k y : ℕ) (prev : Bool) :
    (edges sel k y prev).length % 2 = if prev then 1 else 0 := by
  induction k generalizing y prev with
  | zero => cases prev <;> rfl
  | succ k ih =>
    have := ih (y + 1) (sel y)
    cases hsel : sel y <;> cases prev <;> simp [edges, hsel] at this ⊢ <;> omega

/-- Pixels that are all as the one before have no edge among them. -/
theorem edges_add (sel : ℕ → Bool) (m k y : ℕ) (prev : Bool)
    (h : ∀ x, y ≤ x → x < y + m → sel x = prev) :
    edges sel (m + k) y prev = edges sel k (y + m) prev := by
  induction m generalizing y with
  | zero => simp
  | succ m ih =>
    have hy : sel y = prev := h y le_rfl (by omega)
    rw [show m + 1 + k = (m + k) + 1 by omega, edges, hy, if_pos rfl, List.nil_append,
      ih (y + 1) fun x hx hx' => h x (by omega) (by omega), show y + 1 + m = y + (m + 1) by omega]

/-- The edges, one place at a time. -/
theorem edges_eq_flatMap (sel : ℕ → Bool) (k y : ℕ) (before : ℕ → Bool)
    (hbefore : ∀ x, y ≤ x → x < y + k → before (x + 1) = sel x) :
    edges sel k y (before y) = (List.range' y (k + 1)).flatMap fun x =>
      if (if x < y + k then sel x else false) = before x then [] else [x] := by
  induction k generalizing y with
  | zero => cases h : before y <;> simp [edges, h]
  | succ k ih =>
    have hnext := ih (y + 1) fun x hx hx' => hbefore x (by omega) (by omega)
    rw [hbefore y (Nat.le_refl y) (by omega), show y + 1 + k = y + (k + 1) by omega] at hnext
    have hy : (if y < y + (k + 1) then sel y else false) = sel y := if_pos (by omega)
    rw [edges, hnext, List.range'_succ (n := k + 1), List.flatMap_cons, hy]

/-! ## Maximal runs -/

/-- A run of the window from `y` to `n` that goes on on neither side. -/
structure IsMaximalRun (sel : ℕ → Bool) (y n : ℕ) (run : ℕ × ℕ) : Prop where
  first : y ≤ run.1
  nonempty : run.1 < run.2
  last : run.2 ≤ n
  selected : ∀ x, run.1 ≤ x → x < run.2 → sel x = true
  left : run.1 = y ∨ sel (run.1 - 1) = false
  right : run.2 = n ∨ sel run.2 = false

instance (sel : ℕ → Bool) (y n : ℕ) (run : ℕ × ℕ) : Decidable (IsMaximalRun sel y n run) :=
  decidable_of_iff (y ≤ run.1 ∧ run.1 < run.2 ∧ run.2 ≤ n ∧
      (∀ x, x < run.2 → run.1 ≤ x → sel x = true) ∧ (run.1 = y ∨ sel (run.1 - 1) = false) ∧
      (run.2 = n ∨ sel run.2 = false))
    ⟨fun ⟨h₁, h₂, h₃, h₄, h₅, h₆⟩ => ⟨h₁, h₂, h₃, fun x hx hx' => h₄ x hx' hx, h₅, h₆⟩,
      fun h => ⟨h.first, h.nonempty, h.last, fun x hx hx' => h.selected x hx' hx, h.left, h.right⟩⟩

/-- What is selected at `y` ends at the first place that is not, and the rest has its own edges. -/
theorem edges_true (sel : ℕ → Bool) (k y : ℕ) :
    ∃ e, y ≤ e ∧ e ≤ y + k ∧ (∀ x, y ≤ x → x < e → sel x = true) ∧ (e = y + k ∨ sel e = false) ∧
      edges sel k y true = e :: edges sel (y + k - e) e false := by
  induction k generalizing y with
  | zero => exact ⟨y, le_rfl, le_rfl, fun x _ _ => by omega, .inl rfl, by simp [edges]⟩
  | succ k ih =>
    cases hsel : sel y with
    | false =>
      refine ⟨y, le_rfl, by omega, fun x _ _ => by omega, .inr hsel, ?_⟩
      rw [show y + (k + 1) - y = k + 1 by omega]
      simp [edges, hsel]
    | true =>
      obtain ⟨e, hye, hek, hon, hend, hedges⟩ := ih (y + 1)
      refine ⟨e, by omega, by omega, fun x hyx hxe => ?_, hend.imp_left fun h => by omega, ?_⟩
      · by_cases hx : x = y
        · exact hx ▸ hsel
        · exact hon x (by omega) hxe
      · rw [show y + (k + 1) - e = y + 1 + k - e by omega, ← hedges]
        simp [edges, hsel]

/-- A window whose first place is not selected has the maximal runs of the rest. -/
theorem isMaximalRun_of_off (hy : sel y = false) {run : ℕ × ℕ} :
    IsMaximalRun sel y n run ↔ IsMaximalRun sel (y + 1) n run := by
  constructor
  · intro h
    have hne : run.1 ≠ y := fun hrun => by
      have := h.selected run.1 le_rfl h.nonempty
      rw [hrun, hy] at this
      cases this
    have := h.first
    exact ⟨by omega, h.nonempty, h.last, h.selected, .inr (h.left.resolve_left hne), h.right⟩
  · intro h
    have := h.first
    refine ⟨by omega, h.nonempty, h.last, h.selected, .inr ?_, h.right⟩
    rcases h.left with hrun | hrun
    · rw [hrun]
      exact hy
    · exact hrun

/-- A window that begins with a run has it and those past it. -/
theorem isMaximalRun_of_on {e : ℕ} (hye : y < e) (hen : e ≤ n)
    (hon : ∀ x, y ≤ x → x < e → sel x = true) (hend : e = n ∨ sel e = false) {run : ℕ × ℕ} :
    IsMaximalRun sel y n run ↔ run = (y, e) ∨ IsMaximalRun sel e n run := by
  constructor
  · intro h
    have hfirst := h.first
    have hlast := h.last
    have hne := h.nonempty
    by_cases hrun : run.1 = y
    · left
      have hright : run.2 = e := by
        rcases lt_trichotomy run.2 e with hlt | heq | hgt
        · rcases h.right with hr | hr
          · omega
          · rw [hon run.2 (by omega) hlt] at hr
            cases hr
        · exact heq
        · rcases hend with he | he
          · omega
          · rw [h.selected e (by omega) hgt] at he
            cases he
      exact Prod.ext hrun hright
    · right
      have hleft := h.left.resolve_left hrun
      have hpast : e ≤ run.1 := by
        by_contra hlt
        rw [hon (run.1 - 1) (by omega) (by omega)] at hleft
        cases hleft
      exact ⟨hpast, hne, hlast, h.selected, .inr hleft, h.right⟩
  · rintro (rfl | h)
    · exact ⟨le_rfl, hye, hen, hon, .inl rfl, hend⟩
    · have hfirst := h.first
      have hlast := h.last
      have hne := h.nonempty
      refine ⟨by omega, hne, hlast, h.selected, .inr ?_, h.right⟩
      rcases h.left with hrun | hrun
      · -- what ends at `e` does not go on there
        rcases hend with he | he
        · omega
        · rw [← hrun, h.selected run.1 le_rfl hne] at he
          cases he
      · exact hrun

/-- **The edges of a selection, two by two, are its maximal runs.** -/
theorem mem_pairs_edges (sel : ℕ → Bool) (k y : ℕ) (run : ℕ × ℕ) :
    run ∈ pairs (edges sel k y false) ↔ IsMaximalRun sel y (y + k) run := by
  induction k using Nat.strong_induction_on generalizing y with
  | _ k ih =>
    cases k with
    | zero =>
      refine iff_of_false (by simp [edges, pairs]) fun h => ?_
      have := h.first
      have := h.nonempty
      have := h.last
      omega
    | succ k =>
      cases hsel : sel y with
      | false =>
        have hedges : edges sel (k + 1) y false = edges sel k (y + 1) false := by simp [edges, hsel]
        rw [hedges, ih k (by omega), isMaximalRun_of_off hsel,
          show y + 1 + k = y + (k + 1) by omega]
      | true =>
        obtain ⟨e, hye, hek, hon, hend, hrest⟩ := edges_true sel k (y + 1)
        have hedges : edges sel (k + 1) y false = y :: e :: edges sel (y + 1 + k - e) e false := by
          rw [← hrest]
          simp [edges, hsel]
        have hon' : ∀ x, y ≤ x → x < e → sel x = true := fun x hyx hxe => by
          by_cases hx : x = y
          · exact hx ▸ hsel
          · exact hon x (by omega) hxe
        rw [hedges, pairs, List.mem_cons, ih _ (by omega),
          show e + (y + 1 + k - e) = y + (k + 1) by omega,
          isMaximalRun_of_on (by omega) (by omega) hon' (hend.imp_left fun h => by omega)]

/-- The runs of a selection are in order, and apart. -/
theorem pairs_edges_pairwise (sel : ℕ → Bool) (k y : ℕ) :
    (pairs (edges sel k y false)).Pairwise fun run run' => run.2 < run'.1 := by
  induction k using Nat.strong_induction_on generalizing y with
  | _ k ih =>
    cases k with
    | zero => simp [edges, pairs]
    | succ k =>
      cases hsel : sel y with
      | false =>
        have hedges : edges sel (k + 1) y false = edges sel k (y + 1) false := by simp [edges, hsel]
        rw [hedges]
        exact ih k (by omega) (y + 1)
      | true =>
        obtain ⟨e, hye, hek, hon, hend, hrest⟩ := edges_true sel k (y + 1)
        have hedges : edges sel (k + 1) y false = y :: e :: edges sel (y + 1 + k - e) e false := by
          rw [← hrest]
          simp [edges, hsel]
        rw [hedges, pairs, List.pairwise_cons]
        refine ⟨fun run hrun => ?_, ih _ (by omega) e⟩
        rw [mem_pairs_edges] at hrun
        have hfirst := hrun.first
        have hlast := hrun.last
        have hne := hrun.nonempty
        rcases hend with he | he
        · omega
        · refine lt_of_le_of_ne hfirst fun heq => ?_
          rw [show e = run.1 from heq, hrun.selected run.1 le_rfl hne] at he
          cases he

theorem pairs_length (l : List ℕ) : (pairs l).length = l.length / 2 := by
  induction l using pairs.induct with
  | case1 b e rest ih =>
    rw [pairs, List.length_cons, ih, List.length_cons, List.length_cons]
    omega
  | case2 l hl =>
    match l, hl with
    | [], _ => rfl
    | [_], _ => simp [pairs]
    | b :: e :: rest, hl => exact absurd rfl (hl b e rest)

/-- The maximal runs of a line of `n` places. -/
def maximalRuns (sel : ℕ → Bool) (n : ℕ) : Finset (ℕ × ℕ) :=
  (Finset.range n ×ˢ Finset.range (n + 1)).filter (IsMaximalRun sel 0 n)

/-- A line has a maximal run for every two of its edges. -/
theorem card_maximalRuns (sel : ℕ → Bool) (n : ℕ) :
    (maximalRuns sel n).card = (edges sel n 0 false).length / 2 := by
  have hruns : maximalRuns sel n = (pairs (edges sel n 0 false)).toFinset := by
    ext run
    rw [List.mem_toFinset, mem_pairs_edges, Nat.zero_add, maximalRuns, Finset.mem_filter,
      Finset.mem_product, Finset.mem_range, Finset.mem_range]
    refine ⟨fun h => h.2, fun h => ⟨?_, h⟩⟩
    have := h.nonempty
    have := h.last
    omega
  have hnodup : (pairs (edges sel n 0 false)).Nodup := by
    refine (List.Pairwise.and_mem.1 (pairs_edges_pairwise sel n 0)).imp ?_
    rintro run run' ⟨-, hrun', hlt⟩ rfl
    have := ((mem_pairs_edges sel n 0 run).1 hrun').nonempty
    omega
  rw [hruns, List.toFinset_card_of_nodup hnodup, pairs_length]

/-! ## The pixels of runs -/

theorem range'_split {a m z : ℕ} (ham : a ≤ m) (hmz : m ≤ z) :
    List.range' a (z - a) = List.range' a (m - a) ++ List.range' m (z - m) := by
  rw [show z - a = (m - a) + (z - m) by omega, ← List.range'_append_1,
    show a + (m - a) = m by omega]

theorem range_split {y n : ℕ} (h : y < n) :
    List.range n = List.range y ++ y :: List.range' (y + 1) (n - (y + 1)) := by
  have := range'_split (Nat.zero_le y) h.le
  rwa [Nat.sub_zero, Nat.sub_zero, show n - y = n - (y + 1) + 1 by omega, List.range'_succ,
    ← List.range_eq_range', ← List.range_eq_range'] at this

theorem filter_range'_off {a z : ℕ} (h : ∀ x, a ≤ x → x < z → sel x = false) :
    (List.range' a (z - a)).filter sel = [] := by
  refine List.filter_eq_nil_iff.2 fun x hx => ?_
  rw [List.mem_range'_1] at hx
  simp [h x (by omega) (by omega)]

theorem filter_range'_on {a z : ℕ} (h : ∀ x, a ≤ x → x < z → sel x = true) :
    (List.range' a (z - a)).filter sel = List.range' a (z - a) := by
  refine List.filter_eq_self.2 fun x hx => ?_
  rw [List.mem_range'_1] at hx
  exact h x (by omega) (by omega)

/-- **The pixels of runs in a window are those selected there, in order.** -/
theorem IsRuns.flatMap_range' {runs : List (ℕ × ℕ)} (h : IsRuns sel n y runs) {a z : ℕ} (hy : y ≤ a)
    (hz : z ≤ n) :
    (runs.flatMap fun run => List.range' (max a run.1) (min z run.2 - max a run.1)) =
      (List.range' a (z - a)).filter sel := by
  induction h generalizing a with
  | nil hoff => exact (filter_range'_off fun x hx hx' => hoff x (by omega) (by omega)).symm
  | @cons y b e rest hyb hbe hen hoff hon _ ih =>
    rw [List.flatMap_cons]
    by_cases hza : z ≤ a
    · rw [Nat.sub_eq_zero_of_le hza, show min z e - max a b = 0 by omega]
      refine List.flatMap_eq_nil_iff.2 fun run _ => ?_
      rw [show min z run.2 - max a run.1 = 0 by omega]
      rfl
    by_cases hbz : b < z
    · by_cases hae : a < e
      · -- before the run nothing, in it everything, and the rest is the other runs'
        have hwindow : (rest.flatMap fun run =>
          List.range' (max a run.1) (min z run.2 - max a run.1)) =
            (List.range' (min z e) (z - min z e)).filter sel := by
          by_cases hze : z ≤ e
          · rw [show min z e = z by omega, Nat.sub_self]
            refine List.flatMap_eq_nil_iff.2 fun run hrun => ?_
            rename_i hrest
            have := hrest.le_of_mem hrun
            rw [show min z run.2 - max a run.1 = 0 by omega]
            rfl
          · rw [show min z e = e by omega, ← ih (Nat.le_refl e)]
            rename_i hrest
            refine List.flatMap_congr fun run hrun => ?_
            have := hrest.le_of_mem hrun
            rw [show max a run.1 = max e run.1 by omega]
        have hsplit : List.range' a (z - a) = List.range' a (max a b - a) ++
            (List.range' (max a b) (min z e - max a b) ++ List.range' (min z e) (z - min z e)) := by
          rw [range'_split (a := a) (m := max a b) (z := z) (by omega) (by omega),
            range'_split (a := max a b) (m := min z e) (z := z) (by omega) (by omega)]
        rw [hwindow, hsplit, List.filter_append, List.filter_append,
          filter_range'_off (a := a) (z := max a b) fun x hx hx' => hoff x (by omega) (by omega),
          filter_range'_on (a := max a b) (z := min z e) fun x hx hx' =>
            hon x (by omega) (by omega),
          List.nil_append]
      · rw [show min z e - max a b = 0 by omega, ih (by omega)]
        rfl
    · -- the window ends before the run
      rw [filter_range'_off fun x hx hx' => hoff x (by omega) (by omega),
        show min z e - max a b = 0 by omega]
      refine List.flatMap_eq_nil_iff.2 fun run hrun => ?_
      rename_i hrest
      have := hrest.le_of_mem hrun
      rw [show min z run.2 - max a run.1 = 0 by omega]
      rfl

/-- Runs that begin past a window have nothing in it, nor have those after them. -/
theorem IsRuns.flatMap_takeWhile {α : Type*} {runs : List (ℕ × ℕ)} (h : IsRuns sel n y runs) {z : ℕ}
    {p : ℕ × ℕ → Bool} {f : ℕ × ℕ → List α} (hp : ∀ run ∈ runs, p run = decide (run.1 < z))
    (hf : ∀ run ∈ runs, z ≤ run.1 → f run = []) :
    (runs.takeWhile p).flatMap f = runs.flatMap f := by
  induction h with
  | nil => rfl
  | @cons y b e rest hyb hbe hen hoff hon hrest ih =>
    have ih := ih (fun run hrun => hp run (List.mem_cons_of_mem _ hrun))
      fun run hrun => hf run (List.mem_cons_of_mem _ hrun)
    have hhead := hp (b, e) List.mem_cons_self
    by_cases hb : b < z
    · rw [List.takeWhile_cons_of_pos (by rw [hhead, decide_eq_true hb]), List.flatMap_cons,
        List.flatMap_cons, ih]
    · rw [List.takeWhile_cons_of_neg (by rw [hhead, decide_eq_false hb]; decide), List.flatMap_nil,
        eq_comm, List.flatMap_eq_nil_iff]
      intro run hrun
      refine hf run hrun ?_
      rcases List.mem_cons.1 hrun with rfl | hrun
      · simpa using hb
      · have := hrest.le_of_mem hrun
        omega

end CartaZarr
