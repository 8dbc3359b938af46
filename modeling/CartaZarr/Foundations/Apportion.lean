import CartaZarr.Foundations.ForRange
import Mathlib.Algebra.Order.BigOperators.Group.List
import Mathlib.Algebra.BigOperators.Ring.List
import Mathlib.Algebra.Order.Floor.Ring
import Mathlib.Data.List.GetD
import Mathlib.Tactic.Linarith
import Mathlib.Tactic.Ring

/-!
# Apportionment by largest remainder

`apportion count weights` divides a count in proportion to weights: each place has its share rounded
down, and what is left goes one by one to the places whose shares lost most. The parts add up to the
count (`apportion_sum`), and a place of no weight has none (`apportion_getD_of_zero`): what is left
never outnumbers the places that lost something.
-/

namespace CartaZarr

section Sums

variable {l : List ℕ} {i k c : ℕ}

theorem sum_take_modify (hi : i < l.length) :
    ((l.modify i (· + c)).take k).sum = (l.take k).sum + if i < k then c else 0 := by
  induction l generalizing i k with
  | nil => simp at hi
  | cons a l ih =>
    cases k with
    | zero => simp
    | succ k =>
      cases i with
      | zero => simp; omega
      | succ i =>
        have := @ih i k (by simpa using hi)
        simp only [List.modify_succ_cons, List.take_succ_cons, List.sum_cons, this]
        simp only [Nat.add_lt_add_iff_right]
        omega

theorem sum_modify (hi : i < l.length) : (l.modify i (· + c)).sum = l.sum + c := by
  have h := @sum_take_modify l i l.length c hi
  rwa [List.take_of_length_le (by simp), List.take_length, if_pos hi] at h

/-- Add the parts to the counts from the place `first` on. -/
def addFrom (first : ℕ) (parts out : List ℕ) : List ℕ :=
  forRange parts.length (fun offset out =>
    out.modify (first + offset) (· + parts.getD offset 0)) out

theorem addFrom_length (first : ℕ) (parts out : List ℕ) :
    (addFrom first parts out).length = out.length :=
  forRange_frame List.length (fun _ _ _ => by rw [List.length_modify]) out

/-- What parts added from a place on are below another. -/
theorem addFrom_sum_take {first : ℕ} {parts out : List ℕ} (h : first + parts.length ≤ out.length) :
    ((addFrom first parts out).take k).sum = (out.take k).sum + (parts.take (k - first)).sum := by
  -- after `m` passes, the first `m` parts are there
  have hpass : ∀ m ≤ parts.length,
      ((forRange m (fun offset out =>
        out.modify (first + offset) (· + parts.getD offset 0)) out).take
        k).sum = (out.take k).sum + ((parts.take m).take (k - first)).sum := by
    intro m hm
    induction m with
    | zero => simp
    | succ m ih =>
      have hlen : (forRange m (fun offset out =>
        out.modify (first + offset) (· + parts.getD offset 0))
          out).length = out.length := forRange_frame List.length (fun _ _ _ => by simp) out
      rw [forRange_succ, sum_take_modify (by rw [hlen]; omega), ih (by omega)]
      by_cases hk : first + m < k
      · rw [if_pos hk, List.take_take, List.take_take, min_eq_right (by omega),
          min_eq_right (by omega),
          List.take_succ_eq_append_getElem (by omega), List.sum_append, List.sum_singleton,
          List.getD_eq_getElem _ _ (by omega), Nat.add_assoc]
      · rw [if_neg hk, List.take_take, List.take_take, min_eq_left (by omega),
          min_eq_left (by omega),
          Nat.add_zero]
  have := hpass parts.length le_rfl
  rwa [List.take_length] at this

end Sums

variable {K : Type*} [Field K] [LinearOrder K] {count : ℕ} {weights : List K}

/-- The first place of a greatest element. -/
def firstMax (l : List K) : ℕ :=
  (List.range' 1 (l.length - 1)).foldl
    (fun best offset => if l.getD best 0 < l.getD offset 0 then offset else best) 0

theorem firstMax_spec {l : List K} (h : l ≠ []) :
    firstMax l < l.length ∧ ∀ i < l.length, l.getD i 0 ≤ l.getD (firstMax l) 0 := by
  have hpass : ∀ m, (List.range' 1 m).foldl
        (fun best offset => if l.getD best 0 < l.getD offset 0 then offset else best) 0 ≤ m ∧
      ∀ i ≤ m, l.getD i 0 ≤ l.getD ((List.range' 1 m).foldl
        (fun best offset => if l.getD best 0 < l.getD offset 0 then offset else best) 0) 0 := by
    intro m
    induction m with
    | zero => exact ⟨le_rfl, fun i hi => by rw [Nat.le_zero.1 hi]; rfl⟩
    | succ m ih =>
      rw [List.range'_concat, List.foldl_concat]
      set best := (List.range' 1 m).foldl
        (fun best offset => if l.getD best 0 < l.getD offset 0 then offset else best) 0
      obtain ⟨hle, hmax⟩ := ih
      by_cases hlt : l.getD best 0 < l.getD (1 + 1 * m) 0
      · rw [if_pos hlt]
        refine ⟨by omega, fun i hi => ?_⟩
        rcases Nat.lt_or_ge m i with hi' | hi'
        · rw [show i = 1 + 1 * m by omega]
        · exact (hmax i hi').trans hlt.le
      · rw [if_neg hlt]
        refine ⟨by omega, fun i hi => ?_⟩
        rcases Nat.lt_or_ge m i with hi' | hi'
        · rw [show i = 1 + 1 * m by omega]
          exact not_lt.1 hlt
        · exact hmax i hi'
  have hpos := List.length_pos_iff.2 h
  obtain ⟨hle, hmax⟩ := hpass (l.length - 1)
  exact ⟨by rw [firstMax]; omega, fun i hi => hmax i (by omega)⟩

/-- Give one to the place of the largest remainder, `left` times, to none twice. -/
def giveLeft : ℕ → List ℕ → List K → List ℕ
  | 0, parts, _ => parts
  | left + 1, parts, rests =>
    giveLeft left (parts.modify (firstMax rests) (· + 1)) (rests.set (firstMax rests) (-1))

theorem giveLeft_length (left : ℕ) (parts : List ℕ) (rests : List K) :
    (giveLeft left parts rests).length = parts.length := by
  induction left generalizing parts rests with
  | zero => rfl
  | succ left ih => rw [giveLeft, ih, List.length_modify]

theorem giveLeft_sum {left : ℕ} {parts : List ℕ} {rests : List K} (hne : rests ≠ [])
    (hlen : parts.length = rests.length) : (giveLeft left parts rests).sum = parts.sum + left := by
  induction left generalizing parts rests with
  | zero => rfl
  | succ left ih =>
    have hlt := (firstMax_spec hne).1
    rw [giveLeft, ih (by simpa using hne) (by simpa using hlen), sum_modify (by omega)]
    omega

/-- What the remainders above zero come to. -/
def owed (rests : List K) : K := (rests.map (max · 0)).sum

/-- What is owed is what was lost, where nothing lost is below zero. -/
theorem owed_eq_sum {rests : List K} (h : ∀ rest ∈ rests, 0 ≤ rest) : owed rests = rests.sum := by
  rw [owed, List.map_congr_left fun rest hrest => max_eq_left (h rest hrest), List.map_id']

/-- Where something is owed, the largest remainder is above zero. -/
theorem firstMax_pos {rests : List K} (h : 0 < owed rests) : 0 < rests.getD (firstMax rests) 0 := by
  by_contra hle
  have hne : rests ≠ [] := by
    rintro rfl
    simp [owed] at h
  refine h.ne' (List.sum_eq_zero fun x hx => ?_)
  obtain ⟨r, hr, rfl⟩ := List.mem_map.1 hx
  obtain ⟨i, hi, rfl⟩ := List.mem_iff_getElem.1 hr
  have := (firstMax_spec hne).2 i hi
  rw [List.getD_eq_getElem _ _ hi] at this
  exact max_eq_right (this.trans (not_lt.1 hle))

/-- The share of each weight. -/
def sharesOf (count : ℕ) (weights : List K) : List K :=
  weights.map fun weight => (count : K) * (weight / weights.sum)

theorem sum_sharesOf (hpos : 0 < weights.sum) : (sharesOf count weights).sum = count := by
  simp only [sharesOf, div_eq_mul_inv, ← mul_assoc]
  rw [List.sum_map_mul_right, List.sum_map_mul_left, List.map_id', mul_assoc,
    mul_inv_cancel₀ hpos.ne', mul_one]

section Rounded

variable [FloorRing K]

/-- What the shares lose by being rounded down. -/
def lost (shares : List K) : List K := shares.map fun share => share - (⌊share⌋₊ : K)

/-- Divide a count in proportion to weights. -/
def apportion (count : ℕ) (weights : List K) : List ℕ :=
  let shares := sharesOf count weights
  let parts := shares.map fun share => ⌊share⌋₊
  giveLeft (count - parts.sum) parts (lost shares)

theorem apportion_length (count : ℕ) (weights : List K) :
    (apportion count weights).length = weights.length := by
  rw [apportion, giveLeft_length, List.length_map, sharesOf, List.length_map]

/-- The shares rounded down fall short of what they come to by what they lose. -/
theorem cast_sum_floor (shares : List K) :
    (((shares.map fun share => ⌊share⌋₊).sum : ℕ) : K) = shares.sum - (lost shares).sum := by
  induction shares with
  | nil => simp [lost]
  | cons share shares ih =>
    simp only [lost, List.map_cons, List.sum_cons, Nat.cast_add] at ih ⊢
    rw [ih]
    ring

end Rounded

variable [IsStrictOrderedRing K]

theorem owed_set {rests : List K} {i : ℕ} (hi : i < rests.length) (hpos : 0 < rests.getD i 0) :
    owed (rests.set i (-1)) = owed rests - rests.getD i 0 := by
  rw [List.getD_eq_getElem _ _ hi] at hpos ⊢
  rw [owed, owed, List.map_set, List.sum_set', dif_pos (by simpa using hi), List.getElem_map,
    max_eq_left hpos.le, max_eq_right (by norm_num : (-1 : K) ≤ 0), add_zero, sub_eq_add_neg]

/-- **Nothing is left for a place that lost nothing**, as long as no more is left than was lost. -/
theorem giveLeft_frame {left : ℕ} {parts : List ℕ} {rests : List K}
    (howed : (left : K) ≤ owed rests)
    (hlt : ∀ r ∈ rests, r < 1) {i : ℕ} (hi : rests.getD i 0 ≤ 0) :
    (giveLeft left parts rests).getD i 0 = parts.getD i 0 := by
  induction left generalizing parts rests with
  | zero => rfl
  | succ left ih =>
    have hpos : 0 < rests.getD (firstMax rests) 0 :=
      firstMax_pos (lt_of_lt_of_le (by exact_mod_cast Nat.succ_pos left) howed)
    have hin : firstMax rests < rests.length := by
      by_contra hout
      rw [List.getD_eq_default _ _ (not_lt.1 hout)] at hpos
      exact lt_irrefl _ hpos
    have hne : i ≠ firstMax rests := by
      rintro rfl
      exact absurd hpos (not_lt.2 hi)
    have hbest : rests.getD (firstMax rests) 0 < 1 := by
      rw [List.getD_eq_getElem _ _ hin]
      exact hlt _ (List.getElem_mem hin)
    rw [giveLeft, ih]
    · rw [List.getD_eq_getElem?_getD, List.getD_eq_getElem?_getD,
        List.getElem?_modify_ne _ _ hne.symm]
    · rw [owed_set hin hpos]
      push_cast at howed
      linarith
    · intro r hr
      rcases List.mem_or_eq_of_mem_set hr with hr | rfl
      · exact hlt r hr
      · linarith
    · rw [List.getD_eq_getElem?_getD, List.getElem?_set_ne hne.symm, ← List.getD_eq_getElem?_getD]
      exact hi

variable [FloorRing K]

theorem lost_bounds (count : ℕ) (hnonneg : ∀ weight ∈ weights, 0 ≤ weight)
    (hpos : 0 < weights.sum) :
    ∀ rest ∈ lost (sharesOf count weights), 0 ≤ rest ∧ rest < 1 := by
  intro rest hrest
  obtain ⟨share, hshare, rfl⟩ := List.mem_map.1 hrest
  obtain ⟨weight, hweight, rfl⟩ := List.mem_map.1 hshare
  have hshare : 0 ≤ (count : K) * (weight / weights.sum) :=
    mul_nonneg (Nat.cast_nonneg _) (div_nonneg (hnonneg weight hweight) hpos.le)
  have hfloor := Nat.floor_le hshare
  have hlt := Nat.lt_floor_add_one ((count : K) * (weight / weights.sum))
  exact ⟨by linarith, by linarith⟩

/-- What is left to give is what was lost. -/
theorem cast_left_eq_owed (count : ℕ) (hnonneg : ∀ weight ∈ weights, 0 ≤ weight)
    (hpos : 0 < weights.sum) :
    ((sharesOf count weights).map fun share => ⌊share⌋₊).sum ≤ count ∧
    ((count - ((sharesOf count weights).map fun share => ⌊share⌋₊).sum : ℕ) : K) =
      owed (lost (sharesOf count weights)) := by
  have hlost := lost_bounds count hnonneg hpos
  have hsum := cast_sum_floor (sharesOf count weights)
  rw [sum_sharesOf hpos] at hsum
  have hle : ((sharesOf count weights).map fun share => ⌊share⌋₊).sum ≤ count := by
    have hnonneg := List.sum_nonneg fun rest hrest => (hlost rest hrest).1
    rw [← @Nat.cast_le K, hsum]
    linarith
  refine ⟨hle, ?_⟩
  rw [Nat.cast_sub hle, hsum, owed_eq_sum fun rest hrest => (hlost rest hrest).1]
  ring

/-- **The parts add up to the count.** -/
theorem apportion_sum (hnonneg : ∀ weight ∈ weights, 0 ≤ weight) (hpos : 0 < weights.sum) :
    (apportion count weights).sum = count := by
  have hne : weights ≠ [] := by
    rintro rfl
    simp at hpos
  have hle := (cast_left_eq_owed count hnonneg hpos).1
  rw [apportion, giveLeft_sum (by simpa [lost, sharesOf] using hne) (by simp [lost])]
  exact Nat.add_sub_cancel' hle

/-- **A place of no weight has no part.** -/
theorem apportion_getD_of_zero (hnonneg : ∀ weight ∈ weights, 0 ≤ weight) (hpos : 0 < weights.sum)
    {i : ℕ} (hi : weights.getD i 0 = 0) : (apportion count weights).getD i 0 = 0 := by
  have howed := (cast_left_eq_owed count hnonneg hpos).2
  have hlost := lost_bounds count hnonneg hpos
  have hshare : (sharesOf count weights).getD i 0 = 0 := by
    have h := List.getD_map weights 0 (n := i) (fun weight => (count : K) * (weight / weights.sum))
    rw [zero_div, mul_zero] at h
    rw [sharesOf, h, hi, zero_div, mul_zero]
  have hrest : (lost (sharesOf count weights)).getD i 0 = 0 := by
    have h := List.getD_map (sharesOf count weights) 0 (n := i) (fun share =>
      share - (⌊share⌋₊ : K))
    rw [Nat.floor_zero, Nat.cast_zero, sub_zero] at h
    rw [lost, h, hshare, Nat.floor_zero, Nat.cast_zero, sub_zero]
  have hpart : ((sharesOf count weights).map fun share => ⌊share⌋₊).getD i 0 = 0 := by
    have h := List.getD_map (sharesOf count weights) 0 (n := i) (fun share => ⌊share⌋₊)
    rw [Nat.floor_zero] at h
    rw [h, hshare, Nat.floor_zero]
  exact (giveLeft_frame howed.le (fun rest hrest => (hlost rest hrest).2) hrest.le).trans hpart

end CartaZarr
