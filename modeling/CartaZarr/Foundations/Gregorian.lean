import Mathlib.Data.Int.Basic
import Mathlib.Logic.Function.Iterate
import Mathlib.Tactic.Common

/-!
# The proleptic Gregorian calendar

Dates, and the date after a date. A date is a number of days after another one when that many days
are counted from the one to the other (`DaysAfter`); every date is some number of days after any
date (`exists_daysAfter`), so that a count that goes up by one from a date to the next is the number
of days (`DaysAfter.eq_of_step`).
-/

namespace CartaZarr

/-- A date: months and days are counted from one. -/
structure CivilDate where
  year : ℤ
  month : ℕ
  day : ℕ
  deriving DecidableEq, Repr

namespace CivilDate

/-- A year with a day more: every fourth, of the centuries every fourth. -/
def IsLeap (year : ℤ) : Prop := (year % 4 = 0 ∧ year % 100 ≠ 0) ∨ year % 400 = 0

instance (year : ℤ) : Decidable (IsLeap year) := inferInstanceAs (Decidable (_ ∨ _))

/-- How many days a month has. -/
def monthLength (year : ℤ) (month : ℕ) : ℕ :=
  if month = 2 then if IsLeap year then 29 else 28
  else if month = 4 ∨ month = 6 ∨ month = 9 ∨ month = 11 then 30
  else 31

/-- A date the calendar has. -/
structure Exists (date : CivilDate) : Prop where
  month_pos : 1 ≤ date.month
  month_le : date.month ≤ 12
  day_pos : 1 ≤ date.day
  day_le : date.day ≤ monthLength date.year date.month

/-- The day after. -/
def next (date : CivilDate) : CivilDate :=
  if date.day < monthLength date.year date.month then { date with day := date.day + 1 }
  else if date.month < 12 then ⟨date.year, date.month + 1, 1⟩
  else ⟨date.year + 1, 1, 1⟩

/-- A date is `n` days after another one: `n` days are counted from that one to it, or from it to
that one where `n` is negative. -/
def DaysAfter (start date : CivilDate) (n : ℤ) : Prop :=
  (0 ≤ n ∧ next^[n.toNat] start = date) ∨ (n ≤ 0 ∧ next^[(-n).toNat] date = start)

/-- Counting from one date comes to another. -/
def Reaches (start date : CivilDate) : Prop := ∃ n : ℕ, next^[n] start = date

section Counting

variable {a b c : CivilDate} {year : ℤ} {month day : ℕ}

theorem monthLength_pos (year : ℤ) (month : ℕ) : 1 ≤ monthLength year month := by
  unfold monthLength
  split_ifs <;> omega

theorem Exists.next (h : a.Exists) : a.next.Exists := by
  unfold CivilDate.next
  split_ifs with hday hmonth
  · exact ⟨h.month_pos, h.month_le, by simp, hday⟩
  · exact ⟨by simp, hmonth, le_refl 1, monthLength_pos _ _⟩
  · exact ⟨le_refl 1, by simp, le_refl 1, monthLength_pos _ _⟩

theorem Reaches.refl (a : CivilDate) : Reaches a a := ⟨0, rfl⟩

theorem Reaches.trans (h : Reaches a b) (h' : Reaches b c) : Reaches a c := by
  obtain ⟨n, rfl⟩ := h
  obtain ⟨m, rfl⟩ := h'
  exact ⟨m + n, Function.iterate_add_apply _ _ _ _⟩

theorem reaches_next (a : CivilDate) : Reaches a a.next := ⟨1, rfl⟩

/-- A day of a month is reached from any day of it that is not later. -/
theorem reaches_day {later : ℕ} (hle : day ≤ later) (hday : later ≤ monthLength year month) :
    Reaches ⟨year, month, day⟩ ⟨year, month, later⟩ := by
  induction later, hle using Nat.le_induction with
  | base => exact .refl _
  | succ later hle ih =>
    refine (ih (by omega)).trans ?_
    have hnext : CivilDate.next ⟨year, month, later⟩ = ⟨year, month, later + 1⟩ := if_pos hday
    exact hnext ▸ reaches_next _

/-- The first of a month is reached from any day of the month before. -/
theorem reaches_month (hmonth : month < 12) (hday : day ≤ monthLength year month) :
    Reaches ⟨year, month, day⟩ ⟨year, month + 1, 1⟩ := by
  refine (reaches_day hday le_rfl).trans ?_
  have hnext : CivilDate.next ⟨year, month, monthLength year month⟩ = ⟨year, month + 1, 1⟩ := by
    unfold CivilDate.next
    rw [if_neg (lt_irrefl _), if_pos hmonth]
  exact hnext ▸ reaches_next _

/-- The first day of a month is reached from any day of an earlier month of its year. -/
theorem reaches_later_month {later : ℕ} (hlt : month < later) (hlater : later ≤ 12)
    (hday : day ≤ monthLength year month) : Reaches ⟨year, month, day⟩ ⟨year, later, 1⟩ := by
  induction later, hlt using Nat.le_induction with
  | base => exact reaches_month (by omega) hday
  | succ later hlt ih =>
    exact (ih (by omega)).trans (reaches_month (by omega) (monthLength_pos _ _))

/-- The first day of the next year is reached from any date. -/
theorem Exists.reaches_year (h : a.Exists) : Reaches a ⟨a.year + 1, 1, 1⟩ := by
  obtain ⟨year, month, day⟩ := a
  have hdecember : Reaches ⟨year, month, day⟩ ⟨year, 12, monthLength year 12⟩ := by
    rcases Nat.lt_or_ge month 12 with hlt | hge
    · exact (reaches_later_month hlt le_rfl h.day_le).trans
        (reaches_day (monthLength_pos _ _) le_rfl)
    · obtain rfl : month = 12 := le_antisymm h.month_le hge
      exact reaches_day h.day_le le_rfl
  refine hdecember.trans ?_
  have hnext : CivilDate.next ⟨year, 12, monthLength year 12⟩ = ⟨year + 1, 1, 1⟩ := by
    unfold CivilDate.next
    rw [if_neg (lt_irrefl _), if_neg (lt_irrefl _)]
  exact hnext ▸ reaches_next _

theorem exists_newYear (year : ℤ) : Exists ⟨year, 1, 1⟩ :=
  ⟨le_rfl, by simp, le_rfl, monthLength_pos _ _⟩

/-- New year is reached from the new years before. -/
theorem reaches_newYear {later : ℤ} (hle : year ≤ later) : Reaches ⟨year, 1, 1⟩ ⟨later, 1, 1⟩ := by
  induction later, hle using Int.leInduction with
  | base => exact .refl _
  | succ later _ ih => exact ih.trans (exists_newYear later).reaches_year

/-- A date is reached from the new year of its year. -/
theorem Exists.reaches_of_newYear (h : a.Exists) : Reaches ⟨a.year, 1, 1⟩ a := by
  obtain ⟨year, month, day⟩ := a
  have hfirst : Reaches ⟨year, 1, 1⟩ ⟨year, month, 1⟩ := by
    rcases Nat.lt_or_ge 1 month with hlt | hge
    · exact reaches_later_month hlt h.month_le (monthLength_pos _ _)
    · obtain rfl : month = 1 := le_antisymm hge h.month_pos
      exact .refl _
  exact hfirst.trans (reaches_day h.day_pos h.day_le)

/-- Every date is some number of days after any new year. -/
theorem Exists.exists_daysAfter (h : a.Exists) (year : ℤ) : ∃ n, DaysAfter ⟨year, 1, 1⟩ a n := by
  by_cases hle : year ≤ a.year
  · obtain ⟨n, hn⟩ := (reaches_newYear hle).trans h.reaches_of_newYear
    exact ⟨n, Or.inl ⟨by omega, by simpa using hn⟩⟩
  · obtain ⟨n, hn⟩ := h.reaches_year.trans (reaches_newYear (show a.year + 1 ≤ year by omega))
    exact ⟨-n, Or.inr ⟨by omega, by simpa using hn⟩⟩

/-- A count that goes up by one from a date to the next goes up by as many as there are days. -/
theorem eq_add_of_iterate {count : CivilDate → ℤ}
    (hstep : ∀ date : CivilDate, date.Exists → count date.next = count date + 1)
    (h : a.Exists) (n : ℕ) :
    count (CivilDate.next^[n] a) = count a + n ∧ (CivilDate.next^[n] a).Exists := by
  induction n with
  | zero => exact ⟨(Int.add_zero _).symm, h⟩
  | succ n ih =>
    rw [Function.iterate_succ_apply']
    refine ⟨?_, ih.2.next⟩
    rw [hstep _ ih.2, ih.1]
    omega

theorem DaysAfter.eq_of_step {count : CivilDate → ℤ}
    (hstep : ∀ date : CivilDate, date.Exists → count date.next = count date + 1) (ha : a.Exists)
    (hb : b.Exists) {n : ℤ} (h : DaysAfter a b n) : count b = count a + n := by
  rcases h with ⟨hn, rfl⟩ | ⟨hn, rfl⟩
  · rw [(eq_add_of_iterate hstep ha _).1]
    omega
  · rw [(eq_add_of_iterate hstep hb _).1]
    omega

end Counting

end CivilDate

end CartaZarr
