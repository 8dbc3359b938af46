import CartaZarr.Foundations.Decimal
import CartaZarr.Foundations.Gregorian
import CartaZarr.Xradio.Attributes
import Mathlib.Data.List.TakeWhile
import Mathlib.Tactic.IntervalCases

/-!
# Dates of observations

`mjdOfIsoDate` reads a date from left to right: what it accepts is a date of the calendar written as
`YYYY-MM-DD`, perhaps with a time, and nothing else, and the days before it are those counted one at
a time (`mjdOfIsoDate_reads`).
-/

namespace CartaZarr

open CivilDate

/-- Days from 1970-01-01 to a date. -/
def daysFromCivil (year : ℤ) (month day : ℕ) : ℤ :=
  let year := year - if month ≤ 2 then 1 else 0
  let era := (if 0 ≤ year then year else year - 399).tdiv 400
  let yearOfEra := (year - era * 400).toNat
  let dayOfYear := (153 * (if month > 2 then month - 3 else month + 9) + 2) / 5 + day - 1
  let dayOfEra := yearOfEra * 365 + yearOfEra / 4 - yearOfEra / 100 + dayOfYear
  era * 146097 + dayOfEra - 719468

def isLeapYear (year : ℤ) : Bool :=
  (year.tmod 4 = 0 && year.tmod 100 ≠ 0) || year.tmod 400 = 0

def daysInMonth (year : ℤ) (month : ℕ) : ℕ :=
  [31, 28, 31, 30, 31, 30, 31, 31, 30, 31, 30, 31].getD (month - 1) 0 +
    if month = 2 && isLeapYear year then 1 else 0

/-! ## Reading from left to right -/

/-- A character as the byte it is. -/
def ascii (c : Char) : UInt8 := UInt8.ofNat c.toNat

namespace DateReader

/-- What is left after a byte, where it is next. -/
def take (wanted : UInt8) : Bytes → Option Bytes
  | c :: date => if c = wanted then some date else none
  | [] => none

/-- Exactly `width` decimal digits. -/
def digits (width : ℕ) (date : Bytes) : Option (ℕ × Bytes) :=
  if date.length < width then none
  else do
    let value ← (date.take width).foldlM (fun value c =>
      if Decimal.isDigit c then some (value * 10 + Decimal.digit c) else none) 0
    return (value, date.drop width)

/-- The digits that are next, added up by their places. -/
def fractionFrom : Bytes → ℚ → ℚ → ℚ × Bytes
  | [], value, _ => (value, [])
  | c :: date, value, scale =>
    if Decimal.isDigit c then fractionFrom date (value + Decimal.digit c * scale) (scale / 10)
    else (value, c :: date)

/-- One or more decimal digits read as the fraction they spell after a point. -/
def fraction (date : Bytes) : Option (ℚ × Bytes) :=
  let read := fractionFrom date 0 (1 / 10)
  if read.2.length = date.length then none else some read

end DateReader

/-- Seconds and a fraction of them, where they are next. -/
def readSeconds (date : Bytes) : Option (ℚ × Bytes) :=
  match DateReader.take (ascii ':') date with
  | none => some (0, date)
  | some date => do
    let (second, date) ← DateReader.digits 2 date
    if second > 60 then none
    else match DateReader.take (ascii '.') date with
      | none => return (second, date)
      | some date => do
        let (fraction, date) ← DateReader.fraction date
        return (second + fraction, date)

/-- The seconds of a day, where a time is next. -/
def readTime (date : Bytes) : Option (ℚ × Bytes) :=
  match DateReader.take (ascii 'T') date <|> DateReader.take (ascii ' ') date with
  | none => some (0, date)
  | some date => do
    let (hour, date) ← DateReader.digits 2 date
    let (minute, date) ← DateReader.digits 2 (← DateReader.take (ascii ':') date)
    if hour > 23 ∨ minute > 59 then none
    else do
      let (seconds, date) ← readSeconds date
      return (hour * 3600 + minute * 60 + seconds, (DateReader.take (ascii 'Z') date).getD date)

/-- The MJD that an ISO 8601 date names. -/
def mjdOfIsoDate (text : Bytes) : Option ℚ := do
  let (year, date) ← DateReader.digits 4 text
  let (month, date) ← DateReader.digits 2 (← DateReader.take (ascii '-') date)
  let (day, date) ← DateReader.digits 2 (← DateReader.take (ascii '-') date)
  if month < 1 ∨ month > 12 ∨ day < 1 then none
  else if day > daysInMonth year month then none
  else do
    let (seconds, date) ← readTime date
    if date.length = 0 then return daysFromCivil year month day + 40587 + seconds / 86400
    else none

/-! ## Dates as they are written -/

/-- Seconds, and the digits of a fraction of them. -/
structure IsoSeconds where
  second : ℕ
  fraction : Option Bytes

structure IsoTime where
  separator : UInt8
  hour : ℕ
  minute : ℕ
  seconds : Option IsoSeconds
  zulu : Bool

structure IsoDate where
  year : ℕ
  month : ℕ
  day : ℕ
  time : Option IsoTime

def IsoSeconds.spell (seconds : IsoSeconds) : Bytes :=
  ascii ':' :: Decimal.spell 2 seconds.second ++
    (seconds.fraction.map fun digits => ascii '.' :: digits).getD []

def IsoTime.spell (time : IsoTime) : Bytes :=
  time.separator :: Decimal.spell 2 time.hour ++ ascii ':' :: Decimal.spell 2 time.minute ++
    (time.seconds.map IsoSeconds.spell).getD [] ++ if time.zulu then [ascii 'Z'] else []

/-- `YYYY-MM-DD`, and a time where there is one. -/
def IsoDate.spell (date : IsoDate) : Bytes :=
  Decimal.spell 4 date.year ++ ascii '-' :: Decimal.spell 2 date.month ++
    ascii '-' :: Decimal.spell 2 date.day ++ (date.time.map IsoTime.spell).getD []

/-- A leap second is one; a fraction has digits. -/
structure IsoSeconds.Exists (seconds : IsoSeconds) : Prop where
  second_le : seconds.second ≤ 60
  fraction : ∀ digits ∈ seconds.fraction, digits ≠ [] ∧ ∀ c ∈ digits, Decimal.isDigit c = true

structure IsoTime.Exists (time : IsoTime) : Prop where
  separator : time.separator = ascii 'T' ∨ time.separator = ascii ' '
  hour_le : time.hour ≤ 23
  minute_le : time.minute ≤ 59
  seconds : ∀ seconds ∈ time.seconds, seconds.Exists

def IsoDate.civil (date : IsoDate) : CivilDate := ⟨date.year, date.month, date.day⟩

structure IsoDate.Exists (date : IsoDate) : Prop where
  year_lt : date.year < 10 ^ 4
  civil : date.civil.Exists
  time : ∀ time ∈ date.time, time.Exists

def IsoSeconds.value (seconds : IsoSeconds) : ℚ :=
  seconds.second + (seconds.fraction.map Decimal.fraction).getD 0

/-- The seconds of the day. -/
def IsoTime.value (time : IsoTime) : ℚ :=
  3600 * time.hour + 60 * time.minute + (time.seconds.map IsoSeconds.value).getD 0

/-- The day that MJD are counted from 40587 at. -/
def unixEpoch : CivilDate := ⟨1970, 1, 1⟩

/-- The MJD of a date, its days counted one at a time. -/
def IsoDate.IsMjd (date : IsoDate) (mjd : ℚ) : Prop :=
  ∃ n : ℤ, DaysAfter unixEpoch date.civil n ∧
    mjd = 40587 + n + (date.time.map IsoTime.value).getD 0 / 86400

/-! ## Counting days -/

section Days

/-- Days to the first of March of a year. -/
def marches (year : ℤ) : ℤ := 365 * year + year / 4 - year / 100 + year / 400

theorem tdiv_era (year : ℤ) : (if 0 ≤ year then year else year - 399).tdiv 400 = year / 400 := by
  split_ifs with h
  · exact Int.tdiv_eq_ediv_of_nonneg h
  · have hneg : year - 399 = -(399 - year) := by omega
    rw [hneg, Int.neg_tdiv, Int.tdiv_eq_ediv_of_nonneg (by omega)]
    omega

theorem daysFromCivil_eq (year : ℤ) (month day : ℕ) :
    daysFromCivil year month day = marches (year - if month ≤ 2 then 1 else 0) +
      ((153 * (if month > 2 then month - 3 else month + 9) + 2) / 5 + day - 1 : ℕ) - 719468 := by
  rw [daysFromCivil]
  simp only [tdiv_era, marches]
  generalize (year - if month ≤ 2 then 1 else 0) = y
  generalize (153 * (if month > 2 then month - 3 else month + 9) + 2) / 5 + day - 1 = dayOfYear
  have hera : (y - y / 400 * 400).toNat = (y % 400).toNat := by congr 1; omega
  rw [hera]
  omega

/-- The year from one March to the next has a day more where the February in it has. -/
theorem marches_sub_one (year : ℤ) :
    marches year = marches (year - 1) + if IsLeap year then 366 else 365 := by
  unfold marches IsLeap
  split_ifs with h <;> omega

/-- **The days count up by one** from a date to the next. -/
theorem daysFromCivil_next {date : CivilDate} (h : date.Exists) :
    daysFromCivil date.next.year date.next.month date.next.day =
      daysFromCivil date.year date.month date.day + 1 := by
  obtain ⟨year, month, day⟩ := date
  obtain ⟨hmonth, hmonth', hday, hday'⟩ := h
  simp only at hmonth hmonth' hday hday'
  unfold CivilDate.next
  simp only
  split_ifs with hlater hbefore
  · rw [daysFromCivil_eq, daysFromCivil_eq]
    dsimp only
    omega
  · obtain rfl : day = monthLength year month := by omega
    have hmarches := marches_sub_one year
    rw [daysFromCivil_eq, daysFromCivil_eq]
    clear hday hday' hlater
    unfold monthLength
    interval_cases month <;> simp <;> split_ifs at * <;> omega
  · obtain rfl : month = 12 := by omega
    have hlast : day = 31 := by
      have hdecember : monthLength year 12 = 31 := rfl
      omega
    rw [daysFromCivil_eq, daysFromCivil_eq, hlast]
    simp
    omega

end Days

theorem isLeapYear_iff (year : ℤ) : isLeapYear year = true ↔ IsLeap year := by
  have htmod : ∀ n : ℤ, year.tmod n = 0 ↔ year % n = 0 := fun n => by
    rw [← Int.dvd_iff_tmod_eq_zero, Int.dvd_iff_emod_eq_zero]
  simp only [isLeapYear, IsLeap, Bool.or_eq_true, Bool.and_eq_true, decide_eq_true_eq, ne_eq, htmod]

theorem daysInMonth_eq (year : ℤ) {month : ℕ} (hpos : 1 ≤ month) (hle : month ≤ 12) :
    daysInMonth year month = monthLength year month := by
  have hleap := isLeapYear_iff year
  unfold daysInMonth monthLength
  interval_cases month <;> simp [← hleap]
  split <;> rfl

/-! ## What each step reads -/

section Reading

variable {date rest : Bytes} {n width : ℕ}

theorem take_eq_some_iff {wanted : UInt8} : DateReader.take wanted date = some rest ↔
    date = wanted :: rest := by
  cases date with
  | nil => simp [DateReader.take]
  | cons c date =>
    rw [DateReader.take, Option.ite_none_right_eq_some, List.cons.injEq, Option.some.injEq]

@[simp] theorem take_cons (wanted : UInt8) (rest : Bytes) :
    DateReader.take wanted (wanted :: rest) = some rest := take_eq_some_iff.2 rfl

/-- A list of bytes is read as the number its digits spell. -/
theorem foldlM_digits (ds : Bytes) (start : ℕ) :
    ds.foldlM (fun value c =>
      if Decimal.isDigit c then some (value * 10 + Decimal.digit c) else none) start =
    if ds.all Decimal.isDigit then
      some (ds.foldl (fun value c => value * 10 + Decimal.digit c) start) else none := by
  induction ds generalizing start with
  | nil => simp
  | cons c ds ih =>
    rw [List.foldlM_cons]
    by_cases hc : Decimal.isDigit c = true
    · rw [if_pos hc, Option.bind_eq_bind, Option.bind_some, ih]
      simp [hc]
    · rw [if_neg hc, if_neg (fun h => hc (List.all_eq_true.1 h c (by simp)))]
      rfl

/-- The digits read are those the number is written in. -/
theorem digits_eq_some_iff : DateReader.digits width date = some (n, rest) ↔
    n < 10 ^ width ∧ date = Decimal.spell width n ++ rest := by
  unfold DateReader.digits
  constructor
  · intro h
    obtain ⟨hlen, h⟩ := Option.ite_none_left_eq_some.1 h
    rw [foldlM_digits] at h
    by_cases hdigits : ∀ c ∈ date.take width, Decimal.isDigit c = true
    · rw [if_pos (List.all_eq_true.2 hdigits)] at h
      obtain ⟨rfl, rfl⟩ := Prod.mk.inj (Option.some.inj h)
      obtain ⟨hlt, hspell⟩ := Decimal.spell_value hdigits
      have hwidth : (date.take width).length = width := by
        rw [List.length_take]
        omega
      rw [hwidth] at hlt hspell
      exact ⟨hlt, by rw [← Decimal.value, hspell, List.take_append_drop]⟩
    · rw [if_neg fun h => hdigits (List.all_eq_true.1 h)] at h
      cases h
  · rintro ⟨hlt, rfl⟩
    have hlen := Decimal.spell_length width n
    rw [if_neg (by simp), foldlM_digits, List.take_left' hlen, List.drop_left' hlen,
      if_pos (List.all_eq_true.2 fun c hc => Decimal.isDigit_of_mem_spell hc), ← Decimal.value,
      Decimal.value_spell hlt]
    rfl

theorem digits_spell (h : n < 10 ^ width) (rest : Bytes) :
    DateReader.digits width (Decimal.spell width n ++ rest) = some (n, rest) :=
  digits_eq_some_iff.2 ⟨h, rfl⟩

/-- The digits before anything else are added up to the fraction they spell. -/
theorem fractionFrom_eq {ds : Bytes} (hds : ∀ c ∈ ds, Decimal.isDigit c = true)
    (hrest : ∀ c ∈ rest.head?, Decimal.isDigit c = false) (value scale : ℚ) :
    DateReader.fractionFrom (ds ++ rest) value scale =
      (value + scale * 10 * Decimal.fraction ds, rest) := by
  induction ds generalizing value scale with
  | nil =>
    have hzero : Decimal.fraction [] = 0 := by simp [Decimal.fraction, Decimal.value]
    rw [hzero, mul_zero, add_zero, List.nil_append]
    cases rest with
    | nil => rfl
    | cons c rest => rw [DateReader.fractionFrom, if_neg (by simpa using hrest c rfl)]
  | cons c ds ih =>
    rw [List.cons_append, DateReader.fractionFrom, if_pos (hds c (by simp)),
      ih fun d hd => hds d (by simp [hd]), Decimal.fraction_cons]
    congr 1
    ring

/-- The digits that are next, and what is after them. -/
theorem exists_digits (date : Bytes) : ∃ ds rest, date = ds ++ rest ∧
    (∀ c ∈ ds, Decimal.isDigit c = true) ∧ ∀ c ∈ rest.head?, Decimal.isDigit c = false := by
  refine ⟨date.takeWhile Decimal.isDigit, date.dropWhile Decimal.isDigit,
    (List.takeWhile_append_dropWhile).symm, fun c hc => List.mem_takeWhile_imp hc, fun c hc => ?_⟩
  simpa [Option.mem_def.1 hc] using List.head?_dropWhile_not Decimal.isDigit date

theorem fraction_eq {ds : Bytes} (hne : ds ≠ []) (hds : ∀ c ∈ ds, Decimal.isDigit c = true)
    (hrest : ∀ c ∈ rest.head?, Decimal.isDigit c = false) :
    DateReader.fraction (ds ++ rest) = some (Decimal.fraction ds, rest) := by
  have hlen : ¬ rest.length = (ds ++ rest).length := by
    have := List.length_pos_of_ne_nil hne
    rw [List.length_append]
    omega
  rw [DateReader.fraction, fractionFrom_eq hds hrest]
  simp only [if_neg hlen]
  norm_num

theorem fraction_eq_some {x : ℚ} (h : DateReader.fraction date = some (x, rest)) :
    ∃ ds : Bytes, ds ≠ [] ∧ (∀ c ∈ ds, Decimal.isDigit c = true) ∧ date = ds ++ rest ∧
      x = Decimal.fraction ds := by
  obtain ⟨ds, rest', rfl, hds, hrest⟩ := exists_digits date
  have hne : ds ≠ [] := by
    rintro rfl
    rw [DateReader.fraction, fractionFrom_eq hds hrest] at h
    simp at h
  rw [fraction_eq hne hds hrest] at h
  obtain ⟨rfl, rfl⟩ := Prod.mk.inj (Option.some.inj h)
  exact ⟨ds, hne, hds, rfl, rfl⟩

/-- What may be left after the seconds of a time. -/
def Ends (rest : Bytes) : Prop := rest = [] ∨ rest = [ascii 'Z']

theorem readSeconds_spell {seconds : Option IsoSeconds} (h : ∀ s ∈ seconds, s.Exists)
    (hrest : Ends rest) :
    readSeconds ((seconds.map IsoSeconds.spell).getD [] ++ rest) =
      some ((seconds.map IsoSeconds.value).getD 0, rest) := by
  have hcolon : DateReader.take (ascii ':') rest = none := by rcases hrest with rfl | rfl <;> rfl
  have hpoint : DateReader.take (ascii '.') rest = none := by rcases hrest with rfl | rfl <;> rfl
  have hdigit : ∀ c ∈ rest.head?, Decimal.isDigit c = false := by
    rcases hrest with rfl | rfl
    · rintro c ⟨⟩
    · rintro c ⟨⟩
      rfl
  cases seconds with
  | none => simp [readSeconds, hcolon]
  | some seconds =>
    obtain ⟨second, fraction⟩ := seconds
    obtain ⟨hsecond, hfraction⟩ := h _ rfl
    have hlt : second < 10 ^ 2 := lt_of_le_of_lt hsecond (by norm_num)
    have hle : ¬ second > 60 := not_lt.2 hsecond
    cases fraction with
    | none =>
      simp [readSeconds, IsoSeconds.spell, IsoSeconds.value, digits_spell hlt, hle, hpoint]
    | some digits =>
      obtain ⟨hne, hdigits⟩ := hfraction digits rfl
      simp [readSeconds, IsoSeconds.spell, IsoSeconds.value, digits_spell hlt, hle,
        fraction_eq hne hdigits hdigit]

theorem readSeconds_eq_some {x : ℚ} (h : readSeconds date = some (x, rest)) :
    ∃ seconds : Option IsoSeconds, (∀ s ∈ seconds, s.Exists) ∧
      date = (seconds.map IsoSeconds.spell).getD [] ++ rest ∧
      x = (seconds.map IsoSeconds.value).getD 0 := by
  rw [readSeconds] at h
  cases hcolon : DateReader.take (ascii ':') date with
  | none =>
    rw [hcolon] at h
    obtain ⟨rfl, rfl⟩ := Prod.mk.inj (Option.some.inj h)
    exact ⟨none, by simp, rfl, rfl⟩
  | some date₁ =>
    rw [hcolon] at h
    dsimp only at h
    obtain rfl := take_eq_some_iff.1 hcolon
    simp only [Option.bind_eq_bind, Option.bind_eq_some_iff, Option.ite_none_left_eq_some,
      Prod.exists] at h
    obtain ⟨second, date₂, hdigits, hle, h⟩ := h
    obtain ⟨-, rfl⟩ := digits_eq_some_iff.1 hdigits
    cases hpoint : DateReader.take (ascii '.') date₂ with
    | none =>
      rw [hpoint] at h
      obtain ⟨rfl, rfl⟩ := Prod.mk.inj (Option.some.inj h)
      refine ⟨some ⟨second, none⟩, ?_, by simp [IsoSeconds.spell], by simp [IsoSeconds.value]⟩
      rintro s ⟨⟩
      exact ⟨not_lt.1 hle, by simp⟩
    | some date₃ =>
      rw [hpoint] at h
      dsimp only at h
      obtain rfl := take_eq_some_iff.1 hpoint
      simp only [Option.bind_eq_some_iff, Prod.exists] at h
      obtain ⟨fraction, _, hfraction, h⟩ := h
      obtain ⟨rfl, rfl⟩ := Prod.mk.inj (Option.some.inj h)
      obtain ⟨digits, hne, hall, rfl, rfl⟩ := fraction_eq_some hfraction
      refine ⟨some ⟨second, some digits⟩,
        ?_, by simp [IsoSeconds.spell], by simp [IsoSeconds.value]⟩
      rintro s ⟨⟩
      refine ⟨not_lt.1 hle, ?_⟩
      rintro ds ⟨⟩
      exact ⟨hne, hall⟩

theorem readTime_spell {time : Option IsoTime} (h : ∀ t ∈ time, t.Exists) :
    readTime ((time.map IsoTime.spell).getD []) = some ((time.map IsoTime.value).getD 0, []) := by
  cases time with
  | none => rfl
  | some time =>
    obtain ⟨separator, hour, minute, seconds, zulu⟩ := time
    obtain ⟨hseparator, hhour, hminute, hseconds⟩ := h _ rfl
    simp only at hseparator hhour hminute hseconds
    have htaken : ∀ rest : Bytes, (DateReader.take (ascii 'T') (separator :: rest) <|>
        DateReader.take (ascii ' ') (separator :: rest)) = some rest := by
      intro rest
      rcases hseparator with rfl | rfl <;> rfl
    have hhour' : hour < 10 ^ 2 := lt_of_le_of_lt hhour (by norm_num)
    have hminute' : minute < 10 ^ 2 := lt_of_le_of_lt hminute (by norm_num)
    have hends : Ends (if zulu then [ascii 'Z'] else []) := by cases zulu <;> simp [Ends]
    have hzulu : (DateReader.take (ascii 'Z') (if zulu then [ascii 'Z'] else [])).getD
        (if zulu then [ascii 'Z'] else []) = [] := by cases zulu <;> rfl
    have hle : ¬ (hour > 23 ∨ minute > 59) := by omega
    simp only [Option.map_some, Option.getD_some, IsoTime.spell,
      List.cons_append, List.append_assoc,
      readTime, htaken, digits_spell hhour', Option.bind_eq_bind, Option.bind_some, take_cons,
      digits_spell hminute', if_neg hle, readSeconds_spell hseconds hends, hzulu, IsoTime.value]
    rw [mul_comm (hour : ℚ), mul_comm (minute : ℚ)]
    rfl

/-- A separator that is taken is one of the two. -/
theorem separator_eq_some
    (h : (DateReader.take (ascii 'T') date <|> DateReader.take (ascii ' ') date) = some rest) :
    ∃ separator, (separator = ascii 'T' ∨ separator = ascii ' ') ∧ date = separator :: rest := by
  cases hT : DateReader.take (ascii 'T') date with
  | some rest =>
    rw [hT] at h
    obtain rfl := Option.some.inj h
    exact ⟨_, Or.inl rfl, take_eq_some_iff.1 hT⟩
  | none =>
    rw [hT] at h
    exact ⟨_, Or.inr rfl, take_eq_some_iff.1 h⟩

theorem readTime_eq_some {x : ℚ} (h : readTime date = some (x, [])) :
    ∃ time : Option IsoTime, (∀ t ∈ time, t.Exists) ∧ date = (time.map IsoTime.spell).getD [] ∧
      x = (time.map IsoTime.value).getD 0 := by
  rw [readTime] at h
  cases hseparator : (DateReader.take (ascii 'T') date <|> DateReader.take (ascii ' ') date) with
  | none =>
    rw [hseparator] at h
    obtain ⟨rfl, rfl⟩ := Prod.mk.inj (Option.some.inj h)
    exact ⟨none, by simp, rfl, rfl⟩
  | some date' =>
    rw [hseparator] at h
    dsimp only at h
    obtain ⟨separator, hsep, rfl⟩ := separator_eq_some hseparator
    simp only [Option.bind_eq_bind, Option.bind_eq_some_iff, Option.ite_none_left_eq_some,
      Prod.exists] at h
    obtain ⟨hour, date₁, hdigits₁, date₂, hcolon, minute, date₃, hdigits₂, hle,
      seconds, date₄, hseconds,
      h⟩ := h
    obtain ⟨-, rfl⟩ := digits_eq_some_iff.1 hdigits₁
    obtain rfl := take_eq_some_iff.1 hcolon
    obtain ⟨-, rfl⟩ := digits_eq_some_iff.1 hdigits₂
    obtain ⟨seconds, hexists, rfl, rfl⟩ := readSeconds_eq_some hseconds
    obtain ⟨rfl, hdone⟩ := Prod.mk.inj (Option.some.inj h)
    have hzulu : ∃ zulu : Bool, date₄ = if zulu then [ascii 'Z'] else [] := by
      cases hZ : DateReader.take (ascii 'Z') date₄ with
      | none =>
        rw [hZ] at hdone
        exact ⟨false, hdone⟩
      | some rest =>
        rw [hZ] at hdone
        obtain rfl : rest = [] := hdone
        exact ⟨true, take_eq_some_iff.1 hZ⟩
    obtain ⟨zulu, rfl⟩ := hzulu
    refine ⟨some ⟨separator, hour, minute, seconds, zulu⟩, ?_, by simp [IsoTime.spell], ?_⟩
    · rintro t ⟨⟩
      exact ⟨hsep, by simp only; omega, by simp only; omega, hexists⟩
    · simp only [Option.map_some, Option.getD_some, IsoTime.value]
      rw [mul_comm (hour : ℚ), mul_comm (minute : ℚ)]

end Reading

/-- The count of days is the number of days from 1970-01-01. -/
theorem daysAfter_iff {date : CivilDate} (h : date.Exists) {n : ℤ} :
    DaysAfter unixEpoch date n ↔ n = daysFromCivil date.year date.month date.day := by
  have hcount : ∀ {n : ℤ}, DaysAfter unixEpoch date n →
      n = daysFromCivil date.year date.month date.day := by
    intro n hn
    have hcount := @DaysAfter.eq_of_step _ _ (fun date =>
      daysFromCivil date.year date.month date.day)
      (fun _ => daysFromCivil_next) (exists_newYear 1970) h _ hn
    have hepoch : daysFromCivil 1970 1 1 = 0 := by decide
    simpa only [hepoch, zero_add] using hcount.symm
  refine ⟨hcount, ?_⟩
  rintro rfl
  obtain ⟨n, hn⟩ := h.exists_daysAfter 1970
  exact hcount hn ▸ hn

/-- **A date is read** just in case it is one in the calendar, written as the standard has it and
with nothing after it, and it is read as the MJD it names. -/
theorem mjdOfIsoDate_eq_some_iff (text : Bytes) (mjd : ℚ) :
    mjdOfIsoDate text = some mjd ↔ ∃ date : IsoDate, date.Exists ∧ date.spell = text ∧
    date.IsMjd mjd := by
  constructor
  · intro h
    simp only [mjdOfIsoDate, Option.bind_eq_bind, Option.bind_eq_some_iff,
      Option.ite_none_left_eq_some,
      Option.ite_none_right_eq_some, Prod.exists] at h
    obtain ⟨year, date₁, hyear, date₂, hdash, month, date₃, hmonth, date₄, hdash', day, date₅, hday,
      hcalendar, hlength, seconds, date₆, htime, hdone, h⟩ := h
    obtain ⟨hyear', rfl⟩ := digits_eq_some_iff.1 hyear
    obtain rfl := take_eq_some_iff.1 hdash
    obtain ⟨-, rfl⟩ := digits_eq_some_iff.1 hmonth
    obtain rfl := take_eq_some_iff.1 hdash'
    obtain ⟨-, rfl⟩ := digits_eq_some_iff.1 hday
    obtain rfl := List.length_eq_zero_iff.1 hdone
    obtain ⟨time, htime', rfl, rfl⟩ := readTime_eq_some htime
    have hexists : CivilDate.Exists ⟨year, month, day⟩ := by
      rw [daysInMonth_eq _ (by omega) (by omega)] at hlength
      exact ⟨by simp only; omega, by simp only; omega, by simp only; omega, not_lt.1 hlength⟩
    refine ⟨⟨year, month, day, time⟩, ⟨hyear', hexists, htime'⟩, by simp [IsoDate.spell],
      _, (daysAfter_iff hexists).2 rfl, ?_⟩
    rw [← Option.some.inj h, add_comm (40587 : ℚ)]
  · rintro ⟨⟨year, month, day, time⟩, ⟨hyear, hexists, htime⟩, rfl, n, hn, rfl⟩
    obtain rfl := (daysAfter_iff hexists).1 hn
    obtain ⟨hmonth, hmonth', hday, hday'⟩ := hexists
    simp only [IsoDate.civil] at hyear hmonth hmonth' hday hday'
    have hmonth'' : month < 10 ^ 2 := by omega
    have hday'' : day < 10 ^ 2 := by
      have : monthLength year month ≤ 31 := by
        unfold monthLength
        split_ifs <;> omega
      omega
    have hcalendar : ¬ (month < 1 ∨ month > 12 ∨ day < 1) := by omega
    have hlength : ¬ day > daysInMonth year month := by
      rw [daysInMonth_eq _ hmonth hmonth']
      exact not_lt.2 hday'
    simp only [IsoDate.spell, List.append_assoc, List.cons_append, mjdOfIsoDate, digits_spell hyear,
      digits_spell hmonth'', digits_spell hday'', Option.bind_eq_bind, Option.bind_some, take_cons,
      if_neg hcalendar, if_neg hlength, readTime_spell htime, List.length_nil,
      if_true, IsoDate.civil]
    rw [add_comm (40587 : ℚ)]
    rfl

theorem IsoDate.Exists.exists_isMjd {date : IsoDate} (h : date.Exists) : ∃ mjd, date.IsMjd mjd :=
  ⟨_, _, (daysAfter_iff h.civil).2 rfl, rfl⟩

/-- **What is accepted** is a date of the calendar, written as the standard has it and with nothing
after it, and it is read as the MJD it names. -/
theorem mjdOfIsoDate_reads (text : Bytes) :
    ((mjdOfIsoDate text).isSome ↔ ∃ date : IsoDate, date.Exists ∧ date.spell = text) ∧
    ∀ date : IsoDate, date.Exists → date.spell = text →
      ∀ mjd, mjdOfIsoDate text = some mjd ↔ date.IsMjd mjd := by
  refine ⟨⟨fun h => ?_, ?_⟩, fun date hdate htext mjd => ⟨fun h => ?_, fun h => ?_⟩⟩
  · obtain ⟨mjd, hmjd⟩ := Option.isSome_iff_exists.1 h
    obtain ⟨date, hdate, htext, -⟩ := (mjdOfIsoDate_eq_some_iff text mjd).1 hmjd
    exact ⟨date, hdate, htext⟩
  · rintro ⟨date, hdate, htext⟩
    obtain ⟨mjd, hmjd⟩ := hdate.exists_isMjd
    exact Option.isSome_iff_exists.2
      ⟨mjd, (mjdOfIsoDate_eq_some_iff text mjd).2 ⟨date, hdate, htext, hmjd⟩⟩
  · obtain ⟨mjd', hmjd⟩ := hdate.exists_isMjd
    have hread := (mjdOfIsoDate_eq_some_iff text mjd').2 ⟨date, hdate, htext, hmjd⟩
    rwa [Option.some.inj (h.symm.trans hread)]
  · exact (mjdOfIsoDate_eq_some_iff text mjd).2 ⟨date, hdate, htext, h⟩

example : mjdOfIsoDate (spelled "2016-12-31T23:59:60") = some 57754 := by decide +kernel

example : mjdOfIsoDate (spelled "2020-05-31Z") = none := by decide +kernel

theorem mjdOfIsoDate_reads_day :
    mjdOfIsoDate (IsoDate.spell ⟨1970, 1, 1, none⟩) = some 40587 := by
  refine ((mjdOfIsoDate_reads _).2 ⟨1970, 1, 1, none⟩
    ⟨by decide, ⟨by decide, by decide, by decide, by decide⟩, by simp⟩ rfl 40587).2 ?_
  exact ⟨0, Or.inl ⟨le_rfl, rfl⟩, by norm_num⟩

end CartaZarr
