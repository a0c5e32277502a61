import Mathlib.Data.Nat.Basic
import Mathlib.Order.Defs.LinearOrder
import Mathlib.Tactic.IntervalCases
import Mathlib.Tactic.SplitIfs

/-!
# The proleptic Gregorian calendar

A date is a year, a month of it and a day of the month. The day number of a date
counts the days from the first of January of the year 0, so it grows by one from a
date to the next and orders the dates as their years, months and days do.
-/

namespace Gregorian

def IsLeap (year : Nat) : Prop := year % 4 = 0 ∧ (year % 100 ≠ 0 ∨ year % 400 = 0)

instance (year : Nat) : Decidable (IsLeap year) := inferInstanceAs (Decidable (_ ∧ _))

def monthLength (year : Nat) : Nat → Nat
  | 2 => if IsLeap year then 29 else 28
  | 4 | 6 | 9 | 11 => 30
  | 1 | 3 | 5 | 7 | 8 | 10 | 12 => 31
  | _ => 0

structure Date where
  year : Nat
  month : Nat
  day : Nat
  one_le_month : 1 ≤ month
  month_le : month ≤ 12
  one_le_day : 1 ≤ day
  day_le : day ≤ monthLength year month
deriving DecidableEq

def daysBeforeMonth (year : Nat) : Nat → Nat
  | 0 => 0
  | month + 1 => daysBeforeMonth year month + monthLength year month

def yearLength (year : Nat) : Nat := daysBeforeMonth year 13

def daysBeforeYear : Nat → Nat
  | 0 => 0
  | year + 1 => daysBeforeYear year + yearLength year

theorem monthLength_pos {year month : Nat} (h : 1 ≤ month) (h' : month ≤ 12) :
    1 ≤ monthLength year month := by
  interval_cases month <;> simp only [monthLength] <;> first | omega | (split_ifs <;> omega)

theorem yearLength_eq (year : Nat) : yearLength year = if IsLeap year then 366 else 365 := by
  simp only [yearLength, daysBeforeMonth, monthLength]
  split_ifs <;> rfl

theorem daysBeforeMonth_mono (year : Nat) {m n : Nat} (h : m ≤ n) :
    daysBeforeMonth year m ≤ daysBeforeMonth year n := by
  induction h with
  | refl => rfl
  | step _ ih => exact ih.trans (Nat.le_add_right _ _)

theorem daysBeforeYear_mono {y z : Nat} (h : y ≤ z) : daysBeforeYear y ≤ daysBeforeYear z := by
  induction h with
  | refl => rfl
  | step _ ih => exact ih.trans (Nat.le_add_right _ _)

theorem div_succ (y k : Nat) : (y + 1) / k = y / k + if (y + 1) % k = 0 then 1 else 0 := by
  rw [Nat.succ_div]
  simp only [Nat.dvd_iff_mod_eq_zero]

/-- The leap days before a year are one for each fourth year, less the centuries, and one for
each fourth century. -/
theorem daysBeforeYear_succ (y : Nat) :
    daysBeforeYear (y + 1) + y / 100 = 365 * (y + 1) + 1 + y / 4 + y / 400 := by
  induction y with
  | zero => rfl
  | succ y ih =>
    rw [daysBeforeYear, yearLength_eq, div_succ y 4, div_succ y 100, div_succ y 400]
    have hcentury : (y + 1) % 100 = 0 → (y + 1) % 4 = 0 := by omega
    have hera : (y + 1) % 400 = 0 → (y + 1) % 100 = 0 := by omega
    unfold IsLeap
    by_cases hfour : (y + 1) % 4 = 0
    · by_cases hhundred : (y + 1) % 100 = 0
      · by_cases hfourHundred : (y + 1) % 400 = 0
        · simp only [hfour, hhundred, hfourHundred, ne_eq, not_true_eq_false, or_true, and_self,
            if_true]
          omega
        · simp only [hfour, hhundred, hfourHundred, ne_eq, not_true_eq_false, or_self, and_false,
            if_true, if_false]
          omega
      · have hnot := mt hera hhundred
        simp only [hfour, hhundred, hnot, ne_eq, not_false_eq_true, true_or, and_self, if_true,
          if_false]
        omega
    · have hnot := mt hcentury hfour
      have hnot' := mt hera hnot
      simp only [hfour, hnot, hnot', false_and, if_false]
      omega

theorem daysBeforeMonth_march (year : Nat) {m : Nat} (h : m ≤ 10) :
    daysBeforeMonth year (m + 3) = daysBeforeMonth year 3 + (153 * m + 2) / 5 := by
  interval_cases m <;> simp only [daysBeforeMonth, monthLength] <;> omega

theorem daysBeforeYear_march (y : Nat) :
    daysBeforeYear y + daysBeforeMonth y 3 + y / 100 = 365 * y + 60 + y / 4 + y / 400 := by
  have hnext := daysBeforeYear_succ y
  have hlength : yearLength y = daysBeforeMonth y 3 + 306 :=
    daysBeforeMonth_march y le_rfl
  rw [daysBeforeYear] at hnext
  omega

namespace Date

def dayNumber (d : Date) : Nat :=
  daysBeforeYear d.year + daysBeforeMonth d.year d.month + (d.day - 1)

def next (d : Date) : Date :=
  if h : d.day < monthLength d.year d.month then
    ⟨d.year, d.month, d.day + 1, d.one_le_month, d.month_le, Nat.le_add_left _ _, h⟩
  else if h : d.month < 12 then
    ⟨d.year, d.month + 1, 1, Nat.le_add_left _ _, h, le_rfl, monthLength_pos (by omega) h⟩
  else
    ⟨d.year + 1, 1, 1, le_rfl, by omega, le_rfl, monthLength_pos le_rfl (by omega)⟩

/-- The order of dates: by year, then by month, then by day. -/
def Before (d e : Date) : Prop :=
  d.year < e.year ∨ d.year = e.year ∧ (d.month < e.month ∨ d.month = e.month ∧ d.day < e.day)

theorem ext {d e : Date} (hy : d.year = e.year) (hm : d.month = e.month) (hd : d.day = e.day) :
    d = e := by
  cases d
  cases e
  subst hy hm hd
  rfl

theorem dayNumber_next (d : Date) : d.next.dayNumber = d.dayNumber + 1 := by
  have h₁ := d.one_le_day
  have h₂ := d.day_le
  have h₃ := d.month_le
  unfold next
  split_ifs with hday hmonth
  · simp only [dayNumber]
    omega
  · simp only [dayNumber, daysBeforeMonth]
    omega
  · have hm : d.month = 12 := by omega
    have hstart : daysBeforeMonth (d.year + 1) 1 = 0 := rfl
    have hlength : yearLength d.year = daysBeforeMonth d.year 12 + monthLength d.year 12 := rfl
    rw [hm] at hday h₂
    simp only [dayNumber, daysBeforeYear, hm, hstart]
    omega

theorem dayNumber_lt_of_before {d e : Date} (h : d.Before e) : d.dayNumber < e.dayNumber := by
  have hd := d.day_le
  have hd' := d.one_le_day
  have he := e.one_le_day
  have hend : daysBeforeMonth d.year d.month + monthLength d.year d.month =
    daysBeforeMonth d.year (d.month + 1) := rfl
  unfold dayNumber
  rcases h with hy | ⟨hy, hm | ⟨hm, hlt⟩⟩
  · have hyear : daysBeforeYear (d.year + 1) = daysBeforeYear d.year + yearLength d.year := rfl
    have hle : daysBeforeYear (d.year + 1) ≤ daysBeforeYear e.year := daysBeforeYear_mono hy
    have hmonth : daysBeforeMonth d.year (d.month + 1) ≤ yearLength d.year :=
      daysBeforeMonth_mono _ (Nat.succ_le_succ d.month_le)
    omega
  · have hle : daysBeforeMonth d.year (d.month + 1) ≤ daysBeforeMonth d.year e.month :=
      daysBeforeMonth_mono _ hm
    rw [← hy]
    omega
  · rw [← hy, ← hm]
    omega

theorem before_trichotomy (d e : Date) : d.Before e ∨ d = e ∨ e.Before d := by
  unfold Before
  by_cases hy : d.year = e.year
  · by_cases hm : d.month = e.month
    · by_cases hd : d.day = e.day
      · exact Or.inr (Or.inl (ext hy hm hd))
      · omega
    · omega
  · omega

theorem before_iff_dayNumber_lt {d e : Date} : d.Before e ↔ d.dayNumber < e.dayNumber := by
  constructor
  · exact dayNumber_lt_of_before
  · intro h
    rcases before_trichotomy d e with hb | rfl | hb
    · exact hb
    · exact absurd h (lt_irrefl _)
    · exact absurd h (dayNumber_lt_of_before hb).not_gt

theorem dayNumber_injective : Function.Injective dayNumber := by
  intro d e h
  rcases before_trichotomy d e with hb | heq | hb
  · exact absurd h (dayNumber_lt_of_before hb).ne
  · exact heq
  · exact absurd h (dayNumber_lt_of_before hb).ne'

end Date
end Gregorian
