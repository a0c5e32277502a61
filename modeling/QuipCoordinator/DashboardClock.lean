import QuipCoordinator.FoundationCalendar
import QuipCoordinator.FoundationDecimal

/-!
# The clock of the dashboard

The status of the coordinator names the last accepted proof by a text with the date
and the time of day. `civilFromDays` finds the date in a year that starts in March
and an era of 400 such years, with sums, differences and products of 64 bits. One
that leaves its range is `none`.
-/

namespace QuipCoordinator

namespace U64

def add (a b : Nat) : Option Nat := if a + b < 2 ^ 64 then some (a + b) else none
def mul (a b : Nat) : Option Nat := if a * b < 2 ^ 64 then some (a * b) else none
def sub (a b : Nat) : Option Nat := if b ≤ a then some (a - b) else none

theorem add_eq {a b : Nat} (h : a + b < 2 ^ 64) : add a b = some (a + b) := if_pos h
theorem mul_eq {a b : Nat} (h : a * b < 2 ^ 64) : mul a b = some (a * b) := if_pos h
theorem sub_eq {a b : Nat} (h : b ≤ a) : sub a b = some (a - b) := if_pos h

end U64

def monthFromMarch (mp : Nat) : Option Nat := if mp < 10 then U64.add mp 3 else U64.sub mp 9

/-- The date of day `z` from the first of March of the year 0. -/
def civilFromMarch (z : Nat) : Option (Nat × Nat × Nat) := do
  let era := z / 146097
  let doe := z % 146097
  let yoe := (← U64.sub (← U64.add (← U64.sub doe (doe / 1460)) (doe / 36524))
    (doe / 146096)) / 365
  let doy ← U64.sub doe (← U64.sub (← U64.add (← U64.mul 365 yoe) (yoe / 4)) (yoe / 100))
  let mp := (← U64.add (← U64.mul 5 doy) 2) / 153
  let day ← U64.add (← U64.sub doy ((← U64.add (← U64.mul 153 mp) 2) / 5)) 1
  let month ← monthFromMarch mp
  let year ← U64.add (← U64.add yoe (← U64.mul era 400)) (if month ≤ 2 then 1 else 0)
  pure (year, month, day)

def civilFromDays (days : Nat) : Option (Nat × Nat × Nat) := do
  let z ← U64.add days 719468
  civilFromMarch z

/-- A day of the era: `century`, then `quad` of four years, then `year`, then `day` of the year.
A year has its day 365 when it ends with a leap day. -/
structure EraDay where
  century : Nat
  quad : Nat
  year : Nat
  day : Nat
  century_le : century ≤ 3
  quad_le : quad ≤ 24
  year_le : year ≤ 3
  day_le : day ≤ 365
  leap : day = 365 → year = 3 ∧ (quad < 24 ∨ century = 3)

namespace EraDay

def doe (e : EraDay) : Nat := 36524 * e.century + 1461 * e.quad + 365 * e.year + e.day
def yoe (e : EraDay) : Nat := 100 * e.century + 4 * e.quad + e.year

theorem exists_doe {doe : Nat} (h : doe < 146097) : ∃ e : EraDay, e.doe = doe := by
  obtain ⟨a, ha⟩ : ∃ a, a = min (doe / 36524) 3 := ⟨_, rfl⟩
  obtain ⟨b, hb⟩ : ∃ b, b = (doe - 36524 * a) / 1461 := ⟨_, rfl⟩
  obtain ⟨c, hc⟩ : ∃ c, c = min ((doe - 36524 * a - 1461 * b) / 365) 3 := ⟨_, rfl⟩
  obtain ⟨r, hr⟩ : ∃ r, r = doe - 36524 * a - 1461 * b - 365 * c := ⟨_, rfl⟩
  have hsum : 36524 * a + 1461 * b + 365 * c + r = doe := by omega
  exact ⟨⟨a, b, c, r, by omega, by omega, by omega, by omega, by omega⟩, hsum⟩

variable (e : EraDay)

theorem doe_lt : e.doe < 146097 := by
  have := e.century_le
  have := e.quad_le
  have := e.year_le
  have := e.day_le
  unfold doe
  omega

theorem yoe_eq : (e.doe - e.doe / 1460 + e.doe / 36524 - e.doe / 146096) / 365 = e.yoe := by
  obtain ⟨a, b, c, r, ha, hb, hc, hr, hl⟩ := e
  obtain ⟨doe, hd⟩ : ∃ doe, doe = 36524 * a + 1461 * b + 365 * c + r := ⟨_, rfl⟩
  simp only [EraDay.doe, yoe, ← hd]
  by_cases hlast : doe = 146096
  · have : a = 3 ∧ b = 24 ∧ c = 3 := by omega
    obtain ⟨rfl, rfl, rfl⟩ := this
    rw [hlast]
  · have hcentury : doe / 36524 = a := by omega
    have hera : doe / 146096 = 0 := by omega
    rw [hcentury, hera]
    have hquad : doe = 1460 * (25 * a + b) + (24 * a + b + 365 * c + r) := by omega
    clear hcentury hera
    -- the days over the whole quads may fill one more slice of 1460
    by_cases hcarry : 24 * a + b + 365 * c + r < 1460
    · have hq : doe / 1460 = 25 * a + b := by omega
      rw [hq]
      omega
    · have hq : doe / 1460 = 25 * a + b + 1 := by omega
      rw [hq]
      omega

theorem yoe_div_four : e.yoe / 4 = 25 * e.century + e.quad := by
  have := e.year_le
  unfold yoe
  omega

theorem yoe_div_hundred : e.yoe / 100 = e.century := by
  have := e.year_le
  have := e.quad_le
  unfold yoe
  omega

theorem yoe_lt : e.yoe < 400 := by
  have := e.century_le
  have := e.year_le
  have := e.quad_le
  unfold yoe
  omega

def mp : Nat := (5 * e.day + 2) / 153
def month : Nat := if e.mp < 10 then e.mp + 3 else e.mp - 9
def dayOfMonth : Nat := e.day - (153 * e.mp + 2) / 5 + 1
def yearOf (era : Nat) : Nat := e.yoe + era * 400 + if e.month ≤ 2 then 1 else 0

theorem mp_le : e.mp ≤ 11 := by
  have := e.day_le
  unfold mp
  omega

theorem monthStart_le : (153 * e.mp + 2) / 5 ≤ e.day := by
  unfold mp
  omega

theorem monthFromMarch_mp : monthFromMarch e.mp = some e.month := by
  have := e.mp_le
  unfold monthFromMarch month
  split_ifs
  · exact U64.add_eq (by omega)
  · exact U64.sub_eq (by omega)

theorem yearStart_le : 365 * e.yoe + e.yoe / 4 - e.yoe / 100 ≤ e.doe := by
  rw [yoe_div_four, yoe_div_hundred]
  unfold doe yoe
  omega

theorem doe_sub_yearStart : e.doe - (365 * e.yoe + e.yoe / 4 - e.yoe / 100) = e.day := by
  rw [yoe_div_four, yoe_div_hundred]
  unfold doe yoe
  omega

theorem day_lt_monthEnd : e.day < (153 * (e.mp + 1) + 2) / 5 := by
  unfold mp
  omega

theorem isLeap_succ (era : Nat) (h : e.day = 365) : Gregorian.IsLeap (e.yoe + era * 400 + 1) := by
  obtain ⟨hyear, hend⟩ := e.leap h
  have := e.quad_le
  unfold Gregorian.IsLeap yoe
  omega

theorem dayOfMonth_le (era : Nat) :
    e.dayOfMonth ≤ Gregorian.monthLength (e.yearOf era) e.month := by
  have hstart := e.monthStart_le
  have hmp := e.mp_le
  obtain ⟨m, hm⟩ : ∃ m, m = e.mp := ⟨_, rfl⟩
  by_cases hfeb : e.mp = 11
  · have hmonth : e.month = 2 := by simp [month, hfeb]
    have hday := e.day_le
    have hleap := e.isLeap_succ era
    simp only [dayOfMonth, yearOf, hmonth, hfeb, Gregorian.monthLength, le_refl, if_true]
    split_ifs with h
    · omega
    · have : e.day ≠ 365 := fun hd => h (hleap hd)
      omega
  · have hend := e.day_lt_monthEnd
    unfold dayOfMonth month
    rw [← hm] at hstart hend hmp hfeb ⊢
    interval_cases m <;> simp [Gregorian.monthLength] <;> omega

def date (era : Nat) : Gregorian.Date where
  year := e.yearOf era
  month := e.month
  day := e.dayOfMonth
  one_le_month := by
    unfold month
    split_ifs <;> omega
  month_le := by
    have := e.mp_le
    unfold month
    split_ifs <;> omega
  one_le_day := Nat.le_add_left _ _
  day_le := e.dayOfMonth_le era

theorem firstOfMarch (era : Nat) : Gregorian.daysBeforeYear (e.yoe + era * 400) +
    Gregorian.daysBeforeMonth (e.yoe + era * 400) 3 + e.day = 146097 * era + e.doe + 60 := by
  have hmarch := Gregorian.daysBeforeYear_march (e.yoe + era * 400)
  have hyear := e.year_le
  have hquad := e.quad_le
  have hcentury := e.century_le
  have hfour : (e.yoe + era * 400) / 4 = 100 * era + (25 * e.century + e.quad) := by
    unfold yoe
    omega
  have hhundred : (e.yoe + era * 400) / 100 = 4 * era + e.century := by
    unfold yoe
    omega
  have hera : (e.yoe + era * 400) / 400 = era := by
    unfold yoe
    omega
  rw [hfour, hhundred, hera] at hmarch
  have hdoe : e.doe = 36524 * e.century + 1461 * e.quad + 365 * e.year + e.day := rfl
  have hyoe : e.yoe = 100 * e.century + 4 * e.quad + e.year := rfl
  omega

theorem dayNumber_date (era : Nat) : (e.date era).dayNumber = 146097 * era + e.doe + 60 := by
  have hfirst := e.firstOfMarch era
  have hstart := e.monthStart_le
  have hmp := e.mp_le
  have hday : (e.date era).day - 1 = e.day - (153 * e.mp + 2) / 5 := rfl
  rw [Gregorian.Date.dayNumber, hday]
  change Gregorian.daysBeforeYear (e.yearOf era) +
    Gregorian.daysBeforeMonth (e.yearOf era) e.month + _ = _
  by_cases h : e.mp < 10
  · have hmonth : e.month = e.mp + 3 := if_pos h
    have hy : e.yearOf era = e.yoe + era * 400 := by
      unfold yearOf
      rw [if_neg (by omega), Nat.add_zero]
    rw [hmonth, hy, Gregorian.daysBeforeMonth_march _ (by omega)]
    omega
  · have hmonth : e.month = e.mp - 9 := if_neg h
    have hy : e.yearOf era = e.yoe + era * 400 + 1 := by
      unfold yearOf
      rw [if_pos (by omega)]
    have hlength : Gregorian.yearLength (e.yoe + era * 400) =
        Gregorian.daysBeforeMonth (e.yoe + era * 400) 3 + 306 :=
      Gregorian.daysBeforeMonth_march _ le_rfl
    rw [hmonth, hy, Gregorian.daysBeforeYear, hlength]
    have hcases : e.mp = 10 ∨ e.mp = 11 := by omega
    rcases hcases with hmp | hmp
    · have hjan : Gregorian.daysBeforeMonth (e.yoe + era * 400 + 1) (10 - 9) = 0 := rfl
      rw [hmp] at hstart ⊢
      rw [hjan]
      omega
    · have hfeb : Gregorian.daysBeforeMonth (e.yoe + era * 400 + 1) (11 - 9) = 31 := rfl
      rw [hmp] at hstart ⊢
      rw [hfeb]
      omega

end EraDay

/-- Nothing leaves the range of 64 bits. -/
theorem civilFromMarch_eq {z era : Nat} {e : EraDay} (hlt : z < 2 ^ 64)
    (hz : z = 146097 * era + e.doe) :
    civilFromMarch z = some (e.yearOf era, e.month, e.dayOfMonth) := by
  have hdoe := e.doe_lt
  have hera : z / 146097 = era := by omega
  have hmod : z % 146097 = e.doe := by omega
  have hyoe := e.yoe_lt
  have hday := e.day_le
  have hmp := e.mp_le
  have hstart := e.monthStart_le
  rw [civilFromMarch, hera, hmod]
  dsimp only [Option.bind_eq_bind]
  rw [U64.sub_eq (Nat.div_le_self _ _), Option.bind_some, U64.add_eq (by omega), Option.bind_some,
    U64.sub_eq (by omega), Option.bind_some, e.yoe_eq, U64.mul_eq (by omega), Option.bind_some,
    U64.add_eq (by omega), Option.bind_some, U64.sub_eq (by omega), Option.bind_some,
    U64.sub_eq e.yearStart_le, Option.bind_some, e.doe_sub_yearStart, U64.mul_eq (by omega),
    Option.bind_some, U64.add_eq (by omega), Option.bind_some]
  change (U64.mul 153 e.mp).bind _ = _
  rw [U64.mul_eq (by omega), Option.bind_some, U64.add_eq (by omega), Option.bind_some,
    U64.sub_eq hstart, Option.bind_some, U64.add_eq (by omega), Option.bind_some]
  change (monthFromMarch e.mp).bind _ = _
  rw [e.monthFromMarch_mp, Option.bind_some, U64.mul_eq (by omega), Option.bind_some,
    U64.add_eq (by omega), Option.bind_some, U64.add_eq (by split_ifs <;> omega),
    Option.bind_some]
  rfl

def epochDay : Nat := 719528

theorem civilFromDays_spec {days : Nat} (h : days + 719468 < 2 ^ 64) :
    ∃ date : Gregorian.Date, civilFromDays days = some (date.year, date.month, date.day) ∧
      date.dayNumber = days + epochDay := by
  obtain ⟨z, hz⟩ : ∃ z, z = days + 719468 := ⟨_, rfl⟩
  obtain ⟨e, he⟩ := EraDay.exists_doe (Nat.mod_lt z (by omega : 0 < 146097))
  refine ⟨e.date (z / 146097), ?_, ?_⟩
  · rw [civilFromDays, U64.add_eq h, ← hz, Option.bind_eq_bind, Option.bind_some]
    exact civilFromMarch_eq (hz ▸ h) (by omega)
  · rw [e.dayNumber_date, epochDay]
    omega

/-- A time from the epoch. The seconds of a duration have 64 bits. -/
structure SystemTime where
  nanos : Int
  nanos_lt : nanos < 2 ^ 64 * 10 ^ 9

def SystemTime.seconds (t : SystemTime) : Nat := (t.nanos / 10 ^ 9).toNat

theorem SystemTime.seconds_lt (t : SystemTime) : t.seconds < 2 ^ 64 := by
  have := t.nanos_lt
  unfold seconds
  omega

def isoText (year month day rem : Nat) : List Char :=
  Decimal.padded 4 year ++ '-' :: (Decimal.padded 2 month ++ '-' :: (Decimal.padded 2 day ++
    'T' :: (Decimal.padded 2 (rem / 3600) ++ ':' :: (Decimal.padded 2 (rem % 3600 / 60) ++
      ':' :: (Decimal.padded 2 (rem % 60) ++ 'Z' :: [])))))

def iso8601Utc (t : SystemTime) : Option String := do
  let secs := t.seconds
  let (year, month, day) ← civilFromDays (secs / 86400)
  pure (String.ofList (isoText year month day (secs % 86400)))

theorem numbers_isoText (year month day rem : Nat) : Decimal.numbers (isoText year month day rem) =
    [year, month, day, rem / 3600, rem % 3600 / 60, rem % 60] := by
  rw [isoText, Decimal.numbers_padded_cons _ _ (by decide),
    Decimal.numbers_padded_cons _ _ (by decide), Decimal.numbers_padded_cons _ _ (by decide),
    Decimal.numbers_padded_cons _ _ (by decide), Decimal.numbers_padded_cons _ _ (by decide),
    Decimal.numbers_padded_cons _ _ (by decide), Decimal.numbers_nil]

theorem iso8601Utc_spec (t : SystemTime) : ∃ (text : String) (date : Gregorian.Date),
    iso8601Utc t = some text ∧ date.dayNumber = t.seconds / 86400 + epochDay ∧
      Decimal.numbers text.toList = [date.year, date.month, date.day, t.seconds % 86400 / 3600,
        t.seconds % 86400 % 3600 / 60, t.seconds % 86400 % 60] := by
  have hdays : t.seconds / 86400 + 719468 < 2 ^ 64 := by
    have := t.seconds_lt
    omega
  obtain ⟨date, hcivil, hday⟩ := civilFromDays_spec hdays
  have htext : iso8601Utc t =
      some (String.ofList (isoText date.year date.month date.day (t.seconds % 86400))) := by
    rw [iso8601Utc, hcivil]
    rfl
  refine ⟨_, date, htext, hday, ?_⟩
  rw [String.toList_ofList]
  exact numbers_isoText _ _ _ _

example : iso8601Utc ⟨951786061 * 10 ^ 9, by omega⟩ = some "2000-02-29T01:01:01Z" := by decide

theorem time_lt {r s : Nat} (h : r < s) :
    [r / 3600, r % 3600 / 60, r % 60] < [s / 3600, s % 3600 / 60, s % 60] := by
  simp only [List.cons_lt_cons_iff, List.lt_irrefl]
  omega

theorem numbers_lt_of_before {d e : Gregorian.Date} (h : d.Before e) (l m : List Nat) :
    d.year :: d.month :: d.day :: l < e.year :: e.month :: e.day :: m := by
  simp only [List.cons_lt_cons_iff]
  rcases h with hy | ⟨hy, hm | ⟨hm, hd⟩⟩
  · exact Or.inl hy
  · exact Or.inr ⟨hy, Or.inl hm⟩
  · exact Or.inr ⟨hy, Or.inr ⟨hm, Or.inl hd⟩⟩

theorem civilFromDays_succ {d : Nat} (h : d + 1 + 719468 < 2 ^ 64) {date : Gregorian.Date}
    (hday : date.dayNumber = d + epochDay) :
    civilFromDays (d + 1) = some (date.next.year, date.next.month, date.next.day) := by
  obtain ⟨date', hcivil, hday'⟩ := civilFromDays_spec h
  have heq : date' = date.next := by
    apply Gregorian.Date.dayNumber_injective
    rw [Gregorian.Date.dayNumber_next, hday, hday']
    omega
  rw [hcivil, heq]

theorem iso8601Utc_lt {t t' : SystemTime} (h : t.seconds < t'.seconds) :
    ∃ text text' : String, iso8601Utc t = some text ∧ iso8601Utc t' = some text' ∧
      Decimal.numbers text.toList < Decimal.numbers text'.toList := by
  obtain ⟨text, date, htext, hday, hnum⟩ := iso8601Utc_spec t
  obtain ⟨text', date', htext', hday', hnum'⟩ := iso8601Utc_spec t'
  refine ⟨text, text', htext, htext', ?_⟩
  rw [hnum, hnum']
  by_cases hsame : t.seconds / 86400 = t'.seconds / 86400
  · -- two times of one day
    have hdate : date = date' := Gregorian.Date.dayNumber_injective (by omega)
    have htime := time_lt (show t.seconds % 86400 < t'.seconds % 86400 by omega)
    subst hdate
    simpa only [List.cons_lt_cons_iff, lt_irrefl, false_or, true_and] using htime
  · exact numbers_lt_of_before (Gregorian.Date.before_iff_dayNumber_lt.mpr (by omega)) _ _

/-- The dates of consecutive days are consecutive dates of the calendar, from the epoch on, and no
step leaves the range of 64 bits where the day number does not. A later second has a later date
and time of day in its text. -/
theorem dashboard_calendar :
    (∀ d, d + 719468 < 2 ^ 64 → ∃ date : Gregorian.Date,
      civilFromDays d = some (date.year, date.month, date.day) ∧
        (d + 1 + 719468 < 2 ^ 64 →
          civilFromDays (d + 1) = some (date.next.year, date.next.month, date.next.day))) ∧
    civilFromDays 0 = some (1970, 1, 1) ∧
    ∀ t t' : SystemTime, t.seconds < t'.seconds →
      ∃ text text' : String, iso8601Utc t = some text ∧ iso8601Utc t' = some text' ∧
        Decimal.numbers text.toList < Decimal.numbers text'.toList := by
  refine ⟨?_, by decide, fun t t' h => iso8601Utc_lt h⟩
  intro d h
  obtain ⟨date, hcivil, hday⟩ := civilFromDays_spec h
  exact ⟨date, hcivil, fun hnext => civilFromDays_succ hnext hday⟩

/-- The day after the last one whose sum has 64 bits has no date. -/
theorem civilFromDays_last : ¬∀ d, d + 719468 < 2 ^ 64 → ∃ date : Gregorian.Date,
    civilFromDays d = some (date.year, date.month, date.day) ∧
      civilFromDays (d + 1) = some (date.next.year, date.next.month, date.next.day) := by
  intro h
  obtain ⟨date, -, hnext⟩ := h (2 ^ 64 - 719469) (by omega)
  have hnone : civilFromDays (2 ^ 64 - 719469 + 1) = none := by
    rw [civilFromDays, U64.add, if_neg (by omega)]
    rfl
  rw [hnone] at hnext
  cases hnext

end QuipCoordinator
