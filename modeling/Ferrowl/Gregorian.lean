import Mathlib
/-!
# Gregorian — dates of the proleptic Gregorian calendar and their day numbers

A date carries the bounds of its month and of its day.  Its day number counts the days since 1970-01-01: that date has number 0
and the next day has the next number (`dayNumber_next`), so day numbers order dates as the calendar does (`before_iff`).
-/
namespace Ferrowl.Gregorian

def IsLeap (y : ℤ) : Prop := y % 4 = 0 ∧ (y % 100 ≠ 0 ∨ y % 400 = 0)

instance : DecidablePred IsLeap := fun y => inferInstanceAs (Decidable (y % 4 = 0 ∧ (y % 100 ≠ 0 ∨ y % 400 = 0)))

def daysInMonth (y : ℤ) : ℕ → ℕ
  | 2 => if IsLeap y then 29 else 28
  | 4 | 6 | 9 | 11 => 30
  | _ => 31

structure Date where
  year : ℤ
  month : ℕ
  day : ℕ
  month_pos : 1 ≤ month
  month_le : month ≤ 12
  day_pos : 1 ≤ day
  day_le : day ≤ daysInMonth year month

namespace Date

def Before (a b : Date) : Prop :=
  a.year < b.year ∨ a.year = b.year ∧ (a.month < b.month ∨ a.month = b.month ∧ a.day < b.day)

def next (a : Date) : Date :=
  if hday : a.day < daysInMonth a.year a.month then
    { a with day := a.day + 1, day_pos := by omega, day_le := hday }
  else if hmonth : a.month < 12 then
    { a with
      month := a.month + 1, day := 1, month_pos := by omega, month_le := hmonth, day_pos := le_rfl
      day_le := by unfold daysInMonth; split <;> (try split) <;> omega }
  else ⟨a.year + 1, 1, 1, le_rfl, by decide, le_rfl, by simp [daysInMonth]⟩

end Date

/-! ## Day numbers -/

def daysBeforeMonth (y : ℤ) : ℕ → ℕ
  | 0 | 1 => 0
  | m + 2 => daysBeforeMonth y (m + 1) + daysInMonth y (m + 1)

def daysBeforeYear (y : ℤ) : ℤ :=
  365 * (y - 1970) + ((y - 1) / 4 - 1969 / 4) - ((y - 1) / 100 - 1969 / 100) + ((y - 1) / 400 - 1969 / 400)

def Date.dayNumber (a : Date) : ℤ :=
  daysBeforeYear a.year + daysBeforeMonth a.year a.month + (a.day - 1)

theorem daysBeforeMonth_succ (y : ℤ) {m : ℕ} (hm : 1 ≤ m) :
    daysBeforeMonth y (m + 1) = daysBeforeMonth y m + daysInMonth y m := by
  obtain ⟨m, rfl⟩ := Nat.exists_eq_add_of_le' hm
  rfl

theorem daysBeforeYear_succ (y : ℤ) :
    daysBeforeYear (y + 1) = daysBeforeYear y + (daysBeforeMonth y 12 + daysInMonth y 12 : ℕ) := by
  simp only [daysBeforeYear, daysBeforeMonth, daysInMonth]
  by_cases h : IsLeap y
  · rw [if_pos h]
    simp only [IsLeap] at h
    omega
  · rw [if_neg h]
    simp only [IsLeap] at h
    omega

namespace Date

theorem dayNumber_next (a : Date) : a.next.dayNumber = a.dayNumber + 1 := by
  have hday := a.day_le
  have hpos := a.day_pos
  unfold next
  split
  · simp only [dayNumber]
    push_cast
    ring
  split
  · simp only [dayNumber, daysBeforeMonth_succ a.year a.month_pos]
    push_cast
    omega
  have hmonth : a.month = 12 := le_antisymm a.month_le (by omega)
  have hyear := daysBeforeYear_succ a.year
  simp only [dayNumber, hmonth] at hday hpos ⊢
  simp only [hmonth] at *
  rw [hyear]
  simp only [daysBeforeMonth] at *
  push_cast
  omega

theorem dayNumber_epoch : (⟨1970, 1, 1, le_rfl, by decide, le_rfl, by decide⟩ : Date).dayNumber = 0 := rfl

end Date

theorem daysBeforeMonth_mono (y : ℤ) {m n : ℕ} (hm : 1 ≤ m) (h : m ≤ n) : daysBeforeMonth y m ≤ daysBeforeMonth y n := by
  induction n, h using Nat.le_induction with
  | base => exact le_rfl
  | succ n hn ih =>
    rw [daysBeforeMonth_succ y (hm.trans hn)]
    omega

theorem daysBeforeYear_mono {y z : ℤ} (h : y ≤ z) : daysBeforeYear y ≤ daysBeforeYear z := by
  unfold daysBeforeYear
  omega

namespace Date

theorem dayNumber_lt (a : Date) {m : ℕ} (hm : a.month < m) : a.dayNumber < daysBeforeYear a.year + daysBeforeMonth a.year m := by
  have hnext := daysBeforeMonth_succ a.year a.month_pos
  have hmono := daysBeforeMonth_mono a.year (by omega) (show a.month + 1 ≤ m from hm)
  have hday := a.day_le
  unfold dayNumber
  omega

theorem le_dayNumber (a : Date) : daysBeforeYear a.year + daysBeforeMonth a.year a.month ≤ a.dayNumber := by
  have hpos := a.day_pos
  unfold dayNumber
  omega

theorem dayNumber_lt_next_year (a : Date) : a.dayNumber < daysBeforeYear (a.year + 1) := by
  rw [daysBeforeYear_succ, ← daysBeforeMonth_succ a.year (show 1 ≤ 12 by decide)]
  exact_mod_cast a.dayNumber_lt (Nat.lt_succ_of_le a.month_le)

theorem dayNumber_lt_of_before {a b : Date} (h : a.Before b) : a.dayNumber < b.dayNumber := by
  have hb := b.le_dayNumber
  rcases h with hyear | ⟨hyear, hmonth | ⟨hmonth, hday⟩⟩
  · have hin := a.dayNumber_lt_next_year
    have hyears := daysBeforeYear_mono (show a.year + 1 ≤ b.year from hyear)
    omega
  · have hin := a.dayNumber_lt hmonth
    rw [hyear] at hin
    omega
  · unfold dayNumber
    rw [hyear, hmonth]
    omega

theorem before_iff {a b : Date} : a.Before b ↔ a.dayNumber < b.dayNumber := by
  refine ⟨dayNumber_lt_of_before, fun h => ?_⟩
  have hba : ¬ b.Before a := fun hba => by
    have := dayNumber_lt_of_before hba
    omega
  unfold Before at *
  by_cases hsame : a.year = b.year ∧ a.month = b.month
  · unfold dayNumber at h
    rw [hsame.1, hsame.2] at h
    omega
  · omega

/-- **Counted from March the number is one formula.**  January and February are the last months of the year before. -/
theorem dayNumber_eq (a : Date) (y : ℤ) (mp : ℕ) (hy : y = if a.month ≤ 2 then a.year - 1 else a.year)
    (hmp : mp = if a.month ≤ 2 then a.month + 9 else a.month - 3) :
    a.dayNumber = 365 * y + y / 4 - y / 100 + y / 400 - 719468 + ((153 * mp + 2) / 5 : ℕ) + (a.day - 1) := by
  have hpos := a.month_pos
  have hle := a.month_le
  subst hy hmp
  unfold dayNumber daysBeforeYear
  generalize a.month = m at *
  by_cases hleap : IsLeap a.year
  all_goals interval_cases m <;> simp [daysBeforeMonth, daysInMonth, hleap] <;> simp only [IsLeap] at hleap <;> omega

end Date

end Ferrowl.Gregorian
