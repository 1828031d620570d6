import Ferrowl.CodecText
import Ferrowl.Gregorian
/-!
# Timestamps — the calendar date in an OCPP timestamp

`rfc3339` prints a Unix time in milliseconds as a UTC date and time of day.  The date comes from `civil_from_days`, which counts
eras of 400 years from the first of March of the year 0 and finds the year, the month and the day in an era by truncating
divisions.
-/
namespace Ferrowl.Ocpp.Timestamps

open List Option

open Gregorian (Date)
open Codec (decimal)
open Modbus (parseDigits)

/-- A `u64` subtraction, which a smaller minuend stops. -/
def subU64 (a b : ℕ) : Option ℕ := if b ≤ a then some (a - b) else none

theorem subU64_of_le {a b : ℕ} (h : b ≤ a) : subU64 a b = some (a - b) := if_pos h

def yearOfEra (doe : ℕ) : Option ℕ := do
  let days ← subU64 doe (doe / 1460)
  let days ← subU64 (days + doe / 36524) (doe / 146096)
  some (days / 365)

/-- Month and day, of the day `doy` of a year that starts in March. -/
def monthAndDay (doy : ℕ) : Option (ℕ × ℕ) := do
  let mp := (5 * doy + 2) / 153
  let d ← subU64 doy ((153 * mp + 2) / 5)
  let m ← if mp < 10 then some (mp + 3) else subU64 mp 9
  some (m, d + 1)

/-- `civil_from_days`.  The `i64` division truncates, `doe` is cast to `u64` and the year to `i32`. -/
def civilFromDays (z : ℤ) : Option (ℤ × ℕ × ℕ) := do
  let z := z + 719468
  let era := (if 0 ≤ z then z else z - 146096).tdiv 146097
  let doe := ((z - era * 146097) % 2 ^ 64).toNat
  let yoe ← yearOfEra doe
  let y := (yoe : ℤ) + era * 400
  let inYears ← subU64 (365 * yoe + yoe / 4) (yoe / 100)
  let doy ← subU64 doe inYears
  let (m, d) ← monthAndDay doy
  let y := if m ≤ 2 then y + 1 else y
  some (y.bmod (2 ^ 32), m, d)

/-- A number with leading zeros, `{n:0w}`. -/
def padded (width n : ℕ) : List Char := List.replicate (width - (decimal n).length) '0' ++ decimal n

def paddedInt (width : ℕ) (n : ℤ) : List Char :=
  if n < 0 then '-' :: padded (width - 1) n.natAbs else padded width n.natAbs

def rfc3339 (ms : UInt64) : Option (List Char) :=
  let totalSecs := ms.toNat / 1000
  let h := totalSecs / 3600 % 24
  let m := totalSecs / 60 % 60
  let s := totalSecs % 60
  (civilFromDays (totalSecs / 86400 : ℕ)).map fun (year, month, day) =>
    paddedInt 4 year ++ '-' :: padded 2 month ++ '-' :: padded 2 day ++ 'T' :: padded 2 h ++ ':' :: padded 2 m ++
      ':' :: padded 2 s ++ ['Z']

/-! ## The day within an era -/

/-- Centuries, four-year cycles, years and days.  A year has 366 days when it is the last of its cycle, and the last cycle
of a century has such a year only in the last century of the era. -/
theorem exists_cycles {doe : ℕ} (h : doe < 146097) : ∃ c b a doy, c ≤ 3 ∧ b ≤ 24 ∧ a ≤ 3 ∧
    doe = 36524 * c + 1461 * b + 365 * a + doy ∧ (doy ≤ 364 ∨ doy = 365 ∧ a = 3 ∧ (b < 24 ∨ c = 3)) := by
  let c := min (doe / 36524) 3
  let inCentury := doe - 36524 * c
  let a := min (inCentury % 1461 / 365) 3
  have hc : c ≤ 3 := min_le_right _ _
  have hcentury : inCentury ≤ 36523 ∨ inCentury = 36524 ∧ c = 3 := by omega
  exact ⟨c, inCentury / 1461, a, inCentury % 1461 - 365 * a, hc, by omega, min_le_right _ _, by omega, by omega⟩

/-- The year the divisions find.  The days beyond 1460 of each cycle are taken off and those of each century put back, so
that only whole years of 365 days remain. -/
theorem yearOfEra_eq {c b a doy : ℕ} (hc : c ≤ 3) (hb : b ≤ 24) (ha : a ≤ 3)
    (hdoy : doy ≤ 364 ∨ doy = 365 ∧ a = 3 ∧ (b < 24 ∨ c = 3)) :
    yearOfEra (36524 * c + 1461 * b + 365 * a + doy) = some (100 * c + 4 * b + a) := by
  obtain ⟨doe, hdoe⟩ : ∃ doe, doe = 36524 * c + 1461 * b + 365 * a + doy := ⟨_, rfl⟩
  rw [← hdoe, yearOfEra]
  have hcenturies : doe / 36524 = c + doe / 146096 := by
    -- the last day of an era is the only one that does not fit into its century
    have hin : doe < 36524 * (c + 1) ∨ doe = 146096 ∧ c = 3 := by omega
    rcases hin with hin | ⟨hlast, rfl⟩
    · have hera : doe / 146096 = 0 := Nat.div_eq_of_lt (by omega)
      have hcentury : doe / 36524 = c := Nat.div_eq_of_lt_le (by omega) (by omega)
      omega
    · rw [hlast]
  have hcycles : doe / 1460 = 25 * c + b + if 1460 ≤ 24 * c + b + 365 * a + doy then 1 else 0 := by
    split <;> omega
  rw [subU64_of_le (Nat.div_le_self _ _), bind_eq_bind, bind_some, subU64_of_le (by omega)]
  rw [bind_some, hcycles, hcenturies]
  congr 1
  split <;> omega

theorem monthAndDay_eq {doy : ℕ} (h : doy ≤ 365) : ∃ mp d, mp ≤ 11 ∧ doy = (153 * mp + 2) / 5 + d ∧
    doy < (153 * (mp + 1) + 2) / 5 ∧ monthAndDay doy = some (if mp < 10 then mp + 3 else mp - 9, d + 1) := by
  refine ⟨(5 * doy + 2) / 153, doy - (153 * ((5 * doy + 2) / 153) + 2) / 5, by omega, by omega, by omega, ?_⟩
  rw [monthAndDay, subU64_of_le (by omega)]
  simp only [bind_eq_bind, bind_some]
  by_cases hmp : (5 * doy + 2) / 153 < 10
  · simp [hmp]
  · simp only [hmp, if_false]
    rw [subU64_of_le (by omega), bind_some]

/-! ## The date of a day number -/

theorem era_eq (z : ℤ) : (if 0 ≤ z then z else z - 146096).tdiv 146097 = z / 146097 := by
  split
  · next h => rw [Int.tdiv_eq_ediv_of_nonneg h]
  next h =>
  have hsign : Int.sign 146097 = 1 := rfl
  rw [Int.tdiv_eq_ediv, hsign]
  split <;> omega

theorem day_le_daysInMonth {y : ℤ} {mp d : ℕ} (hmp : mp ≤ 11) (hnext : (153 * mp + 2) / 5 + d < (153 * (mp + 1) + 2) / 5)
    (hfeb : (153 * mp + 2) / 5 + d ≤ 364 ∨ (153 * mp + 2) / 5 + d = 365 ∧ Gregorian.IsLeap (y + 1)) :
    d + 1 ≤ Gregorian.daysInMonth (if (if mp < 10 then mp + 3 else mp - 9) ≤ 2 then y + 1 else y)
      (if mp < 10 then mp + 3 else mp - 9) := by
  by_cases hlast : mp = 11
  · subst hlast
    change d + 1 ≤ Gregorian.daysInMonth (y + 1) 2
    rw [Gregorian.daysInMonth]
    split
    · omega
    next hleap =>
    rcases hfeb with hfeb | ⟨-, h⟩
    · omega
    · exact absurd h hleap
  · interval_cases mp <;> simp [Gregorian.daysInMonth] at hnext ⊢ <;> omega

theorem civilFromDays_eq {z : ℤ} (hlo : -784000000000 ≤ z) (hhi : z ≤ 784000000000) :
    ∃ a : Date, civilFromDays z = some (a.year, a.month, a.day) ∧ a.dayNumber = z := by
  obtain ⟨era, hera⟩ : ∃ era, era = (z + 719468) / 146097 := ⟨_, rfl⟩
  obtain ⟨doe, hdoe⟩ : ∃ doe, doe = ((z + 719468) % 146097).toNat := ⟨_, rfl⟩
  obtain ⟨c, b, a, doy, hc, hb, ha, hsplit, hlast⟩ := exists_cycles (show doe < 146097 by omega)
  obtain ⟨yoe, hyoe⟩ : ∃ yoe, yoe = 100 * c + 4 * b + a := ⟨_, rfl⟩
  have hyear : yearOfEra doe = some yoe := by
    rw [hsplit, hyoe]
    exact yearOfEra_eq hc hb ha hlast
  have hinYears : 365 * yoe + yoe / 4 - yoe / 100 = 36524 * c + 1461 * b + 365 * a := by omega
  obtain ⟨mp, d, hmp, hstart, hnext, hmonth⟩ := monthAndDay_eq (show doy ≤ 365 by omega)
  obtain ⟨y, hy⟩ : ∃ y : ℤ, y = yoe + era * 400 := ⟨_, rfl⟩
  have hfeb : (153 * mp + 2) / 5 + d ≤ 364 ∨ (153 * mp + 2) / 5 + d = 365 ∧ Gregorian.IsLeap (y + 1) := by
    rw [← hstart]
    refine hlast.imp_right (fun h => ⟨h.1, ?_⟩)
    unfold Gregorian.IsLeap
    omega
  have hday := day_le_daysInMonth hmp (hstart ▸ hnext) hfeb
  refine ⟨⟨_, _, d + 1, ?_, ?_, Nat.le_add_left 1 d, hday⟩, ?_, ?_⟩
  · split <;> omega
  · split <;> omega
  · have hcast : ((z + 719468 - era * 146097) % 2 ^ 64).toNat = doe := by omega
    unfold civilFromDays
    simp only [era_eq, ← hera, hcast, hyear, bind_eq_bind, bind_some]
    rw [subU64_of_le (by omega), bind_some, hinYears, subU64_of_le (by omega), bind_some]
    rw [show doe - (36524 * c + 1461 * b + 365 * a) = doy by omega, hmonth, bind_some, ← hy]
    congr 2
    rw [Int.bmod_eq_of_le] <;> split <;> omega
  have hcycles : y / 4 = 25 * c + b + 100 * era := by omega
  have hcenturies : y / 100 = c + 4 * era := by omega
  have heras : y / 400 = era := by omega
  rw [Date.dayNumber_eq _ y mp]
  · rw [hcycles, hcenturies, heras]
    push_cast
    omega
  · by_cases hten : mp < 10
    · simp [hten]
    · simp only [hten, if_false, if_pos (show mp - 9 ≤ 2 by omega)]
      omega
  by_cases hten : mp < 10
  · simp only [hten, if_true, if_neg (show ¬ mp + 3 ≤ 2 by omega)]
    omega
  · simp only [hten, if_false, if_pos (show mp - 9 ≤ 2 by omega)]
    omega

/-! ## Reading a timestamp -/

def readField (stop : Char) (cs : List Char) : Option (ℕ × List Char) :=
  match cs.dropWhile (· ≠ stop) with
  | [] => none
  | _ :: rest => (parseDigits 10 0 (cs.takeWhile (· ≠ stop))).map (·, rest)

/-- A date and time of day as its text has them: year, month, day, hour, minute and second. -/
def readStamp (cs : List Char) : Option (ℕ × ℕ × ℕ × ℕ × ℕ × ℕ) := do
  let (year, cs) ← readField '-' cs
  let (month, cs) ← readField '-' cs
  let (day, cs) ← readField 'T' cs
  let (h, cs) ← readField ':' cs
  let (m, cs) ← readField ':' cs
  let (s, cs) ← readField 'Z' cs
  if cs = [] then some (year, month, day, h, m, s) else none

theorem padded_eq (width n : ℕ) : ∃ ds : List ℕ, padded width n = ds.map Modbus.hexChar ∧ (∀ d ∈ ds, d < 10) ∧
    Modbus.numeral 10 ds = n := by
  obtain ⟨hval, -, hd⟩ := Modbus.numeral_digitsOf (show 1 < 10 by decide) n
  refine ⟨List.replicate (width - (decimal n).length) 0 ++ Modbus.digitsOf 10 n, ?_, ?_, ?_⟩
  · rw [padded, map_append, map_replicate]
    rfl
  · intro d hm
    rcases mem_append.1 hm with hz | hm
    · rw [eq_of_mem_replicate hz]
      decide
    · exact hd d hm
  · rw [Codec.numeral_replicate_zero, hval]

theorem isDigit_hexChar {d : ℕ} (h : d < 10) : (Modbus.hexChar d).isDigit = true := by
  have hall : ∀ d : Fin 10, (Modbus.hexChar d).isDigit = true := by decide
  exact hall ⟨d, h⟩

theorem readField_padded {stop : Char} (hstop : stop.isDigit = false) (width : ℕ) {n : ℕ} (hn : n < 2 ^ 128)
    (rest : List Char) : readField stop (padded width n ++ stop :: rest) = some (n, rest) := by
  obtain ⟨ds, hds, hd, hval⟩ := padded_eq width n
  have hne : ∀ c ∈ padded width n, decide (c ≠ stop) = true := by
    intro c hc
    rw [hds] at hc
    obtain ⟨d, hmem, rfl⟩ := mem_map.1 hc
    rw [decide_eq_true_eq]
    intro heq
    rw [← heq, isDigit_hexChar (hd d hmem)] at hstop
    exact absurd hstop (by decide)
  have hparse : parseDigits 10 0 (padded width n) = some n := by
    rw [hds, Modbus.parseDigits_map_hexChar (by decide) (by decide) ds 0 hd]
    · exact congrArg some hval
    · exact hval.trans_lt hn
  rw [readField, dropWhile_append_of_pos hne, takeWhile_append_of_pos hne]
  rw [dropWhile_cons_of_neg (by simp), takeWhile_cons_of_neg (by simp), append_nil, hparse]
  rfl

theorem year_of_dayNumber {a : Date} (hlo : 0 ≤ a.dayNumber) (hhi : a.dayNumber ≤ 213503982334) :
    0 < a.year ∧ a.year < 2 ^ 31 := by
  have hstart := a.le_dayNumber
  have hend := a.dayNumber_lt_next_year
  unfold Gregorian.daysBeforeYear at hstart hend
  omega

theorem readStamp_eq {a : Date} (hpos : 0 < a.year) (hlt : a.year < 2 ^ 31) {h m s : ℕ} (hh : h < 24) (hm : m < 60)
    (hs : s < 60) : readStamp (paddedInt 4 a.year ++ '-' :: padded 2 a.month ++ '-' :: padded 2 a.day ++ 'T' :: padded 2 h ++
      ':' :: padded 2 m ++ ':' :: padded 2 s ++ ['Z']) = some (a.year.natAbs, a.month, a.day, h, m, s) := by
  have hmonth := a.month_le
  have hday : a.day ≤ 31 := by
    have hle := a.day_le
    unfold Gregorian.daysInMonth at hle
    split at hle <;> (try split at hle) <;> omega
  rw [paddedInt, if_neg (by omega)]
  simp only [append_assoc, cons_append]
  unfold readStamp
  rw [readField_padded (by decide) 4 (by omega)]
  simp only [bind_eq_bind, bind_some]
  rw [readField_padded (by decide) 2 (by omega)]
  simp only [bind_some]
  rw [readField_padded (by decide) 2 (by omega)]
  simp only [bind_some]
  rw [readField_padded (by decide) 2 (by omega)]
  simp only [bind_some]
  rw [readField_padded (by decide) 2 (by omega)]
  simp only [bind_some]
  rw [readField_padded (by decide) 2 (by omega)]
  simp

/-- **Timestamps are calendar dates**, for every number of days within 784·10⁹ of 1970-01-01, which holds every one a `u64` of
milliseconds can give and keeps the year an `i32`. -/
theorem timestamps_denote_seconds : (∀ z : ℤ, -784000000000 ≤ z → z ≤ 784000000000 →
      ∃ a : Date, civilFromDays z = some (a.year, a.month, a.day) ∧ a.dayNumber = z) ∧
    (∀ z z' : ℤ, -784000000000 ≤ z → z < z' → z' ≤ 784000000000 → ∃ a b : Date,
      civilFromDays z = some (a.year, a.month, a.day) ∧ civilFromDays z' = some (b.year, b.month, b.day) ∧ a.Before b) ∧
    (∀ ms : UInt64, ∃ (text : List Char) (a : Date) (h m s : ℕ), rfc3339 ms = some text ∧
      readStamp text = some (a.year.natAbs, a.month, a.day, h, m, s) ∧ 0 < a.year ∧ h < 24 ∧ m < 60 ∧ s < 60 ∧
      a.dayNumber * 86400 + h * 3600 + m * 60 + s = (ms.toNat / 1000 : ℕ)) := by
  refine ⟨fun z hlo hhi => civilFromDays_eq hlo hhi, ?_, ?_⟩
  · intro z z' hlo hlt hhi
    obtain ⟨a, ha, hnum⟩ := civilFromDays_eq (z := z) (by omega) (by omega)
    obtain ⟨b, hb, hnum'⟩ := civilFromDays_eq (z := z') (by omega) (by omega)
    refine ⟨a, b, ha, hb, Date.before_iff.2 ?_⟩
    rwa [hnum, hnum']
  intro ms
  have hms := ms.toNat_lt
  obtain ⟨a, ha, hnum⟩ := civilFromDays_eq (z := (ms.toNat / 1000 / 86400 : ℕ)) (by omega) (by omega)
  obtain ⟨hpos, hlt⟩ := year_of_dayNumber (a := a) (by omega) (by omega)
  refine ⟨_, a, ms.toNat / 1000 / 3600 % 24, ms.toNat / 1000 / 60 % 60, ms.toNat / 1000 % 60, ?_,
    readStamp_eq hpos hlt (by omega) (by omega) (by omega), hpos, by omega, by omega, by omega, by omega⟩
  rw [rfc3339]
  simp only
  rw [ha]
  rfl

/-- The day the count starts from. -/
theorem timestamps_denote_epoch : ∃ a : Date, civilFromDays 0 = some (a.year, a.month, a.day) ∧ a.dayNumber = 0 :=
  timestamps_denote_seconds.1 0 (by decide) (by decide)

example : rfc3339 1000000000000 = some "2001-09-09T01:46:40Z".toList := by decide

end Ferrowl.Ocpp.Timestamps
