import Mathlib.Order.Monotone.Basic
import Mathlib.Data.Int.SuccPred
import Mathlib.Order.SuccPred.Archimedean

/-! The proleptic Gregorian calendar on the integers. Days count from 1 January
of year 0. A month is one integer, `12 * year + month` with January at 0, so
that stepping over a year's end needs no carry. -/

set_option autoImplicit false

namespace Calendar

def yearStart (year : Int) : Int :=
  365 * year + (year + 3) / 4 - (year + 99) / 100 + (year + 399) / 400

def isLeap (year : Int) : Bool :=
  year % 4 == 0 && (year % 100 != 0 || year % 400 == 0)

/-- Days of a year before the given month, counted from January = 0. -/
def daysBefore (leap : Bool) (month : Int) : Int :=
  (if leap && 2 ≤ month then 1 else 0) +
  match month.toNat with
  | 0 => 0
  | 1 => 31
  | 2 => 59
  | 3 => 90
  | 4 => 120
  | 5 => 151
  | 6 => 181
  | 7 => 212
  | 8 => 243
  | 9 => 273
  | 10 => 304
  | _ => 334

def monthStart (month : Int) : Int :=
  yearStart (month / 12) + daysBefore (isLeap (month / 12)) (month % 12)

/-- The year a day lies in: the average year length gives it up to one. -/
def yearOf (day : Int) : Int :=
  let guess := 400 * day / 146097
  if day < yearStart guess then guess - 1
  else if yearStart (guess + 1) ≤ day then guess + 1
  else guess

def begunMonth (leap : Bool) (ofYear : Int) : Nat → Nat
  | 0 => 0
  | month + 1 =>
      if daysBefore leap (month + 1 : Nat) ≤ ofYear then month + 1
      else begunMonth leap ofYear month

def monthOf (day : Int) : Int :=
  12 * yearOf day + begunMonth (isLeap (yearOf day)) (day - yearStart (yearOf day)) 11

theorem yearStart_succ (year : Int) :
    yearStart (year + 1) = yearStart year + (if isLeap year then 366 else 365) := by
  unfold yearStart isLeap
  by_cases four : year % 4 = 0
  · by_cases hundred : year % 100 = 0
    · by_cases fourHundred : year % 400 = 0
      · simp [four, hundred, fourHundred]
        omega
      · simp [four, hundred, fourHundred]
        omega
    · simp [four, hundred]
      omega
  · simp [four]
    omega

theorem yearOf_spec (day : Int) :
    yearStart (yearOf day) ≤ day ∧ day < yearStart (yearOf day + 1) := by
  unfold yearOf
  simp only
  split
  · next below =>
      rw [Int.sub_add_cancel]
      refine ⟨?_, below⟩
      unfold yearStart
      omega
  · next reached =>
      split
      · next above =>
          refine ⟨above, ?_⟩
          unfold yearStart
          omega
      · next inside =>
          exact ⟨not_lt.mp reached, not_le.mp inside⟩

theorem monthStart_of_year (year month : Int) (low : 0 ≤ month) (high : month < 12) :
    monthStart (12 * year + month) = yearStart year + daysBefore (isLeap year) month := by
  have quotient : (12 * year + month) / 12 = year := by omega
  have remainder : (12 * year + month) % 12 = month := by omega
  rw [monthStart, quotient, remainder]

theorem monthStart_succ_bounds (month : Int) :
    monthStart month + 28 ≤ monthStart (month + 1) ∧
      monthStart (month + 1) ≤ monthStart month + 31 := by
  obtain ⟨year, place, low, high, rfl⟩ :
      ∃ year place : Int, 0 ≤ place ∧ place < 12 ∧ month = 12 * year + place :=
    ⟨month / 12, month % 12, by omega, by omega, by omega⟩
  rw [monthStart_of_year year place low high]
  by_cases last : place = 11
  · have next : 12 * year + place + 1 = 12 * (year + 1) + 0 := by omega
    rw [next, monthStart_of_year (year + 1) 0 (by omega) (by omega), yearStart_succ, last]
    cases isLeap year <;> cases isLeap (year + 1) <;> simp [daysBefore] <;> omega
  · have next : 12 * year + place + 1 = 12 * year + (place + 1) := by omega
    rw [next, monthStart_of_year year (place + 1) (by omega) (by omega)]
    have cases : place = 0 ∨ place = 1 ∨ place = 2 ∨ place = 3 ∨ place = 4 ∨ place = 5 ∨
        place = 6 ∨ place = 7 ∨ place = 8 ∨ place = 9 ∨ place = 10 := by omega
    rcases cases with rfl | rfl | rfl | rfl | rfl | rfl | rfl | rfl | rfl | rfl | rfl <;>
      cases isLeap year <;> simp [daysBefore] <;> omega

theorem monthStart_lt_iff {earlier later : Int} :
    monthStart earlier < monthStart later ↔ earlier < later := by
  have steps : ∀ month, monthStart month < monthStart (month + 1) := fun month => by
    have bounds := (monthStart_succ_bounds month).1
    omega
  exact (strictMono_int_of_lt_succ steps).lt_iff_lt

theorem monthStart_injective {month other : Int} (same : monthStart month = monthStart other) :
    month = other := by
  rcases lt_trichotomy month other with before | equal | after
  · exact absurd same (monthStart_lt_iff.mpr before).ne
  · exact equal
  · exact absurd same (monthStart_lt_iff.mpr after).ne'

theorem begunMonth_spec (leap : Bool) (ofYear : Int) (begun : 0 ≤ ofYear) (month : Nat) :
    begunMonth leap ofYear month ≤ month ∧
      daysBefore leap (begunMonth leap ofYear month) ≤ ofYear ∧
      (begunMonth leap ofYear month < month →
        ofYear < daysBefore leap (begunMonth leap ofYear month + 1)) := by
  induction month with
  | zero => simpa [begunMonth, daysBefore] using begun
  | succ month ih =>
      unfold begunMonth
      split
      · next reached => exact ⟨le_rfl, reached, fun below => absurd below (lt_irrefl _)⟩
      · next early =>
          obtain ⟨bounded, started, next⟩ := ih
          refine ⟨by omega, started, fun _ => ?_⟩
          by_cases same : begunMonth leap ofYear month = month
          · rw [same]
            exact not_le.mp (by simpa using early)
          · exact next (by omega)

theorem monthOf_spec (day : Int) :
    monthStart (monthOf day) ≤ day ∧ day < monthStart (monthOf day + 1) := by
  obtain ⟨begun, before⟩ := yearOf_spec day
  obtain ⟨bounded, started, next⟩ := begunMonth_spec (isLeap (yearOf day))
    (day - yearStart (yearOf day)) (by omega) 11
  unfold monthOf
  generalize begunMonth (isLeap (yearOf day)) (day - yearStart (yearOf day)) 11 = place at *
  rw [monthStart_of_year _ _ (by omega) (by omega)]
  refine ⟨by omega, ?_⟩
  by_cases last : place = 11
  · have nextYear : 12 * yearOf day + (place : Int) + 1 = 12 * (yearOf day + 1) + 0 := by omega
    rw [nextYear, monthStart_of_year _ 0 (by omega) (by omega)]
    simpa [daysBefore] using before
  · have ends := next (by omega)
    rw [Int.add_assoc, monthStart_of_year _ _ (by omega) (by omega)]
    omega

theorem monthOf_eq_iff (day month : Int) :
    monthOf day = month ↔ monthStart month ≤ day ∧ day < monthStart (month + 1) := by
  constructor
  · rintro rfl
    exact monthOf_spec day
  · rintro ⟨low, high⟩
    obtain ⟨begun, before⟩ := monthOf_spec day
    have upper : monthOf day < month + 1 := monthStart_lt_iff.mp (lt_of_le_of_lt begun high)
    have lower : month < monthOf day + 1 := monthStart_lt_iff.mp (lt_of_le_of_lt low before)
    omega

end Calendar
