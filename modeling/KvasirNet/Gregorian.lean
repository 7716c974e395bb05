import Mathlib.Order.Monotone.Basic
import Mathlib.Algebra.Order.Ring.Int

/-! The Gregorian calendar by months: the months are numbered through, the month of
index `12 * year + month` counting from January as `0`, and the days from the first
of January 1970. -/
namespace KvasirNet.Gregorian

def Leap (year : ℤ) : Prop := year % 4 = 0 ∧ (year % 100 ≠ 0 ∨ year % 400 = 0)

instance (year : ℤ) : Decidable (Leap year) := inferInstanceAs (Decidable (_ ∧ _))

def yearStart (year : ℤ) : ℤ :=
  365 * (year - 1970) + (year - 1969) / 4 - (year - 1901) / 100 + (year - 1601) / 400

/-- The days of a year in front of a month of it. From March on the lengths repeat every
five months, of 153 days together. -/
def daysBefore (year month : ℤ) : ℤ :=
  if month < 2 then 31 * month
  else 59 + (if Leap year then 1 else 0) + (153 * (month - 2) + 2) / 5

def monthStart (index : ℤ) : ℤ :=
  yearStart (index / 12) + daysBefore (index / 12) (index % 12)

def monthLength (index : ℤ) : ℤ := monthStart (index + 1) - monthStart index

/-- The month of a day: the one that an even length of the months gives, or a neighbour. -/
def monthOf (day : ℤ) : ℤ :=
  let guess := 4800 * day / 146097 + 23640
  if day < monthStart guess then guess - 1
  else if day < monthStart (guess + 1) then guess
  else guess + 1

theorem yearStart_succ (year : ℤ) :
    yearStart (year + 1) = yearStart year + 365 + if Leap year then 1 else 0 := by
  unfold yearStart
  split_ifs with h
  · unfold Leap at h
    omega
  · unfold Leap at h
    omega

theorem monthLength_bounds (index : ℤ) : 28 ≤ monthLength index ∧ monthLength index ≤ 31 := by
  unfold monthLength monthStart
  -- within a year only the days in front change; December meets the next year
  by_cases h : index % 12 = 11
  · have hyear : (index + 1) / 12 = index / 12 + 1 := by omega
    have hmonth : (index + 1) % 12 = 0 := by omega
    rw [hyear, hmonth, h, yearStart_succ]
    unfold daysBefore
    split_ifs <;> omega
  · have hyear : (index + 1) / 12 = index / 12 := by omega
    have hmonth : (index + 1) % 12 = index % 12 + 1 := by omega
    rw [hyear, hmonth]
    unfold daysBefore
    split_ifs <;> omega

theorem monthStart_lt_iff {a b : ℤ} : monthStart a < monthStart b ↔ a < b := by
  have hstrict : StrictMono monthStart := by
    apply strictMono_int_of_lt_succ
    intro index
    have h := (monthLength_bounds index).1
    unfold monthLength at h
    omega
  exact hstrict.lt_iff_lt

theorem monthStart_near (index : ℤ) :
    146097 * (index - 23641) < 4800 * monthStart index ∧
      4800 * monthStart index < 146097 * (index - 23639) := by
  unfold monthStart yearStart daysBefore
  have hindex : index = 12 * (index / 12) + index % 12 := by omega
  generalize index / 12 = year at *
  have hlow : 0 ≤ index % 12 := by omega
  have hhigh : index % 12 < 12 := by omega
  split_ifs <;> omega

theorem monthOf_spec (day : ℤ) :
    monthStart (monthOf day) ≤ day ∧ day < monthStart (monthOf day + 1) := by
  unfold monthOf
  dsimp only
  have hbelow := (monthStart_near (4800 * day / 146097 + 23640 - 1)).2
  have habove := (monthStart_near (4800 * day / 146097 + 23640 + 1 + 1)).1
  have hquot : 146097 * (4800 * day / 146097) ≤ 4800 * day := by omega
  have hquot' : 4800 * day < 146097 * (4800 * day / 146097) + 146097 := by omega
  split_ifs with h₁ h₂
  · rw [Int.sub_add_cancel]
    exact ⟨by omega, h₁⟩
  · exact ⟨by omega, h₂⟩
  · exact ⟨by omega, by omega⟩

theorem monthOf_eq {day index : ℤ} (hlow : monthStart index ≤ day)
    (hhigh : day < monthStart (index + 1)) : monthOf day = index := by
  obtain ⟨h₁, h₂⟩ := monthOf_spec day
  have hle : index < monthOf day + 1 :=
    monthStart_lt_iff.mp (Int.lt_of_le_of_lt hlow h₂)
  have hge : monthOf day < index + 1 :=
    monthStart_lt_iff.mp (Int.lt_of_le_of_lt h₁ hhigh)
  omega

example : monthStart (12 * 2024 + 1) = 19754 ∧ monthLength (12 * 2024 + 1) = 29 := by decide

end KvasirNet.Gregorian
