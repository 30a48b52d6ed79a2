/-
The proleptic Gregorian calendar. Days are numbered from 1970-01-01, months of a year and days of a week from 0, days of
a month from 1.

- `Date.next`, `Date.prev`, `ofDays`: the calendar counted day by day from 1970-01-01, forward and back.
- `yearStart`, `monthStart`, `Date.dayNumber`: the number of a date in closed form.
-/
import Mathlib.Tactic

namespace TouchHLE.Gregorian

def Leap (y : ℤ) : Prop := 4 ∣ y ∧ (¬ 100 ∣ y ∨ 400 ∣ y)

instance : DecidablePred Leap := fun _ => inferInstanceAs (Decidable (_ ∧ _))

def yearLength (y : ℤ) : ℤ := if Leap y then 366 else 365

def monthLength (y : ℤ) (m : ℕ) : ℤ := [31, 28, 31, 30, 31, 30, 31, 31, 30, 31, 30, 31].getD m 0 +
  if Leap y ∧ m = 1 then 1 else 0

structure Date where
  year : ℤ
  month : ℕ
  day : ℤ
deriving DecidableEq, Repr

/-- the day after -/
def Date.next (d : Date) : Date :=
  if d.day < monthLength d.year d.month then { d with day := d.day + 1 }
  else if d.month < 11 then ⟨d.year, d.month + 1, 1⟩
  else ⟨d.year + 1, 0, 1⟩

/-- the day before -/
def Date.prev (d : Date) : Date :=
  if 1 < d.day then { d with day := d.day - 1 }
  else if 0 < d.month then ⟨d.year, d.month - 1, monthLength d.year (d.month - 1)⟩
  else ⟨d.year - 1, 11, 31⟩

def epoch : Date := ⟨1970, 0, 1⟩

/-- the date that many days after 1970-01-01 -/
def ofDays : ℤ → Date
  | .ofNat n => Date.next^[n] epoch
  | .negSucc n => Date.prev^[n + 1] epoch

/-- 0 is a Sunday; 1970-01-01 was a Thursday -/
def weekday (n : ℤ) : ℤ := (n + 4) % 7

structure Date.Valid (d : Date) : Prop where
  month : d.month < 12
  first : 1 ≤ d.day
  last : d.day ≤ monthLength d.year d.month

/-- the number of the first day of a year -/
def yearStart (y : ℤ) : ℤ := 365 * (y - 1970) + (y - 1) / 4 - (y - 1) / 100 + (y - 1) / 400 - 477

/-- days of the year before a month -/
def monthStart (y : ℤ) : ℕ → ℤ
  | 0 => 0
  | m + 1 => monthStart y m + monthLength y m

namespace Date

/-- days of the year before a date -/
def dayOfYear (d : Date) : ℤ := monthStart d.year d.month + (d.day - 1)

def dayNumber (d : Date) : ℤ := yearStart d.year + d.dayOfYear

end Date

/-! ## Years and months -/

theorem yearStart_succ (y : ℤ) : yearStart (y + 1) = yearStart y + yearLength y := by
  unfold yearStart yearLength Leap
  split_ifs <;> omega

theorem yearLength_pos (y : ℤ) : 0 < yearLength y := by
  unfold yearLength
  split_ifs <;> decide

theorem yearStart_mono : StrictMono yearStart :=
  strictMono_int_of_lt_succ fun y => by
    rw [yearStart_succ]
    exact lt_add_of_pos_right _ (yearLength_pos y)

theorem monthLength_pos (y : ℤ) {m : ℕ} (h : m < 12) : 28 ≤ monthLength y m := by
  unfold monthLength
  interval_cases m <;> simp only [List.getD_cons_zero, List.getD_cons_succ] <;> split_ifs <;> omega

theorem monthStart_year (y : ℤ) : monthStart y 12 = yearLength y := by
  simp only [monthStart, monthLength, yearLength]
  by_cases h : Leap y <;> simp [h]

theorem monthStart_lt (y : ℤ) {m k : ℕ} (hmk : m < k) (hk : k ≤ 12) :
    monthStart y m + monthLength y m ≤ monthStart y k := by
  induction k, hmk using Nat.le_induction with
  | base => exact le_rfl
  | succ k hmk ih =>
    have hpos := monthLength_pos y (m := k) (by omega)
    calc monthStart y m + monthLength y m ≤ monthStart y k := ih (by omega)
      _ ≤ monthStart y k + monthLength y k := by omega

theorem monthStart_nonneg (y : ℤ) {m : ℕ} (hm : m ≤ 12) : 0 ≤ monthStart y m := by
  rcases Nat.eq_zero_or_pos m with rfl | hpos
  · exact le_rfl
  · have h := monthStart_lt y hpos hm
    have hlen := monthLength_pos y (m := 0) (by decide)
    simp only [monthStart] at h
    omega

/-! ## Dates and their numbers -/

namespace Date

variable {d e : Date}

theorem valid_mk {y n : ℤ} {m : ℕ} (hm : m < 12) (hf : 1 ≤ n) (hl : n ≤ monthLength y m) : Valid ⟨y, m, n⟩ :=
  ⟨hm, hf, hl⟩

theorem dayOfYear_nonneg (h : d.Valid) : 0 ≤ d.dayOfYear := by
  have hm := monthStart_nonneg d.year h.month.le
  have hf := h.first
  unfold dayOfYear
  omega

theorem dayOfYear_lt (h : d.Valid) : d.dayOfYear < yearLength d.year := by
  have hm := monthStart_lt d.year h.month le_rfl
  have hl := h.last
  rw [monthStart_year] at hm
  unfold dayOfYear
  omega

theorem valid_next (h : d.Valid) : d.next.Valid := by
  unfold next
  split_ifs with h1 h2
  · have hf := h.first
    exact valid_mk h.month (by omega) (by omega)
  · have hm : d.month + 1 < 12 := by omega
    exact valid_mk hm le_rfl (le_trans (by decide) (monthLength_pos d.year hm))
  · exact valid_mk (by decide) le_rfl (le_trans (by decide) (monthLength_pos (d.year + 1) (by decide)))

theorem dayNumber_next (h : d.Valid) : d.next.dayNumber = d.dayNumber + 1 := by
  unfold next
  split_ifs with h1 h2
  · simp only [dayNumber, dayOfYear]
    ring
  · obtain hlast : d.day = monthLength d.year d.month := le_antisymm h.last (not_lt.1 h1)
    simp only [dayNumber, dayOfYear, monthStart, hlast]
    ring
  · have hlast : d.day = monthLength d.year d.month := le_antisymm h.last (not_lt.1 h1)
    have hdec : d.month = 11 := by have := h.month; omega
    have hyear : monthStart d.year 11 + monthLength d.year 11 = yearLength d.year := monthStart_year d.year
    have hzero : monthStart (d.year + 1) 0 = 0 := rfl
    simp only [dayNumber, dayOfYear, yearStart_succ, hlast, hdec, hzero]
    omega

theorem december (y : ℤ) : monthLength y 11 = 31 := by simp [monthLength]

theorem valid_prev (h : d.Valid) : d.prev.Valid := by
  have hm := h.month
  unfold prev
  split_ifs with h1 h2
  · have hl := h.last
    exact valid_mk hm (by omega) (by omega)
  · have hm' : d.month - 1 < 12 := by omega
    exact valid_mk hm' (le_trans (by decide) (monthLength_pos d.year hm')) le_rfl
  · exact valid_mk (by decide) (by decide) (december (d.year - 1)).ge

theorem dayNumber_prev (h : d.Valid) : d.prev.dayNumber = d.dayNumber - 1 := by
  have hf := h.first
  unfold prev
  split_ifs with h1 h2
  · simp only [dayNumber, dayOfYear]
    ring
  · obtain ⟨m, hm⟩ : ∃ m, d.month = m + 1 := ⟨d.month - 1, by omega⟩
    have hday : d.day = 1 := by omega
    simp only [dayNumber, dayOfYear, hm, hday, Nat.add_sub_cancel, monthStart]
    ring
  · have hday : d.day = 1 := by omega
    have hm : d.month = 0 := by omega
    have hstart := yearStart_succ (d.year - 1)
    have hyear : monthStart (d.year - 1) 11 + monthLength (d.year - 1) 11 = yearLength (d.year - 1) :=
      monthStart_year (d.year - 1)
    rw [sub_add_cancel] at hstart
    have hzero : monthStart d.year 0 = 0 := rfl
    rw [december] at hyear
    simp only [dayNumber, dayOfYear, hm, hday, hzero]
    omega

end Date

theorem valid_epoch : epoch.Valid := ⟨by decide, by decide, by decide⟩

theorem ofDays_spec (n : ℤ) : (ofDays n).Valid ∧ (ofDays n).dayNumber = n := by
  cases n with
  | ofNat n =>
    induction n with
    | zero => exact ⟨valid_epoch, by decide⟩
    | succ n ih =>
      obtain ⟨hv, hn⟩ := ih
      simp only [ofDays, Function.iterate_succ_apply'] at hv hn ⊢
      refine ⟨Date.valid_next hv, ?_⟩
      rw [Date.dayNumber_next hv, hn]
      simp
  | negSucc n =>
    induction n with
    | zero => exact ⟨Date.valid_prev valid_epoch, by decide⟩
    | succ n ih =>
      obtain ⟨hv, hn⟩ := ih
      simp only [ofDays] at hv hn ⊢
      rw [Function.iterate_succ_apply']
      refine ⟨Date.valid_prev hv, ?_⟩
      rw [Date.dayNumber_prev hv, hn]
      omega

end TouchHLE.Gregorian
