/-
`mktime` (`libc/time.rs`) for fields in and out of their ranges.

- `tmAt`: the structure in memory. `mktime`: the function.
- `Normalises`: the timestamp is that of the normalised date, and gives its fields. `mktime_iff`: exactly when the month
  is in range, since it indexes a table.
-/
import TouchHLE.Libc.Time
import TouchHLE.Mem.Memory

namespace TouchHLE.Time

open Machine Gregorian Words

/-! ## Model -/

/-- `guest_size_of::<tm>()` -/
def tmSize : ℕ := 44

/-- the structure at an address -/
def tmAt (bytes : Bytes) (ptr : ℕ) : Tm :=
  let field (i : ℕ) : Int32 := (loadWord bytes (ptr + 4 * i)).toInt32
  { tmSec := field 0
    tmMin := field 1
    tmHour := field 2
    tmMday := field 3
    tmMon := field 4
    tmYear := field 5
    tmWday := field 6
    tmYday := field 7
    tmIsdst := field 8
    tmGmtoff := field 9
    tmZone := (loadWord bytes (ptr + 4 * 10)).toNat }

def mktime (m : Mem) (tm : ℕ) : Except Panic Int32 := do
  m.checkRange tm tmSize
  calendarDateToTimestamp (tmAt m.bytes tm)

/-- **The purpose**: the timestamp is the second that the fields name, and its own fields are those of that second, each
in its range. -/
def Normalises (m : Mem) (tm : ℕ) : Prop :=
  ∃ time fields, mktime m tm = .ok time ∧ time.toInt = (tmAt m.bytes tm).time ∧ timestampToCalendarDate time = .ok fields ∧
    fields.InRange ∧ fields.Describes (tmAt m.bytes tm).time

/-! ## Months -/

variable {m : Mem} {ptr : ℕ} {tm : Tm}

theorem monthIndex_error {y : ℤ} {month : Int32} (h : ¬(0 ≤ month.toInt ∧ month.toInt < 12)) :
    monthIndex (calcMonthToDay (isLeapYear y)) month = .error .index := by
  rw [monthIndex, index, isLeapYear_eq, calcMonthToDay_eq, if_neg]
  rwa [List.length_map, List.length_range]

/-- a month that is out of range is not one that the table has -/
theorem month_of_timestamp {time : Int32} (h : calendarDateToTimestamp tm = .ok time) :
    0 ≤ tm.tmMon.toInt ∧ tm.tmMon.toInt < 12 := by
  by_contra hmon
  obtain ⟨year, -, h⟩ := bind_eq_ok.1 h
  obtain ⟨seconds, -, h⟩ := bind_eq_ok.1 h
  obtain ⟨days, hindex, -⟩ := bind_eq_ok.1 h
  rw [monthIndex_error hmon] at hindex
  cases hindex

/-- **Normalisation** of a date whose second is a timestamp: of its fields only the month must be in range. -/
theorem mktime_iff (h : m.InRange ptr tmSize) (hlo : -2 ^ 31 ≤ (tmAt m.bytes ptr).time)
    (hhi : (tmAt m.bytes ptr).time < 2 ^ 31) :
    Normalises m ptr ↔ 0 ≤ (tmAt m.bytes ptr).tmMon.toInt ∧ (tmAt m.bytes ptr).tmMon.toInt < 12 := by
  have hcall : mktime m ptr = calendarDateToTimestamp (tmAt m.bytes ptr) := by
    rw [mktime, Mem.checkRange_ok h, ok_bind]
  constructor
  · intro hnormal
    obtain ⟨time, fields, htime, -⟩ := hnormal
    rw [hcall] at htime
    exact month_of_timestamp htime
  · intro hmon
    have htime : (Int32.ofInt (tmAt m.bytes ptr).time).toInt = (tmAt m.bytes ptr).time := Int32.toInt_ofInt_of_le hlo hhi
    obtain ⟨fields, hfields, hrange, hdescribes, -⟩ := calendar_round_trip (.ofInt (tmAt m.bytes ptr).time)
    rw [htime] at hdescribes
    exact ⟨_, fields, hcall.trans (timestamp_of_time hmon.1 hmon.2 hlo hhi), htime, hfields, hrange, hdescribes⟩

/-- memory with a day of 1970 in it -/
def dayOf1970 (mon mday : UInt32) : Mem where
  bytes := storeWord (storeWord (storeWord (fun _ => 0) 0x100C mday) 0x1010 mon) 0x1014 70
  nullSegmentSize := 0x1000

/-- January 366th, which is the first day of 1971 -/
theorem mktime_iff_january : Normalises (dayOf1970 0 366) 0x1000 :=
  (mktime_iff ⟨by decide, by decide⟩ (by decide +kernel) (by decide +kernel)).2 (by decide +kernel)

/-- the first of a thirteenth month, which is that day too -/
theorem thirteenth_month : (tmAt (dayOf1970 12 1).bytes 0x1000).time = 365 * 86400 ∧
    ¬Normalises (dayOf1970 12 1) 0x1000 := by
  refine ⟨by decide +kernel, ?_⟩
  rintro ⟨time, fields, htime, -⟩
  obtain ⟨u, -, htime⟩ := bind_eq_ok.1 htime
  exact absurd (month_of_timestamp htime) (by decide +kernel)

end TouchHLE.Time
