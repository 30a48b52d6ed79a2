/-
Calendar dates and timestamps (`libc/time.rs`).

- `timestampToCalendarDate`, `calendarDateToTimestamp`: the two conversions, with every `i32` and `i64` result checked.
- `calendarDate_spec`: the fields of a timestamp are those of the Gregorian calendar.
- `Tm.time`: the second that fields name, whether or not they are in range. `timestamp_of_time`: it is what they are
  converted to, when the month is in range.
- `calendar_round_trip`: converting the fields of a timestamp back gives the timestamp.
-/
import TouchHLE.Lib.Gregorian
import TouchHLE.Lib.Machine
import TouchHLE.Panic

namespace TouchHLE.Time

open Machine Gregorian

/-- `struct tm`; months, weekdays and days of the year count from 0, `tmYear` from 1900 -/
structure Tm where
  tmSec : Int32
  tmMin : Int32
  tmHour : Int32
  tmMday : Int32
  tmMon : Int32
  tmYear : Int32
  tmWday : Int32
  tmYday : Int32
  tmIsdst : Int32
  tmGmtoff : Int32
  tmZone : ℕ
deriving DecidableEq, Repr

def isLeapYear (year : ℤ) : Bool := year.tmod 4 == 0 && (year.tmod 100 != 0 || year.tmod 400 == 0)

/-- the loop of `calc_year_to_day` and `calc_month_to_day`: the running sums of `len`, and the sum -/
def cumulate (len : ℕ → ℤ) : ℕ → List ℤ × ℤ
  | 0 => ([], 0)
  | n + 1 =>
    let (table, day) := cumulate len n
    (table ++ [day], day + len n)

def cycleYears : ℕ := 400

def daysInYear (year : ℤ) : ℤ := if isLeapYear year then 366 else 365

def calcYearToDay : List ℤ × ℤ := cumulate (fun year => daysInYear year) cycleYears

def yearToDay : List ℤ := calcYearToDay.1

def cycleDays : ℤ := calcYearToDay.2

def daysInMonth : List ℤ := [31, 28, 31, 30, 31, 30, 31, 31, 30, 31, 30, 31]

def calcMonthToDay (leapYear : Bool) : List ℤ :=
  (cumulate (fun month => daysInMonth.getD month 0 + if leapYear && month == 1 then 1 else 0) 12).1

/-- the number of elements before the first that fails the test -/
def partitionPoint (table : List ℤ) (p : ℤ → Bool) : ℕ := (table.takeWhile p).length

/-- `table[i]` -/
def index (table : List ℤ) (i : ℤ) : Except Panic ℤ :=
  if 0 ≤ i ∧ i < table.length then .ok (table.getD i.toNat 0) else .error .index

def minuteSeconds : ℤ := 60

def hourSeconds : ℤ := minuteSeconds * 60

def daySeconds : ℤ := hourSeconds * 24

def timestampToCalendarDate (timestamp : Int32) : Except Panic Tm := do
  let daysSinceUnixEpoch := timestamp.toInt / daySeconds
  let secondInDay := timestamp.toInt % daySeconds
  let daysSinceY2k ← i32 (daysSinceUnixEpoch - 10957)
  let cyclesSinceY2k := daysSinceY2k / cycleDays
  let dayInCycle := daysSinceY2k % cycleDays
  let yearInCycle ← i32 (partitionPoint yearToDay (fun day => day ≤ dayInCycle) - 1)
  let cycleYear ← i32 (cyclesSinceY2k * cycleYears)
  let cycleStart ← i32 (2000 + cycleYear)
  let year ← i32 (cycleStart + yearInCycle)
  let yearDay ← index yearToDay yearInCycle
  let dayInYear ← i32 (dayInCycle - yearDay)
  let isLeap := isLeapYear yearInCycle
  assert (dayInYear < 365 + if isLeap then 1 else 0) .dayRange
  let monthToDay := calcMonthToDay isLeap
  let monthInYear ← i32 (partitionPoint monthToDay (fun day => day ≤ dayInYear) - 1)
  let monthDay ← index monthToDay monthInYear
  let dayInMonth ← i32 (dayInYear - monthDay)
  let monthDays ← index daysInMonth monthInYear
  assert (dayInMonth < monthDays + if isLeap then 1 else 0) .dayRange
  let dayOfTheWeek := (4 + daysSinceUnixEpoch) % 7
  let mday ← i32 (dayInMonth + 1)
  let tmYear ← i32 (year - 1900)
  pure
    { tmSec := .ofInt (secondInDay.tmod minuteSeconds)
      tmMin := .ofInt ((secondInDay.tmod hourSeconds).tdiv minuteSeconds)
      tmHour := .ofInt (secondInDay.tdiv hourSeconds)
      tmMday := .ofInt mday
      tmMon := .ofInt monthInYear
      tmYear := .ofInt tmYear
      tmWday := .ofInt dayOfTheWeek
      tmYday := .ofInt dayInYear
      tmIsdst := 0
      tmGmtoff := 0
      tmZone := 0 }

/-- the years of the range `a..b` -/
def years (a b : ℤ) : List ℤ := (List.range (b - a).toNat).map fun (i : ℕ) => a + i

/-- `table[tm.tm_mon as usize]`: a negative month is a large index -/
def monthIndex (table : List ℤ) (month : Int32) : Except Panic ℤ := index table month.toInt

def calendarDateToTimestamp (tm : Tm) : Except Panic Int32 := do
  let year ← i32 (tm.tmYear.toInt + 1900)
  let seconds ← (years 1970 year).foldlM (fun seconds y => i64 (seconds + daysInYear y * 86400)) 0
  let daysInMonthsCumul ← monthIndex (calcMonthToDay (isLeapYear year)) tm.tmMon
  let seconds ← i64 (seconds + daysInMonthsCumul * 86400)
  let seconds ← i64 (seconds + (tm.tmMday.toInt - 1) * 86400)
  let seconds ← i64 (seconds + tm.tmHour.toInt * 3600)
  let seconds ← i64 (seconds + tm.tmMin.toInt * 60)
  let seconds ← i64 (seconds + tm.tmSec.toInt)
  let seconds ←
    if year < 1970 then do
      let daysBeforeYear ← (years year 1970).foldlM (fun days y => i64 (days + daysInYear y)) 0
      i64 (seconds - daysBeforeYear * 86400)
    else pure seconds
  if -2 ^ 31 ≤ seconds ∧ seconds < 2 ^ 31 then pure (.ofInt seconds) else throw .conversion

/-! ## The tables -/

theorem isLeapYear_eq (y : ℤ) : isLeapYear y = decide (Leap y) := by
  rw [Bool.eq_iff_iff, decide_eq_true_iff]
  simp only [isLeapYear, Leap, Bool.and_eq_true, Bool.or_eq_true, beq_iff_eq, bne_iff_ne, ne_eq,
    Int.dvd_iff_tmod_eq_zero]

theorem daysInYear_eq (y : ℤ) : daysInYear y = yearLength y := by
  unfold daysInYear yearLength
  rw [isLeapYear_eq]
  by_cases h : Leap y <;> simp [h]

theorem cumulate_eq {len f : ℕ → ℤ} (h0 : f 0 = 0) (n : ℕ) (hstep : ∀ i < n, f (i + 1) = f i + len i) :
    cumulate len n = ((List.range n).map f, f n) := by
  induction n with
  | zero => simp [cumulate, h0]
  | succ n ih =>
    simp only [cumulate, ih fun i hi => hstep i (by omega), List.range_succ, List.map_append, List.map_singleton,
      hstep n (by omega)]

theorem index_range {f : ℕ → ℤ} {n i : ℕ} (h : i < n) : index ((List.range n).map f) i = .ok (f i) := by
  unfold index
  rw [if_pos ⟨by omega, by simpa using h⟩]
  simp [h]

/-- **The binary search in a table of running sums** finds the last sum that is not above the number. -/
theorem partitionPoint_range {f : ℕ → ℤ} {x : ℤ} {n i : ℕ} (hf : ∀ j < i, f j ≤ f i) (hi : i < n) (hlo : f i ≤ x)
    (hhi : i + 1 < n → x < f (i + 1)) : partitionPoint ((List.range n).map f) (fun day => day ≤ x) = i + 1 := by
  obtain ⟨k, rfl⟩ : ∃ k, n = i + 1 + k := ⟨n - (i + 1), by omega⟩
  have hpos : ∀ a ∈ (List.range (i + 1)).map f, decide (a ≤ x) = true := by
    intro a ha
    obtain ⟨j, hj, rfl⟩ := List.mem_map.1 ha
    rw [List.mem_range] at hj
    rcases Nat.lt_succ_iff_lt_or_eq.1 hj with h | rfl
    · exact decide_eq_true ((hf j h).trans hlo)
    · exact decide_eq_true hlo
  unfold partitionPoint
  rw [List.range_add, List.map_append, List.takeWhile_append_of_pos hpos]
  cases k with
  | zero => simp
  | succ k =>
    have hstop : ¬ f (i + 1) ≤ x := not_le.2 (hhi (by omega))
    simp [List.range_succ_eq_map, hstop]

/-- the days of a cycle before a year of it -/
def cycleStart (y : ℕ) : ℤ := yearStart (2000 + y) - yearStart 2000

theorem leap_cycle (c : ℤ) (y : ℕ) : Leap (2000 + c * cycleYears + y) ↔ Leap y := by
  unfold Leap cycleYears
  omega

theorem cycleStart_succ (y : ℕ) : cycleStart (y + 1) = cycleStart y + daysInYear y := by
  have hleap := leap_cycle 0 y
  have hstart := yearStart_succ (2000 + y)
  have hlen : yearLength (2000 + y) = yearLength y := by
    unfold yearLength
    rw [zero_mul, add_zero] at hleap
    simp only [hleap]
  rw [daysInYear_eq]
  unfold cycleStart
  push_cast
  rw [← add_assoc, hstart, hlen]
  ring

theorem calcYearToDay_eq : calcYearToDay = ((List.range cycleYears).map cycleStart, 146097) :=
  cumulate_eq (by simp [cycleStart]) cycleYears fun i _ => cycleStart_succ i

theorem calcMonthToDay_eq (y : ℤ) : calcMonthToDay (decide (Leap y)) = (List.range 12).map (monthStart y) := by
  unfold calcMonthToDay
  rw [cumulate_eq (f := monthStart y) rfl 12]
  intro i _
  simp only [monthStart, monthLength, daysInMonth, Bool.and_eq_true, decide_eq_true_eq, beq_iff_eq]

/-! ## From a timestamp to the calendar -/

/-- the fields of a timestamp in the Gregorian calendar -/
def calendar (t : ℤ) : Tm :=
  let date := ofDays (t / 86400)
  { tmSec := .ofInt (t % 60)
    tmMin := .ofInt (t / 60 % 60)
    tmHour := .ofInt (t / 3600 % 24)
    tmMday := .ofInt date.day
    tmMon := .ofInt date.month
    tmYear := .ofInt (date.year - 1900)
    tmWday := .ofInt (weekday (t / 86400))
    tmYday := .ofInt date.dayOfYear
    tmIsdst := 0
    tmGmtoff := 0
    tmZone := 0 }

/-- a year by its cycle of 400 years, counted from 2000 -/
theorem year_cycle (year : ℤ) : ∃ (c : ℤ) (y : ℕ), year = 2000 + c * cycleYears + y ∧ y < cycleYears := by
  refine ⟨(year - 2000) / 400, ((year - 2000) % 400).toNat, ?_, ?_⟩ <;> unfold cycleYears <;> omega

theorem yearStart_cycle (c : ℤ) (y : ℕ) :
    yearStart (2000 + c * cycleYears + y) = 10957 + 146097 * c + cycleStart y := by
  unfold cycleStart yearStart cycleYears
  omega

theorem cycleStart_mono : StrictMono cycleStart :=
  strictMono_nat_of_lt_succ fun y => by
    have hpos := yearLength_pos y
    rw [cycleStart_succ, daysInYear_eq]
    omega

/-- the days of the calendar that an `i32` timestamp reaches -/
theorem year_bounds {n : ℤ} (hlo : -24856 ≤ n) (hhi : n ≤ 24855) : 1900 ≤ (ofDays n).year ∧ (ofDays n).year ≤ 2039 := by
  obtain ⟨hv, hn⟩ := ofDays_spec n
  have h0 := Date.dayOfYear_nonneg hv
  have h1 := Date.dayOfYear_lt hv
  have hlen : yearLength (ofDays n).year ≤ 366 := by
    unfold yearLength
    split_ifs <;> decide
  unfold Date.dayNumber yearStart at hn
  constructor <;> omega

theorem monthStart_mono {y : ℤ} {j m : ℕ} (hjm : j < m) (hm : m ≤ 12) : monthStart y j ≤ monthStart y m := by
  have h := monthStart_lt y hjm hm
  have hpos := monthLength_pos y (m := j) (by omega)
  omega

theorem monthLength_le (y : ℤ) (m : ℕ) :
    monthLength y m ≤ daysInMonth.getD m 0 + if Leap y then 1 else 0 := by
  unfold monthLength daysInMonth
  by_cases h : Leap y
  · by_cases h1 : m = 1 <;> simp [h, h1]
  · simp [h]

/-- **What the search for the year finds.** -/
theorem year_found {d : Date} (hv : d.Valid) : ∃ (c : ℤ) (y : ℕ), d.year = 2000 + c * cycleYears + y ∧ y < cycleYears ∧
    (Leap d.year ↔ Leap y) ∧ (d.dayNumber - 10957) / cycleDays = c ∧
    (d.dayNumber - 10957) % cycleDays = cycleStart y + d.dayOfYear ∧ 0 ≤ cycleStart y ∧ cycleStart y ≤ 146097 ∧
    partitionPoint yearToDay (fun day => day ≤ cycleStart y + d.dayOfYear) = y + 1 ∧
    index yearToDay y = .ok (cycleStart y) := by
  obtain ⟨c, y, hyear, hy⟩ := year_cycle d.year
  have hleap : Leap d.year ↔ Leap y := by rw [hyear]; exact leap_cycle c y
  have hday : d.dayNumber - 10957 = 146097 * c + (cycleStart y + d.dayOfYear) := by
    unfold Date.dayNumber
    rw [hyear, yearStart_cycle]
    ring
  have hdoy0 := Date.dayOfYear_nonneg hv
  have hdoy1 := Date.dayOfYear_lt hv
  have hlen : yearLength d.year = daysInYear y := by
    rw [daysInYear_eq]
    unfold yearLength
    simp only [hleap]
  have hc0 : 0 ≤ cycleStart y := by
    have h := cycleStart_mono.monotone (Nat.zero_le y)
    simpa [cycleStart] using h
  have hnext : cycleStart y + d.dayOfYear < cycleStart (y + 1) := by
    rw [cycleStart_succ]
    omega
  have hend : cycleStart (y + 1) ≤ 146097 := cycleStart_mono.monotone hy
  have hcd : cycleDays = 146097 := by unfold cycleDays; rw [calcYearToDay_eq]
  have htable : yearToDay = (List.range cycleYears).map cycleStart := by unfold yearToDay; rw [calcYearToDay_eq]
  obtain ⟨hdiv, hmod⟩ : (d.dayNumber - 10957) / 146097 = c ∧
      (d.dayNumber - 10957) % 146097 = cycleStart y + d.dayOfYear :=
    (Int.ediv_emod_unique (by decide)).2 ⟨by omega, by omega, by omega⟩
  rw [hcd, htable]
  exact ⟨c, y, hyear, hy, hleap, hdiv, hmod, hc0, by omega,
    partitionPoint_range (fun j hj => (cycleStart_mono hj).le) hy (by omega) fun _ => by omega, index_range hy⟩

/-- **What the search for the month finds.** -/
theorem month_found {d : Date} (hv : d.Valid) :
    partitionPoint (calcMonthToDay (decide (Leap d.year))) (fun day => day ≤ d.dayOfYear) = d.month + 1 ∧
    index (calcMonthToDay (decide (Leap d.year))) d.month = .ok (monthStart d.year d.month) ∧
    index daysInMonth d.month = .ok (daysInMonth.getD d.month 0) := by
  have hm := hv.month
  have hf := hv.first
  have hl := hv.last
  have hsucc : monthStart d.year (d.month + 1) = monthStart d.year d.month + monthLength d.year d.month := rfl
  have hdoy : d.dayOfYear = monthStart d.year d.month + (d.day - 1) := rfl
  rw [calcMonthToDay_eq]
  refine ⟨partitionPoint_range (fun j hj => monthStart_mono hj hm.le) hm (by omega) fun _ => by omega,
    index_range hm, ?_⟩
  unfold index
  rw [if_pos ⟨Int.natCast_nonneg _, by simpa [daysInMonth] using hm⟩]
  rfl

/-- the time of day -/
theorem clock (s : ℤ) : (s % 86400).tmod minuteSeconds = s % 60 ∧
    ((s % 86400).tmod hourSeconds).tdiv minuteSeconds = s / 60 % 60 ∧ (s % 86400).tdiv hourSeconds = s / 3600 % 24 := by
  have hpos : 0 ≤ s % 86400 := Int.emod_nonneg _ (by decide)
  have hpos' : 0 ≤ s % 86400 % 3600 := Int.emod_nonneg _ (by decide)
  simp only [minuteSeconds, hourSeconds, Int.reduceMul, Int.tmod_eq_emod_of_nonneg hpos,
    Int.tdiv_eq_ediv_of_nonneg hpos, Int.tdiv_eq_ediv_of_nonneg hpos']
  refine ⟨?_, ?_, ?_⟩ <;> omega

/-- **The fields of a timestamp are those of the Gregorian calendar.** -/
theorem calendarDate_spec (t : Int32) : timestampToCalendarDate t = .ok (calendar t.toInt) := by
  have hlo := t.le_toInt
  have hhi := t.toInt_lt
  generalize ht : t.toInt = s at hlo hhi
  obtain ⟨n, hn⟩ : ∃ n, n = s / 86400 := ⟨_, rfl⟩
  obtain ⟨hv, hnum⟩ := ofDays_spec n
  obtain ⟨hy1, hy2⟩ := year_bounds (n := n) (by omega) (by omega)
  generalize hdate : ofDays n = d at *
  obtain ⟨c, y, hyear, hy, hleap, hdiv, hmod, hc0, hc1, hpy, hiy⟩ := year_found hv
  obtain ⟨hpm, him, hid⟩ := month_found hv
  rw [hnum] at hdiv hmod
  have htable : isLeapYear y = decide (Leap d.year) := by
    rw [isLeapYear_eq]
    simp only [hleap]
  -- the bounds of the day and the month
  have hm := hv.month
  have hf := hv.first
  have hl := hv.last
  have hml := monthLength_le d.year d.month
  have hms := monthStart_nonneg d.year hm.le
  have hdoy : d.dayOfYear = monthStart d.year d.month + (d.day - 1) := rfl
  have hdoy1 := Date.dayOfYear_lt hv
  have hylen : yearLength d.year = 365 + if Leap d.year then 1 else 0 := by unfold yearLength; split_ifs <;> rfl
  have ha1 : decide (d.dayOfYear < 365 + if decide (Leap d.year) = true then 1 else 0) = true := by
    simp only [decide_eq_true_eq]
    omega
  have ha2 : decide (d.day - 1 < daysInMonth.getD d.month 0 + if decide (Leap d.year) = true then 1 else 0) = true := by
    simp only [decide_eq_true_eq]
    omega
  -- no intermediate result leaves the 32 bits
  have hyears : (cycleYears : ℤ) = 400 := rfl
  have e1 : i32 (n - 10957) = .ok (n - 10957) := i32_ok (by omega) (by omega)
  have e2 : i32 (((y + 1 : ℕ) : ℤ) - 1) = .ok y := by
    rw [Nat.cast_succ, add_sub_cancel_right]
    exact i32_ok (by omega) (by omega)
  have e3 : i32 (c * cycleYears) = .ok (c * cycleYears) := i32_ok (by omega) (by omega)
  have e4 : i32 (2000 + c * cycleYears) = .ok (2000 + c * cycleYears) := i32_ok (by omega) (by omega)
  have e5 : i32 (2000 + c * cycleYears + y) = .ok d.year := by
    rw [← hyear]
    exact i32_ok (by omega) (by omega)
  have e6 : i32 (cycleStart y + d.dayOfYear - cycleStart y) = .ok d.dayOfYear := by
    rw [add_sub_cancel_left]
    exact i32_ok (by omega) (by omega)
  have e7 : i32 (((d.month + 1 : ℕ) : ℤ) - 1) = .ok d.month := by
    rw [Nat.cast_succ, add_sub_cancel_right]
    exact i32_ok (by omega) (by omega)
  have e8 : i32 (d.dayOfYear - monthStart d.year d.month) = .ok (d.day - 1) := by
    rw [hdoy, add_sub_cancel_left]
    exact i32_ok (by omega) (by omega)
  have e9 : i32 (d.day - 1 + 1) = .ok d.day := by
    rw [sub_add_cancel]
    exact i32_ok (by omega) (by omega)
  have e10 : i32 (d.year - 1900) = .ok (d.year - 1900) := i32_ok (by omega) (by omega)
  have hsec : daySeconds = 86400 := rfl
  simp only [timestampToCalendarDate, ht, hsec, ← hn, e1, ok_bind, hdiv, hmod, hpy, e2, e3, e4, e5, hiy, e6, htable,
    assert_ok ha1, hpm, e7, him, e8, hid, assert_ok ha2, e9, e10, pure_eq_ok, calendar, hdate, (clock s).1,
    (clock s).2.1, (clock s).2.2, weekday, add_comm n 4]

/-! ## And back -/

/-- every field is in its range -/
structure Tm.InRange (tm : Tm) : Prop where
  sec : 0 ≤ tm.tmSec.toInt ∧ tm.tmSec.toInt < 60
  min : 0 ≤ tm.tmMin.toInt ∧ tm.tmMin.toInt < 60
  hour : 0 ≤ tm.tmHour.toInt ∧ tm.tmHour.toInt < 24
  mon : 0 ≤ tm.tmMon.toInt ∧ tm.tmMon.toInt < 12
  mday : 1 ≤ tm.tmMday.toInt ∧ tm.tmMday.toInt ≤ monthLength (tm.tmYear.toInt + 1900) tm.tmMon.toInt.toNat
  wday : 0 ≤ tm.tmWday.toInt ∧ tm.tmWday.toInt < 7
  yday : 0 ≤ tm.tmYday.toInt ∧ tm.tmYday.toInt < yearLength (tm.tmYear.toInt + 1900)

/-- the fields are those of the second `t` after the start of 1970 -/
structure Tm.Describes (tm : Tm) (t : ℤ) : Prop where
  sec : tm.tmSec.toInt = t % 60
  min : tm.tmMin.toInt = t / 60 % 60
  hour : tm.tmHour.toInt = t / 3600 % 24
  date : (⟨tm.tmYear.toInt + 1900, tm.tmMon.toInt.toNat, tm.tmMday.toInt⟩ : Date) = ofDays (t / 86400)
  mon : 0 ≤ tm.tmMon.toInt
  wday : tm.tmWday.toInt = weekday (t / 86400)
  yday : tm.tmYday.toInt = (ofDays (t / 86400)).dayOfYear

theorem calendar_describes (t : Int32) : (calendar t.toInt).Describes t.toInt := by
  have hlo := t.le_toInt
  have hhi := t.toInt_lt
  generalize t.toInt = s at hlo hhi
  obtain ⟨hv, -⟩ := ofDays_spec (s / 86400)
  obtain ⟨hy1, hy2⟩ := year_bounds (n := s / 86400) (by omega) (by omega)
  have hm := hv.month
  have hf := hv.first
  have hl := hv.last
  have hlast := monthStart_lt (ofDays (s / 86400)).year hm le_rfl
  have hlen : yearLength (ofDays (s / 86400)).year ≤ 366 := by unfold yearLength; split_ifs <;> decide
  have hdoy0 := Date.dayOfYear_nonneg hv
  have hdoy1 := Date.dayOfYear_lt hv
  have hms := monthStart_nonneg (ofDays (s / 86400)).year hm.le
  rw [monthStart_year] at hlast
  have hyear : (Int32.ofInt ((ofDays (s / 86400)).year - 1900)).toInt = (ofDays (s / 86400)).year - 1900 :=
    Int32.toInt_ofInt_of_le (by omega) (by omega)
  have hmon : (Int32.ofInt (ofDays (s / 86400)).month).toInt = (ofDays (s / 86400)).month :=
    Int32.toInt_ofInt_of_le (by omega) (by omega)
  have hday : (Int32.ofInt (ofDays (s / 86400)).day).toInt = (ofDays (s / 86400)).day :=
    Int32.toInt_ofInt_of_le (by omega) (by omega)
  refine ⟨?_, ?_, ?_, ?_, ?_, ?_, ?_⟩
  · exact Int32.toInt_ofInt_of_le (by omega) (by omega)
  · exact Int32.toInt_ofInt_of_le (by omega) (by omega)
  · exact Int32.toInt_ofInt_of_le (by omega) (by omega)
  · simp only [calendar, hyear, hmon, hday, sub_add_cancel, Int.toNat_natCast]
  · simp only [calendar, hmon]
    exact Int.natCast_nonneg _
  · have hw : 0 ≤ weekday (s / 86400) ∧ weekday (s / 86400) < 7 := by unfold weekday; omega
    exact Int32.toInt_ofInt_of_le (by omega) (by omega)
  · exact Int32.toInt_ofInt_of_le (by omega) (by omega)

variable {tm : Tm}

theorem Tm.Describes.inRange {t : ℤ} (h : tm.Describes t) : tm.InRange := by
  obtain ⟨hv, -⟩ := ofDays_spec (t / 86400)
  have hdoy0 := Date.dayOfYear_nonneg hv
  have hdoy1 := Date.dayOfYear_lt hv
  have hday := h.yday
  rw [← h.date] at hv hdoy0 hdoy1 hday
  have hmon := hv.month
  have h0 := h.mon
  have hw := h.wday
  have hs := h.sec
  have hmi := h.min
  have hh := h.hour
  simp only at hmon
  unfold weekday at hw
  refine ⟨⟨?_, ?_⟩, ⟨?_, ?_⟩, ⟨?_, ?_⟩, ⟨h0, ?_⟩, ⟨hv.first, hv.last⟩, ⟨?_, ?_⟩, hday ▸ hdoy0, hday ▸ hdoy1⟩
  all_goals omega

/-- **The loop over years**: it adds up the lengths of the years of a range. -/
theorem years_sum {F len : ℤ → ℤ} (hF : ∀ y, F (y + 1) = F y + len y) (hlen : ∀ y, 0 ≤ len y) (a : ℤ) (n : ℕ) {x : ℤ}
    (hx : 0 ≤ x) (hlt : x + (F (a + n) - F a) < 2 ^ 63) :
    (years a (a + n)).foldlM (fun s y => i64 (s + len y)) x = .ok (x + (F (a + n) - F a)) := by
  have hn : ∀ n : ℕ, years a (a + n) = (List.range n).map fun (i : ℕ) => a + i := by
    intro n
    unfold years
    rw [add_sub_cancel_left, Int.toNat_natCast]
  rw [hn]
  have hmono : ∀ n : ℕ, F a ≤ F (a + n) := by
    intro n
    induction n with
    | zero => simp
    | succ n ih =>
      have h1 := hF (a + n)
      have h2 := hlen (a + n)
      rw [Nat.cast_succ, ← add_assoc, h1]
      omega
  induction n with
  | zero => simp
  | succ n ih =>
    have h1 := hF (a + n)
    have h2 := hlen (a + n)
    have h3 := hmono n
    rw [Nat.cast_succ, ← add_assoc, h1] at hlt ⊢
    rw [List.range_succ, List.map_append, List.foldlM_append, ih (by omega)]
    simp only [List.map_singleton, List.foldlM_cons, List.foldlM_nil, ok_bind]
    rw [i64_ok (by omega) (by omega), ok_bind, pure_eq_ok]
    congr 1
    ring

theorem years_empty {a b : ℤ} (h : b ≤ a) : years a b = [] := by
  unfold years
  rw [Int.toNat_of_nonpos (by omega)]
  rfl

/-- the years before 1970 and after it -/
theorem seconds_of_year {Y : ℤ} (hlo : -2 ^ 32 ≤ yearStart Y) (hhi : yearStart Y ≤ 2 ^ 32) :
    (years 1970 Y).foldlM (fun seconds y => i64 (seconds + daysInYear y * 86400)) 0 =
      .ok (max (yearStart Y) 0 * 86400) ∧
    (Y < 1970 → (years Y 1970).foldlM (fun days y => i64 (days + daysInYear y)) 0 = .ok (-yearStart Y)) := by
  have h1970 : yearStart 1970 = 0 := by decide
  have hlen : ∀ y, 0 ≤ daysInYear y := fun y => by
    rw [daysInYear_eq]
    exact (yearLength_pos y).le
  constructor
  · rcases le_or_gt Y 1970 with h | h
    · have hle : yearStart Y ≤ 0 := h1970 ▸ yearStart_mono.monotone h
      rw [years_empty h, max_eq_right hle]
      rfl
    · have hge : 0 ≤ yearStart Y := h1970 ▸ yearStart_mono.monotone h.le
      obtain ⟨n, rfl⟩ : ∃ n : ℕ, Y = 1970 + n := ⟨(Y - 1970).toNat, by omega⟩
      rw [years_sum (F := fun y => yearStart y * 86400) (fun y => by simp only [yearStart_succ, daysInYear_eq]; ring)
        (fun y => mul_nonneg (hlen y) (by decide)) 1970 n le_rfl (by omega), max_eq_left hge, h1970]
      simp
  · intro h
    obtain ⟨n, hn⟩ : ∃ n : ℕ, 1970 = Y + n := ⟨(1970 - Y).toNat, by omega⟩
    rw [hn, years_sum (F := yearStart) (fun y => by rw [yearStart_succ, daysInYear_eq]) hlen Y n le_rfl
      (by rw [← hn]; omega), ← hn, h1970]
    simp

/-- the second that the fields name; months before or after the year's count on into other years, and days, hours, minutes
and seconds out of range into other months -/
def Tm.time (tm : Tm) : ℤ :=
  let months := (tm.tmYear.toInt + 1900) * 12 + tm.tmMon.toInt
  let first : Date := ⟨months / 12, (months % 12).toNat, 1⟩
  (first.dayNumber + (tm.tmMday.toInt - 1)) * 86400 + tm.tmHour.toInt * 3600 + tm.tmMin.toInt * 60 + tm.tmSec.toInt

theorem Tm.time_eq (hmon : 0 ≤ tm.tmMon.toInt) (hmon' : tm.tmMon.toInt < 12) :
    tm.time = (yearStart (tm.tmYear.toInt + 1900) + monthStart (tm.tmYear.toInt + 1900) tm.tmMon.toInt.toNat +
      (tm.tmMday.toInt - 1)) * 86400 + tm.tmHour.toInt * 3600 + tm.tmMin.toInt * 60 + tm.tmSec.toInt := by
  have hyear : ((tm.tmYear.toInt + 1900) * 12 + tm.tmMon.toInt) / 12 = tm.tmYear.toInt + 1900 := by omega
  have hmonth : ((tm.tmYear.toInt + 1900) * 12 + tm.tmMon.toInt) % 12 = tm.tmMon.toInt := by omega
  unfold Tm.time
  simp only [hyear, hmonth, Date.dayNumber, Date.dayOfYear, sub_self, add_zero]

/-- **The way back**, for every day of the month and time of the day, in and out of range. -/
theorem timestamp_of_time (hmon : 0 ≤ tm.tmMon.toInt) (hmon' : tm.tmMon.toInt < 12) (hlo : -2 ^ 31 ≤ tm.time)
    (hhi : tm.time < 2 ^ 31) : calendarDateToTimestamp tm = .ok (.ofInt tm.time) := by
  have hm : tm.tmMon.toInt.toNat < 12 := by omega
  have hms := monthStart_nonneg (tm.tmYear.toInt + 1900) hm.le
  have hlast := monthStart_lt (tm.tmYear.toInt + 1900) hm le_rfl
  have hml := monthLength_pos (tm.tmYear.toInt + 1900) hm
  have hlen : yearLength (tm.tmYear.toInt + 1900) ≤ 366 := by unfold yearLength; split_ifs <;> decide
  rw [monthStart_year] at hlast
  have hindex : monthIndex (calcMonthToDay (isLeapYear (tm.tmYear.toInt + 1900))) tm.tmMon =
      .ok (monthStart (tm.tmYear.toInt + 1900) tm.tmMon.toInt.toNat) := by
    unfold monthIndex
    rw [isLeapYear_eq, calcMonthToDay_eq]
    conv_lhs => rw [← Int.toNat_of_nonneg hmon]
    exact index_range hm
  have hd := tm.tmMday.le_toInt
  have hd' := tm.tmMday.toInt_lt
  have hh := tm.tmHour.le_toInt
  have hh' := tm.tmHour.toInt_lt
  have hmi := tm.tmMin.le_toInt
  have hmi' := tm.tmMin.toInt_lt
  have hs := tm.tmSec.le_toInt
  have hs' := tm.tmSec.toInt_lt
  have htime := Tm.time_eq hmon hmon'
  unfold calendarDateToTimestamp
  generalize tm.time = t at *
  generalize tm.tmYear.toInt + 1900 = Y at *
  generalize monthStart Y tm.tmMon.toInt.toNat = M at *
  -- the other fields leave less than 2 ^ 32 days for the years, which is a few million of them
  have hstart : -2 ^ 32 ≤ yearStart Y ∧ yearStart Y ≤ 2 ^ 32 := by omega
  have hyear : -2 ^ 24 ≤ Y ∧ Y ≤ 2 ^ 24 := by
    unfold yearStart at hstart
    omega
  obtain ⟨hsum, hback⟩ := seconds_of_year hstart.1 hstart.2
  simp only [i32_ok (x := Y) (by omega) (by omega), ok_bind, hsum, hindex]
  generalize hA : max (yearStart Y) 0 = A
  rw [i64_ok (by omega) (by omega), ok_bind, i64_ok (by omega) (by omega), ok_bind, i64_ok (by omega) (by omega), ok_bind,
    i64_ok (by omega) (by omega), ok_bind, i64_ok (by omega) (by omega), ok_bind]
  have h1970 : yearStart 1970 = 0 := by decide
  split_ifs with hbefore
  · have hle : yearStart Y ≤ 0 := h1970 ▸ yearStart_mono.monotone hbefore.le
    rw [hback hbefore, ok_bind, i64_ok (by omega) (by omega), ok_bind]
    have htotal : A * 86400 + M * 86400 + (tm.tmMday.toInt - 1) * 86400 + tm.tmHour.toInt * 3600 + tm.tmMin.toInt * 60 +
        tm.tmSec.toInt - -yearStart Y * 86400 = t := by omega
    rw [htotal, if_pos ⟨hlo, hhi⟩, pure_eq_ok]
  · have hge : 0 ≤ yearStart Y := h1970 ▸ yearStart_mono.monotone (not_lt.1 hbefore)
    have htotal : A * 86400 + M * 86400 + (tm.tmMday.toInt - 1) * 86400 + tm.tmHour.toInt * 3600 + tm.tmMin.toInt * 60 +
        tm.tmSec.toInt = t := by omega
    rw [pure_eq_ok, ok_bind, htotal, if_pos ⟨hlo, hhi⟩, pure_eq_ok]

theorem Tm.Describes.time {t : ℤ} (h : tm.Describes t) : tm.time = t := by
  obtain ⟨hv, hn⟩ := ofDays_spec (t / 86400)
  rw [← h.date] at hv hn
  have hs := h.sec
  have hmi := h.min
  have hh := h.hour
  have hmonth := hv.month
  simp only [Date.dayNumber, Date.dayOfYear] at hn hmonth
  rw [Tm.time_eq h.mon (by omega)]
  omega

theorem timestamp_of_describes {t : Int32} (h : tm.Describes t.toInt) :
    calendarDateToTimestamp tm = .ok t := by
  have hlo := t.le_toInt
  have hhi := t.toInt_lt
  have hv := (ofDays_spec (t.toInt / 86400)).1
  rw [← h.date] at hv
  have hmonth := hv.month
  simp only at hmonth
  rw [← h.time] at hlo hhi
  rw [timestamp_of_time h.mon (by omega) hlo hhi, h.time, Int32.ofInt_toInt]

/-- **Calendar round trip.** Every `i32` timestamp has calendar fields, each in its range and as the Gregorian calendar
has it, and converting them back gives the timestamp. -/
theorem calendar_round_trip (t : Int32) : ∃ tm, timestampToCalendarDate t = .ok tm ∧ tm.InRange ∧
    tm.Describes t.toInt ∧ calendarDateToTimestamp tm = .ok t := by
  have h := calendar_describes t
  exact ⟨calendar t.toInt, calendarDate_spec t, h.inRange, h, timestamp_of_describes h⟩

end TouchHLE.Time
