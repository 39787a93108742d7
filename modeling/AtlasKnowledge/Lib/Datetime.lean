/-
# `datetime.datetime`

Dates with a time and, if they are aware, an offset from UTC: the calendar, the text that
`isoformat` writes and the texts that `fromisoformat` reads (calendar and week dates, basic and
extended, any character between date and time, offsets down to the microsecond).  A time zone
takes part by its offset alone.

* `fromisoformat_isoformat`: what was written is read back.
-/
import AtlasKnowledge.Lib.Radix

namespace Datetime

open Radix (decimal)

/-! ## 1. The calendar -/

/-- `_is_leap`. -/
def isLeap (year : Nat) : Bool := year % 4 = 0 ∧ (year % 100 ≠ 0 ∨ year % 400 = 0)

/-- `_days_in_month`. -/
def daysInMonth (year month : Nat) : Nat :=
  if month = 2 then if isLeap year then 29 else 28
  else if month ∈ [4, 6, 9, 11] then 30 else 31

/-- `_days_before_year`. -/
def daysBeforeYear (year : Nat) : Nat :=
  let y := year - 1
  y * 365 + y / 4 - y / 100 + y / 400

/-- `_days_before_month`. -/
def daysBeforeMonth (year month : Nat) : Nat :=
  (((List.range month).drop 1).map (daysInMonth year)).sum

/-- `_ymd2ord`: day 1 is the first of January of the year 1. -/
def ymd2ord (year month day : Nat) : Nat := daysBeforeYear year + daysBeforeMonth year month + day

/-- `_ord2ymd`: whole cycles of 400, 100, 4 and 1 years, then the months of the last year. -/
def ord2ymd (ord : Nat) : Nat × Nat × Nat :=
  let n := ord - 1
  let n400 := n / 146097
  let n := n % 146097
  let n100 := n / 36524
  let n := n % 36524
  let n4 := n / 1461
  let n := n % 1461
  let n1 := n / 365
  let n := n % 365
  let year := n400 * 400 + 1 + n100 * 100 + n4 * 4 + n1
  if n1 = 4 ∨ n100 = 4 then (year - 1, 12, 31)
  else
    let month := ((List.range 13).filter fun m => 1 ≤ m ∧ daysBeforeMonth year m ≤ n).getLastD 1
    (year, month, n - daysBeforeMonth year month + 1)

/-- `_isoweek1monday`. -/
def isoweek1monday (year : Nat) : Nat :=
  let firstday := ymd2ord year 1 1
  let firstweekday := (firstday + 6) % 7
  firstday - firstweekday + if 3 < firstweekday then 7 else 0

/-- `_isoweek_to_gregorian`. -/
def isoweekToGregorian (year week day : Nat) : Option (Nat × Nat × Nat) :=
  let firstWeekday := ymd2ord year 1 1 % 7
  if ¬ (1 ≤ year ∧ year ≤ 9999) then none
  else if ¬ (0 < week ∧ week < 53) ∧
      ¬ (week = 53 ∧ (firstWeekday = 4 ∨ (firstWeekday = 3 ∧ isLeap year = true))) then none
  else if ¬ (0 < day ∧ day < 8) then none
  else some (ord2ymd (isoweek1monday year + ((week - 1) * 7 + (day - 1))))

end Datetime

/-- Hours, minutes, seconds and microseconds. -/
structure Clock where
  hour : Nat := 0
  minute : Nat := 0
  second : Nat := 0
  microsecond : Nat := 0
  deriving DecidableEq, Repr

/-- Twenty-four hours in microseconds: the size of an offset is less than this. -/
def oneDay : Nat := 86400000000

/-- `datetime`.  The offset, in microseconds, is absent if the date is naive. -/
structure Datetime where
  year : Nat
  month : Nat
  day : Nat
  clock : Clock
  offset : Option Int
  year_range : 1 ≤ year ∧ year ≤ 9999
  month_range : 1 ≤ month ∧ month ≤ 12
  day_range : 1 ≤ day ∧ day ≤ Datetime.daysInMonth year month
  clock_range : clock.hour < 24 ∧ clock.minute < 60 ∧ clock.second < 60 ∧
    clock.microsecond < 1000000
  offset_range : ∀ o ∈ offset, o.natAbs < oneDay
  deriving DecidableEq

namespace Datetime

open Radix (decimal)

/-- The constructor; `none` is its `ValueError`. -/
def new? (year month day : Nat) (clock : Clock) (offset : Option Int) : Option Datetime :=
  if h : (1 ≤ year ∧ year ≤ 9999) ∧ (1 ≤ month ∧ month ≤ 12) ∧
      (1 ≤ day ∧ day ≤ daysInMonth year month) ∧
      (clock.hour < 24 ∧ clock.minute < 60 ∧ clock.second < 60 ∧ clock.microsecond < 1000000) ∧
      ∀ o ∈ offset, o.natAbs < oneDay then
    some ⟨year, month, day, clock, offset, h.1, h.2.1, h.2.2.1, h.2.2.2.1, h.2.2.2.2⟩
  else none

/-- `d.tzinfo is not None`. -/
def Aware (d : Datetime) : Prop := d.offset.isSome = true

/-- The microseconds from the beginning of the calendar to the date, in UTC; a naive date is
read at the offset that the reader's own time zone gives it. -/
def instant (localOffset : Datetime → Int) (d : Datetime) : Int :=
  (ymd2ord d.year d.month d.day : Int) * oneDay + d.clock.hour * 3600000000 +
    d.clock.minute * 60000000 + d.clock.second * 1000000 + d.clock.microsecond -
    d.offset.getD (localOffset d)

/-! ## 2. Writing -/

/-- The fraction of a second, left out if it is zero. -/
def formatFraction (microsecond : Nat) : List Char :=
  if microsecond ≠ 0 then '.' :: decimal.write 6 microsecond else []

/-- `_format_time`. -/
def formatTime (c : Clock) : List Char :=
  decimal.write 2 c.hour ++ ':' :: (decimal.write 2 c.minute ++ ':' :: (decimal.write 2 c.second ++
    formatFraction c.microsecond))

/-- An offset, without its sign, as a clock. -/
def offsetClock (offset : Int) : Clock :=
  let us := offset.natAbs
  { hour := us / 3600000000, minute := us / 60000000 % 60, second := us / 1000000 % 60,
    microsecond := us % 1000000 }

/-- `_format_offset`. -/
def formatOffset (offset : Int) : List Char :=
  let c := offsetClock offset
  (if offset < 0 then '-' else '+') ::
    (decimal.write 2 c.hour ++ ':' :: (decimal.write 2 c.minute ++
      if c.second ≠ 0 ∨ c.microsecond ≠ 0 then
        ':' :: (decimal.write 2 c.second ++ formatFraction c.microsecond)
      else []))

/-- `isoformat`. -/
def isoformat (d : Datetime) : List Char :=
  decimal.write 4 d.year ++ '-' :: (decimal.write 2 d.month ++ '-' :: (decimal.write 2 d.day ++
    'T' :: (formatTime d.clock ++ (d.offset.map formatOffset).getD [])))

/-! ## 3. Reading -/

/-- `_find_isoformat_datetime_separator`, for a text of more than six characters: how many of
them are the date. -/
def findSeparator (s : List Char) : Option Nat :=
  if s.length = 7 then some 7
  else if s[4]? = some '-' then
    if s[5]? = some 'W' then
      if s[8]? = some '-' then
        if s.length = 9 then none
        else if (s[10]?).any decimal.isDigit then some 8
        else some 10
      else some 8
    else some 10
  else if s[4]? = some 'W' then
    let idx := 7 + ((s.drop 7).takeWhile decimal.isDigit).length
    if idx < 9 then some idx else if idx % 2 = 0 then some 7 else some 8
  else some 8

/-- A dash, if there is one. -/
def dash : List Char → Bool × List Char
  | '-' :: t => (true, t)
  | t => (false, t)

/-- `_parse_isoformat_date`: `YYYY-MM-DD` or `YYYY-Www-D`, all dashes or none. -/
def parseDate (s : List Char) : Option (Nat × Nat × Nat) := do
  let (year, s) ← decimal.read 4 s
  let (sep, s) := dash s
  match s with
  | 'W' :: s =>
    let (week, s) ← decimal.read 2 s
    if s = [] then isoweekToGregorian year week 1
    else if (dash s).1 ≠ sep then none
    else
      let (day, s) ← decimal.read 1 (dash s).2
      if s = [] then isoweekToGregorian year week day else none
  | s =>
    let (month, s) ← decimal.read 2 s
    if (dash s).1 ≠ sep then none
    else
      let (day, s) ← decimal.read 2 (dash s).2
      if s = [] then some (year, month, day) else none

/-- The digits behind the decimal mark; those after the sixth are dropped. -/
def parseFraction : List Char → Option Nat
  | c :: t =>
    if (c = '.' ∨ c = ',') ∧ t ≠ [] ∧ t.all decimal.isDigit = true then
      (decimal.read (t.take 6).length t).map fun r => r.1 * 10 ^ (6 - (t.take 6).length)
    else none
  | [] => none

/-- Two digits, behind a colon if there was one before. -/
def component (sep : Bool) : List Char → Option (Nat × List Char)
  | ':' :: t => if sep then decimal.read 2 t else none
  | t => if sep then none else decimal.read 2 t

/-- `_parse_hh_mm_ss_ff`. -/
def parseClock (s : List Char) : Option Clock := do
  let (hour, s) ← decimal.read 2 s
  if s = [] then return { hour := hour }
  let sep := s.head? = some ':'
  let (minute, s) ← component sep s
  if s = [] then return { hour := hour, minute := minute }
  let (second, s) ← component sep s
  if s = [] then return { hour := hour, minute := minute, second := second }
  let microsecond ← parseFraction s
  return { hour := hour, minute := minute, second := second, microsecond := microsecond }

/-- `timedelta(hours=..., minutes=..., seconds=..., microseconds=...)`. -/
def Clock.micros (c : Clock) : Int :=
  c.hour * 3600000000 + c.minute * 60000000 + c.second * 1000000 + c.microsecond

/-- `[+-Z]`, where the offset begins. -/
def isSign (c : Char) : Bool := c = '+' ∨ c = '-' ∨ c = 'Z'

/-- `_parse_isoformat_time`: the time and the offset. -/
def parseTime (s : List Char) : Option (Clock × Option Int) := do
  if s.length < 2 then none
  let clock ← parseClock (s.takeWhile fun c => !isSign c)
  match s.dropWhile fun c => !isSign c with
  | [] => return (clock, none)
  | ['Z'] => return (clock, some 0)
  | sign :: s =>
    if sign = 'Z' ∨ s.length ∈ [0, 1, 3] then none
    let offset ← parseClock s
    return (clock, some ((if sign = '-' then -1 else 1) * Clock.micros offset))

/-- `fromisoformat`; `none` is its `ValueError`. -/
def fromisoformat (s : List Char) : Option Datetime := do
  if s.length < 7 then none
  let location ← findSeparator s
  let (year, month, day) ← parseDate (s.take location)
  let (clock, offset) ←
    if s.length ≤ location then some ({}, none) else parseTime (s.drop (location + 1))
  new? year month day clock offset

/-! ## 4. The round trip -/

/-- What was written of a valid date is that date again. -/
theorem new?_self (d : Datetime) : new? d.year d.month d.day d.clock d.offset = some d :=
  dif_pos ⟨d.year_range, d.month_range, d.day_range, d.clock_range, d.offset_range⟩

theorem two_digits {n : Nat} (h : n < 60) (rest : List Char) :
    decimal.read 2 (decimal.write 2 n ++ rest) = some (n, rest) :=
  Radix.read_write (lt_of_lt_of_le h (by decide)) rest

theorem two_digits_end {n : Nat} (h : n < 60) :
    decimal.read 2 (decimal.write 2 n) = some (n, []) := by
  have hread := two_digits h []
  rwa [List.append_nil] at hread

theorem parseFraction_formatFraction {us : Nat} (hpos : us ≠ 0) (h : us < 1000000) :
    parseFraction (formatFraction us) = some us := by
  have hlen : ((decimal.write 6 us).take 6).length = 6 := by simp
  have hne : decimal.write 6 us ≠ [] := by
    intro hnil
    have := congrArg List.length hnil
    simp at this
  have hall : (decimal.write 6 us).all decimal.isDigit = true :=
    List.all_eq_true.mpr fun c hc => Radix.isDigit_write hc
  have hread : decimal.read 6 (decimal.write 6 us) = some (us, []) := by
    have := @Radix.read_write decimal 6 us h []
    rwa [List.append_nil] at this
  rw [formatFraction, if_pos hpos, parseFraction, if_pos ⟨.inl rfl, hne, hall⟩, hlen, hread]
  simp

/-- Hours, minutes, seconds and, if it is not zero, the fraction. -/
theorem parseClock_long {c : Clock} (hour : c.hour < 60) (minute : c.minute < 60)
    (second : c.second < 60) (micro : c.microsecond < 1000000) :
    parseClock (decimal.write 2 c.hour ++ ':' :: (decimal.write 2 c.minute ++
      ':' :: (decimal.write 2 c.second ++ formatFraction c.microsecond))) = some c := by
  obtain ⟨h, m, s, us⟩ := c
  by_cases hzero : us = 0
  · have hfraction : formatFraction us = [] := if_neg (not_not.mpr hzero)
    subst hzero
    simp [parseClock, component, two_digits hour, two_digits minute, two_digits_end second,
      hfraction]
  · have hfraction := parseFraction_formatFraction hzero micro
    have hne : formatFraction us ≠ [] := by
      rw [formatFraction, if_pos hzero]
      exact List.cons_ne_nil _ _
    simp [parseClock, component, two_digits hour, two_digits minute, two_digits second, hfraction,
      hne]

/-- Hours and minutes. -/
theorem parseClock_short {c : Clock} (hour : c.hour < 60) (minute : c.minute < 60)
    (second : c.second = 0) (micro : c.microsecond = 0) :
    parseClock (decimal.write 2 c.hour ++ ':' :: decimal.write 2 c.minute) = some c := by
  obtain ⟨h, m, s, us⟩ := c
  obtain rfl : s = 0 := second
  obtain rfl : us = 0 := micro
  simp [parseClock, component, two_digits hour, two_digits_end minute]

theorem offsetClock_range {o : Int} (h : o.natAbs < oneDay) :
    (offsetClock o).hour < 24 ∧ (offsetClock o).minute < 60 ∧ (offsetClock o).second < 60 ∧
      (offsetClock o).microsecond < 1000000 := by
  unfold oneDay at h
  simp only [offsetClock]
  omega

/-- The clock of an offset is its size. -/
theorem micros_offsetClock (o : Int) : Clock.micros (offsetClock o) = o.natAbs := by
  simp only [Clock.micros, offsetClock]
  omega

/-- An offset is read back: its sign, and the clock behind it. -/
theorem formatOffset_cases {o : Int} (h : o.natAbs < oneDay) :
    ∃ sign rest, formatOffset o = sign :: rest ∧ (sign = if o < 0 then '-' else '+') ∧
      5 ≤ rest.length ∧ parseClock rest = some (offsetClock o) := by
  obtain ⟨hour, minute, second, micro⟩ := offsetClock_range h
  refine ⟨_, _, rfl, rfl, ?_, ?_⟩
  · simp only [List.length_append, List.length_cons, Radix.length_write]
    omega
  · by_cases hlong : (offsetClock o).second ≠ 0 ∨ (offsetClock o).microsecond ≠ 0
    · rw [if_pos hlong]
      exact parseClock_long (by omega) minute second micro
    · rw [if_neg hlong, List.append_nil]
      exact parseClock_short (by omega) minute (by omega) (by omega)

/-- What holds of the digits, the colon and the point holds of every character of a time. -/
theorem forall_mem_formatTime (p : Char → Prop) (hdigit : ∀ d < 10, p (decimal.digit d))
    (hcolon : p ':') (hpoint : p '.') (c : Clock) : ∀ x ∈ formatTime c, p x := by
  have hwrite : ∀ w n, ∀ x ∈ decimal.write w n, p x := by
    intro w n x hx
    obtain ⟨d, hd, rfl⟩ := Radix.mem_write hx
    exact hdigit d hd
  have hfraction : ∀ x ∈ formatFraction c.microsecond, p x := by
    unfold formatFraction
    split
    · exact List.forall_mem_cons.mpr ⟨hpoint, hwrite _ _⟩
    · simp
  simp only [formatTime, List.forall_mem_append, List.forall_mem_cons]
  exact ⟨hwrite _ _, hcolon, hwrite _ _, hcolon, hwrite _ _, hfraction⟩

/-- No sign stands in a time. -/
theorem isSign_formatTime {c : Clock} : ∀ x ∈ formatTime c, isSign x = false :=
  forall_mem_formatTime (fun x => isSign x = false) (by decide) rfl rfl c

/-- A time with its offset is read back. -/
theorem parseTime_format {c : Clock} {o : Int} (hour : c.hour < 24) (minute : c.minute < 60)
    (second : c.second < 60) (micro : c.microsecond < 1000000) (ho : o.natAbs < oneDay) :
    parseTime (formatTime c ++ formatOffset o) = some (c, some o) := by
  obtain ⟨sign, rest, hformat, hsign, hlen, hrest⟩ := formatOffset_cases ho
  have htime : ∀ x ∈ formatTime c, (!isSign x) = true := by
    intro x hx
    rw [isSign_formatTime x hx]
    rfl
  have hstop : isSign sign = true := by
    rw [hsign]
    split <;> rfl
  have hZ : sign ≠ 'Z' := by
    rw [hsign]
    split <;> decide
  have htake : (formatTime c ++ sign :: rest).takeWhile (fun x => !isSign x) = formatTime c := by
    rw [List.takeWhile_append_of_pos htime, List.takeWhile_cons, hstop]
    simp
  have hdrop : (formatTime c ++ sign :: rest).dropWhile (fun x => !isSign x) = sign :: rest := by
    rw [List.dropWhile_append_of_pos htime, List.dropWhile_cons, hstop]
    rfl
  have hclock : parseClock (formatTime c) = some c :=
    parseClock_long (by omega) minute second micro
  have hshort : ¬ (formatTime c ++ sign :: rest).length < 2 := by
    rw [List.length_append, List.length_cons]
    omega
  have hvalue : (if sign = '-' then -Clock.micros (offsetClock o)
      else Clock.micros (offsetClock o)) = o := by
    rw [micros_offsetClock, hsign]
    by_cases hneg : o < 0
    · rw [if_pos hneg, if_pos rfl]
      omega
    · rw [if_neg hneg, if_neg (by decide)]
      omega
  obtain ⟨x, rest, rfl⟩ := List.exists_cons_of_ne_nil (List.ne_nil_of_length_pos
    (show 0 < rest.length by omega))
  have hne : rest ≠ [] := by
    rintro rfl
    simp at hlen
  have htwo : rest.length ≠ 2 := by
    rw [List.length_cons] at hlen
    omega
  rw [hformat, parseTime, if_neg hshort, htake, hdrop, hclock]
  simpa [hrest] using ⟨⟨hZ, hne, htwo⟩, hvalue⟩

/-- The date of `isoformat`. -/
def formatDate (d : Datetime) : List Char :=
  decimal.write 4 d.year ++ '-' :: (decimal.write 2 d.month ++ '-' :: decimal.write 2 d.day)

theorem length_formatDate (d : Datetime) : (formatDate d).length = 10 := by
  simp [formatDate]

theorem parseDate_format (d : Datetime) :
    parseDate (formatDate d) = some (d.year, d.month, d.day) := by
  have hyear : d.year < decimal.base ^ 4 := lt_of_le_of_lt d.year_range.2 (by decide)
  have hmonth : d.month < 60 := lt_of_le_of_lt d.month_range.2 (by decide)
  have hday : d.day < 60 := by
    have hday := d.day_range.2
    unfold daysInMonth at hday
    split at hday <;> split at hday <;> omega
  have hW : ∀ t, decimal.write 2 d.month ++ '-' :: decimal.write 2 d.day ≠ 'W' :: t := by
    intro t hhead
    have hmem : 'W' ∈ decimal.write 2 d.month := by
      rw [Radix.write, List.cons_append] at hhead
      rw [Radix.write, (List.cons.inj hhead).1]
      exact List.mem_cons_self
    exact absurd (Radix.isDigit_write hmem) (by decide)
  rw [formatDate, parseDate, Radix.read_write hyear]
  generalize hrest : decimal.write 2 d.month ++ '-' :: decimal.write 2 d.day = rest at hW
  simp only [Option.bind_eq_bind, Option.bind_some, dash]
  rw [← hrest]
  simp [two_digits hmonth, two_digits_end hday]

theorem findSeparator_format (d : Datetime) (time : List Char) :
    findSeparator (formatDate d ++ 'T' :: time) = some 10 := by
  have hlen : (formatDate d ++ 'T' :: time).length ≠ 7 := by
    rw [List.length_append, length_formatDate]
    omega
  have hdash : (formatDate d ++ 'T' :: time)[4]? = some '-' := rfl
  have hmonth : (formatDate d ++ 'T' :: time)[5]? = some (decimal.digit (d.month / 10 % 10)) := rfl
  have hW : ∀ n < 10, decimal.digit n ≠ 'W' := by decide
  have hne : (formatDate d ++ 'T' :: time)[5]? ≠ some 'W' := by
    rw [hmonth]
    exact fun h => hW _ (Nat.mod_lt _ (by decide)) (Option.some.inj h)
  rw [findSeparator, if_neg hlen, if_pos hdash, if_neg hne]

/-- **What `isoformat` writes of an aware date is read back.** -/
theorem fromisoformat_isoformat {d : Datetime} (h : d.Aware) :
    fromisoformat (isoformat d) = some d := by
  obtain ⟨o, ho⟩ := Option.isSome_iff_exists.mp h
  obtain ⟨hour, minute, second, micro⟩ := d.clock_range
  have htime := parseTime_format hour minute second micro (d.offset_range o ho)
  have hdate := parseDate_format d
  have hseparator := findSeparator_format d (formatTime d.clock ++ formatOffset o)
  have hlen := length_formatDate d
  have htext : isoformat d = formatDate d ++ 'T' :: (formatTime d.clock ++ formatOffset o) := by
    simp [isoformat, formatDate, ho]
  rw [htext, fromisoformat, hseparator]
  generalize formatTime d.clock ++ formatOffset o = time at htime
  have htake : (formatDate d ++ 'T' :: time).take 10 = formatDate d := List.take_left' hlen
  have hdrop : (formatDate d ++ 'T' :: time).drop 11 = time := by
    rw [List.drop_append, hlen, List.drop_eq_nil_of_le (by omega)]
    rfl
  have hlong : 11 ≤ (formatDate d ++ 'T' :: time).length := by
    rw [List.length_append, List.length_cons, hlen]
    omega
  rw [if_neg (by omega)]
  have hself := new?_self d
  rw [ho] at hself
  simp only [Option.bind_eq_bind, Option.bind_some, htake, hdrop, hdate, htime, hself,
    if_neg (show ¬ (formatDate d ++ 'T' :: time).length ≤ 10 by omega)]

/-- What holds of the digits and the separators holds of every character of a date. -/
theorem forall_mem_isoformat (p : Char → Prop) (hdigit : ∀ d < 10, p (decimal.digit d))
    (hcolon : p ':') (hpoint : p '.') (hdash : p '-') (hplus : p '+') (hT : p 'T')
    (d : Datetime) : ∀ x ∈ isoformat d, p x := by
  have hwrite : ∀ w n, ∀ x ∈ decimal.write w n, p x := by
    intro w n x hx
    obtain ⟨d, hd, rfl⟩ := Radix.mem_write hx
    exact hdigit d hd
  have hoffset : ∀ x ∈ (d.offset.map formatOffset).getD [], p x := by
    cases d.offset with
    | none => simp
    | some o =>
      have htime := forall_mem_formatTime p hdigit hcolon hpoint (offsetClock o)
      simp only [formatTime, List.forall_mem_append, List.forall_mem_cons] at htime
      simp only [Option.map_some, Option.getD_some, formatOffset, List.forall_mem_append,
        List.forall_mem_cons]
      refine ⟨by split <;> assumption, htime.1, hcolon, htime.2.2.1, ?_⟩
      split
      · simpa only [List.forall_mem_append, List.forall_mem_cons] using htime.2.2.2
      · simp
  simp only [isoformat, List.forall_mem_append, List.forall_mem_cons]
  exact ⟨hwrite _ _, hdash, hwrite _ _, hdash, hwrite _ _, hT,
    forall_mem_formatTime p hdigit hcolon hpoint d.clock, hoffset⟩

end Datetime
