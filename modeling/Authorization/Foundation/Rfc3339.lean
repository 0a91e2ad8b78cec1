import Authorization.Foundation.Decimal
import Authorization.Foundation.Time

/-!
# RFC 3339 times

The text of an instant in its zone, as `time.Time` writes and reads it in JSON:
the date in the proleptic Gregorian calendar, the time of day, the fraction of a
second without trailing zeros, and the zone as `Z` or a signed offset in hours
and minutes.  Only the years 0 to 9999 and offsets below a day have one.

Days are counted from 1 January of year 0.  `yearOfDay` estimates the year from
the mean length and corrects the estimate by one, `yearOfDay_spec`.

`parseTime_formatTime` is the round trip; an offset is written to the minute, so
it is stated for offsets of whole minutes.
-/

namespace Authorization.Foundation

/-! ### The calendar -/

def isLeap (year : Nat) : Bool := year % 4 == 0 && (year % 100 != 0 || year % 400 == 0)

def monthLengths (leap : Bool) : List Nat :=
  [31, if leap then 29 else 28, 31, 30, 31, 30, 31, 31, 30, 31, 30, 31]

/-- The days before a year: 365 for each year before it and one for each leap
year. -/
def daysBeforeYear (year : Nat) : Nat :=
  365 * year + (year + 3) / 4 + (year + 399) / 400 - (year + 99) / 100

/-- The year a day belongs to. -/
def yearOfDay (day : Nat) : Nat :=
  let estimate := day * 400 / 146097
  if daysBeforeYear (estimate + 1) ≤ day then estimate + 1
  else if daysBeforeYear estimate ≤ day then estimate
  else estimate - 1

theorem yearOfDay_spec (day : Nat) :
    daysBeforeYear (yearOfDay day) ≤ day ∧ day < daysBeforeYear (yearOfDay day + 1) := by
  unfold yearOfDay
  dsimp only
  split
  · rename_i h
    refine ⟨h, ?_⟩
    unfold daysBeforeYear
    omega
  · split
    · rename_i h h'
      exact ⟨h', by omega⟩
    · rename_i h h'
      have hpos : day * 400 / 146097 ≠ 0 := by
        intro h0
        rw [h0] at h'
        exact h' (Nat.zero_le _)
      rw [Nat.sub_add_cancel (by omega)]
      refine ⟨?_, by omega⟩
      unfold daysBeforeYear
      omega

theorem isLeap_iff {year : Nat} :
    isLeap year = true ↔ year % 4 = 0 ∧ (year % 100 ≠ 0 ∨ year % 400 = 0) := by
  simp [isLeap]

theorem sum_monthLengths (leap : Bool) :
    (monthLengths leap).sum = if leap then 366 else 365 := by
  cases leap <;> rfl

theorem daysBeforeYear_succ (year : Nat) : daysBeforeYear (year + 1)
    = daysBeforeYear year + (monthLengths (isLeap year)).sum := by
  have hfour : (year + 1 + 3) / 4 = (year + 3) / 4 + if year % 4 = 0 then 1 else 0 := by
    split <;> omega
  have hhundred : (year + 1 + 99) / 100 = (year + 99) / 100 + if year % 100 = 0 then 1 else 0 := by
    split <;> omega
  have hfourHundred :
      (year + 1 + 399) / 400 = (year + 399) / 400 + if year % 400 = 0 then 1 else 0 := by
    split <;> omega
  have hle : (year + 99) / 100 ≤ (year + 3) / 4 := by omega
  have hdvd : year % 400 = 0 → year % 100 = 0 := by omega
  have hdvd' : year % 100 = 0 → year % 4 = 0 := by omega
  have hleap := @isLeap_iff year
  rw [sum_monthLengths, daysBeforeYear, daysBeforeYear, hfour, hhundred, hfourHundred]
  generalize (year + 3) / 4 = four at *
  generalize (year + 99) / 100 = hundred at *
  generalize (year + 399) / 400 = fourHundred at *
  by_cases h4 : year % 4 = 0
  · by_cases h100 : year % 100 = 0
    · by_cases h400 : year % 400 = 0
      · rw [if_pos (hleap.mpr ⟨h4, Or.inr h400⟩), if_pos h4, if_pos h100, if_pos h400]; omega
      · rw [if_neg (fun h => (hleap.mp h).2.elim (absurd h100) h400), if_pos h4, if_pos h100,
          if_neg h400]
        omega
    · rw [if_pos (hleap.mpr ⟨h4, Or.inl h100⟩), if_pos h4, if_neg h100,
        if_neg (mt hdvd h100)]
      omega
  · rw [if_neg (fun h => h4 (hleap.mp h).1), if_neg h4, if_neg (mt hdvd' h4),
      if_neg (mt hdvd (mt hdvd' h4))]
    omega

/-- The block that holds an index, and the index within the block. -/
def splitBlocks : List Nat → Nat → Nat × Nat
  | [], index => (0, index)
  | len :: rest, index =>
    if index < len then (0, index)
    else ((splitBlocks rest (index - len)).1 + 1, (splitBlocks rest (index - len)).2)

theorem splitBlocks_spec : ∀ (blocks : List Nat) (index : Nat), index < blocks.sum →
    (splitBlocks blocks index).1 < blocks.length ∧
    (splitBlocks blocks index).2 < blocks.getD (splitBlocks blocks index).1 0 ∧
    (blocks.take (splitBlocks blocks index).1).sum + (splitBlocks blocks index).2 = index := by
  intro blocks
  induction blocks with
  | nil => intro index h; exact absurd h (Nat.not_lt_zero _)
  | cons len rest ih =>
    intro index h
    rw [List.sum_cons] at h
    rw [splitBlocks]
    split
    · rename_i hlt
      exact ⟨by simp, by simpa using hlt, by simp⟩
    · obtain ⟨h1, h2, h3⟩ := ih (index - len) (by omega)
      refine ⟨?_, ?_, ?_⟩
      · simp only [List.length_cons]; omega
      · simpa using h2
      · simp only [List.take_succ_cons, List.sum_cons]; omega

/-- The year, the month and the day of the month, the latter two from zero. -/
def dateOfDay (day : Nat) : Nat × Nat × Nat :=
  let year := yearOfDay day
  let split := splitBlocks (monthLengths (isLeap year)) (day - daysBeforeYear year)
  (year, split.1, split.2)

def dayOfDate (year month day : Nat) : Nat :=
  daysBeforeYear year + (((monthLengths (isLeap year)).take month).sum + day)

theorem dateOfDay_spec (day : Nat) :
    (dateOfDay day).2.1 < 12 ∧
    (dateOfDay day).2.2 < (monthLengths (isLeap (dateOfDay day).1)).getD (dateOfDay day).2.1 0 ∧
    dayOfDate (dateOfDay day).1 (dateOfDay day).2.1 (dateOfDay day).2.2 = day := by
  obtain ⟨hle, hlt⟩ := yearOfDay_spec day
  rw [daysBeforeYear_succ] at hlt
  obtain ⟨h1, h2, h3⟩ := splitBlocks_spec (monthLengths (isLeap (yearOfDay day)))
    (day - daysBeforeYear (yearOfDay day)) (by omega)
  refine ⟨h1, h2, ?_⟩
  show daysBeforeYear (yearOfDay day) + _ = day
  rw [show ((monthLengths (isLeap (dateOfDay day).1)).take (dateOfDay day).2.1).sum
      + (dateOfDay day).2.2 = day - daysBeforeYear (yearOfDay day) from h3]
  omega

/-! ### Fields of digits -/

/-- A field of exactly `width` digits and the text after it. -/
def readDigits (width : Nat) (s : Bytes) : Option (Nat × Bytes) :=
  if s.length < width then none
  else (parseDigits 0 (s.take width)).map fun n => (n, s.drop width)

theorem readDigits_padded {width n : Nat} (h : n < 10 ^ width) (rest : Bytes) :
    readDigits width (padded width n ++ rest) = some (n, rest) := by
  have hlen : ¬ (padded width n ++ rest).length < width := by
    rw [List.length_append, length_padded]
    omega
  rw [readDigits, if_neg hlen, List.take_left' (length_padded _ _),
    List.drop_left' (length_padded _ _), parseDigits_padded, Nat.zero_mul, Nat.zero_add,
    Nat.mod_eq_of_lt h]
  rfl

/-! ### The fraction of a second -/

/-- The text without its trailing zeros. -/
def trimZeros (s : Bytes) : Bytes := (s.reverse.dropWhile (· == 0x30)).reverse

def formatFraction (nanosecond : Nat) : Bytes :=
  if trimZeros (padded 9 nanosecond) = [] then [] else 0x2E :: trimZeros (padded 9 nanosecond)

/-- The nanoseconds of the digits after the point; those past the ninth are
dropped. -/
def nanosOf (digits : Bytes) : Nat :=
  (parseDigits 0 (digits.take 9)).getD 0 * 10 ^ (9 - (digits.take 9).length)

/-- The fraction at the head of a text, if there is one; a comma is read as a
point. -/
def parseFraction (s : Bytes) : Nat × Bytes :=
  match s with
  | point :: d :: rest =>
    if (point = 0x2E ∨ point = 0x2C) ∧ isDigit d then
      (nanosOf ((d :: rest).takeWhile isDigit), (d :: rest).dropWhile isDigit)
    else (0, s)
  | _ => (0, s)

theorem exists_trimZeros (s : Bytes) : ∃ k, s = trimZeros s ++ List.replicate k 0x30 := by
  have hsplit := List.takeWhile_append_dropWhile (p := (· == 0x30)) (l := s.reverse)
  have hzeros : s.reverse.takeWhile (· == 0x30)
      = List.replicate (s.reverse.takeWhile (· == 0x30)).length 0x30 := by
    refine List.eq_replicate_of_mem fun b hb => ?_
    exact beq_iff_eq.mp (List.all_eq_true.mp List.all_takeWhile b hb)
  refine ⟨(s.reverse.takeWhile (· == 0x30)).length, ?_⟩
  rw [trimZeros, ← List.reverse_replicate, ← hzeros, ← List.reverse_append, hsplit,
    List.reverse_reverse]

theorem parseDigits_replicate_zero : ∀ (k acc : Nat),
    parseDigits acc (List.replicate k 0x30) = some (acc * 10 ^ k) := by
  intro k
  induction k with
  | zero => intro acc; simp [parseDigits]
  | succ k ih =>
    intro acc
    rw [List.replicate_succ, parseDigits, if_pos (by decide), ih]
    congr 1
    show (acc * 10 + 0) * 10 ^ k = _
    rw [Nat.pow_succ]
    ring

theorem nanosOf_trimZeros {nanosecond : Nat} (h : nanosecond < 10 ^ 9) :
    nanosOf (trimZeros (padded 9 nanosecond)) = nanosecond := by
  obtain ⟨k, hk⟩ := exists_trimZeros (padded 9 nanosecond)
  have hlen : (trimZeros (padded 9 nanosecond)).length + k = 9 := by
    have := congrArg List.length hk
    rw [length_padded, List.length_append, List.length_replicate] at this
    exact this.symm
  have hread := parseDigits_padded 9 nanosecond 0
  rw [hk, parseDigits_append, Nat.zero_mul, Nat.zero_add, Nat.mod_eq_of_lt h] at hread
  obtain ⟨n, hn, hz⟩ := Option.bind_eq_some_iff.mp hread
  rw [parseDigits_replicate_zero] at hz
  rw [nanosOf, List.take_of_length_le (by omega), hn]
  have hpow : 9 - (trimZeros (padded 9 nanosecond)).length = k := by omega
  rw [hpow]
  exact Option.some.inj hz

theorem isDigit_of_mem_trimZeros {nanosecond : Nat} {b : UInt8}
    (h : b ∈ trimZeros (padded 9 nanosecond)) : isDigit b = true := by
  obtain ⟨k, hk⟩ := exists_trimZeros (padded 9 nanosecond)
  apply isDigit_of_mem_padded (n := nanosecond)
  rw [hk]
  exact List.mem_append_left _ h

/-- The text after a fraction starts with neither a digit nor a point. -/
def EndsFraction : Bytes → Prop
  | [] => True
  | b :: _ => isDigit b = false ∧ b ≠ 0x2E ∧ b ≠ 0x2C

theorem parseFraction_formatFraction {nanosecond : Nat} (h : nanosecond < 10 ^ 9) {rest : Bytes}
    (hrest : EndsFraction rest) :
    parseFraction (formatFraction nanosecond ++ rest) = (nanosecond, rest) := by
  have hnanos := nanosOf_trimZeros h
  rw [formatFraction]
  split
  · rename_i hnil
    have hzero : nanosecond = 0 := by
      rw [hnil] at hnanos
      simpa [nanosOf, parseDigits] using hnanos.symm
    subst hzero
    rw [List.nil_append]
    cases rest with
    | nil => rfl
    | cons b rest =>
      cases rest with
      | nil => rfl
      | cons d rest =>
        unfold parseFraction
        dsimp only
        rw [if_neg (fun hp => hp.1.elim hrest.2.1 hrest.2.2)]
  · rename_i hne
    have hall : ∀ b ∈ trimZeros (padded 9 nanosecond), isDigit b = true :=
      fun _ => isDigit_of_mem_trimZeros
    generalize trimZeros (padded 9 nanosecond) = digits at *
    obtain ⟨d, digits, rfl⟩ := List.exists_cons_of_ne_nil hne
    have htake : rest.takeWhile isDigit = [] ∧ rest.dropWhile isDigit = rest := by
      cases rest with
      | nil => exact ⟨rfl, rfl⟩
      | cons b rest => simp [hrest.1]
    unfold parseFraction
    simp only [List.cons_append]
    rw [if_pos ⟨by simp, hall d List.mem_cons_self⟩, ← List.cons_append,
      List.takeWhile_append_of_pos hall, List.dropWhile_append_of_pos hall, htake.1, htake.2,
      List.append_nil, hnanos]

/-! ### The date, the time of day and the zone -/

def formatDate (year month day : Nat) : Bytes :=
  padded 4 year ++ 0x2D :: (padded 2 (month + 1) ++ 0x2D :: padded 2 (day + 1))

/-- A date of the calendar, as the number of its day. -/
def parseDate (s : Bytes) : Option (Nat × Bytes) :=
  (readDigits 4 s).bind fun (year, s) =>
  (expect 0x2D s).bind fun s =>
  (readDigits 2 s).bind fun (month, s) =>
  (expect 0x2D s).bind fun s =>
  (readDigits 2 s).bind fun (day, s) =>
    if 1 ≤ month ∧ month ≤ 12 ∧ 1 ≤ day ∧
        day ≤ (monthLengths (isLeap year)).getD (month - 1) 0 then
      some (dayOfDate year (month - 1) (day - 1), s)
    else none

def formatClock (second : Nat) : Bytes :=
  padded 2 (second / 3600) ++
    0x3A :: (padded 2 (second / 60 % 60) ++ 0x3A :: padded 2 (second % 60))

/-- The time of day, as its second; the hour may have a single digit. -/
def parseClock (s : Bytes) : Option (Nat × Bytes) :=
  ((readDigits 2 s).or (readDigits 1 s)).bind fun (hour, s) =>
  (expect 0x3A s).bind fun s =>
  (readDigits 2 s).bind fun (minute, s) =>
  (expect 0x3A s).bind fun s =>
  (readDigits 2 s).bind fun (second, s) =>
    if hour < 24 ∧ minute < 60 ∧ second < 60 then some (hour * 3600 + minute * 60 + second, s)
    else none

/-- The offset in hours and minutes; its seconds are not written. -/
def formatZone (offset : Int) : Bytes :=
  if offset = 0 then [0x5A]
  else
    (if Int.tdiv offset 60 < 0 then 0x2D else 0x2B) ::
      (padded 2 ((Int.tdiv offset 60).natAbs / 60) ++
        0x3A :: padded 2 ((Int.tdiv offset 60).natAbs % 60))

/-- The minutes of a signed zone; offsets of 24 hours and of 60 minutes are
read. -/
def parseZoneMinutes (s : Bytes) : Option Nat :=
  (readDigits 2 s).bind fun (hours, s) =>
  (expect 0x3A s).bind fun s =>
  (readDigits 2 s).bind fun (minutes, s) =>
    if s = [] ∧ hours ≤ 24 ∧ minutes ≤ 60 then some (hours * 60 + minutes) else none

/-- The zone at the end of a text, in seconds east of UTC. -/
def parseZone : Bytes → Option Int
  | [] => none
  | sign :: s =>
    if sign = 0x5A then if s = [] then some 0 else none
    else if sign = 0x2B then (parseZoneMinutes s).map fun minutes : Nat => (minutes : Int) * 60
    else if sign = 0x2D then (parseZoneMinutes s).map fun minutes : Nat => -((minutes : Int) * 60)
    else none

theorem getD_monthLengths_le (leap : Bool) (month : Nat) :
    (monthLengths leap).getD month 0 ≤ 31 := by
  by_cases hm : month < 12
  · have : ∀ leap, ∀ m < 12, (monthLengths leap).getD m 0 ≤ 31 := by decide
    exact this leap month hm
  · have hnone : (monthLengths leap)[month]? = none :=
      List.getElem?_eq_none (Nat.le_of_not_lt hm)
    rw [List.getD_eq_getElem?_getD, hnone]
    exact Nat.zero_le _

theorem parseDate_formatDate {year month day : Nat} (hyear : year ≤ 9999) (hmonth : month < 12)
    (hday : day < (monthLengths (isLeap year)).getD month 0) (rest : Bytes) :
    parseDate (formatDate year month day ++ rest) = some (dayOfDate year month day, rest) := by
  have hlen := getD_monthLengths_le (isLeap year) month
  rw [formatDate, parseDate]
  simp only [List.append_assoc, List.cons_append]
  rw [readDigits_padded (by omega)]
  simp only [Option.bind_some, expect_cons_self]
  rw [readDigits_padded (by omega)]
  simp only [Option.bind_some, expect_cons_self]
  rw [readDigits_padded (by omega)]
  simp only [Option.bind_some, Nat.add_sub_cancel]
  rw [if_pos (by omega)]

theorem parseClock_formatClock {second : Nat} (h : second < 86400) (rest : Bytes) :
    parseClock (formatClock second ++ rest) = some (second, rest) := by
  rw [formatClock, parseClock]
  simp only [List.append_assoc, List.cons_append]
  rw [readDigits_padded (by omega)]
  simp only [Option.some_or, Option.bind_some, expect_cons_self]
  rw [readDigits_padded (by omega)]
  simp only [Option.bind_some, expect_cons_self]
  rw [readDigits_padded (by omega)]
  simp only [Option.bind_some]
  rw [if_pos (by omega)]
  congr 2
  omega

theorem parseZoneMinutes_padded (hours minutes : Nat) (hh : hours < 24) (hm : minutes < 60) :
    parseZoneMinutes (padded 2 hours ++ 0x3A :: padded 2 minutes)
      = some (hours * 60 + minutes) := by
  rw [parseZoneMinutes, readDigits_padded (by omega)]
  simp only [Option.bind_some, expect_cons_self]
  have hlast : readDigits 2 (padded 2 minutes ++ []) = some (minutes, []) :=
    readDigits_padded (by omega) []
  rw [List.append_nil] at hlast
  rw [hlast]
  simp only [Option.bind_some]
  rw [if_pos ⟨by simp, by omega, by omega⟩]

theorem parseZone_formatZone {offset : Int} (hwhole : offset % 60 = 0)
    (hday : offset.natAbs / 3600 < 24) : parseZone (formatZone offset) = some offset := by
  rw [formatZone]
  split
  · rename_i h; rw [h]; rfl
  · rename_i hne
    obtain ⟨m, rfl⟩ : ∃ m : Int, offset = 60 * m := ⟨offset / 60, by omega⟩
    rw [Int.mul_tdiv_cancel_left m (by omega)]
    have hparse := parseZoneMinutes_padded (m.natAbs / 60) (m.natAbs % 60)
      (by omega) (by omega)
    split
    · rw [parseZone, if_neg (by decide), if_neg (by decide), if_pos rfl, hparse, Option.map_some]
      congr 1
      omega
    · rw [parseZone, if_neg (by decide), if_pos rfl, hparse, Option.map_some]
      congr 1
      omega

theorem parseZone_whole {s : Bytes} {offset : Int} (h : parseZone s = some offset) :
    offset % 60 = 0 := by
  cases s with
  | nil => cases h
  | cons sign s =>
    rw [parseZone] at h
    split at h
    · split at h
      · cases h; rfl
      · cases h
    · split at h
      · obtain ⟨m, -, rfl⟩ := Option.map_eq_some_iff.mp h
        omega
      · split at h
        · obtain ⟨m, -, rfl⟩ := Option.map_eq_some_iff.mp h
          omega
        · cases h

/-! ### Times -/

/-- The nanoseconds shown by the clock on the wall of the zone. -/
def Time.wall (t : Time) : Int := t.nanos + t.offset * 1000000000

/-- The day shown, counted from year 0, a leap year. -/
def Time.day (t : Time) : Int := t.wall / 86400000000000 + 366

/-- The nanoseconds of the day shown. -/
def Time.nanosOfDay (t : Time) : Nat := (t.wall % 86400000000000).toNat

/-- `time.Time` as text, if its year and its zone have one. -/
def formatTime (t : Time) : Option Bytes :=
  if t.day < 0 then none
  else
    let date := dateOfDay t.day.toNat
    if date.1 ≤ 9999 ∧ t.offset.natAbs / 3600 < 24 then
      some (formatDate date.1 date.2.1 date.2.2 ++ 0x54 ::
        (formatClock (t.nanosOfDay / 1000000000) ++
          (formatFraction (t.nanosOfDay % 1000000000) ++ formatZone t.offset)))
    else none

/-- The time a text stands for. -/
def parseTime (s : Bytes) : Option Time :=
  (parseDate s).bind fun (day, s) =>
  (expect 0x54 s).bind fun s =>
  (parseClock s).bind fun (second, s) =>
  (parseZone (parseFraction s).2).map fun offset =>
    { nanos := ((day : Int) - 366) * 86400000000000 + second * 1000000000
        + (parseFraction s).1 - offset * 1000000000
      offset := offset }

theorem endsFraction_formatZone (offset : Int) : EndsFraction (formatZone offset) := by
  rw [formatZone]
  split
  · exact ⟨rfl, by decide, by decide⟩
  · split
    · exact ⟨rfl, by decide, by decide⟩
    · exact ⟨rfl, by decide, by decide⟩

/-- **A time is read back from its text**, when its offset is whole minutes. -/
theorem parseTime_formatTime {t : Time} {s : Bytes} (hwhole : t.offset % 60 = 0)
    (h : formatTime t = some s) : parseTime s = some t := by
  rw [formatTime] at h
  split at h
  · cases h
  · rename_i hday
    dsimp only at h
    split at h
    · rename_i hrange
      cases h
      obtain ⟨hm, hd, hback⟩ := dateOfDay_spec t.day.toNat
      have hwall : t.wall % 86400000000000 < 86400000000000 := Int.emod_lt_of_pos _ (by omega)
      have hwall' : 0 ≤ t.wall % 86400000000000 := Int.emod_nonneg _ (by omega)
      have hnanos : t.nanosOfDay < 86400000000000 := by
        rw [Time.nanosOfDay]
        omega
      rw [parseTime, parseDate_formatDate hrange.1 hm hd]
      simp only [Option.bind_some, expect_cons_self]
      rw [parseClock_formatClock (by omega)]
      simp only [Option.bind_some]
      have hfraction : t.nanosOfDay % 1000000000 < 10 ^ 9 := Nat.mod_lt _ (by omega)
      rw [parseFraction_formatFraction hfraction (endsFraction_formatZone _),
        parseZone_formatZone hwhole hrange.2, Option.map_some, hback]
      congr 1
      have hinstant : (t.day.toNat - 366 : Int) * 86400000000000
          + (t.nanosOfDay / 1000000000 : Nat) * 1000000000 + (t.nanosOfDay % 1000000000 : Nat)
          - t.offset * 1000000000 = t.nanos := by
        have hd : (t.day.toNat : Int) = t.wall / 86400000000000 + 366 := by
          rw [Int.toNat_of_nonneg (by omega), Time.day]
        have hn : (t.nanosOfDay : Int) = t.wall % 86400000000000 := by
          rw [Time.nanosOfDay, Int.toNat_of_nonneg hwall']
        rw [hd]
        have hw : t.wall = t.nanos + t.offset * 1000000000 := rfl
        omega
      rw [hinstant]
    · cases h

/-- The bytes the text of a time is made of: digits, signs, point, colon, `T` and
`Z`. -/
def isTimeByte (b : UInt8) : Bool := isDigit b || [0x2B, 0x2D, 0x2E, 0x3A, 0x54, 0x5A].contains b

theorem isTimeByte_of_isDigit {b : UInt8} (h : isDigit b = true) : isTimeByte b = true := by
  rw [isTimeByte, h]
  rfl

theorem isTimeByte_padded {width n : Nat} : ∀ b ∈ padded width n, isTimeByte b = true :=
  fun _ hb => isTimeByte_of_isDigit (isDigit_of_mem_padded hb)

theorem isTimeByte_formatFraction {nanosecond : Nat} :
    ∀ b ∈ formatFraction nanosecond, isTimeByte b = true := by
  intro b hb
  rw [formatFraction] at hb
  split at hb
  · cases hb
  · rcases List.mem_cons.mp hb with rfl | hb
    · decide
    · exact isTimeByte_of_isDigit (isDigit_of_mem_trimZeros hb)

theorem isTimeByte_formatZone {offset : Int} : ∀ b ∈ formatZone offset, isTimeByte b = true := by
  rw [formatZone]
  split
  · intro b hb
    rw [List.mem_singleton.mp hb]
    decide
  · simp only [List.forall_mem_cons, List.forall_mem_append]
    refine ⟨?_, isTimeByte_padded, by decide, isTimeByte_padded⟩
    split <;> decide

theorem isTimeByte_formatTime {t : Time} {s : Bytes} (h : formatTime t = some s) :
    ∀ b ∈ s, isTimeByte b = true := by
  rw [formatTime] at h
  split at h
  · cases h
  · dsimp only at h
    split at h
    · cases h
      simp only [formatDate, formatClock, List.forall_mem_cons, List.forall_mem_append]
      exact ⟨⟨isTimeByte_padded, by decide, isTimeByte_padded, by decide, isTimeByte_padded⟩,
        by decide, ⟨isTimeByte_padded, by decide, isTimeByte_padded, by decide,
          isTimeByte_padded⟩, isTimeByte_formatFraction, isTimeByte_formatZone⟩
    · cases h

theorem parseTime_whole {s : Bytes} {t : Time} (h : parseTime s = some t) : t.offset % 60 = 0 := by
  obtain ⟨_, _, h⟩ := Option.bind_eq_some_iff.mp h
  obtain ⟨_, _, h⟩ := Option.bind_eq_some_iff.mp h
  obtain ⟨_, _, h⟩ := Option.bind_eq_some_iff.mp h
  obtain ⟨offset, hoffset, rfl⟩ := Option.map_eq_some_iff.mp h
  exact parseZone_whole hoffset

example : formatTime ⟨63797910245000000120, 19800⟩
    = some (str "2022-09-04T23:14:05.00000012+05:30") := by
  decide +kernel

end Authorization.Foundation
