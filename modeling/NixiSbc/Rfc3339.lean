import NixiSbc.Bans
import NixiSbc.Blocks
import NixiSbc.PaddedText

namespace NixiSbc.Rfc3339

open Bans Blocks TextScan TextFields TextWords PaddedText

def isLeap (y : Nat) : Bool := (y % 4 = 0 ∧ y % 100 ≠ 0) ∨ y % 400 = 0

def yearLength (y : Nat) : Nat := if isLeap y then 366 else 365

def monthLengths (y : Nat) : List Nat :=
  [31, if isLeap y then 29 else 28, 31, 30, 31, 30, 31, 31, 30, 31, 30, 31]

def monthLength (y m : Nat) : Nat := (monthLengths y).getD m 0

/-- The month counts from zero, and so does the day. -/
structure Civil where
  year : Nat
  month : Nat
  day : Nat
  hour : Nat
  minute : Nat
  second : Nat

/-- The two loops of the renderers. The loop over the months reads the table of
their lengths; it stops inside it, since the days are fewer than those of the year. -/
def civil (secs : Nat) : Civil :=
  let days := secs / 86400
  let remSecs := secs % 86400
  let (y, rem) := locate yearLength (days + 1) 1970 days
  let (m, rem) := locate (monthLength y) 12 0 rem
  ⟨y, m, rem, remSecs / 3600, remSecs % 3600 / 60, remSecs % 60⟩

def Civil.text (c : Civil) : List Char :=
  showPadded 4 c.year ++ '-' :: (showPadded 2 (c.month + 1) ++ '-' :: (showPadded 2 (c.day + 1) ++ 'T' ::
    (showPadded 2 c.hour ++ ':' :: (showPadded 2 c.minute ++ ':' :: (showPadded 2 c.second ++ 'Z' :: [])))))

def systemtimeRfc3339 (t : Nat) : List Char := (civil (t / Bans.second)).text

/-- The management interface has the same body, -/
def rfc3339 (t : Nat) : List Char := (civil (t / Bans.second)).text

/-- and so has the rendering of the present time. -/
def nowRfc3339 (now : Clock) : List Char := (civil (now.system / Bans.second)).text

def trimEndMatches (c : Char) (text : List Char) : List Char := (text.reverse.dropWhile (· = c)).reverse

/-- The number in one of the fields. -/
def field (fields : List (List Char)) (i : Nat) : Option Nat := fields[i]?.bind (parseUnsigned 64)

/-- Read back as a time since the epoch. -/
def parseTs (s : List Char) : Option Nat :=
  (splitOnce 'T' s).bind fun (date, time) =>
    let d := date.splitOn '-'
    let t := (trimEndMatches 'Z' time).splitOn ':'
    (field d 0).bind fun y =>
      (field d 1).bind fun m =>
        (field d 2).bind fun day =>
          (field t 0).bind fun hh =>
            (field t 1).bind fun mm =>
              (t[2]?.bind fun ss => field (ss.splitOn '.') 0).map fun ss =>
                let days := ((List.range' 1970 (y - 1970)).map yearLength).sum +
                  ((monthLengths y).take (m - 1)).sum + (day - 1)
                (days * 86400 + hh * 3600 + mm * 60 + ss) * Bans.second

/-- The first second of the year 10000. -/
def endOf9999 : Nat := 253402300800

section Calendar

theorem yearLength_pos (y : Nat) : 0 < yearLength y := by
  rw [yearLength]
  split
  next => decide
  next => decide

theorem start_monthLength (y : Nat) : start (monthLength y) 12 = yearLength y := by
  simp only [start, monthLength, monthLengths, yearLength]
  cases isLeap y with
  | true => rfl
  | false => rfl

/-- The days before a year. -/
theorem start_yearLength (y : Nat) :
    start yearLength (y + 1) + y / 100 = 365 * (y + 1) + y / 4 + y / 400 + 1 := by
  induction y with
  | zero => rfl
  | succ y ih =>
      have hstep : start yearLength (y + 1 + 1) = start yearLength (y + 1) + yearLength (y + 1) := rfl
      have hlength : yearLength (y + 1) = if isLeap (y + 1) then 366 else 365 := rfl
      have hquarter : (y + 1) / 4 = y / 4 + if (y + 1) % 4 = 0 then 1 else 0 := by
        split <;> omega
      have hcentury : (y + 1) / 100 = y / 100 + if (y + 1) % 100 = 0 then 1 else 0 := by
        split <;> omega
      have hcycle : (y + 1) / 400 = y / 400 + if (y + 1) % 400 = 0 then 1 else 0 := by
        split <;> omega
      have hfour : (y + 1) % 100 = 0 → (y + 1) % 4 = 0 := by omega
      have hhundred : (y + 1) % 400 = 0 → (y + 1) % 100 = 0 := by omega
      rw [hstep, hlength, hquarter, hcentury, hcycle, isLeap]
      -- a year of every kind: common, leap, the first of a century, and of four
      by_cases h4 : (y + 1) % 4 = 0
      · by_cases h100 : (y + 1) % 100 = 0
        · by_cases h400 : (y + 1) % 400 = 0 <;> simp only [h4, h100, h400] <;> simp <;> omega
        · have h400 : (y + 1) % 400 ≠ 0 := fun h => h100 (hhundred h)
          simp [h4, h100, h400]
          omega
      · have h100 : (y + 1) % 100 ≠ 0 := fun h => h4 (hfour h)
        have h400 : (y + 1) % 400 ≠ 0 := fun h => h100 (hhundred h)
        simp [h4, h100, h400]
        omega

theorem start_add {y z first last days : Nat} (hfirst : first = y + 1) (hlast : last = z + 1)
    (h : 365 * first + y / 4 + y / 400 + days + z / 100 = 365 * last + z / 4 + z / 400 + y / 100) :
    start yearLength first + days = start yearLength last := by
  subst hfirst hlast
  have hy := start_yearLength y
  have hz := start_yearLength z
  omega

theorem endOf9999_days : start yearLength 1970 + endOf9999 / 86400 = start yearLength 10000 :=
  start_add (y := 1969) (z := 9999) rfl rfl (by decide)

/-- The days since the year 0. -/
def Civil.dayNumber (c : Civil) : Nat := start yearLength c.year + (start (monthLength c.year) c.month + c.day)

variable (secs : Nat)

/-- The year, and the days in it. -/
def yearOf : Nat × Nat := locate yearLength (secs / 86400 + 1) 1970 (secs / 86400)

theorem civil_year : (civil secs).year = (yearOf secs).1 := rfl

theorem civil_month :
    (civil secs).month = (locate (monthLength (yearOf secs).1) 12 0 (yearOf secs).2).1 := rfl

theorem civil_day :
    (civil secs).day = (locate (monthLength (yearOf secs).1) 12 0 (yearOf secs).2).2 := rfl

theorem yearOf_lt : (yearOf secs).2 < yearLength (yearOf secs).1 := by
  apply locate_lt
  have h := start_add_le yearLength_pos 1970 (secs / 86400 + 1)
  exact Nat.lt_of_lt_of_le (Nat.add_lt_add_left (Nat.lt_succ_self _) _) h

/-- The days in the year end before its last month does. -/
theorem yearOf_inside :
    start (monthLength (yearOf secs).1) 0 + (yearOf secs).2 < start (monthLength (yearOf secs).1) 12 := by
  rw [start_monthLength, start, Nat.zero_add]
  exact yearOf_lt secs

theorem civil_month_lt : (civil secs).month < 12 := by
  rw [civil_month]
  exact locate_index_lt (yearOf_inside secs)

theorem civil_day_lt : (civil secs).day < monthLength (civil secs).year (civil secs).month := by
  rw [civil_day, civil_month, civil_year]
  exact locate_lt (yearOf_inside secs)

theorem civil_dayNumber : (civil secs).dayNumber = start yearLength 1970 + secs / 86400 := by
  have hyear := start_add_locate yearLength (secs / 86400 + 1) 1970 (secs / 86400)
  have hmonth := start_add_locate (monthLength (yearOf secs).1) 12 0 (yearOf secs).2
  rw [start, Nat.zero_add] at hmonth
  rw [Civil.dayNumber, civil_day, civil_month, civil_year, hmonth]
  exact hyear

theorem le_civil_year : 1970 ≤ (civil secs).year := by
  rw [civil_year]
  exact le_locate _ _ _

/-- A year has a day at least. -/
theorem civil_year_lt : (civil secs).year < 1970 + (secs / 86400 + 1) := by
  rw [civil_year]
  apply locate_index_lt
  have hle := start_add_le yearLength_pos 1970 (secs / 86400 + 1)
  omega

theorem civil_year_lt_10000 (h : secs < endOf9999) : (civil secs).year < 10000 := by
  rw [civil_year]
  apply locate_index_lt
  rw [← endOf9999_days]
  rw [endOf9999] at h ⊢
  exact Nat.add_lt_add_left (by omega) _

theorem monthLength_le (y m : Nat) (h : m < 12) : monthLength y m ≤ 31 := by
  rw [monthLength, monthLengths]
  cases isLeap y with
  | true =>
      revert m
      decide
  | false =>
      revert m
      decide

/-- Every field has the width that it is written with. -/
structure Civil.Fits (c : Civil) : Prop where
  year : c.year < 10 ^ 4
  month : c.month + 1 < 10 ^ 2
  day : c.day + 1 < 10 ^ 2
  hour : c.hour < 10 ^ 2
  minute : c.minute < 10 ^ 2
  second : c.second < 10 ^ 2

/-- The year apart, whenever it is. -/
theorem civil_short : (civil secs).month + 1 < 10 ^ 2 ∧ (civil secs).day + 1 < 10 ^ 2 ∧ (civil secs).hour < 10 ^ 2 ∧
    (civil secs).minute < 10 ^ 2 ∧ (civil secs).second < 10 ^ 2 := by
  have hmonth := civil_month_lt secs
  have hday := Nat.lt_of_lt_of_le (civil_day_lt secs) (monthLength_le _ _ hmonth)
  have hhour : (civil secs).hour = secs % 86400 / 3600 := rfl
  have hminute : (civil secs).minute = secs % 86400 % 3600 / 60 := rfl
  have hsecond : (civil secs).second = secs % 86400 % 60 := rfl
  exact ⟨by omega, by omega, by omega, by omega, by omega⟩

theorem civil_fits (h : secs < endOf9999) : (civil secs).Fits := by
  obtain ⟨hmonth, hday, hhour, hminute, hsecond⟩ := civil_short secs
  exact ⟨civil_year_lt_10000 secs h, hmonth, hday, hhour, hminute, hsecond⟩

end Calendar

section Order

variable {c c' : Civil}

/-- The order of the fields, the year first. -/
theorem text_lt_iff (h : c.Fits) (h' : c'.Fits) :
    c.text < c'.text ↔ c.year < c'.year ∨ c.year = c'.year ∧ (c.month < c'.month ∨ c.month = c'.month ∧
      (c.day < c'.day ∨ c.day = c'.day ∧ (c.hour < c'.hour ∨ c.hour = c'.hour ∧
        (c.minute < c'.minute ∨ c.minute = c'.minute ∧ c.second < c'.second)))) := by
  rw [Civil.text, Civil.text, field_lt_iff (by decide) h.year h'.year,
    field_lt_iff (by decide) h.month h'.month, field_lt_iff (by decide) h.day h'.day,
    field_lt_iff (by decide) h.hour h'.hour, field_lt_iff (by decide) h.minute h'.minute,
    field_lt_iff (by decide) h.second h'.second, Nat.add_lt_add_iff_right, Nat.add_lt_add_iff_right,
    Nat.add_right_cancel_iff, Nat.add_right_cancel_iff]
  simp

theorem dayNumber_lt_iff (hmonth : c.month < 12) (hmonth' : c'.month < 12)
    (hday : c.day < monthLength c.year c.month) (hday' : c'.day < monthLength c'.year c'.month) :
    c.dayNumber < c'.dayNumber ↔ c.year < c'.year ∨ c.year = c'.year ∧ (c.month < c'.month ∨
      c.month = c'.month ∧ c.day < c'.day) := by
  have hlt : start (monthLength c.year) c.month + c.day < yearLength c.year := by
    rw [← start_monthLength]
    exact start_add_lt hday hmonth
  have hlt' : start (monthLength c'.year) c'.month + c'.day < yearLength c'.year := by
    rw [← start_monthLength]
    exact start_add_lt hday' hmonth'
  rw [Civil.dayNumber, Civil.dayNumber, start_add_lt_iff hlt hlt']
  refine or_congr_right (and_congr_right fun hyear => ?_)
  rw [hyear] at hday ⊢
  exact start_add_lt_iff hday hday'

/-- The text order is the order in time. -/
theorem civil_text_lt_iff {n m : Nat} (hn : n < endOf9999) (hm : m < endOf9999) :
    (civil n).text < (civil m).text ↔ n < m := by
  have hdays := dayNumber_lt_iff (civil_month_lt n) (civil_month_lt m) (civil_day_lt n) (civil_day_lt m)
  have hdays' := dayNumber_lt_iff (civil_month_lt m) (civil_month_lt n) (civil_day_lt m) (civil_day_lt n)
  rw [civil_dayNumber, civil_dayNumber, Nat.add_lt_add_iff_left] at hdays hdays'
  have htime (k : Nat) : (civil k).hour = k % 86400 / 3600 ∧ (civil k).minute = k % 86400 % 3600 / 60 ∧
      (civil k).second = k % 86400 % 60 := ⟨rfl, rfl, rfl⟩
  obtain ⟨hhour, hminute, hsecond⟩ := htime n
  obtain ⟨hhour', hminute', hsecond'⟩ := htime m
  rw [text_lt_iff (civil_fits n hn) (civil_fits m hm)]
  omega

end Order

section Reading

theorem trimEndMatches_append {c : Char} {front : List Char} (h : c ∉ front) :
    trimEndMatches c (front ++ [c]) = front := by
  have hback : (front.reverse).dropWhile (fun x => decide (x = c)) = front.reverse := by
    rw [List.dropWhile_eq_self_iff]
    intro hl hlast
    exact h (List.mem_reverse.mp (of_decide_eq_true hlast ▸ List.getElem_mem hl))
  rw [trimEndMatches, List.reverse_append, List.reverse_singleton, List.singleton_append,
    List.dropWhile_cons_of_pos (by simp), hback, List.reverse_reverse]

theorem not_mem_showPadded {c : Char} (h : isDigit c = false) (width n : Nat) : c ∉ showPadded width n := by
  intro hc
  cases h.symm.trans (digits_showPadded width n c hc)

theorem splitOn_three {sep : Char} {a b c : List Char} (ha : sep ∉ a) (hb : sep ∉ b) (hc : sep ∉ c) :
    (a ++ sep :: (b ++ sep :: c)).splitOn sep = [a, b, c] := by
  have h : (List.intercalate [sep] [a, b, c]).splitOn sep = [a, b, c] :=
    List.splitOn_intercalate sep (by simp [ha, hb, hc]) (by simp)
  simpa [List.intercalate] using h

theorem field_showPadded (width : Nat) {fields : List (List Char)} {i n : Nat} (h : fields[i]? = some (showPadded width n))
    (hn : n < 2 ^ 64) : field fields i = some n := by
  rw [field, h, Option.bind_some, parseUnsigned_showPadded hn]

/-- What was written is read back. -/
theorem parseTs_text {n : Nat} (hyear : (civil n).year < 2 ^ 64) : parseTs (civil n).text = some (n * Bans.second) := by
  obtain ⟨hmonth, hday, hhour, hminute, hsecond⟩ := civil_short n
  have hsplit : (civil n).text =
      (showPadded 4 (civil n).year ++ '-' :: (showPadded 2 ((civil n).month + 1) ++ '-' ::
        showPadded 2 ((civil n).day + 1))) ++ 'T' :: ((showPadded 2 (civil n).hour ++ ':' ::
          (showPadded 2 (civil n).minute ++ ':' :: showPadded 2 (civil n).second)) ++ ['Z']) := by
    simp [Civil.text]
  have hT : 'T' ∉ showPadded 4 (civil n).year ++ '-' :: (showPadded 2 ((civil n).month + 1) ++ '-' ::
      showPadded 2 ((civil n).day + 1)) := by
    simp [not_mem_showPadded (c := 'T') (by decide)]
  have hZ : 'Z' ∉ showPadded 2 (civil n).hour ++ ':' :: (showPadded 2 (civil n).minute ++ ':' ::
      showPadded 2 (civil n).second) := by
    simp [not_mem_showPadded (c := 'Z') (by decide)]
  have hdash (width k : Nat) : '-' ∉ showPadded width k := not_mem_showPadded (by decide) width k
  have hcolon (width k : Nat) : ':' ∉ showPadded width k := not_mem_showPadded (by decide) width k
  have hdot : (showPadded 2 (civil n).second).splitOn '.' = [showPadded 2 (civil n).second] := by
    have h : (List.intercalate ['.'] [showPadded 2 (civil n).second]).splitOn '.' =
        [showPadded 2 (civil n).second] :=
      List.splitOn_intercalate '.' (by simp [not_mem_showPadded (c := '.') (by decide)]) (by simp)
    simpa [List.intercalate] using h
  have hdays : ((List.range' 1970 ((civil n).year - 1970)).map yearLength).sum +
      ((monthLengths (civil n).year).take (civil n).month).sum + (civil n).day = n / 86400 := by
    have hsum := start_add_sum_range' yearLength 1970 ((civil n).year - 1970)
    rw [Nat.add_sub_cancel' (le_civil_year n)] at hsum
    have hnumber := civil_dayNumber n
    rw [Civil.dayNumber] at hnumber
    have hmonths := sum_take_eq_start (monthLengths (civil n).year) (civil n).month
    have hsame : start (fun i => (monthLengths (civil n).year).getD i 0) (civil n).month =
      start (monthLength (civil n).year) (civil n).month := rfl
    omega
  rw [hsplit, parseTs, splitOnce_append hT, Option.bind_some]
  dsimp only
  rw [trimEndMatches_append hZ, splitOn_three (hdash _ _) (hdash _ _) (hdash _ _),
    splitOn_three (hcolon _ _) (hcolon _ _) (hcolon _ _),
    field_showPadded 4 (n := (civil n).year) rfl (by omega), Option.bind_some,
    field_showPadded 2 (n := (civil n).month + 1) rfl (by omega), Option.bind_some,
    field_showPadded 2 (n := (civil n).day + 1) rfl (by omega), Option.bind_some,
    field_showPadded 2 (n := (civil n).hour) rfl (by omega), Option.bind_some,
    field_showPadded 2 (n := (civil n).minute) rfl (by omega), Option.bind_some]
  have hss : ([showPadded 2 (civil n).hour, showPadded 2 (civil n).minute, showPadded 2 (civil n).second][2]?.bind
      fun ss => field (ss.splitOn '.') 0) = some (civil n).second := by
    rw [List.getElem?_cons_succ, List.getElem?_cons_succ, List.getElem?_cons_zero, Option.bind_some, hdot]
    exact field_showPadded 2 rfl (by omega)
  rw [hss, Option.map_some, Nat.add_sub_cancel, Nat.add_sub_cancel, hdays]
  have htime : (civil n).hour = n % 86400 / 3600 ∧ (civil n).minute = n % 86400 % 3600 / 60 ∧
      (civil n).second = n % 86400 % 60 := ⟨rfl, rfl, rfl⟩
  obtain ⟨hh, hm, hs⟩ := htime
  have htotal : n / 86400 * 86400 + n % 86400 / 3600 * 3600 + n % 86400 % 3600 / 60 * 60 + n % 86400 % 60 = n := by
    omega
  rw [hh, hm, hs, htotal]

theorem parseTs_civil {n : Nat} (h : n < endOf9999) : parseTs (civil n).text = some (n * Bans.second) :=
  parseTs_text ((civil_year_lt_10000 n h).trans (by decide))

end Reading

end NixiSbc.Rfc3339
