/-
# Reading RFC 3339 timestamps

The reader for the texts in which the index holds its timestamps, and its round trip with
the writer: every 64-bit count of nanoseconds reads back as itself. The date is the hard
part. The civil date of a day and the day of a civil date are inverse to each other in
the proleptic Gregorian calendar.

The reader takes timestamps in UTC, which is all the writer makes.
-/

import Mathlib.Data.Nat.Digits.Defs
import TraceMux.Core.Log.Index

namespace TraceMux.Core.Log

open Base List Option

/-- The day of a civil date, counted from the Unix epoch. -/
def daysFromCivil (year month day : ℤ) : ℤ :=
  let y := if month ≤ 2 then year - 1 else year
  let yoe := y % 400
  let mp := if month ≤ 2 then month + 9 else month - 3
  let doy := (153 * mp + 2) / 5 + day - 1
  let doe := yoe * 365 + yoe / 4 - yoe / 100 + doy
  y / 400 * 146097 + doe - 719468

/-- The year of an era to which a day of the era belongs, and the day in that year. -/
theorem yearOfEra_bounds {doe yoe : ℤ} (hnonneg : 0 ≤ doe) (hlt : doe < 146097)
    (hyoe : yoe = (doe - doe / 1460 + doe / 36524 - doe / 146096) / 365) :
    0 ≤ yoe ∧ yoe < 400 ∧ 0 ≤ doe - (365 * yoe + yoe / 4 - yoe / 100) ∧
      doe - (365 * yoe + yoe / 4 - yoe / 100) < 366 := by
  have hyear : 0 ≤ yoe ∧ yoe < 400 := by omega
  refine ⟨hyear.1, hyear.2, ?_⟩
  rcases (by omega : doe / 146096 = 0 ∨ doe = 146096) with hlast | rfl
  · generalize hcentury : yoe / 100 = century
    obtain rfl | rfl | rfl | rfl :
      century = 0 ∨ century = 1 ∨ century = 2 ∨ century = 3 := by omega
    all_goals omega
  · omega

def monthFrom (mp : ℤ) : ℤ := if mp < 10 then mp + 3 else mp - 9

/-- The day of a date that is given by its year in an era of 400 years, its month counted from
March and its day. -/
theorem daysFromCivil_monthFrom (era day : ℤ) {yoe mp : ℤ} (hyear : 0 ≤ yoe ∧ yoe < 400)
    (hmonth : 0 ≤ mp ∧ mp ≤ 11) :
    daysFromCivil (yoe + era * 400 + if monthFrom mp ≤ 2 then 1 else 0) (monthFrom mp) day =
      era * 146097 + (yoe * 365 + yoe / 4 - yoe / 100 + ((153 * mp + 2) / 5 + day - 1)) -
        719468 := by
  have hstart : (if monthFrom mp ≤ 2 then
      (yoe + era * 400 + if monthFrom mp ≤ 2 then 1 else 0) - 1
      else yoe + era * 400 + if monthFrom mp ≤ 2 then 1 else 0) = yoe + era * 400 := by
    split_ifs
    all_goals omega
  have hmarch : (if monthFrom mp ≤ 2 then monthFrom mp + 9 else monthFrom mp - 3) = mp := by
    unfold monthFrom
    split_ifs
    all_goals omega
  have hera : (yoe + era * 400) / 400 = era := by omega
  have hyoe : (yoe + era * 400) % 400 = yoe := by omega
  simp only [daysFromCivil]
  rw [hstart, hmarch, hera, hyoe]

/-- The date of a day is a date of that day, in a month and a day of two digits. -/
theorem daysFromCivil_civilFromDays (days : ℤ) :
    daysFromCivil (civilFromDays days).1 (civilFromDays days).2.1 (civilFromDays days).2.2 = days ∧
      (0 ≤ (civilFromDays days).2.1 ∧ (civilFromDays days).2.1 < 100) ∧
      0 ≤ (civilFromDays days).2.2 ∧ (civilFromDays days).2.2 < 100 := by
  simp only [civilFromDays]
  set doe := (days + 719468) % 146097 with hdoe
  obtain ⟨hyear, hyearLt, hdoy, hdoyLt⟩ := yearOfEra_bounds (show 0 ≤ doe by omega) (by omega) rfl
  set yoe := (doe - doe / 1460 + doe / 36524 - doe / 146096) / 365
  set doy := doe - (365 * yoe + yoe / 4 - yoe / 100) with hday
  set mp := (5 * doy + 2) / 153 with hmp
  have hmonth : 0 ≤ mp ∧ mp ≤ 11 := by omega
  have hinverse := daysFromCivil_monthFrom ((days + 719468) / 146097)
    (doy - (153 * mp + 2) / 5 + 1) ⟨hyear, hyearLt⟩ hmonth
  clear_value mp doy yoe doe
  refine ⟨?_, ?_, ?_⟩
  · refine Eq.trans hinverse ?_
    omega
  · split_ifs
    all_goals omega
  · omega

/-- Split off a number of `width` digits. -/
def takeDigits (width : ℕ) (s : Text) : Option (ℕ × Text) :=
  if width ≤ s.length ∧ (s.take width).all Char.isDigit then
    some (Nat.ofDigitChars 10 (s.take width) 0, s.drop width)
  else none

/-- Split off a character. -/
def takeChar (c : Char) : Text → Option Text
  | [] => none
  | d :: rest => if d = c then some rest else none

/-- Split off a fraction of a second, if there is one, as nanoseconds. Digits behind the ninth
do not count. -/
def takeFraction (s : Text) : Option (ℕ × Text) :=
  match takeChar '.' s with
  | none => some (0, s)
  | some rest =>
    let digits := rest.takeWhile Char.isDigit
    if digits = [] then none
    else some (Nat.ofDigitChars 10 ((digits ++ List.replicate 9 '0').take 9) 0,
      rest.dropWhile Char.isDigit)

def takeDate (s : Text) : Option (ℤ × Text) := do
  let (year, s) ← takeDigits 4 s
  let s ← takeChar '-' s
  let (month, s) ← takeDigits 2 s
  let s ← takeChar '-' s
  let (day, s) ← takeDigits 2 s
  return (daysFromCivil year month day, s)

/-- Split off a time of day, as seconds. -/
def takeTime (s : Text) : Option (ℤ × Text) := do
  let (hour, s) ← takeDigits 2 s
  let s ← takeChar ':' s
  let (minute, s) ← takeDigits 2 s
  let s ← takeChar ':' s
  let (second, s) ← takeDigits 2 s
  return (hour * 3600 + minute * 60 + second, s)

/-- Read a timestamp in UTC as nanoseconds since the Unix epoch. -/
def parseRfc3339Ns (text : String) : Option ℤ := do
  let (days, s) ← takeDate text.toList
  let s ← takeChar 'T' s
  let (time, s) ← takeTime s
  let (nanos, s) ← takeFraction s
  let s ← takeChar 'Z' s
  if s = [] then some ((days * 86400 + time) * 1000000000 + nanos) else none

example : parseRfc3339Ns "2023-11-14T22:13:20.123456Z" = some 1700000000123456000 := by decide

variable {width : ℕ} {c : Char} {n ns : ℤ}

theorem isDigit_of_mem_padded {n : ℕ}
    (h : c ∈ List.replicate (width - (Text.ofNat n).length) '0' ++ Text.ofNat n) :
    c.isDigit = true := by
  rcases mem_append.mp h with h | h
  · rw [eq_of_mem_replicate h]
    rfl
  · exact Text.isDigit_of_mem_ofNat h

/-- A number with at most `width` digits is padded to `width` digits, which read back. -/
theorem ofIntPadded_spec (hwidth : 0 < width) (hnonneg : 0 ≤ n) (hlt : n < 10 ^ width) :
    (Text.ofIntPadded width n).length = width ∧
      (∀ c ∈ Text.ofIntPadded width n, c.isDigit = true) ∧
      Nat.ofDigitChars 10 (Text.ofIntPadded width n) 0 = n.toNat := by
  obtain ⟨k, rfl⟩ := Int.eq_ofNat_of_zero_le hnonneg
  have hk : k < 10 ^ width := by exact_mod_cast hlt
  have hlength : (Text.ofNat k).length ≤ width := Nat.toDigits_length 10 k width hwidth hk
  have heq : Text.ofIntPadded width (k : ℤ) =
      replicate (width - (Text.ofNat k).length) '0' ++ Text.ofNat k := rfl
  rw [heq]
  refine ⟨?_, fun c hc => isDigit_of_mem_padded hc, ?_⟩
  · rw [length_append, length_replicate]
    omega
  · rw [Nat.ofDigitChars_append, Nat.ofDigitChars_replicate_zero, Nat.mul_zero, Text.ofNat,
      Nat.ofDigitChars_ten_toDigits, Int.toNat_natCast]

theorem takeDigits_padded (hwidth : 0 < width) (hnonneg : 0 ≤ n) (hlt : n < 10 ^ width)
    (rest : Text) : takeDigits width (Text.ofIntPadded width n ++ rest) = some (n.toNat, rest) := by
  obtain ⟨hlength, hdigits, hvalue⟩ := ofIntPadded_spec hwidth hnonneg hlt
  have htake : (Text.ofIntPadded width n ++ rest).take width = Text.ofIntPadded width n :=
    take_left' hlength
  rw [takeDigits, htake, drop_left' hlength, hvalue, if_pos]
  refine ⟨?_, all_eq_true.mpr hdigits⟩
  rw [length_append, hlength]
  exact Nat.le_add_right _ _

@[simp]
theorem takeChar_cons (c : Char) (rest : Text) : takeChar c (c :: rest) = some rest := if_pos rfl

/-- The zeros that were dropped from the end of a fraction do not change it. -/
theorem take_rdropWhile_append_replicate {digits : Text} (hlength : digits.length = width) :
    (digits.rdropWhile (· = '0') ++ List.replicate width '0').take width = digits := by
  have hparts := digits.rdropWhile_append_rtakeWhile (p := (· = '0'))
  have hzeros : digits.rtakeWhile (· = '0') =
      replicate (digits.rtakeWhile (· = '0')).length '0' := by
    apply eq_replicate_of_mem
    intro c hc
    simpa using mem_rtakeWhile_imp hc
  have hle : (digits.rtakeWhile (· = '0')).length ≤ width := by
    have hlen := congrArg length hparts
    rw [length_append] at hlen
    omega
  have hsplit : replicate width '0' = digits.rtakeWhile (· = '0') ++
      replicate (width - (digits.rtakeWhile (· = '0')).length) '0' := by
    rw [hzeros, length_replicate, ← replicate_add, Nat.add_sub_cancel' hle]
  rw [hsplit, ← append_assoc, hparts, take_left' hlength]

/-- A fraction is read back from its text, whatever follows that is not a digit. -/
theorem takeFraction_text {nanos : ℤ} (hnonneg : 0 ≤ nanos) (hlt : nanos < 1000000000)
    (rest : Text) :
    takeFraction ((if nanos = 0 then [] else
      '.' :: (Text.ofIntPadded 9 nanos).rdropWhile (· = '0')) ++ 'Z' :: rest) =
        some (nanos.toNat, 'Z' :: rest) := by
  by_cases hzero : nanos = 0
  · rw [if_pos hzero, hzero]
    rfl
  · obtain ⟨hlength, hdigits, hvalue⟩ := ofIntPadded_spec (show 0 < 9 by decide) hnonneg hlt
    rw [if_neg hzero, cons_append, takeFraction, takeChar_cons]
    generalize Text.ofIntPadded 9 nanos = digits at *
    have hne : digits.rdropWhile (· = '0') ≠ [] := by
      -- A fraction of zeros only would be the fraction of nothing.
      intro hnil
      have hall : digits = replicate digits.length '0' := by
        apply eq_replicate_of_mem
        intro c hc
        simpa using rdropWhile_eq_nil_iff.mp hnil c hc
      rw [hall, Nat.ofDigitChars_replicate_zero] at hvalue
      omega
    have hkept : ∀ c ∈ digits.rdropWhile (· = '0'), c.isDigit = true := fun c hc =>
      hdigits c ((List.rdropWhile_prefix _ _).subset hc)
    have hstop : ('Z' :: rest).takeWhile Char.isDigit = [] := rfl
    have hbehind : ('Z' :: rest).dropWhile Char.isDigit = 'Z' :: rest := rfl
    simp only [takeWhile_append_of_pos hkept, dropWhile_append_of_pos hkept, hstop,
      hbehind, append_nil, if_neg hne, take_rdropWhile_append_replicate hlength, hvalue]

/-- A date with a year of four digits is read back as its day. -/
theorem takeDate_text {days : ℤ}
    (hyear : 0 ≤ (civilFromDays days).1 ∧ (civilFromDays days).1 ≤ 9999) (rest : Text) :
    takeDate (Text.ofIntPadded 4 (civilFromDays days).1 ++ '-' ::
      (Text.ofIntPadded 2 (civilFromDays days).2.1 ++ '-' ::
        (Text.ofIntPadded 2 (civilFromDays days).2.2 ++ rest))) = some (days, rest) := by
  obtain ⟨hdays, hmonth, hday⟩ := daysFromCivil_civilFromDays days
  have hfour : (civilFromDays days).1 < 10 ^ 4 := by omega
  simp only [takeDate, takeDigits_padded (by decide : 0 < 4) hyear.1 hfour,
    takeDigits_padded (by decide : 0 < 2) hmonth.1 hmonth.2,
    takeDigits_padded (by decide : 0 < 2) hday.1 hday.2, takeChar_cons, bind_eq_bind,
    Option.bind_some, Option.pure_def, Int.toNat_of_nonneg hyear.1, Int.toNat_of_nonneg hmonth.1,
    Int.toNat_of_nonneg hday.1, hdays]

/-- A time of day is read back. -/
theorem takeTime_text {time : ℤ} (hnonneg : 0 ≤ time) (hlt : time < 86400) (rest : Text) :
    takeTime (Text.ofIntPadded 2 (time / 3600) ++ ':' ::
      (Text.ofIntPadded 2 (time / 60 % 60) ++ ':' ::
        (Text.ofIntPadded 2 (time % 60) ++ rest))) = some (time, rest) := by
  have hhour : 0 ≤ time / 3600 ∧ time / 3600 < 10 ^ 2 := by omega
  have hminute : 0 ≤ time / 60 % 60 ∧ time / 60 % 60 < 10 ^ 2 := by omega
  have hsecond : 0 ≤ time % 60 ∧ time % 60 < 10 ^ 2 := by omega
  have htime : time / 3600 * 3600 + time / 60 % 60 * 60 + time % 60 = time := by omega
  simp only [takeTime, takeDigits_padded (by decide : 0 < 2) hhour.1 hhour.2,
    takeDigits_padded (by decide : 0 < 2) hminute.1 hminute.2,
    takeDigits_padded (by decide : 0 < 2) hsecond.1 hsecond.2, takeChar_cons, bind_eq_bind,
    Option.bind_some, Option.pure_def, Int.toNat_of_nonneg hhour.1,
    Int.toNat_of_nonneg hminute.1, Int.toNat_of_nonneg hsecond.1, htime]

/-- Every count of nanoseconds with a year of four digits reads back. -/
theorem parseRfc3339Ns_format_of_year
    (hyear : 0 ≤ (civilFromDays (ns / 1000000000 / 86400)).1 ∧
      (civilFromDays (ns / 1000000000 / 86400)).1 ≤ 9999) :
    parseRfc3339Ns (formatRfc3339Ns ns) = some ns := by
  have htime : 0 ≤ ns / 1000000000 % 86400 ∧ ns / 1000000000 % 86400 < 86400 := by omega
  have hnanos : 0 ≤ ns % 1000000000 ∧ ns % 1000000000 < 1000000000 := by omega
  have hns : (ns / 1000000000 / 86400 * 86400 + ns / 1000000000 % 86400) * 1000000000 +
      ns % 1000000000 = ns := by omega
  simp only [formatRfc3339Ns]
  rw [if_pos hyear]
  simp only [parseRfc3339Ns, String.toList_ofList, append_assoc, cons_append, nil_append,
    takeDate_text hyear, takeTime_text htime.1 htime.2, takeFraction_text hnanos.1 hnanos.2,
    takeChar_cons, bind_eq_bind, Option.bind_some, if_true, Int.toNat_of_nonneg hnanos.1, hns]

theorem parseRfc3339Ns_format (hlow : -2 ^ 63 ≤ ns) (hhigh : ns < 2 ^ 63) :
    parseRfc3339Ns (formatRfc3339Ns ns) = some ns := by
  apply parseRfc3339Ns_format_of_year
  simp only [civilFromDays]
  split_ifs
  all_goals omega

theorem mem_ofIntPadded (h : c ∈ Text.ofIntPadded width n) : c.isDigit = true ∨ c = '-' := by
  cases n with
  | ofNat n => exact .inl (isDigit_of_mem_padded h)
  | negSucc n =>
    rcases mem_cons.mp h with h | h
    · exact .inr h
    · exact .inl (isDigit_of_mem_padded h)

theorem mem_formatRfc3339Ns (h : c ∈ (formatRfc3339Ns ns).toList) :
    c.isDigit = true ∨ c ∈ ['-', ':', 'T', '.', 'Z'] := by
  have hpadded : ∀ {width : ℕ} {n : ℤ}, c ∈ Text.ofIntPadded width n →
      c.isDigit = true ∨ c ∈ ['-', ':', 'T', '.', 'Z'] := fun hc =>
    (mem_ofIntPadded hc).imp_right fun heq => by simp [heq]
  simp only [formatRfc3339Ns] at h
  split at h
  · rw [String.toList_ofList] at h
    simp only [mem_append, mem_singleton] at h
    have hfraction : c ∈ (if ns % 1000000000 = 0 then [] else
        '.' :: (Text.ofIntPadded 9 (ns % 1000000000)).rdropWhile (· = '0')) →
        c.isDigit = true ∨ c ∈ ['-', ':', 'T', '.', 'Z'] := by
      intro hc
      split at hc
      · cases hc
      · rcases mem_cons.mp hc with rfl | hc
        · exact .inr (by simp)
        · exact hpadded ((List.rdropWhile_prefix _ _).subset hc)
    rcases h with (((((((((((h | h) | h) | h) | h) | h) | h) | h) | h) | h) | h) | h) | h
    all_goals first
      | exact hpadded h
      | exact hfraction h
      | exact .inr (by simp [h])
  · exact (by simp : ∀ c ∈ "1970-01-01T00:00:00Z".toList,
      c.isDigit = true ∨ c ∈ ['-', ':', 'T', '.', 'Z']) c h

theorem formatRfc3339Ns_inj {m : ℤ} (hm : -2 ^ 63 ≤ m ∧ m < 2 ^ 63)
    (hn : -2 ^ 63 ≤ n ∧ n < 2 ^ 63) (h : formatRfc3339Ns m = formatRfc3339Ns n) : m = n := by
  have hread := parseRfc3339Ns_format hm.1 hm.2
  rw [h, parseRfc3339Ns_format hn.1 hn.2, some.injEq] at hread
  exact hread.symm

/-- Different lists of counts have different texts. -/
theorem map_formatRfc3339Ns_inj {first second : List ℤ}
    (hfirst : ∀ ns ∈ first, -2 ^ 63 ≤ ns ∧ ns < 2 ^ 63)
    (hsecond : ∀ ns ∈ second, -2 ^ 63 ≤ ns ∧ ns < 2 ^ 63)
    (h : first.map formatRfc3339Ns = second.map formatRfc3339Ns) : first = second := by
  have hread : ∀ list : List ℤ, (∀ ns ∈ list, -2 ^ 63 ≤ ns ∧ ns < 2 ^ 63) →
      (list.map formatRfc3339Ns).map parseRfc3339Ns = list.map some := by
    intro list hlist
    rw [List.map_map]
    apply List.map_congr_left
    intro ns hns
    exact parseRfc3339Ns_format (hlist ns hns).1 (hlist ns hns).2
  have hsome : first.map some = second.map some := by
    rw [← hread first hfirst, h, hread second hsecond]
  exact map_injective_iff.mpr (some_injective ℤ) hsome

end TraceMux.Core.Log
