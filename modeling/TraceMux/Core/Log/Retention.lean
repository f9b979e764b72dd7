/-
# The retention policy

A pass over the directories under a log root removes those whose name ends in a timestamp
that lies more than a number of days back. The timestamp is the part of the name behind the
last underscore, in the form `YYYYMMDD-HHMMSS`. Session directories are named that way, from
free texts that may hold underscores themselves.

The numbers of the timestamp are read by the parser for integers of the standard library,
which takes a sign in front of the digits. The pass first subtracts the days from the current
time, in a calendar that begins with the year -9999.

Names are strings of bytes, as the file system has them. Times are local readings with their
offset from UTC; it is the local reading that has to lie inside the calendar.
-/

import TraceMux.Core.Log.Rfc3339

namespace TraceMux.Core.Log.Retention

open Base List Option

/-! ## Times -/

def secondNs : ℤ := 1000000000

def dayNs : ℤ := 86400 * secondNs

/-- The first reading of the calendar, the start of the year -9999. -/
def minLocalNs : ℤ := daysFromCivil (-9999) 1 1 * dayNs

/-- The last one, the end of the year 9999. -/
def maxLocalNs : ℤ := (daysFromCivil 9999 12 31 + 1) * dayNs - 1

structure OffsetDateTime where
  /-- The reading of a local clock, in nanoseconds since it showed the Unix epoch. -/
  localNs : ℤ
  /-- How far the local clock is ahead of UTC, in seconds. -/
  offset : ℤ
  inRange : minLocalNs ≤ localNs ∧ localNs ≤ maxLocalNs
  offsetInRange : -93599 ≤ offset ∧ offset ≤ 93599

namespace OffsetDateTime

/-- The point in time, in nanoseconds since the Unix epoch. Times are compared by it. -/
def instantNs (t : OffsetDateTime) : ℤ := t.localNs - t.offset * secondNs

/-- Subtract nanoseconds, inside the calendar. -/
def checkedSub (t : OffsetDateTime) (durationNs : ℤ) : Option OffsetDateTime :=
  if h : minLocalNs ≤ t.localNs - durationNs ∧ t.localNs - durationNs ≤ maxLocalNs then
    some { localNs := t.localNs - durationNs, offset := t.offset, inRange := h
           offsetInRange := t.offsetInRange }
  else none

end OffsetDateTime

def isLeapYear (year : ℤ) : Bool := year % 4 = 0 && (year % 100 ≠ 0 || year % 400 = 0)

def daysInMonth (year : ℤ) (month : ℕ) : ℕ :=
  if month = 2 then if isLeapYear year then 29 else 28
  else if month = 4 ∨ month = 6 ∨ month = 9 ∨ month = 11 then 30
  else 31

structure Date where
  year : ℤ
  month : ℕ
  day : ℕ
  valid : (-9999 ≤ year ∧ year ≤ 9999) ∧ (1 ≤ month ∧ month ≤ 12) ∧
    1 ≤ day ∧ day ≤ daysInMonth year month

/-- The date with these numbers, if there is one. -/
def Date.fromCalendarDate (year : ℤ) (month day : ℕ) : Option Date :=
  if h : (-9999 ≤ year ∧ year ≤ 9999) ∧ (1 ≤ month ∧ month ≤ 12) ∧
      1 ≤ day ∧ day ≤ daysInMonth year month then
    some ⟨year, month, day, h⟩
  else none

structure Time where
  hour : ℕ
  minute : ℕ
  second : ℕ
  valid : hour < 24 ∧ minute < 60 ∧ second < 60

/-- The time of day with these numbers, if there is one. -/
def Time.fromHms (hour minute second : ℕ) : Option Time :=
  if h : hour < 24 ∧ minute < 60 ∧ second < 60 then some ⟨hour, minute, second, h⟩ else none

theorem daysInMonth_le (year : ℤ) (month : ℕ) : daysInMonth year month ≤ 31 := by
  unfold daysInMonth
  split_ifs
  all_goals omega

/-- The days of the calendar lie between its first and its last. -/
theorem daysFromCivil_bounds {year month day : ℤ} (hyear : -9999 ≤ year ∧ year ≤ 9999)
    (hmonth : 1 ≤ month ∧ month ≤ 12) (hday : 1 ≤ day ∧ day ≤ 31) :
    daysFromCivil (-9999) 1 1 ≤ daysFromCivil year month day ∧
      daysFromCivil year month day ≤ daysFromCivil 9999 12 31 := by
  have hfirst : daysFromCivil (-9999) 1 1 = -4371587 := by decide
  have hlast : daysFromCivil 9999 12 31 = 2932896 := by decide
  unfold daysFromCivil
  split_ifs
  all_goals
    simp only
    omega

def assumeUtc (date : Date) (tm : Time) : OffsetDateTime where
  localNs := daysFromCivil date.year date.month date.day * dayNs +
    (tm.hour * 3600 + tm.minute * 60 + tm.second : ℕ) * secondNs
  offset := 0
  inRange := by
    obtain ⟨hyear, hmonth, hday⟩ := date.valid
    obtain ⟨hhour, hminute, hsecond⟩ := tm.valid
    have hlong := daysInMonth_le date.year date.month
    have hmonths : 1 ≤ (date.month : ℤ) ∧ (date.month : ℤ) ≤ 12 := by omega
    have hmonthDays : 1 ≤ (date.day : ℤ) ∧ (date.day : ℤ) ≤ 31 := by omega
    have hdays := daysFromCivil_bounds hyear hmonths hmonthDays
    simp only [minLocalNs, maxLocalNs, dayNs, secondNs]
    omega
  offsetInRange := by decide

/-! ## Timestamps in names -/

def underscore : UInt8 := 0x5F

def hyphen : UInt8 := 0x2D

def plus : UInt8 := 0x2B

/-- The bytes of the ten digits. -/
def isDigit (b : UInt8) : Bool := 0x30 ≤ b && b ≤ 0x39

/-- The number that digits stand for. -/
def digits (s : Bytes) : Option ℕ :=
  if s ≠ [] ∧ s.all isDigit then some (s.foldl (fun n b => n * 10 + (b.toNat - 0x30)) 0) else none

/-- Read an unsigned 8-bit integer. A plus sign may stand in front. -/
def parseU8 (s : Bytes) : Option ℕ :=
  match s with
  | [] => none
  | b :: rest => (if b = plus then digits rest else digits s).filter (· < 2 ^ 8)

/-- Read a signed 32-bit integer. A sign may stand in front. -/
def parseI32 (s : Bytes) : Option ℤ :=
  match s with
  | [] => none
  | b :: rest =>
    (if b = plus then (digits rest).map Int.ofNat
      else if b = hyphen then (digits rest).map fun n => -Int.ofNat n
      else (digits s).map Int.ofNat).filter fun n => -2 ^ 31 ≤ n ∧ n < 2 ^ 31

/-- Whether a character starts at this position, or the text ends. -/
def isCharBoundary (s : Bytes) (i : ℕ) : Bool :=
  match s[i]? with
  | none => i = s.length
  | some b => b < 0x80 || 0xC0 ≤ b

/-- The part of a text between two positions, if both are boundaries of characters. -/
def strGet (s : Bytes) (start stop : ℕ) : Option Bytes :=
  if start ≤ stop ∧ isCharBoundary s start ∧ isCharBoundary s stop then
    some ((s.take stop).drop start)
  else none

def lastSegment (name : Bytes) : Bytes := name.rtakeWhile (· ≠ underscore)

def parseSessionTimestamp (name : Bytes) : Option OffsetDateTime :=
  let s := lastSegment name
  if s.length ≠ 15 ∨ s[8]? ≠ some hyphen then none
  else do
    let date := s.take 8
    let tm := s.drop 9
    let y ← (strGet date 0 4).bind parseI32
    let mo ← (strGet date 4 6).bind parseU8
    let d ← (strGet date 6 8).bind parseU8
    let h ← (strGet tm 0 2).bind parseU8
    let mi ← (strGet tm 2 4).bind parseU8
    let se ← (strGet tm 4 6).bind parseU8
    let date ← Date.fromCalendarDate y mo d
    let tm ← Time.fromHms h mi se
    return assumeUtc date tm

/-! ## The pass -/

structure RetentionPolicy where
  keepDays : UInt32
  deriving DecidableEq, Repr

/-- What a pass did, by names. -/
structure RetentionReport where
  deleted : List Bytes := []
  kept : List Bytes := []
  skipped : List Bytes := []
  deriving DecidableEq, Repr

/-- An entry of the log root. -/
structure DirEntry where
  fileName : Bytes
  isDir : Bool
  /-- Whether removing it with its contents succeeds. -/
  removable : Bool
  deriving DecidableEq, Repr

def DirEntry.name (entry : DirEntry) : Option Bytes :=
  match Lines.decode entry.fileName with
  | .ok _ => some entry.fileName
  | .error _ => none

/-- Deal with one entry: the report, and whether the entry was removed. -/
def applyEntry (cutoff : OffsetDateTime) (report : RetentionReport) (entry : DirEntry) :
    RetentionReport × Bool :=
  let path := entry.fileName
  if !entry.isDir then (report, false)
  else
    match entry.name with
    | none => ({ report with skipped := report.skipped ++ [path] }, false)
    | some name =>
      match parseSessionTimestamp name with
      | some ts =>
        if ts.instantNs < cutoff.instantNs then
          if entry.removable then
            ({ report with deleted := report.deleted ++ [path] }, true)
          else ({ report with skipped := report.skipped ++ [path] }, false)
        else ({ report with kept := report.kept ++ [path] }, false)
      | none => ({ report with skipped := report.skipped ++ [path] }, false)

/-- The loop over the entries: the report or the error of reading an entry, and the entries
that were removed. -/
def applyEntries (cutoff : OffsetDateTime) (report : RetentionReport) :
    List (Except IoError DirEntry) → Except IoError RetentionReport × List DirEntry
  | [] => (.ok report, [])
  | .error e :: _ => (.error e, [])
  | .ok entry :: rest =>
    let (report, removed) := applyEntry cutoff report entry
    let later := applyEntries cutoff report rest
    (later.1, if removed then entry :: later.2 else later.2)

/-- How a pass ends. -/
inductive Outcome
  | panicked (message : String)
  | returned (result : Except IoError RetentionReport)

/-- Apply the policy to a root with these entries: how the pass ends, and the entries that were
removed. -/
def RetentionPolicy.apply (policy : RetentionPolicy)
    (readDir : Except IoError (List (Except IoError DirEntry))) (now : OffsetDateTime) :
    Outcome × List DirEntry :=
  match now.checkedSub (policy.keepDays.toNat * dayNs) with
  | none => (.panicked "resulting value is out of range", [])
  | some cutoff =>
    match readDir with
    | .error e => (.returned (.error e), [])
    | .ok entries =>
      let (result, removed) := applyEntries cutoff {} entries
      (.returned result, removed)

/-! ## Which directories a pass should remove -/

/-- The point in time that a segment names, with numbers as the readers read them: four bytes
of a year, two of a month and a day, a hyphen, and two each of hours, minutes and seconds. -/
def instantWith (year : Bytes → Option ℤ) (number : Bytes → Option ℕ) (s : Bytes) : Option ℤ :=
  if s.length = 15 ∧ s[8]? = some hyphen then do
    let date ← Date.fromCalendarDate (← year (s.take 4)) (← number ((s.take 6).drop 4))
      (← number ((s.take 8).drop 6))
    let tm ← Time.fromHms (← number ((s.take 11).drop 9)) (← number ((s.take 13).drop 11))
      (← number (s.drop 13))
    return (assumeUtc date tm).instantNs
  else none

/-- The point in time that eight digits, a hyphen and six digits name. -/
def namedInstant (s : Bytes) : Option ℤ := instantWith (fun s => (digits s).map Int.ofNat) digits s

/-- The same where a number may have a sign in place of its first digit. -/
def signedInstant (s : Bytes) : Option ℤ := instantWith parseI32 parseU8 s

def RetentionPolicy.limitNs (policy : RetentionPolicy) (now : OffsetDateTime) : ℤ :=
  now.instantNs - policy.keepDays.toNat * dayNs

/-- Whether a directory has expired: its name ends in a timestamp before the limit. -/
def RetentionPolicy.expired (policy : RetentionPolicy) (now : OffsetDateTime)
    (entry : DirEntry) : Bool :=
  match namedInstant (lastSegment entry.fileName) with
  | none => false
  | some t => t < policy.limitNs now

/-- A directory whose name ends in what would be a timestamp before the limit, but has a sign
in place of a digit. -/
def RetentionPolicy.SignedBeforeLimit (policy : RetentionPolicy) (now : OffsetDateTime)
    (entry : DirEntry) : Prop :=
  namedInstant (lastSegment entry.fileName) = none ∧
    ∃ t, signedInstant (lastSegment entry.fileName) = some t ∧ t < policy.limitNs now

/-- The limit lies inside the calendar, by the local clock. -/
def RetentionPolicy.LimitInCalendar (policy : RetentionPolicy) (now : OffsetDateTime) : Prop :=
  minLocalNs ≤ now.localNs - policy.keepDays.toNat * dayNs

/-! ## Numbers -/

variable {s : Bytes} {n start stop : ℕ}

theorem digits_eq_some (h : digits s = some n) :
    s ≠ [] ∧ (∀ b ∈ s, isDigit b = true) ∧
      n = s.foldl (fun n b => n * 10 + (b.toNat - 0x30)) 0 := by
  unfold digits at h
  split at h
  · next hs =>
    cases h
    exact ⟨hs.1, all_eq_true.mp hs.2, rfl⟩
  · cases h

theorem isDigit_bounds {b : UInt8} (h : isDigit b = true) :
    b ≠ plus ∧ b ≠ hyphen ∧ b < 0x80 ∧ b.toNat - 0x30 < 10 := by
  simp only [isDigit, Bool.and_eq_true, decide_eq_true_eq, UInt8.le_iff_toNat_le] at h
  have hlow : (48 : ℕ) ≤ b.toNat := h.1
  have hhigh : b.toNat ≤ (57 : ℕ) := h.2
  refine ⟨?_, ?_, ?_, by omega⟩
  · rintro rfl
    exact absurd hlow (by decide)
  · rintro rfl
    exact absurd hlow (by decide)
  · exact hhigh.trans_lt (by decide)

theorem digits_lt (h : digits s = some n) : n < 10 ^ s.length := by
  obtain ⟨-, hdigits, rfl⟩ := digits_eq_some h
  clear h
  -- The induction is on the digits from the last to the first.
  induction s using reverseRecOn with
  | nil => decide
  | append_singleton s b ih =>
    have hb := (isDigit_bounds (hdigits b (by simp))).2.2.2
    have hs := ih fun c hc => hdigits c (mem_append_left _ hc)
    rw [foldl_append, length_append, length_singleton, pow_succ]
    simp only [foldl_cons, foldl_nil]
    omega

theorem parseU8_of_digits (hlen : s.length ≤ 2) (h : digits s = some n) : parseU8 s = some n := by
  have hlt : n < 2 ^ 8 := by
    have := (digits_lt h).trans_le (Nat.pow_le_pow_right (by decide) hlen)
    omega
  obtain ⟨hne, hdigits, -⟩ := digits_eq_some h
  cases s with
  | nil => exact absurd rfl hne
  | cons b rest =>
    have hb := (isDigit_bounds (hdigits b mem_cons_self)).1
    rw [parseU8, if_neg hb, h, filter_some, if_pos (decide_eq_true hlt)]

theorem parseI32_of_digits (hlen : s.length ≤ 4) (h : digits s = some n) :
    parseI32 s = some (Int.ofNat n) := by
  have hlt : -2 ^ 31 ≤ Int.ofNat n ∧ Int.ofNat n < 2 ^ 31 := by
    rw [Int.ofNat_eq_natCast]
    have := (digits_lt h).trans_le (Nat.pow_le_pow_right (by decide) hlen)
    omega
  obtain ⟨hne, hdigits, -⟩ := digits_eq_some h
  cases s with
  | nil => exact absurd rfl hne
  | cons b rest =>
    obtain ⟨hplus, hminus, -⟩ := isDigit_bounds (hdigits b mem_cons_self)
    rw [parseI32, if_neg hplus, if_neg hminus, h, map_some, filter_some,
      if_pos (decide_eq_true hlt)]

theorem head_of_digits {b : UInt8} {rest : Bytes} (h : digits (b :: rest) = some n) : b < 0x80 :=
  (isDigit_bounds ((digits_eq_some h).2.1 b mem_cons_self)).2.2.1

theorem head_of_parseU8 (h : parseU8 s = some n) : ∃ b rest, s = b :: rest ∧ b < 0x80 := by
  cases s with
  | nil => cases h
  | cons b rest =>
    refine ⟨b, rest, rfl, ?_⟩
    have hread := (filter_eq_some_iff.mp h).1
    split at hread
    · next hplus =>
      rw [hplus]
      decide
    · exact head_of_digits hread

theorem head_of_parseI32 {n : ℤ} (h : parseI32 s = some n) :
    ∃ b rest, s = b :: rest ∧ b < 0x80 := by
  cases s with
  | nil => cases h
  | cons b rest =>
    refine ⟨b, rest, rfl, ?_⟩
    have hread := (filter_eq_some_iff.mp h).1
    split at hread
    · next hplus =>
      rw [hplus]
      decide
    · split at hread
      · next hminus =>
        rw [hminus]
        decide
      · obtain ⟨m, hm, -⟩ := map_eq_some_iff.mp hread
        exact head_of_digits hm

/-! ## What the reader of timestamps accepts -/

theorem strGet_eq_some {part : Bytes} (h : strGet s start stop = some part) :
    part = (s.take stop).drop start := by
  unfold strGet at h
  split at h
  · exact (some.inj h).symm
  · cases h

theorem isCharBoundary_of_part (h : ∃ b rest, (s.take stop).drop start = b :: rest ∧ b < 0x80) :
    isCharBoundary s start = true := by
  obtain ⟨b, rest, hpart, hb⟩ := h
  have hat : s[start]? = some b := by
    have htake : ((s.take stop).drop start)[0]? = some b := by rw [hpart]; rfl
    rw [getElem?_drop, Nat.add_zero, getElem?_take] at htake
    split at htake
    · exact htake
    · cases htake
  rw [isCharBoundary, hat]
  simp [hb]

theorem isCharBoundary_length (s : Bytes) : isCharBoundary s s.length = true := by
  rw [isCharBoundary, getElem?_eq_none le_rfl]
  simp

/-- A field between boundaries is read from its bytes. -/
theorem strGet_bind_eq_some {α : Type*} {read : Bytes → Option α} {value : α}
    (h : (strGet s start stop).bind read = some value) :
    read ((s.take stop).drop start) = some value := by
  obtain ⟨part, hget, hread⟩ := Option.bind_eq_some_iff.mp h
  rwa [strGet_eq_some hget] at hread

/-- Fields of which each starts with an ASCII character lie between boundaries. -/
theorem strGet_bind_of_read {α : Type*} {read : Bytes → Option α} {value : α} (hle : start ≤ stop)
    (hhead : ∃ b rest, (s.take stop).drop start = b :: rest ∧ b < 0x80)
    (hstop : isCharBoundary s stop = true) (hread : read ((s.take stop).drop start) = some value) :
    (strGet s start stop).bind read = some value := by
  rw [strGet, if_pos ⟨hle, isCharBoundary_of_part hhead, hstop⟩]
  exact hread

theorem date_parts (s : Bytes) :
    ((s.take 8).take 4).drop 0 = s.take 4 ∧ ((s.take 8).take 6).drop 4 = (s.take 6).drop 4 ∧
      ((s.take 8).take 8).drop 6 = (s.take 8).drop 6 := by
  rw [take_take, take_take, take_take]
  exact ⟨rfl, rfl, rfl⟩

theorem time_parts (h : s.length = 15) :
    ((s.drop 9).take 2).drop 0 = (s.take 11).drop 9 ∧
      ((s.drop 9).take 4).drop 2 = (s.take 13).drop 11 ∧
      ((s.drop 9).take 6).drop 4 = s.drop 13 := by
  refine ⟨by simp [take_drop], by simp [take_drop], ?_⟩
  rw [take_of_length_le (by rw [length_drop]; omega), drop_drop]

theorem signedInstant_of_parse {name : Bytes} {ts : OffsetDateTime}
    (h : parseSessionTimestamp name = some ts) :
    signedInstant (lastSegment name) = some ts.instantNs := by
  rw [parseSessionTimestamp] at h
  rw [signedInstant, instantWith]
  generalize lastSegment name = s at h
  split at h
  · cases h
  · next hnot =>
    have hshape : s.length = 15 ∧ s[8]? = some hyphen := by tauto
    obtain ⟨hyear, hmonth, hday⟩ := date_parts s
    obtain ⟨hhour, hminute, hsecond⟩ := time_parts hshape.1
    rw [if_pos hshape]
    obtain ⟨y, hy, h⟩ := Option.bind_eq_some_iff.mp h
    obtain ⟨mo, hmo, h⟩ := Option.bind_eq_some_iff.mp h
    obtain ⟨d, hd, h⟩ := Option.bind_eq_some_iff.mp h
    obtain ⟨hr, hh, h⟩ := Option.bind_eq_some_iff.mp h
    obtain ⟨mi, hmi, h⟩ := Option.bind_eq_some_iff.mp h
    obtain ⟨se, hse, h⟩ := Option.bind_eq_some_iff.mp h
    obtain ⟨date, hdate, h⟩ := Option.bind_eq_some_iff.mp h
    obtain ⟨tm, htm, h⟩ := Option.bind_eq_some_iff.mp h
    cases h
    have hy := hyear ▸ strGet_bind_eq_some hy
    have hmo := hmonth ▸ strGet_bind_eq_some hmo
    have hd := hday ▸ strGet_bind_eq_some hd
    have hh := hhour ▸ strGet_bind_eq_some hh
    have hmi := hminute ▸ strGet_bind_eq_some hmi
    have hse := hsecond ▸ strGet_bind_eq_some hse
    simp only [Option.bind_eq_bind, hy, hmo, hd, hh, hmi, hse, bind_some, hdate, htm]
    rfl

theorem parse_of_signedInstant {name : Bytes} {t : ℤ}
    (h : signedInstant (lastSegment name) = some t) :
    ∃ ts, parseSessionTimestamp name = some ts ∧ ts.instantNs = t := by
  rw [signedInstant, instantWith] at h
  rw [parseSessionTimestamp]
  generalize lastSegment name = s at h
  split at h
  · next hshape =>
    obtain ⟨hyear, hmonth, hday⟩ := date_parts s
    obtain ⟨hhour, hminute, hsecond⟩ := time_parts hshape.1
    have hdateEnd : isCharBoundary (s.take 8) 8 = true := by
      have hlen : (s.take 8).length = 8 := by rw [length_take]; omega
      have := isCharBoundary_length (s.take 8)
      rwa [hlen] at this
    have htimeEnd : isCharBoundary (s.drop 9) 6 = true := by
      have hlen : (s.drop 9).length = 6 := by rw [length_drop]; omega
      have := isCharBoundary_length (s.drop 9)
      rwa [hlen] at this
    simp only [Option.bind_eq_bind, Option.bind_eq_some_iff] at h
    obtain ⟨y, hy, mo, hmo, d, hd, date, hdate, hr, hh, mi, hmi, se, hse, tm, htm, h⟩ := h
    cases h
    have hmonthHead := hmonth ▸ head_of_parseU8 hmo
    have hdayHead := hday ▸ head_of_parseU8 hd
    have hminuteHead := hminute ▸ head_of_parseU8 hmi
    have hsecondHead := hsecond ▸ head_of_parseU8 hse
    refine ⟨assumeUtc date tm, ?_, rfl⟩
    rw [if_neg (by tauto)]
    simp only [Option.bind_eq_bind]
    rw [strGet_bind_of_read (by decide) (hyear ▸ head_of_parseI32 hy)
        (isCharBoundary_of_part hmonthHead) (hyear ▸ hy),
      strGet_bind_of_read (by decide) hmonthHead (isCharBoundary_of_part hdayHead)
        (hmonth ▸ hmo),
      strGet_bind_of_read (by decide) hdayHead hdateEnd (hday ▸ hd),
      strGet_bind_of_read (by decide) (hhour ▸ head_of_parseU8 hh)
        (isCharBoundary_of_part hminuteHead) (hhour ▸ hh),
      strGet_bind_of_read (by decide) hminuteHead (isCharBoundary_of_part hsecondHead)
        (hminute ▸ hmi),
      strGet_bind_of_read (by decide) hsecondHead htimeEnd (hsecond ▸ hse)]
    simp only [bind_some, hdate, htm]
    rfl
  · cases h

/-- The reader accepts exactly the names whose last part is a timestamp with optional signs, as
the point in time that it names. -/
theorem parseSessionTimestamp_map (name : Bytes) :
    (parseSessionTimestamp name).map OffsetDateTime.instantNs =
      signedInstant (lastSegment name) := by
  apply ext
  intro t
  rw [map_eq_some_iff]
  constructor
  · rintro ⟨ts, hts, rfl⟩
    exact signedInstant_of_parse hts
  · exact parse_of_signedInstant

theorem signedInstant_of_namedInstant {t : ℤ} (h : namedInstant s = some t) :
    signedInstant s = some t := by
  rw [namedInstant, instantWith] at h
  split at h
  · next hshape =>
    have hlen := hshape.1
    simp only [Option.bind_eq_bind, Option.bind_eq_some_iff] at h
    obtain ⟨y, hy, mo, hmo, d, hd, date, hdate, hr, hhr, mi, hmi, se, hse, tm, htm, h⟩ := h
    obtain ⟨year, hyear, rfl⟩ := map_eq_some_iff.mp hy
    rw [signedInstant, instantWith, if_pos hshape,
      parseI32_of_digits (by simp) hyear, parseU8_of_digits (by simp) hmo,
      parseU8_of_digits (by simp) hd, parseU8_of_digits (by simp) hhr,
      parseU8_of_digits (by simp) hmi, parseU8_of_digits (by simp [hlen]) hse]
    simp only [Option.bind_eq_bind, bind_some, hdate, htm]
    exact h
  · cases h

/-! ## What a pass removes -/

/-- A directory with a name in UTF-8 that can be removed. -/
structure DirEntry.Plain (entry : DirEntry) : Prop where
  isDir : entry.isDir = true
  utf8 : ∃ text, Lines.decode entry.fileName = .ok text
  removable : entry.removable = true

/-- Whether a pass removes a directory. -/
def removes (limit : ℤ) (entry : DirEntry) : Bool :=
  match signedInstant (lastSegment entry.fileName) with
  | none => false
  | some t => t < limit

theorem applyEntry_plain (cutoff : OffsetDateTime) (report : RetentionReport) {entry : DirEntry}
    (h : entry.Plain) : (applyEntry cutoff report entry).2 = removes cutoff.instantNs entry := by
  obtain ⟨hdir, ⟨text, htext⟩, hremovable⟩ := h
  have hname : entry.name = some entry.fileName := by rw [DirEntry.name, htext]
  have hmap := parseSessionTimestamp_map entry.fileName
  rw [applyEntry, hdir, hname, removes, ← hmap]
  simp only [Bool.not_true, Bool.false_eq_true, if_false, hremovable, if_true]
  cases parseSessionTimestamp entry.fileName with
  | none => rfl
  | some ts =>
    simp only [map_some]
    split
    · next hlt => exact (decide_eq_true hlt).symm
    · next hge => exact (decide_eq_false hge).symm

/-- The loop removes what it should among plain directories, and ends well. -/
theorem applyEntries_plain (cutoff : OffsetDateTime) (report : RetentionReport)
    {dirs : List DirEntry} (h : ∀ d ∈ dirs, d.Plain) :
    ∃ report', applyEntries cutoff report (dirs.map .ok) =
      (.ok report', dirs.filter (removes cutoff.instantNs)) := by
  induction dirs generalizing report with
  | nil => exact ⟨report, rfl⟩
  | cons d dirs ih =>
    obtain ⟨report', hrest⟩ := ih (applyEntry cutoff report d).1
      fun e he => h e (mem_cons_of_mem _ he)
    refine ⟨report', ?_⟩
    rw [map_cons, applyEntries]
    simp only [hrest, applyEntry_plain cutoff report (h d mem_cons_self), filter_cons]

theorem removes_iff (policy : RetentionPolicy) (now : OffsetDateTime) (entry : DirEntry) :
    removes (policy.limitNs now) entry = true ↔
      policy.expired now entry = true ∨ policy.SignedBeforeLimit now entry := by
  rw [removes, RetentionPolicy.expired, RetentionPolicy.SignedBeforeLimit]
  cases hnamed : namedInstant (lastSegment entry.fileName) with
  | some t =>
    rw [signedInstant_of_namedInstant hnamed]
    simp
  | none =>
    cases signedInstant (lastSegment entry.fileName) with
    | none => simp
    | some t => simp

theorem checkedSub_limit (policy : RetentionPolicy) (now : OffsetDateTime) :
    (policy.LimitInCalendar now → ∃ cutoff, now.checkedSub (policy.keepDays.toNat * dayNs) =
        some cutoff ∧ cutoff.instantNs = policy.limitNs now) ∧
      (¬ policy.LimitInCalendar now → now.checkedSub (policy.keepDays.toNat * dayNs) = none) := by
  have hdays : 0 ≤ (policy.keepDays.toNat : ℤ) * dayNs := by
    simp only [dayNs, secondNs]
    omega
  constructor
  · intro hin
    have hle := now.inRange.2
    refine ⟨_, dif_pos ⟨hin, by omega⟩, ?_⟩
    simp only [OffsetDateTime.instantNs, RetentionPolicy.limitNs]
    omega
  · intro hout
    exact dif_neg fun h => hout h.1

/-- Applying the policy to plain directories returns normally and removes exactly the expired
ones if and only if the limit lies inside the calendar and no directory has a sign in a
timestamp before the limit. -/
theorem apply_removes_expired_iff (policy : RetentionPolicy) (now : OffsetDateTime)
    (dirs : List DirEntry) (hplain : ∀ d ∈ dirs, d.Plain) :
    (∃ report, policy.apply (.ok (dirs.map .ok)) now =
        (.returned (.ok report), dirs.filter (policy.expired now))) ↔
      policy.LimitInCalendar now ∧ ∀ d ∈ dirs, ¬ policy.SignedBeforeLimit now d := by
  by_cases hlimit : policy.LimitInCalendar now
  · obtain ⟨cutoff, hcutoff, hinstant⟩ := (checkedSub_limit policy now).1 hlimit
    obtain ⟨report, hpass⟩ := applyEntries_plain cutoff {} hplain
    rw [RetentionPolicy.apply, hcutoff]
    simp only [hpass, hinstant, Prod.mk.injEq, Outcome.returned.injEq, Except.ok.injEq,
      exists_and_right, exists_eq', true_and, hlimit]
    constructor
    · intro hfilter d hd hsigned
      have hmem : d ∈ dirs.filter (removes (policy.limitNs now)) :=
        mem_filter.mpr ⟨hd, (removes_iff policy now d).mpr (.inr hsigned)⟩
      rw [hfilter, mem_filter, RetentionPolicy.expired, hsigned.1] at hmem
      exact Bool.false_ne_true hmem.2
    · intro hunsigned
      apply filter_congr
      intro d hd
      have hiff := removes_iff policy now d
      rw [or_iff_left (hunsigned d hd)] at hiff
      exact Bool.eq_iff_iff.mpr hiff
  · -- The pass does not come to the directories.
    rw [RetentionPolicy.apply, (checkedSub_limit policy now).2 hlimit]
    refine iff_of_false ?_ fun h => hlimit h.1
    rintro ⟨report, hreturned⟩
    cases hreturned

def november : OffsetDateTime where
  localNs := 1700000000 * secondNs
  offset := 0
  inRange := by decide
  offsetInRange := by decide

def dirNamed (name : String) : DirEntry :=
  { fileName := Lines.encode name.toList, isDir := true, removable := true }

theorem dirNamed_plain (name : String) : (dirNamed name).Plain :=
  ⟨rfl, ⟨_, Lines.decode_encode _⟩, rfl⟩

def twoSessions : List DirEntry :=
  [dirNamed "s_tcp_eth0_20200101-000000", dirNamed "s_tcp_eth0_20990101-000000"]

theorem twoSessions_plain : ∀ d ∈ twoSessions, d.Plain := by
  simp only [twoSessions, forall_mem_cons]
  exact ⟨dirNamed_plain _, dirNamed_plain _, by simp⟩

/-- The retention statement at two sessions, with the one that expires after a week. -/
theorem apply_removes_expired_iff_twoSessions :
    (∀ d ∈ twoSessions, d.Plain) ∧
      twoSessions.filter ((RetentionPolicy.mk 7).expired november) =
        [dirNamed "s_tcp_eth0_20200101-000000"] ∧
      ((∃ report, (RetentionPolicy.mk 7).apply (.ok (twoSessions.map .ok)) november =
          (.returned (.ok report), twoSessions.filter ((RetentionPolicy.mk 7).expired november))) ↔
        (RetentionPolicy.mk 7).LimitInCalendar november ∧
          ∀ d ∈ twoSessions, ¬ (RetentionPolicy.mk 7).SignedBeforeLimit november d) :=
  ⟨twoSessions_plain, by decide +kernel,
    apply_removes_expired_iff (.mk 7) november twoSessions twoSessions_plain⟩

/-- A directory whose name has a plus sign in place of the first digit of the year is removed,
and a policy that keeps directories for as long as it can be told to makes the pass panic. -/
theorem not_apply_removes_expired :
    (∃ report, (RetentionPolicy.mk 7).apply (.ok [.ok (dirNamed "notes_+0231231-000000")])
        november = (.returned (.ok report), [dirNamed "notes_+0231231-000000"])) ∧
      [dirNamed "notes_+0231231-000000"].filter ((RetentionPolicy.mk 7).expired november) = [] ∧
      (RetentionPolicy.mk 4294967295).apply (.ok []) november =
        (.panicked "resulting value is out of range", []) :=
  ⟨⟨_, rfl⟩, by decide +kernel, rfl⟩

/-! ## Names of session directories -/

/-- A time in UTC, as its date, its time of day and the nanoseconds of its second. -/
structure UtcTime where
  date : Date
  time : Time
  nanosecond : ℕ
  valid : nanosecond < 1000000000

def UtcTime.instantNs (t : UtcTime) : ℤ := (assumeUtc t.date t.time).instantNs + t.nanosecond

def sanitizeIface (iface : Text) : Text :=
  if iface = [] then "unknown".toList
  else iface.map fun c => if c.isAlphanum || c = '.' || c = '_' || c = '-' then c else '_'

/-- The timestamp at the end of a name. -/
def UtcTime.format (now : UtcTime) : Text :=
  Text.ofIntPadded 4 now.date.year ++ Text.ofIntPadded 2 now.date.month ++
    Text.ofIntPadded 2 now.date.day ++ '-' :: (Text.ofIntPadded 2 now.time.hour ++
      Text.ofIntPadded 2 now.time.minute ++ Text.ofIntPadded 2 now.time.second)

def formatSessionDirname (namePrefix kind iface : Text) (now : UtcTime) : Text :=
  namePrefix ++ '_' :: kind ++ '_' :: sanitizeIface iface ++ '_' :: now.format

theorem lastSegment_append {front : Bytes} (h : underscore ∉ s) :
    lastSegment (front ++ underscore :: s) = s := by
  have hall : ∀ b ∈ s.reverse, decide (b ≠ underscore) = true := by
    intro b hb
    exact decide_eq_true fun hunder => h (hunder ▸ mem_reverse.mp hb)
  rw [lastSegment, rtakeWhile, reverse_append, reverse_cons, append_assoc,
    takeWhile_append_of_pos hall]
  simp

/-- A padded number stands in a name as so many digits, which read back. -/
theorem encode_ofIntPadded {width : ℕ} {m : ℤ} (hwidth : 0 < width) (hnonneg : 0 ≤ m)
    (hlt : m < 10 ^ width) :
    (Lines.encode (Text.ofIntPadded width m)).length = width ∧
      digits (Lines.encode (Text.ofIntPadded width m)) = some m.toNat := by
  obtain ⟨hlength, hdigits, hvalue⟩ := ofIntPadded_spec hwidth hnonneg hlt
  generalize Text.ofIntPadded width m = text at *
  have hcode : ∀ c ∈ text, (48 : ℕ) ≤ c.toNat ∧ c.toNat ≤ (57 : ℕ) := by
    intro c hc
    have := hdigits c hc
    simpa [Char.isDigit, UInt32.le_iff_toNat_le] using this
  have hne : text ≠ [] := ne_nil_of_length_pos (by omega)
  rw [Lines.encode_ascii fun c hc => by have := hcode c hc; omega, length_map, digits, if_pos]
  · refine ⟨hlength, congrArg some ?_⟩
    rw [foldl_map, ← hvalue, Nat.ofDigitChars]
    apply foldl_ext
    intro n c hc
    have := hcode c hc
    simp
    omega
  · rw [List.all_map, List.all_eq_true]
    refine ⟨by simpa using hne, fun c hc => ?_⟩
    have := hcode c hc
    simp [isDigit, UInt8.le_iff_toNat_le]
    omega

theorem namedInstant_format (now : UtcTime) (hyear : 0 ≤ now.date.year) :
    namedInstant (Lines.encode now.format) = some (assumeUtc now.date now.time).instantNs := by
  obtain ⟨hyears, hmonth, hday⟩ := now.date.valid
  obtain ⟨hhour, hminute, hsecond⟩ := now.time.valid
  have hlong := daysInMonth_le now.date.year now.date.month
  have htwo : ∀ n : ℕ, n < 100 → ∃ a b, Lines.encode (Text.ofIntPadded 2 n) = [a, b] ∧
      digits [a, b] = some n := by
    intro n hn
    obtain ⟨hlen, hdigits⟩ :=
      encode_ofIntPadded (show 0 < 2 by decide) (Int.natCast_nonneg n) (by omega)
    obtain ⟨a, b, hab⟩ := length_eq_two.mp hlen
    exact ⟨a, b, hab, hab ▸ hdigits⟩
  obtain ⟨hlen, hy⟩ := encode_ofIntPadded (show 0 < 4 by decide) hyear (by omega)
  obtain ⟨_, _, hmo, hmo'⟩ := htwo now.date.month (by omega)
  obtain ⟨_, _, hd, hd'⟩ := htwo now.date.day (by omega)
  obtain ⟨_, _, hh, hh'⟩ := htwo now.time.hour (by omega)
  obtain ⟨_, _, hmi, hmi'⟩ := htwo now.time.minute (by omega)
  obtain ⟨_, _, hse, hse'⟩ := htwo now.time.second (by omega)
  have happend : ∀ a b, Lines.encode (a ++ b) = Lines.encode a ++ Lines.encode b :=
    fun a b => flatMap_append
  have hhyphen : ∀ a, Lines.encode ('-' :: a) = hyphen :: Lines.encode a := fun a => rfl
  have hdate : Date.fromCalendarDate now.date.year now.date.month now.date.day = some now.date :=
    dif_pos now.date.valid
  have htime : Time.fromHms now.time.hour now.time.minute now.time.second = some now.time :=
    dif_pos now.time.valid
  simp only [UtcTime.format, happend, hhyphen, hmo, hd, hh, hmi, hse]
  simp [namedInstant, instantWith, take_append, drop_append, drop_eq_nil_of_le, hlen, hy, hmo',
    hd', hh', hmi', hse', Int.toNat_of_nonneg hyear, hdate, htime]

theorem underscore_not_mem_format (now : UtcTime) : underscore ∉ Lines.encode now.format := by
  intro hmem
  obtain ⟨c, hc, hcode⟩ := Lines.exists_of_mem_encode (by decide) hmem
  have hc : c.isDigit = true ∨ c = '-' := by
    simp only [UtcTime.format, mem_append, mem_cons] at hc
    rcases hc with ((hc | hc) | hc) | rfl | (hc | hc) | hc
    case inr.inl => exact .inr rfl
    all_goals exact mem_ofIntPadded hc
  have hunder : c = '_' := Char.toNat_inj.mp hcode
  subst hunder
  exact absurd hc (by decide)

/-- The timestamp in the name of a session directory reads back, to the second. -/
theorem parseSessionTimestamp_format (namePrefix kind iface : Text) (now : UtcTime)
    (hyear : 0 ≤ now.date.year) :
    (parseSessionTimestamp (Lines.encode (formatSessionDirname namePrefix kind iface now))).map
      OffsetDateTime.instantNs = some (now.instantNs / secondNs * secondNs) := by
  have hname : ∃ front, Lines.encode (formatSessionDirname namePrefix kind iface now) =
      front ++ underscore :: Lines.encode now.format := ⟨_, flatMap_append⟩
  obtain ⟨front, hname⟩ := hname
  have hsecond : now.instantNs / secondNs * secondNs =
      (assumeUtc now.date now.time).instantNs := by
    have := now.valid
    simp only [UtcTime.instantNs, OffsetDateTime.instantNs, assumeUtc, dayNs, secondNs]
    omega
  rw [parseSessionTimestamp_map, hname, lastSegment_append (underscore_not_mem_format now),
    signedInstant_of_namedInstant (namedInstant_format now hyear), hsecond]

/-- The end of the first day of 2024, half a second before midnight. -/
def newYear : UtcTime where
  date := ⟨2024, 1, 1, by decide⟩
  time := ⟨23, 59, 59, by decide⟩
  nanosecond := 500000000
  valid := by decide

/-- The same at an interface whose name itself looks like the end of a name. -/
theorem parseSessionTimestamp_format_newYear :
    formatSessionDirname "s".toList "tcp".toList "eth 0_20200101-000000".toList newYear =
        "s_tcp_eth_0_20200101-000000_20240101-235959".toList ∧
      (parseSessionTimestamp (Lines.encode (formatSessionDirname "s".toList "tcp".toList
          "eth 0_20200101-000000".toList newYear))).map OffsetDateTime.instantNs =
        some (newYear.instantNs / secondNs * secondNs) :=
  ⟨by decide +kernel, parseSessionTimestamp_format _ _ _ newYear (by decide)⟩

end TraceMux.Core.Log.Retention
