/-
# Splitting a buffer into lines

The end-of-line convention of a buffer is a count over its first 64 KiB. Splitting with a
fixed convention cuts at every terminator. Splitting with `Auto` counts again for each line,
over what is left of the buffer, and so may change its mind on the way.

The two give the same lines exactly when every remainder has the convention of the whole,
except for a last one that holds no terminator of either kind.
-/

import TraceMux.Base.ByteFile
import TraceMux.Base.Framing

namespace TraceMux.Core.Codec

open Base Base.Framing List

/-- End-of-line convention. -/
inductive Eol
  | lf
  | crlf
  | cr
  | auto
  deriving DecidableEq, Repr

/-- Bytes that terminate a line in a convention. -/
def Eol.bytes : Eol → Bytes
  | .lf => [10]
  | .auto => [10]
  | .crlf => [13, 10]
  | .cr => [13]

/-- How many line ends of each kind. -/
structure EolCounts where
  crlf : ℕ := 0
  cr : ℕ := 0
  lf : ℕ := 0
  deriving DecidableEq, Repr

def EolCounts.add (counts : EolCounts) (byte : UInt8) : EolCounts :=
  if byte = 13 then
    { counts with cr := counts.cr + 1 }
  else if byte = 10 then
    { counts with lf := counts.lf + 1 }
  else
    counts

def countEols : Bytes → EolCounts
  | [] => {}
  | [byte] => EolCounts.add {} byte
  | byte :: next :: rest =>
    if byte = 13 ∧ next = 10 then
      { countEols rest with crlf := (countEols rest).crlf + 1 }
    else
      (countEols (next :: rest)).add byte

def detectLimit : ℕ := 64 * 1024

/-- The most likely convention of a sample. -/
def Eol.detect (sample : Bytes) : Eol :=
  let counts := countEols (sample.take detectLimit)
  if counts.lf ≤ counts.crlf ∧ counts.cr ≤ counts.crlf ∧ 0 < counts.crlf then
    .crlf
  else if counts.lf < counts.cr ∧ 0 < counts.cr then
    .cr
  else
    .lf

structure LineIter where
  buf : Bytes
  eol : Eol
  done : Bool
  deriving DecidableEq, Repr

/-- The convention of one call. -/
def Eol.resolve (eol : Eol) (buf : Bytes) : Eol :=
  match eol with
  | .auto => Eol.detect buf
  | other => other

/-- Where the first terminator begins, and how long it is. -/
def Eol.terminator (resolved : Eol) (buf : Bytes) : Option ℕ × ℕ :=
  match resolved with
  | .lf => (buf.findIdx? (· == 10), 1)
  | .cr => (buf.findIdx? (· == 13), 1)
  | .crlf => ((buf.zip buf.tail).findIdx? (· == (13, 10)), 2)
  -- Unreachable: no convention resolves to this one.
  | .auto => (none, 0)

def LineIter.next (it : LineIter) : Option Bytes × LineIter :=
  if it.done then
    (none, it)
  else
    match (it.eol.resolve it.buf).terminator it.buf with
    | (some idx, termLen) =>
      (some (it.buf.take idx), { it with buf := (it.buf.drop idx).drop termLen })
    | (none, _) =>
      if it.buf = [] then
        (none, { it with done := true })
      else
        (some it.buf, { it with buf := [], done := true })

def LineIter.collect : ℕ → LineIter → List Bytes
  | 0, _ => []
  | n + 1, it =>
    match it.next with
    | (none, _) => []
    | (some line, it) => line :: collect n it

/-- The lines of a buffer. A line that is terminated takes a byte at least. -/
def splitLines (buf : Bytes) (eol : Eol) : List Bytes :=
  LineIter.collect (buf.length + 1) ⟨buf, eol, false⟩

variable {buf rest : Bytes} {lines : List Bytes} {fixed : Eol} {byte : UInt8} {resolved : Eol}
  {line : Bytes}

theorem singleton_infix_of_mem (h : byte ∈ buf) : [byte] <:+: buf := by
  obtain ⟨before, after, rfl⟩ := append_of_mem h
  exact ⟨before, after, by rw [append_assoc, singleton_append]⟩

theorem crlf_add (counts : EolCounts) (byte : UInt8) : (counts.add byte).crlf = counts.crlf := by
  rw [EolCounts.add]
  split
  · rfl
  · split <;> rfl

theorem infix_of_countEols (h : 0 < (countEols buf).crlf) : [13, 10] <:+: buf := by
  induction buf using countEols.induct with
  | case1 => exact absurd h (Nat.lt_irrefl 0)
  | case2 byte =>
    rw [countEols, crlf_add] at h
    exact absurd h (Nat.lt_irrefl 0)
  | case3 byte next rest hcrlf ih =>
    rw [hcrlf.1, hcrlf.2]
    exact ⟨[], rest, rfl⟩
  | case4 byte next rest hcrlf ih =>
    rw [countEols, if_neg hcrlf, crlf_add] at h
    exact (ih h).trans (suffix_cons _ _).isInfix

theorem mem_of_add {counts : EolCounts} (h : 0 < (counts.add byte).cr)
    (hbuf : 0 < counts.cr → 13 ∈ buf) : 13 ∈ byte :: buf := by
  by_cases hbyte : byte = 13
  · rw [hbyte]
    exact mem_cons_self
  · have hcr : (counts.add byte).cr = counts.cr := by
      rw [EolCounts.add, if_neg hbyte]
      split <;> rfl
    exact mem_cons_of_mem _ (hbuf (hcr ▸ h))

theorem mem_of_countEols (h : 0 < (countEols buf).cr) : 13 ∈ buf := by
  induction buf using countEols.induct with
  | case1 => exact absurd h (Nat.lt_irrefl 0)
  | case2 byte => exact mem_of_add h fun hnone => absurd hnone (Nat.lt_irrefl 0)
  | case3 byte next rest hcrlf ih =>
    rw [hcrlf.1]
    exact mem_cons_self
  | case4 byte next rest hcrlf ih =>
    rw [countEols, if_neg hcrlf] at h
    exact mem_of_add h ih

theorem detect_ne_auto (sample : Bytes) : Eol.detect sample ≠ .auto := by
  unfold Eol.detect
  simp only
  split
  · decide
  · split <;> decide

theorem infix_of_detect {sample : Bytes} (h : Eol.detect sample ≠ .lf) :
    (Eol.detect sample).bytes <:+: sample := by
  have htake := (List.take_prefix detectLimit sample).isInfix
  unfold Eol.detect at h ⊢
  simp only at h ⊢
  split
  · next hcrlf => exact (infix_of_countEols hcrlf.2.2).trans htake
  · split
    · next hcr =>
      exact (singleton_infix_of_mem (mem_of_countEols hcr.2)).trans htake
    · next hcrlf hcr =>
      rw [if_neg hcrlf, if_neg hcr] at h
      exact absurd rfl h

theorem resolve_ne_auto (eol : Eol) (buf : Bytes) : eol.resolve buf ≠ .auto := by
  cases eol with
  | auto => exact detect_ne_auto buf
  | lf | crlf | cr => exact nofun

theorem resolve_of_ne_auto {eol : Eol} (h : eol ≠ .auto) (buf : Bytes) : eol.resolve buf = eol := by
  cases eol with
  | auto => exact absurd rfl h
  | lf | crlf | cr => rfl

theorem Eol.bytes_ne_nil (eol : Eol) : eol.bytes ≠ [] := by
  cases eol <;> exact cons_ne_nil _ _

theorem terminator_line (h : resolved ≠ .auto) (hline : ¬ resolved.bytes <:+: line) :
    resolved.terminator (line ++ (resolved.bytes ++ rest)) =
      (some line.length, resolved.bytes.length) := by
  cases resolved with
  | auto => exact absurd rfl h
  | lf | cr =>
    exact congrArg (·, 1) (findIdx?_first fun hmem => hline (singleton_infix_of_mem hmem))
  | crlf => exact congrArg (·, 2) (findIdx?_first_pair (by decide) hline)

theorem terminator_plain (h : resolved ≠ .auto) (hbuf : ¬ resolved.bytes <:+: buf) :
    resolved.terminator buf = (none, resolved.bytes.length) := by
  cases resolved with
  | auto => exact absurd rfl h
  | lf | cr =>
    exact congrArg (·, 1) (findIdx?_absent fun hmem => hbuf (singleton_infix_of_mem hmem))
  | crlf => exact congrArg (·, 2) (findIdx?_absent_pair hbuf)

variable {eol : Eol} (n : ℕ)

theorem collect_line (h : eol.resolve (line ++ (resolved.bytes ++ rest)) = resolved)
    (hline : ¬ resolved.bytes <:+: line) :
    LineIter.collect (n + 1) ⟨line ++ (resolved.bytes ++ rest), eol, false⟩ =
      line :: LineIter.collect n ⟨rest, eol, false⟩ := by
  have hne : resolved ≠ .auto := h ▸ resolve_ne_auto eol _
  have hnext : LineIter.next ⟨line ++ (resolved.bytes ++ rest), eol, false⟩ =
      (some line, ⟨rest, eol, false⟩) := by
    rw [LineIter.next, if_neg Bool.false_ne_true]
    simp only [h, terminator_line hne hline]
    rw [take_left, drop_left, drop_left]
  rw [LineIter.collect, hnext]

theorem collect_done : LineIter.collect n ⟨buf, eol, true⟩ = [] := by
  cases n <;> rfl

theorem collect_plain (h : eol.resolve buf = resolved) (hbuf : ¬ resolved.bytes <:+: buf) :
    LineIter.collect (n + 1) ⟨buf, eol, false⟩ = if buf = [] then [] else [buf] := by
  have hne : resolved ≠ .auto := h ▸ resolve_ne_auto eol buf
  rw [LineIter.collect, LineIter.next, if_neg Bool.false_ne_true]
  simp only [h, terminator_plain hne hbuf]
  by_cases hnil : buf = []
  · rw [if_pos hnil, if_pos hnil]
  · rw [if_neg hnil, if_neg hnil]
    exact congrArg _ (collect_done n)

theorem collect_eq {n : ℕ} (h : buf.length < n) :
    LineIter.collect n ⟨buf, eol, false⟩ = splitLines buf eol := by
  have hfuel : ∀ (n m : ℕ) (buf : Bytes), buf.length < n → buf.length < m →
      LineIter.collect n ⟨buf, eol, false⟩ = LineIter.collect m ⟨buf, eol, false⟩ := by
    intro n
    induction n with
    | zero => exact fun _ _ h => absurd h (Nat.not_lt_zero _)
    | succ n ih =>
      intro m buf hn hm
      obtain ⟨m, rfl⟩ := Nat.exists_eq_add_one_of_ne_zero (Nat.ne_zero_of_lt hm)
      by_cases hplain : (eol.resolve buf).bytes <:+: buf
      · obtain ⟨line, rest, hbuf, hline⟩ :=
          exists_first_occurrence (Eol.bytes_ne_nil _) hplain
        have hpos := length_pos_iff.mpr (Eol.bytes_ne_nil (eol.resolve buf))
        have hlength := congrArg length hbuf
        rw [length_append, length_append] at hlength
        generalize hresolved : eol.resolve buf = resolved at *
        subst hbuf
        rw [collect_line n hresolved hline, collect_line m hresolved hline,
          ih m rest (by omega) (by omega)]
      · rw [collect_plain n rfl hplain, collect_plain m rfl hplain]
  exact hfuel n (buf.length + 1) buf h (Nat.lt_succ_self _)

theorem splitLines_line (h : eol.resolve (line ++ (resolved.bytes ++ rest)) = resolved)
    (hline : ¬ resolved.bytes <:+: line) :
    splitLines (line ++ (resolved.bytes ++ rest)) eol = line :: splitLines rest eol := by
  have hpos := length_pos_iff.mpr resolved.bytes_ne_nil
  rw [splitLines, collect_line _ h hline, collect_eq]
  rw [length_append, length_append]
  omega

theorem splitLines_plain (h : eol.resolve buf = resolved) (hbuf : ¬ resolved.bytes <:+: buf) :
    splitLines buf eol = if buf = [] then [] else [buf] :=
  collect_plain _ h hbuf

theorem splitLines_fixed_line (h : eol ≠ .auto) (hline : ¬ eol.bytes <:+: line) :
    splitLines (line ++ (eol.bytes ++ rest)) eol = line :: splitLines rest eol :=
  splitLines_line (resolve_of_ne_auto h _) hline

theorem splitLines_fixed_plain (h : eol ≠ .auto) (hbuf : ¬ eol.bytes <:+: buf) :
    splitLines buf eol = if buf = [] then [] else [buf] :=
  splitLines_plain (resolve_of_ne_auto h _) hbuf

theorem splitLines_detected (hbuf : buf = line ++ ((Eol.detect buf).bytes ++ rest))
    (hline : ¬ (Eol.detect buf).bytes <:+: line) :
    splitLines buf .auto = line :: splitLines rest .auto := by
  generalize hdetect : Eol.detect buf = own at hbuf hline
  subst hbuf
  exact splitLines_line hdetect hline

theorem line_cases (resolved : Eol) (buf : Bytes) :
    ¬ resolved.bytes <:+: buf ∨
      ∃ line rest, buf = line ++ (resolved.bytes ++ rest) ∧ ¬ resolved.bytes <:+: line := by
  by_cases hplain : resolved.bytes <:+: buf
  · exact .inr (exists_first_occurrence resolved.bytes_ne_nil hplain)
  · exact .inl hplain

/-- The lines of a buffer, from the last one. -/
theorem line_induction (resolved : Eol) {P : Bytes → Prop}
    (plain : ∀ buf, ¬ resolved.bytes <:+: buf → P buf)
    (step : ∀ line rest, ¬ resolved.bytes <:+: line → P rest →
      P (line ++ (resolved.bytes ++ rest))) (buf : Bytes) : P buf := by
  induction hlength : buf.length using Nat.strong_induction_on generalizing buf with
  | _ n ih =>
    obtain hplain | ⟨line, rest, rfl, hline⟩ := line_cases resolved buf
    · exact plain buf hplain
    · have hpos := length_pos_iff.mpr resolved.bytes_ne_nil
      exact step line rest hline (ih rest.length (by simp [← hlength]; omega) rest rfl)

theorem prefix_of_splitLines (h : splitLines buf eol = line :: lines) : line <+: buf := by
  obtain hplain | ⟨first, rest, hbuf, hfirst⟩ := line_cases (eol.resolve buf) buf
  · rw [splitLines_plain rfl hplain] at h
    split at h
    · cases h
    · cases h
      exact prefix_refl _
  · generalize hresolved : eol.resolve buf = resolved at *
    subst hbuf
    rw [splitLines_line hresolved hfirst] at h
    cases h
    exact prefix_append _ _

/-! ## Lines and bytes

Equal lines leave little room for the buffers to differ: a terminator has one or two bytes. -/

/-- A buffer has no more bytes than its lines with two bytes behind each, and so many only if
all of them end with CRLF. -/
theorem length_le_of_splitLines (h : splitLines buf eol = lines) :
    buf.length ≤ (lines.map List.length).sum + 2 * lines.length ∧
      (buf.length = (lines.map List.length).sum + 2 * lines.length →
        splitLines buf .crlf = lines) := by
  induction hlength : buf.length using Nat.strong_induction_on generalizing buf lines with
  | _ n ih =>
    obtain hplain | ⟨line, rest, hbuf, hline⟩ := line_cases (eol.resolve buf) buf
    · rw [splitLines_plain rfl hplain] at h
      split at h
      · next hnil =>
        subst hnil h hlength
        exact ⟨le_rfl, fun _ => rfl⟩
      · subst h hlength
        simp only [map_cons, map_nil, sum_cons, sum_nil, length_cons, length_nil]
        exact ⟨by omega, fun h => by omega⟩
    · generalize hresolved : eol.resolve buf = resolved at *
      subst hbuf
      rw [splitLines_line hresolved hline] at h
      subst h hlength
      have htwo : resolved.bytes.length ≤ 2 := by cases resolved <;> decide
      have hpos := length_pos_iff.mpr resolved.bytes_ne_nil
      simp only [length_append, map_cons, sum_cons, length_cons] at *
      obtain ⟨hle, heq⟩ := ih rest.length (by omega) rfl rfl
      refine ⟨by omega, fun hall => ?_⟩
      have hcrlf : resolved = .crlf := by
        have hboth : resolved.bytes.length = 2 := by omega
        cases resolved <;> first | rfl | exact absurd hboth (by decide)
      subst hcrlf
      rw [splitLines_line rfl hline, heq (by omega)]

/-- Only the last line may be without its CRLF. -/
theorem le_length_of_crlf (buf : Bytes) :
    ((splitLines buf .crlf).map List.length).sum + 2 * (splitLines buf .crlf).length ≤
      buf.length + 2 := by
  induction buf using line_induction .crlf with
  | plain buf hplain =>
    rw [splitLines_fixed_plain (by decide) hplain]
    split
    · exact Nat.zero_le _
    · simp
  | step line rest hline ih =>
    have htwo : Eol.crlf.bytes.length = 2 := rfl
    rw [splitLines_fixed_line (by decide) hline]
    simp only [length_append, map_cons, sum_cons, length_cons]
    omega

theorem shifted_ne {behind : Bytes} : 10 :: (line ++ rest) ≠ line ++ 13 :: behind := by
  induction line with
  | nil => exact fun h => absurd (cons.inj h).1 (by decide)
  | cons byte line ih =>
    intro h
    obtain ⟨rfl, htail⟩ := cons.inj h
    exact ih htail

/-- After a CRLF, an iterator that has taken the CR only never yields what one yields that has
taken both. -/
theorem splitLines_behind_cr (rest : Bytes) :
    splitLines (10 :: rest) .auto ≠ splitLines rest .crlf := by
  intro hsame
  by_cases hlf : Eol.detect (10 :: rest) = .lf
  · -- The LF ends an empty line, and the next CRLF would have to end another.
    have hauto : splitLines ([] ++ (Eol.lf.bytes ++ rest)) .auto = [] :: splitLines rest .auto :=
      splitLines_line hlf fun h => Eol.bytes_ne_nil _ (infix_nil.mp h)
    rw [show 10 :: rest = [] ++ (Eol.lf.bytes ++ rest) from rfl, hauto] at hsame
    obtain hplain | ⟨line, behind, rfl, hline⟩ := line_cases .crlf rest
    · rw [splitLines_fixed_plain (by decide) hplain] at hsame
      split at hsame
      · cases hsame
      · next hne => exact hne (cons.inj hsame).1.symm
    · have hcrlf := @splitLines_fixed_line behind _ _ (by decide) hline
      rw [hcrlf] at hsame
      obtain ⟨rfl, hrest⟩ := cons.inj hsame
      obtain ⟨hle, hall⟩ := length_le_of_splitLines hrest
      have hbound := le_length_of_crlf behind
      have hlength : ([] ++ (Eol.crlf.bytes ++ behind)).length = behind.length + 2 := by
        simp [Eol.bytes]
      have hboth := hall (le_antisymm hle hbound)
      rw [hcrlf] at hboth
      exact cons_ne_self _ _ hboth
  · obtain ⟨line, behind, hbuf, hline⟩ :=
      exists_first_occurrence (Eol.bytes_ne_nil _) (infix_of_detect hlf)
    have hcr : ∃ more, (Eol.detect (10 :: rest)).bytes = 13 :: more := by
      have hauto := detect_ne_auto (10 :: rest)
      cases hdetect : Eol.detect (10 :: rest) with
      | lf => exact absurd hdetect hlf
      | crlf => exact ⟨[10], rfl⟩
      | cr => exact ⟨[], rfl⟩
      | auto => exact absurd hdetect hauto
    obtain ⟨more, hmore⟩ := hcr
    have hauto := splitLines_detected hbuf hline
    obtain ⟨after, hafter⟩ := prefix_of_splitLines (hsame.symm.trans hauto)
    rw [hmore, ← hafter] at hbuf
    exact shifted_ne hbuf

theorem splitLines_behind_crlf (rest : Bytes) :
    splitLines rest .auto ≠ splitLines (10 :: rest) .cr := by
  intro hsame
  obtain hplain | ⟨line, behind, hbuf, hline⟩ := line_cases .cr (10 :: rest)
  · rw [splitLines_fixed_plain (by decide) hplain, if_neg (cons_ne_nil _ _)] at hsame
    have hlength := (prefix_of_splitLines hsame).length_le
    rw [length_cons] at hlength
    omega
  · rw [hbuf, splitLines_fixed_line (by decide) hline] at hsame
    obtain ⟨after, hafter⟩ := prefix_of_splitLines hsame
    rw [← hafter] at hbuf
    exact shifted_ne hbuf

/-- Every remainder behind a terminator has the given convention, except for one that holds
neither its terminator nor that of its own convention. -/
def KeepsConvention (fixed : Eol) (buf : Bytes) : Prop :=
  ∀ front rest, buf = front ++ rest → front = [] ∨ fixed.bytes <:+ front →
    Eol.detect rest = fixed ∨
      ¬ fixed.bytes <:+: rest ∧ ¬ (Eol.detect rest).bytes <:+: rest

theorem borderFree_bytes (eol : Eol) : BorderFree eol.bytes := by
  intro front behind hsplit hborder
  -- At most two bytes can be in front.
  rcases front with _ | ⟨first, _ | ⟨second, front⟩⟩
  · exact .inl rfl
  · right
    obtain rfl : behind = eol.bytes.tail := congrArg tail hsplit.symm
    cases eol with
    | lf | cr | auto => rfl
    | crlf => exact absurd (cons_prefix_cons.mp hborder).1 (by decide)
  · right
    cases eol <;> simp_all [Eol.bytes]

theorem keepsConvention_plain (h : ¬ fixed.bytes <:+: buf) :
    KeepsConvention fixed buf ↔
      Eol.detect buf = fixed ∨ ¬ (Eol.detect buf).bytes <:+: buf := by
  constructor
  · intro hkeeps
    exact (hkeeps [] buf rfl (.inl rfl)).imp_right And.right
  · rintro hdetect front rest rfl (rfl | hsuffix)
    · exact hdetect.imp_right fun hown => ⟨h, hown⟩
    · exact absurd (hsuffix.isInfix.trans (prefix_append _ _).isInfix) h

theorem keepsConvention_line (hline : ¬ fixed.bytes <:+: line) :
    KeepsConvention fixed (line ++ (fixed.bytes ++ rest)) ↔
      Eol.detect (line ++ (fixed.bytes ++ rest)) = fixed ∧ KeepsConvention fixed rest := by
  constructor
  · intro hkeeps
    constructor
    · apply (hkeeps [] _ rfl (.inl rfl)).resolve_right
      rintro ⟨hoccurs, -⟩
      exact hoccurs ⟨line, rest, append_assoc ..⟩
    · rintro front behind rfl hfront
      apply hkeeps (line ++ (fixed.bytes ++ front)) behind (by simp)
      right
      obtain rfl | hsuffix := hfront
      · rw [append_nil]
        exact suffix_append _ _
      · exact (hsuffix.trans (suffix_append _ _)).trans (suffix_append _ _)
  · rintro ⟨hdetect, hkeeps⟩ front behind hbuf (rfl | hsuffix)
    · rw [nil_append] at hbuf
      exact .inl (hbuf ▸ hdetect)
    · obtain ⟨later, -, hrest, hlater⟩ :=
        front_of_suffix (borderFree_bytes fixed) hline hsuffix hbuf.symm
      exact hkeeps later behind hrest hlater

/-- Two conventions cut at the same place only if they are CR and CRLF. -/
theorem bytes_append_cases {own : Eol} {rest' : Bytes} (hown : own ≠ .auto)
    (hfixed : fixed ≠ .auto) (hne : own ≠ fixed) (h : own.bytes ++ rest' = fixed.bytes ++ rest) :
    own = .cr ∧ fixed = .crlf ∧ rest' = 10 :: rest ∨
      own = .crlf ∧ fixed = .cr ∧ rest = 10 :: rest' := by
  cases own <;> cases fixed <;> simp [Eol.bytes] at * <;> first | exact h | exact h.symm

/-- A buffer with a line of a convention that is not its own gives other lines. -/
theorem splitLines_ne_of_detect (hfixed : fixed ≠ .auto)
    (h : Eol.detect (line ++ (fixed.bytes ++ rest)) ≠ fixed) (hline : ¬ fixed.bytes <:+: line) :
    splitLines (line ++ (fixed.bytes ++ rest)) .auto ≠ line :: splitLines rest fixed := by
  intro hsame
  obtain hplain | ⟨line', rest', hbuf, hline'⟩ :=
    line_cases (Eol.detect (line ++ (fixed.bytes ++ rest))) (line ++ (fixed.bytes ++ rest))
  · have hpos := length_pos_iff.mpr fixed.bytes_ne_nil
    rw [show splitLines _ .auto = _ from splitLines_plain rfl hplain] at hsame
    split at hsame
    · cases hsame
    · have hlength := congrArg length (cons.inj hsame).1
      rw [length_append, length_append] at hlength
      omega
  · rw [splitLines_detected hbuf hline'] at hsame
    obtain ⟨rfl, hrest⟩ := cons.inj hsame
    have hbytes := append_cancel_left hbuf
    obtain ⟨-, hcrlf, hbehind⟩ | ⟨-, hcr, hbehind⟩ :=
      bytes_append_cases (detect_ne_auto _) hfixed h hbytes.symm
    · rw [hcrlf, hbehind] at hrest
      exact splitLines_behind_cr rest hrest
    · rw [hcr, hbehind] at hrest
      exact splitLines_behind_crlf rest' hrest

theorem auto_eq_iff (hfixed : fixed ≠ .auto) (buf : Bytes) :
    splitLines buf .auto = splitLines buf fixed ↔ KeepsConvention fixed buf := by
  induction buf using line_induction fixed with
  | plain buf hplain =>
    rw [keepsConvention_plain hplain, splitLines_fixed_plain hfixed hplain]
    by_cases hdetect : (Eol.detect buf).bytes <:+: buf
    · -- The line would be cut at the terminator of the buffer's own convention.
      have hne : Eol.detect buf ≠ fixed := fun heq => hplain (heq ▸ hdetect)
      apply iff_of_false _ (not_or.mpr ⟨hne, not_not.mpr hdetect⟩)
      obtain ⟨line, rest, hbuf, hline⟩ := exists_first_occurrence (Eol.bytes_ne_nil _) hdetect
      have hpos := length_pos_iff.mpr (Eol.bytes_ne_nil (Eol.detect buf))
      have hlonger := congrArg length hbuf
      rw [length_append, length_append] at hlonger
      rw [splitLines_detected hbuf hline]
      intro hsame
      split at hsame
      · cases hsame
      · have := congrArg length (cons.inj hsame).1
        omega
    · exact iff_of_true (splitLines_plain rfl hdetect) (.inr hdetect)
  | step line rest hline ih =>
    rw [keepsConvention_line hline, splitLines_fixed_line hfixed hline]
    by_cases hdetect : Eol.detect (line ++ (fixed.bytes ++ rest)) = fixed
    · rw [show splitLines _ .auto = _ from splitLines_line hdetect hline, cons_inj_right, ih]
      exact (and_iff_right hdetect).symm
    · apply iff_of_false _ fun hkeeps => hdetect hkeeps.1
      exact splitLines_ne_of_detect hfixed hdetect hline

/-- Splitting with Auto gives the lines of the convention that is detected for the whole buffer
exactly when every remainder behind one of its terminators has that convention, except for a
last one that holds no terminator. -/
theorem splitLines_auto_iff (buf : Bytes) :
    splitLines buf .auto = splitLines buf (Eol.detect buf) ↔
      KeepsConvention (Eol.detect buf) buf :=
  auto_eq_iff (detect_ne_auto buf) buf

/-- The first line ends with CRLF and the second with LF. -/
theorem splitLines_auto_mixed :
    Eol.detect [97, 13, 10, 98, 10] = .crlf ∧
      splitLines [97, 13, 10, 98, 10] .crlf = [[97], [98, 10]] ∧
      splitLines [97, 13, 10, 98, 10] .auto = [[97], [98]] := by
  decide +kernel

/-- The lines of a fixed convention, joined by its terminator and followed by another one if the
buffer ends with it, are the buffer, and none of them holds a terminator. -/
theorem splitLines_joined (h : eol ≠ .auto) (buf : Bytes) :
    eol.bytes.intercalate (splitLines buf eol) ++ (if eol.bytes <:+ buf then eol.bytes else []) =
        buf ∧
      ∀ line ∈ splitLines buf eol, ¬ eol.bytes <:+: line := by
  induction buf using line_induction eol with
  | plain buf hbuf =>
    have hends : ¬ eol.bytes <:+ buf := fun hends => hbuf hends.isInfix
    rw [if_neg hends, append_nil, splitLines_fixed_plain h hbuf]
    split
    · next hnil => exact ⟨hnil.symm, nofun⟩
    · exact ⟨by simp [intercalate], forall_mem_singleton.mpr hbuf⟩
  | step line rest hline ih =>
    obtain ⟨hjoin, hclean⟩ := ih
    rw [splitLines_fixed_line h hline]
    refine ⟨?_, forall_mem_cons.mpr ⟨hline, hclean⟩⟩
    rcases eq_or_ne rest [] with rfl | hrest
    · have hnil : splitLines [] eol = [] := by cases eol <;> rfl
      rw [append_nil, if_pos (suffix_append ..), hnil]
      simp [intercalate]
    · cases hlines : splitLines rest eol with
      | nil =>
        have hle := (length_le_of_splitLines hlines).1
        exact absurd (length_eq_zero_iff.mp (Nat.le_zero.mp hle)) hrest
      | cons first more =>
        rw [hlines] at hjoin
        have hcons : eol.bytes.intercalate (line :: first :: more) =
            line ++ (eol.bytes ++ eol.bytes.intercalate (first :: more)) := by simp [intercalate]
        have hends : eol.bytes <:+ line ++ (eol.bytes ++ rest) ↔ eol.bytes <:+ rest := by
          constructor
          · intro hends
            obtain ⟨later, -, hlater, hagain⟩ :=
              front_of_suffix (borderFree_bytes eol) hline hends (append_nil _)
            rw [append_nil] at hlater
            exact hlater ▸ hagain.resolve_left (hlater ▸ hrest)
          · exact fun hends => (hends.trans (suffix_append ..)).trans (suffix_append ..)
        simp only [hcons, hends, append_assoc, hjoin]

/-- CR and LF in turns, with CRLF at the end. -/
theorem splitLines_joined_crlf :
    splitLines [13, 13, 10, 10, 13, 10] .crlf = [[13], [10]] ∧
      Eol.crlf.bytes.intercalate [[13], [10]] ++ Eol.crlf.bytes = [13, 13, 10, 10, 13, 10] := by
  have hlines : splitLines [13, 13, 10, 10, 13, 10] .crlf = [[13], [10]] := by decide +kernel
  have hjoined := (splitLines_joined (by decide : Eol.crlf ≠ .auto) [13, 13, 10, 10, 13, 10]).1
  exact ⟨hlines, hjoined⟩
end TraceMux.Core.Codec
