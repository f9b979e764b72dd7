/-
# The line framer

Frames are lines without their terminators. A fixed terminator makes the framer a stable
cutter: the frames are those of the whole stream, however it was divided. The automatic
mode looks one byte ahead for the second half of CRLF, and that byte may not be there yet.

The limit is checked only where a buffer holds no terminator. A line that arrives together
with its terminator is never measured.
-/

import TraceMux.Core.Framer.Feed

namespace TraceMux.Core

open Base Base.Framing List

inductive LineFramer.Eol
  | lf
  | crlf
  | cr
  | auto
  deriving DecidableEq, Repr

structure LineFramer where
  eol : LineFramer.Eol
  maxFrame : ℕ
  deriving DecidableEq, Repr

namespace LineFramer

/-! ## Polling -/

/-- The last byte of the first CRLF, or the first lone CR or LF. -/
def autoEolPosition : Bytes → Option ℕ
  | [] => none
  | byte :: rest =>
    if byte = 13 ∧ rest.head? = some 10 then
      some 1
    else if byte = 13 ∨ byte = 10 then
      some 0
    else
      (autoEolPosition rest).map (· + 1)

/-- The position of the last byte of the first line. -/
def position (eol : Eol) (buf : Bytes) : Option ℕ :=
  match eol with
  | .lf => buf.findIdx? (· == 10)
  | .auto => autoEolPosition buf
  | .cr => buf.findIdx? (· == 13)
  | .crlf =>
    -- The windows of two bytes, by their first.
    ((buf.zip buf.tail).findIdx? (· == (13, 10))).map (· + 1)

/-- A line without its terminator. -/
def trim (eol : Eol) (frame : Bytes) : Bytes :=
  if (eol = .crlf ∨ eol = .auto) ∧ 2 ≤ frame.length ∧
      frame.drop (frame.length - 2) = [13, 10] then
    frame.take (frame.length - 2)
  else if frame.getLast? = some 10 ∨ frame.getLast? = some 13 then
    frame.take (frame.length - 1)
  else
    frame

/-- The error of a buffer without a terminator that is too long. -/
def overflow (f : LineFramer) (buf : Bytes) : TraceMuxError :=
  ⟨.E1003FramerOverflow, s!"line framer: buffered {buf.length} > max {f.maxFrame}"⟩

def pollFrame (f : LineFramer) (buf : Bytes) : Except TraceMuxError (Option Bytes) × Bytes :=
  match position f.eol buf with
  | some idx => (.ok (some (trim f.eol (buf.take (idx + 1)))), buf.drop (idx + 1))
  | none =>
    if f.maxFrame < buf.length then
      (.error (f.overflow buf), buf)
    else
      (.ok none, buf)

/-! ## Lines

What the four modes have in common: a line is plain, and a terminator ends it. -/

variable {eol : Eol} {term rest line buf : Bytes}

def Eol.terminator? : Eol → Option Bytes
  | .lf => some [10]
  | .crlf => some [13, 10]
  | .cr => some [13]
  | .auto => none

def Plain : Eol → Bytes → Prop
  | .lf, line => 10 ∉ line
  | .crlf, line => ¬ [13, 10] <:+: line
  | .cr, line => 13 ∉ line
  | .auto, line => 13 ∉ line ∧ 10 ∉ line

def Ends : Eol → Bytes → Bytes → Prop
  | .lf, term, _ => term = [10]
  | .crlf, term, _ => term = [13, 10]
  | .cr, term, _ => term = [13]
  | .auto, term, rest => term = [13, 10] ∨ term = [10] ∨ term = [13] ∧ rest.head? ≠ some 10

theorem Ends.eq_terminator {term' : Bytes} (h : Ends eol term rest)
    (hterm : eol.terminator? = some term') : term = term' := by
  cases eol <;> cases hterm <;> exact h

theorem Ends.ne_nil (h : Ends eol term rest) : term ≠ [] := by
  rintro rfl
  cases eol <;> simp [Ends] at h

theorem Plain.of_prefix (h : Plain eol buf) (hline : line <+: buf) : Plain eol line := by
  cases eol with
  | lf | cr => exact fun hmem => h (hline.subset hmem)
  | crlf => exact fun hoccurs => h (hoccurs.trans hline.isInfix)
  | auto => exact ⟨fun hmem => h.1 (hline.subset hmem), fun hmem => h.2 (hline.subset hmem)⟩

theorem plain_nil (eol : Eol) : Plain eol [] := by
  cases eol <;> simp [Plain]

/-! ## The position of a line's end -/

theorem position_auto (hline : Plain .auto line) (hterm : Ends .auto term rest) :
    autoEolPosition (line ++ (term ++ rest)) = some (line.length + term.length - 1) := by
  induction line with
  | nil =>
    obtain rfl | rfl | ⟨rfl, hrest⟩ := hterm
    · rfl
    · rfl
    · simp [autoEolPosition, hrest]
  | cons byte line ih =>
    have hplain := hline.1
    have hplain' := hline.2
    rw [mem_cons, not_or] at hplain hplain'
    have hpos := length_pos_iff.mpr hterm.ne_nil
    rw [cons_append, autoEolPosition, if_neg fun h => hplain.1 h.1.symm,
      if_neg (not_or.mpr ⟨Ne.symm hplain.1, Ne.symm hplain'.1⟩), ih ⟨hplain.2, hplain'.2⟩,
      Option.map_some, length_cons]
    congr 1
    omega

theorem position_line (hline : Plain eol line) (hterm : Ends eol term rest) :
    position eol (line ++ (term ++ rest)) = some (line.length + term.length - 1) := by
  cases eol with
  | lf | cr =>
    cases hterm
    exact findIdx?_first hline
  | crlf =>
    cases hterm
    exact congrArg (Option.map (· + 1)) (findIdx?_first_pair (by decide) hline)
  | auto => exact position_auto hline hterm

theorem position_plain (h : Plain eol buf) : position eol buf = none := by
  cases eol with
  | lf | cr => exact findIdx?_absent h
  | crlf => exact congrArg (Option.map (· + 1)) (findIdx?_absent_pair h)
  | auto =>
    rw [position]
    induction buf with
    | nil => rfl
    | cons byte buf ih =>
      have hplain := h.1
      have hplain' := h.2
      rw [mem_cons, not_or] at hplain hplain'
      rw [autoEolPosition, if_neg fun h => hplain.1 h.1.symm,
        if_neg (not_or.mpr ⟨Ne.symm hplain.1, Ne.symm hplain'.1⟩), ih ⟨hplain.2, hplain'.2⟩,
        Option.map_none]

theorem exists_line (h : ¬ Plain eol buf) :
    ∃ line term rest, buf = line ++ (term ++ rest) ∧ Plain eol line ∧ Ends eol term rest := by
  cases eol with
  | lf | cr =>
    obtain ⟨line, rest, hbuf, hline⟩ := eq_append_cons_of_mem (not_not.mp h)
    exact ⟨line, [_], rest, hbuf, hline, rfl⟩
  | crlf =>
    obtain ⟨line, rest, hbuf, hline⟩ :=
      exists_first_occurrence (cons_ne_nil _ _) (not_not.mp h)
    exact ⟨line, [13, 10], rest, hbuf, hline, rfl⟩
  | auto =>
    induction buf with
    | nil => exact absurd (plain_nil .auto) h
    | cons byte buf ih =>
      by_cases hlf : byte = 10
      · exact ⟨[], [10], buf, by rw [hlf]; rfl, plain_nil _, .inr (.inl rfl)⟩
      by_cases hcr : byte = 13
      · subst hcr
        cases buf with
        | nil => exact ⟨[], [13], [], rfl, plain_nil _, .inr (.inr ⟨rfl, nofun⟩)⟩
        | cons next buf =>
          by_cases hnext : next = 10
          · exact ⟨[], [13, 10], buf, by rw [hnext]; rfl, plain_nil _, .inl rfl⟩
          · refine ⟨[], [13], next :: buf, rfl, plain_nil _, .inr (.inr ⟨rfl, ?_⟩)⟩
            intro heq
            exact hnext (Option.some.inj heq)
      have hbuf : ¬ Plain .auto buf := by
        intro hplain
        apply h
        constructor
        · exact not_mem_cons_of_ne_of_not_mem (Ne.symm hcr) hplain.1
        · exact not_mem_cons_of_ne_of_not_mem (Ne.symm hlf) hplain.2
      obtain ⟨line, term, rest, rfl, hline, hterm⟩ := ih hbuf
      refine ⟨byte :: line, term, rest, rfl, ⟨?_, ?_⟩, hterm⟩
      · exact not_mem_cons_of_ne_of_not_mem (Ne.symm hcr) hline.1
      · exact not_mem_cons_of_ne_of_not_mem (Ne.symm hlf) hline.2

theorem trim_line (hline : Plain eol line) (hterm : Ends eol term rest) :
    trim eol (line ++ term) = line := by
  have hcrlf : ∀ {eol : Eol}, eol = .crlf ∨ eol = .auto → trim eol (line ++ [13, 10]) = line := by
    intro eol heol
    rw [trim, if_pos ⟨heol, by simp, by simp⟩]
    simp
  have hbyte : ∀ {eol : Eol} {byte : UInt8}, byte = 10 ∨ byte = 13 →
      ¬ ((eol = .crlf ∨ eol = .auto) ∧ 2 ≤ (line ++ [byte]).length ∧
        (line ++ [byte]).drop ((line ++ [byte]).length - 2) = [13, 10]) →
      trim eol (line ++ [byte]) = line := by
    intro eol byte hbyte hnot
    rw [trim, if_neg hnot, if_pos (by simpa using hbyte)]
    simp
  cases eol with
  | lf | cr =>
    cases hterm
    exact hbyte (by decide) (by simp)
  | crlf =>
    cases hterm
    exact hcrlf (.inl rfl)
  | auto =>
    obtain rfl | rfl | ⟨rfl, -⟩ := hterm
    · exact hcrlf (.inr rfl)
    · apply hbyte (.inl rfl)
      rintro ⟨-, -, hdrop⟩
      -- The byte before the LF would be a CR of the line.
      have hsuffix : [13, 10] <:+ line ++ [10] := hdrop ▸ drop_suffix _ _
      obtain ⟨front, hfront⟩ := hsuffix
      have hsplit : front ++ [13] = line :=
        append_inj_left' (by rw [← hfront]; simp : front ++ [13] ++ [10] = line ++ [10]) rfl
      apply hline.1
      rw [← hsplit]
      simp
    · apply hbyte (.inr rfl)
      rintro ⟨-, -, hdrop⟩
      have hsuffix : [13, 10] <:+ line ++ [13] := hdrop ▸ drop_suffix _ _
      obtain ⟨front, hfront⟩ := hsuffix
      have hlast := congrArg getLast? hfront
      simp at hlast

/-! ## The line framer as a cutter -/

variable {stream : Bytes}

/-- Cut the first line off. -/
def cut (eol : Eol) (buf : Bytes) : Option (Bytes × Bytes) :=
  (position eol buf).map fun idx => (trim eol (buf.take (idx + 1)), buf.drop (idx + 1))

theorem cut_line (hline : Plain eol line) (hterm : Ends eol term rest) :
    cut eol (line ++ (term ++ rest)) = some (line, rest) := by
  have hpos := length_pos_iff.mpr hterm.ne_nil
  have hend : line.length + term.length - 1 + 1 = (line ++ term).length := by
    rw [length_append]
    omega
  rw [cut, position_line hline hterm, Option.map_some, hend, ← append_assoc,
    take_left, drop_left, trim_line hline hterm]

theorem cut_plain (h : Plain eol buf) : cut eol buf = none := by
  rw [cut, position_plain h, Option.map_none]

theorem plain_of_cut (h : cut eol buf = none) : Plain eol buf := by
  by_contra hplain
  obtain ⟨line, term, rest, rfl, hline, hterm⟩ := exists_line hplain
  rw [cut_line hline hterm] at h
  cases h

theorem line_of_cut (h : cut eol buf = some (line, rest)) :
    Plain eol line ∧ ∃ term, Ends eol term rest ∧ buf = line ++ (term ++ rest) := by
  by_cases hplain : Plain eol buf
  · rw [cut_plain hplain] at h
    cases h
  · obtain ⟨line', term, rest', rfl, hline, hterm⟩ := exists_line hplain
    rw [cut_line hline hterm] at h
    cases h
    exact ⟨hline, term, hterm, rfl⟩

def lineCutter (eol : Eol) : Cutter UInt8 Bytes where
  cut := cut eol
  suffix := by
    intro buf line rest h
    obtain ⟨-, term, -, rfl⟩ := line_of_cut h
    exact (List.suffix_append _ _).trans (List.suffix_append _ _)
  shorter := by
    intro buf line rest h
    obtain ⟨-, term, hterm, rfl⟩ := line_of_cut h
    have hpos := List.length_pos_iff.mpr hterm.ne_nil
    rw [List.length_append, List.length_append]
    omega

/-- The check of a buffer without a terminator. -/
def check (f : LineFramer) (buf : Bytes) : Option TraceMuxError :=
  if f.maxFrame < buf.length then some (f.overflow buf) else none

/-- The line framer cuts lines, and checks what is not one yet. -/
def cutting (f : LineFramer) : CuttingFramer where
  pollFrame := f.pollFrame
  cutter := lineCutter f.eol
  check := f.check
  poll_eq := by
    intro buf
    have hcut : (lineCutter f.eol).cut buf = cut f.eol buf := rfl
    rw [pollFrame, hcut, cut, check]
    cases position f.eol buf with
    | some idx => rfl
    | none =>
      simp only [Option.map_none]
      split <;> rfl

def feed (f : LineFramer) (chunks : List Bytes) : List Bytes × Except TraceMuxError Bytes :=
  f.cutting.feed chunks

def lines (eol : Eol) (stream : Bytes) : List Bytes := (lineCutter eol).frames stream

/-- What follows the last complete line of a stream. -/
def unterminated (eol : Eol) (stream : Bytes) : Bytes := (lineCutter eol).left stream

theorem lines_plain (h : Plain eol stream) : lines eol stream = [] :=
  Cutter.frames_of_none (cut_plain h)

theorem unterminated_plain (h : Plain eol stream) : unterminated eol stream = stream :=
  Cutter.left_of_none (cut_plain h)

theorem lines_line (hline : Plain eol line) (hterm : Ends eol term rest) :
    lines eol (line ++ (term ++ rest)) = line :: lines eol rest :=
  Cutter.frames_of_some (cut_line hline hterm)

theorem unterminated_line (hline : Plain eol line) (hterm : Ends eol term rest) :
    unterminated eol (line ++ (term ++ rest)) = unterminated eol rest :=
  Cutter.left_of_some (cut_line hline hterm)

@[elab_as_elim]
theorem line_induction (eol : Eol) {motive : Bytes → Prop}
    (plain : ∀ stream, Plain eol stream → motive stream)
    (line : ∀ line term rest, Plain eol line → Ends eol term rest → motive rest →
      motive (line ++ (term ++ rest))) (stream : Bytes) : motive stream := by
  induction stream using Cutter.drain_induction (lineCutter eol) with
  | none buf hcut => exact plain buf (plain_of_cut hcut)
  | some buf frame rest hcut ih =>
    obtain ⟨hframe, term, hterm, rfl⟩ := line_of_cut hcut
    exact line frame term rest hframe hterm ih

theorem plain_unterminated (eol : Eol) (stream : Bytes) : Plain eol (unterminated eol stream) :=
  plain_of_cut (Cutter.cut_left (lineCutter eol) stream)

theorem plain_of_mem_lines (h : line ∈ lines eol stream) : Plain eol line := by
  induction stream using line_induction eol with
  | plain stream hstream =>
    rw [lines_plain hstream] at h
    cases h
  | line first term rest hfirst hterm ih =>
    rw [lines_line hfirst hterm, mem_cons] at h
    cases h with
    | inl heq => rwa [heq]
    | inr hmem => exact ih hmem

/-! ## Fixed terminators -/

variable {f : LineFramer} {chunks : List Bytes}

section

variable (h : eol.terminator? = some term)
include h

theorem stable_of_terminator : (lineCutter eol).Stable := by
  intro buf line rest hcut more
  obtain ⟨hline, term', hterm, rfl⟩ := line_of_cut hcut
  have hends : Ends eol term' (rest ++ more) := by
    rw [hterm.eq_terminator h]
    cases eol <;> cases h <;> rfl
  rw [append_assoc, append_assoc]
  exact cut_line hline hends

theorem flatMap_lines (stream : Bytes) :
    (lines eol stream).flatMap (· ++ term) ++ unterminated eol stream = stream := by
  induction stream using line_induction eol with
  | plain stream hstream =>
    rw [lines_plain hstream, unterminated_plain hstream]
    rfl
  | line line term' rest hline hterm ih =>
    rw [lines_line hline hterm, unterminated_line hline hterm, flatMap_cons,
      hterm.eq_terminator h, append_assoc, append_assoc, ih]

theorem not_infix_of_plain (hline : Plain eol line) : ¬ term <:+: line := by
  cases eol with
  | lf | cr =>
    cases h
    exact fun hoccurs => hline (hoccurs.subset (mem_singleton_self _))
  | crlf =>
    cases h
    exact hline
  | auto => cases h

end

theorem run_of_feed {frames : List Bytes} (h : f.feed chunks = (frames, .ok rest)) :
    (lineCutter f.eol).run [] chunks = (frames, rest) :=
  Cutter.run_of_runChecked ((CuttingFramer.feed_eq f.cutting chunks).symm.trans h)

theorem feed_eq_lines (h : f.eol.terminator? = some term) {frames : List Bytes}
    (hfeed : f.feed chunks = (frames, .ok rest)) :
    frames = lines f.eol chunks.flatten ∧ rest = unterminated f.eol chunks.flatten := by
  have hrun := run_of_feed hfeed
  rw [(stable_of_terminator h).run_eq chunks (Cutter.cut_nil _), nil_append] at hrun
  exact ⟨(congrArg Prod.fst hrun).symm, (congrArg Prod.snd hrun).symm⟩

/-- With a fixed terminator and no overflow, the frames with the terminator behind each and
what is left in the buffer are the stream; neither holds the terminator; and every other way
of dividing the stream into chunks gives the same. -/
theorem feed_fixed {f : LineFramer} {term : Bytes} (hterm : f.eol.terminator? = some term)
    {chunks frames : List Bytes} {rest : Bytes} (hfeed : f.feed chunks = (frames, .ok rest)) :
    frames.flatMap (· ++ term) ++ rest = chunks.flatten ∧
      (∀ frame ∈ frames, ¬ term <:+: frame) ∧ ¬ term <:+: rest ∧
      ∀ chunks' frames' rest', chunks'.flatten = chunks.flatten →
        f.feed chunks' = (frames', .ok rest') → frames' = frames ∧ rest' = rest := by
  obtain ⟨rfl, rfl⟩ := feed_eq_lines hterm hfeed
  refine ⟨flatMap_lines hterm _, ?_, not_infix_of_plain hterm (plain_unterminated _ _), ?_⟩
  · intro frame hframe
    exact not_infix_of_plain hterm (plain_of_mem_lines hframe)
  · intro chunks' frames' rest' hflatten hfeed'
    rw [← hflatten]
    exact feed_eq_lines hterm hfeed'

/-- A CRLF that is divided between two chunks ends one line. -/
theorem feed_fixed_divided :
    (LineFramer.mk .crlf 4).feed [[97, 13], [10, 98]] = ([[97]], .ok [98]) ∧
      [[97]].flatMap (· ++ [13, 10]) ++ [98] = [[97, 13], [10, (98 : UInt8)]].flatten := by
  have hfeed : (LineFramer.mk .crlf 4).feed [[97, 13], [10, 98]] = ([[97]], .ok [98]) := by
    decide +kernel
  exact ⟨hfeed, (feed_fixed (f := ⟨.crlf, 4⟩) rfl hfeed).1⟩

/-! ## Chunks

In every mode a longer buffer holds the lines of the shorter one, then those of what was left
over, except that in automatic mode an LF behind a CR belongs to it. -/

theorem Ends.append (h : Ends eol term rest) (more : Bytes) :
    Ends eol term (rest ++ more) ∨
      eol = .auto ∧ term = [13] ∧ rest = [] ∧ ∃ behind, more = 10 :: behind := by
  cases eol with
  | lf | crlf | cr => exact .inl h
  | auto =>
    obtain hterm | hterm | ⟨hterm, hhead⟩ := h
    · exact .inl (.inl hterm)
    · exact .inl (.inr (.inl hterm))
    cases rest with
    | cons byte rest => exact .inl (.inr (.inr ⟨hterm, hhead⟩))
    | nil =>
      by_cases hmore : more.head? = some 10
      · obtain ⟨behind, hbehind⟩ := head?_eq_some_iff.mp hmore
        exact .inr ⟨rfl, hterm, rfl, behind, hbehind⟩
      · exact .inl (.inr (.inr ⟨hterm, hmore⟩))

/-- What a longer buffer holds. -/
theorem lines_append (eol : Eol) (buf more : Bytes) :
    unterminated eol (buf ++ more) = unterminated eol (unterminated eol buf ++ more) ∧
      (lines eol (buf ++ more) = lines eol buf ++ lines eol (unterminated eol buf ++ more) ∨
        eol = .auto ∧ [13] <:+ buf ∧ unterminated eol buf = [] ∧ ∃ behind, more = 10 :: behind ∧
          lines eol (buf ++ more) = lines eol buf ++ lines eol behind) := by
  induction buf using line_induction eol with
  | plain buf hbuf =>
    rw [lines_plain hbuf, unterminated_plain hbuf]
    exact ⟨rfl, .inl rfl⟩
  | line line term rest hline hterm ih =>
    rw [lines_line hline hterm, unterminated_line hline hterm, append_assoc, append_assoc]
    obtain hends | ⟨rfl, rfl, rfl, behind, rfl⟩ := hterm.append more
    · rw [lines_line hline hends, unterminated_line hline hends]
      refine ⟨ih.1, ih.2.imp (congrArg _) ?_⟩
      rintro ⟨hauto, hsuffix, hleft, behind, hmore, hlines⟩
      refine ⟨hauto, ?_, hleft, behind, hmore, congrArg _ hlines⟩
      exact (hsuffix.trans (suffix_append _ _)).trans (suffix_append _ _)
    · -- The LF has come behind a CR that has ended a line already.
      have hcrlf : Ends .auto [13, 10] behind := .inl rfl
      have hlf : Ends .auto [10] behind := .inr (.inl rfl)
      have hlong := lines_line hline hcrlf
      have hleft := unterminated_line hline hcrlf
      have hshort := unterminated_line (plain_nil .auto) hlf
      rw [lines_plain (plain_nil _), unterminated_plain (plain_nil _)]
      refine ⟨hleft.trans hshort.symm, .inr ⟨rfl, ?_, rfl, behind, rfl, hlong⟩⟩
      exact suffix_append _ _

theorem leftLocal (eol : Eol) : (lineCutter eol).LeftLocal :=
  fun buf more => (lines_append eol buf more).1.symm

theorem run_left (eol : Eol) (chunks : List Bytes) :
    ((lineCutter eol).run [] chunks).2 = unterminated eol chunks.flatten :=
  (leftLocal eol).run_left chunks (Cutter.cut_nil _)

/-- The stream that arrives as one chunk. -/
theorem feed_whole (f : LineFramer) (stream : Bytes) :
    f.feed [stream] = (lines f.eol stream,
      if f.maxFrame < (unterminated f.eol stream).length then
        .error (f.overflow (unterminated f.eol stream))
      else
        .ok (unterminated f.eol stream)) := by
  have hcheck : f.cutting.check (f.cutting.cutter.left stream) =
      if f.maxFrame < (unterminated f.eol stream).length then
        some (f.overflow (unterminated f.eol stream))
      else
        none := rfl
  rw [feed, CuttingFramer.feed_eq, Cutter.runChecked, nil_append, hcheck]
  by_cases hlong : f.maxFrame < (unterminated f.eol stream).length
  · rw [if_pos hlong, if_pos hlong]
    rfl
  · rw [if_neg hlong, if_neg hlong]
    exact Prod.ext (append_nil _) rfl

/-- In every mode the frames of a run are lines of the stream, and empty ones. -/
theorem mem_run {frame : Bytes} (h : frame ∈ ((lineCutter eol).run buf chunks).1) :
    frame = [] ∨ frame ∈ lines eol (buf ++ chunks.flatten) := by
  induction chunks generalizing buf with
  | nil => cases h
  | cons chunk chunks ih =>
    have happend := (lines_append eol (buf ++ chunk) chunks.flatten).2
    rw [flatten_cons, ← append_assoc]
    rw [Cutter.run, mem_append] at h
    cases h with
    | inl hfirst =>
      have hlines : frame ∈ lines eol (buf ++ chunk) := hfirst
      right
      obtain happend | ⟨-, -, -, behind, -, happend⟩ := happend
      all_goals
        rw [happend]
        exact mem_append_left _ hlines
    | inr hlater =>
      have hrest : frame = [] ∨
          frame ∈ lines eol (unterminated eol (buf ++ chunk) ++ chunks.flatten) := ih hlater
      obtain happend | ⟨rfl, -, hleft, behind, hmore, happend⟩ := happend
      · rw [happend]
        exact hrest.imp_right (mem_append_right _)
      · -- The LF of a divided CRLF is one more empty line.
        have hlf : lines .auto (10 :: behind) = [] :: lines .auto behind :=
          lines_line (plain_nil .auto) (.inr (.inl rfl) : Ends .auto [10] behind)
        rw [hleft, hmore, nil_append, hlf, mem_cons, ← or_assoc, or_self] at hrest
        rw [happend]
        exact hrest.imp_right (mem_append_right _)

/-! ## The limit -/

def Overflows (f : LineFramer) (chunks : List Bytes) : Prop :=
  ∃ e, (f.feed chunks).2 = .error e

theorem overflows_iff (f : LineFramer) (chunks : List Bytes) :
    f.Overflows chunks ↔
      ∃ before, before <+: chunks ∧ f.maxFrame < (unterminated f.eol before.flatten).length := by
  have hcheck : ∀ before : List Bytes,
      (f.check ((lineCutter f.eol).run [] before).2).isSome ↔
        f.maxFrame < (unterminated f.eol before.flatten).length := by
    intro before
    rw [run_left, check]
    split <;> simp [*]
  rw [Overflows, feed, CuttingFramer.feed_eq, Cutter.runChecked_error_iff]
  constructor
  · rintro ⟨before, -, hbefore, hsome⟩
    exact ⟨before, hbefore, (hcheck before).mp hsome⟩
  · rintro ⟨before, hbefore, hlong⟩
    refine ⟨before, ?_, hbefore, (hcheck before).mpr hlong⟩
    rintro rfl
    exact absurd hlong (Nat.not_lt_zero _)

theorem overflows_whole (f : LineFramer) (stream : Bytes) :
    f.Overflows [stream] ↔ f.maxFrame < (unterminated f.eol stream).length := by
  rw [Overflows, feed_whole]
  split <;> simp [*]

/-- Part of a terminator is nothing, all of it, or the CR of a CRLF. -/
theorem Ends.part_cases {part : Bytes} (h : Ends eol term rest) (hpart : part <+: term) :
    part = [] ∨ part = term ∨ part = [13] ∧ (eol = .crlf ∨ eol = .auto) := by
  have hone : ∀ {byte : UInt8} {part : Bytes}, part <+: [byte] → part = [] ∨ part = [byte] := by
    intro byte part hpart
    obtain hnil | ⟨tail, rfl, htail⟩ := prefix_cons_iff.mp hpart
    · exact .inl hnil
    · exact .inr (by rw [prefix_nil.mp htail])
  have htwo : part <+: [13, 10] → part = [] ∨ part = [13, 10] ∨ part = [13] := by
    intro hpart
    obtain hnil | ⟨tail, rfl, htail⟩ := prefix_cons_iff.mp hpart
    · exact .inl hnil
    · obtain rfl | rfl := hone htail
      · exact .inr (.inr rfl)
      · exact .inr (.inl rfl)
  cases eol with
  | lf | cr =>
    cases h
    exact (hone hpart).imp_right .inl
  | crlf =>
    cases h
    exact (htwo hpart).imp_right (Or.imp_right fun hcr => ⟨hcr, .inl rfl⟩)
  | auto =>
    obtain rfl | rfl | ⟨rfl, -⟩ := h
    · exact (htwo hpart).imp_right (Or.imp_right fun hcr => ⟨hcr, .inr rfl⟩)
    · exact (hone hpart).imp_right .inl
    · exact (hone hpart).imp_right .inl

theorem Ends.of_prefix {start : Bytes} (h : Ends eol term rest) (hstart : start <+: rest) :
    Ends eol term start := by
  cases eol with
  | lf | crlf | cr => exact h
  | auto =>
    refine h.imp_right (Or.imp_right (And.imp_right ?_))
    intro hrest hhead
    obtain ⟨more, rfl⟩ := hstart
    obtain ⟨behind, rfl⟩ := head?_eq_some_iff.mp hhead
    exact hrest rfl

theorem plain_concat_cr (h : Plain .crlf line) : Plain .crlf (line ++ [13]) := by
  rintro ⟨before, after, hoccurs⟩
  cases after using reverseRecOn with
  | nil =>
    have hlast := congrArg getLast? hoccurs
    simp at hlast
  | append_singleton after byte =>
    rw [← append_assoc] at hoccurs
    exact h ⟨before, after, append_inj_left' hoccurs rfl⟩

/-- What is left of the beginning of a stream is no longer than what is left of the stream, or
than a line; with CRLF the CR may come on top. -/
theorem unterminated_of_start {start : Bytes} (h : start <+: stream) :
    (unterminated eol start).length ≤ (unterminated eol stream).length ∨
      ∃ line ∈ lines eol stream, (unterminated eol start).length ≤ line.length ∨
        eol = .crlf ∧ (unterminated eol start).length = line.length + 1 := by
  induction stream using line_induction eol generalizing start with
  | plain stream hstream =>
    left
    rw [unterminated_plain hstream, unterminated_plain (hstream.of_prefix h)]
    exact h.length_le
  | line line term rest hline hterm ih =>
    rw [lines_line hline hterm, unterminated_line hline hterm]
    rw [← append_assoc] at h
    -- The beginning ends behind the first line, within it, or within its terminator.
    obtain hshort | ⟨start', rfl⟩ :=
      prefix_or_prefix_of_prefix h (prefix_append (line ++ term) rest)
    · obtain hwithin | ⟨part, rfl⟩ :=
        prefix_or_prefix_of_prefix hshort (prefix_append line term)
      · refine .inr ⟨line, mem_cons_self, .inl ?_⟩
        rw [unterminated_plain (hline.of_prefix hwithin)]
        exact hwithin.length_le
      · refine .inr ⟨line, mem_cons_self, ?_⟩
        obtain rfl | rfl | ⟨rfl, heol⟩ :=
          hterm.part_cases ((prefix_append_right_inj line).mp hshort)
        · rw [append_nil, unterminated_plain hline]
          exact .inl le_rfl
        · have hends := hterm.of_prefix List.nil_prefix
          have hleft := unterminated_line hline hends
          rw [append_nil] at hleft
          rw [hleft, unterminated_plain (plain_nil eol)]
          exact .inl (Nat.zero_le _)
        · obtain rfl | rfl := heol
          · rw [unterminated_plain (plain_concat_cr hline), length_append]
            exact .inr ⟨rfl, rfl⟩
          · have hends : Ends .auto [13] [] := .inr (.inr ⟨rfl, nofun⟩)
            have hleft := unterminated_line hline hends
            rw [append_nil] at hleft
            rw [hleft, unterminated_plain (plain_nil _)]
            exact .inl (Nat.zero_le _)
    · have hstart : start' <+: rest := (prefix_append_right_inj _).mp h
      rw [append_assoc, unterminated_line hline (hterm.of_prefix hstart)]
      refine (ih hstart).imp_right ?_
      rintro ⟨later, hlater, hlength⟩
      exact ⟨later, mem_cons_of_mem _ hlater, hlength⟩

theorem exists_prefix_line (h : line ∈ lines .crlf stream) :
    ∃ start, start <+: stream ∧ unterminated .crlf start = line ++ [13] := by
  induction stream using line_induction .crlf with
  | plain stream hstream =>
    rw [lines_plain hstream] at h
    cases h
  | line first term rest hfirst hterm ih =>
    rw [lines_line hfirst hterm, mem_cons] at h
    cases h with
    | inl heq =>
      subst heq
      refine ⟨line ++ [13], ?_, unterminated_plain (plain_concat_cr hfirst)⟩
      cases hterm
      exact ⟨10 :: rest, by simp⟩
    | inr hmem =>
      obtain ⟨start, hstart, hleft⟩ := ih hmem
      refine ⟨first ++ (term ++ start), ?_, ?_⟩
      · exact (prefix_append_right_inj _).mpr ((prefix_append_right_inj _).mpr hstart)
      · rw [unterminated_line hfirst (hterm.of_prefix hstart), hleft]

/-- Where the lines stay within the limit, only what is left at the end overflows. -/
theorem overflows_iff_of_lines
    (hlines : ∀ line ∈ lines f.eol chunks.flatten, line.length ≤ f.maxFrame)
    (hcrlf : (unterminated f.eol chunks.flatten).length ≤ f.maxFrame → f.eol = .crlf →
      ∀ line ∈ lines f.eol chunks.flatten, line.length < f.maxFrame) :
    f.Overflows chunks ↔ f.maxFrame < (unterminated f.eol chunks.flatten).length := by
  rw [overflows_iff]
  constructor
  · rintro ⟨before, hbefore, hlong⟩
    have hstart : before.flatten <+: chunks.flatten := by
      obtain ⟨after, rfl⟩ := hbefore
      exact ⟨after.flatten, flatten_append.symm⟩
    obtain hleft | ⟨line, hline, hshort | ⟨heol, hshort⟩⟩ :=
      @unterminated_of_start f.eol _ _ hstart
    · omega
    · have := hlines line hline
      omega
    · by_contra hle
      have := hcrlf (Nat.le_of_not_lt hle) heol line hline
      omega
  · intro hlong
    exact ⟨chunks, prefix_refl _, hlong⟩

/-- The frames are within the limit and the overflow does not depend on the chunks, for exactly
those streams all of whose lines are within the limit and, with CRLF, shorter than it, unless
what follows the last line is too long anyway. -/
theorem limit_iff (f : LineFramer) (stream : Bytes) :
    ((∀ chunks, chunks.flatten = stream →
          ∀ frame ∈ (f.feed chunks).1, frame.length ≤ f.maxFrame) ∧
        ∀ chunks chunks', chunks.flatten = stream → chunks'.flatten = stream →
          (f.Overflows chunks ↔ f.Overflows chunks')) ↔
      (∀ line ∈ lines f.eol stream, line.length ≤ f.maxFrame) ∧
        ((unterminated f.eol stream).length ≤ f.maxFrame → f.eol = .crlf →
          ∀ line ∈ lines f.eol stream, line.length < f.maxFrame) := by
  have hwhole : [stream].flatten = stream := append_nil stream
  constructor
  · rintro ⟨hframes, hoverflow⟩
    constructor
    · intro line hline
      apply hframes [stream] hwhole line
      rwa [feed_whole]
    · intro hleft hcrlf line hline
      by_contra hlong
      -- A line that reaches the limit overflows where its CR ends a chunk.
      rw [hcrlf] at hline
      obtain ⟨start, ⟨rest, hrest⟩, hstart⟩ := exists_prefix_line hline
      have hdivided : f.Overflows [start, rest] := by
        rw [overflows_iff]
        refine ⟨[start], prefix_append [start] [rest], ?_⟩
        rw [flatten_singleton, hcrlf, hstart, length_append, length_singleton]
        omega
      have hone := (hoverflow _ _ (by rw [flatten_cons, flatten_singleton, hrest]) hwhole).mp
        hdivided
      rw [overflows_whole] at hone
      omega
  · rintro ⟨hlines, hcrlf⟩
    constructor
    · rintro chunks rfl frame hframe
      rw [feed, CuttingFramer.feed_eq] at hframe
      have hrun : frame ∈ ((lineCutter f.eol).run [] chunks).1 :=
        (Cutter.runChecked_prefix _ _ _ _).subset hframe
      obtain rfl | hmem := mem_run hrun
      · exact Nat.zero_le _
      · exact hlines frame hmem
    · intro chunks chunks' hchunks hchunks'
      subst hchunks
      rw [overflows_iff_of_lines hlines hcrlf]
      rw [← hchunks'] at hlines hcrlf
      rw [overflows_iff_of_lines hlines hcrlf, hchunks']

/-- A line of three bytes passes a limit of two in one chunk, and overflows it in two. -/
theorem limit_divided :
    (LineFramer.mk .lf 2).feed [[97, 97, 97, 10]] = ([[97, 97, 97]], .ok []) ∧
      (LineFramer.mk .lf 2).feed [[97, 97, 97], [10]] =
        ([], .error ⟨.E1003FramerOverflow, "line framer: buffered 3 > max 2"⟩) := by
  decide +kernel

/-! ## Automatic mode -/

/-- No CRLF is divided between two chunks. -/
def Undivided (buf : Bytes) (chunks : List Bytes) : Prop :=
  ∀ before after, chunks = before ++ after →
    ¬ ([13] <:+ buf ++ before.flatten ∧ [10] <+: after.flatten)

theorem run_of_undivided (hbuf : Plain eol buf) (h : Undivided buf chunks) :
    ((lineCutter eol).run buf chunks).1 = lines eol (buf ++ chunks.flatten) := by
  induction chunks generalizing buf with
  | nil => rw [flatten_nil, append_nil, lines_plain hbuf, Cutter.run]
  | cons chunk chunks ih =>
    have hnext : Undivided (unterminated eol (buf ++ chunk)) chunks := by
      rintro before after rfl ⟨hcr, hlf⟩
      apply h (chunk :: before) after rfl
      refine ⟨hcr.trans ?_, hlf⟩
      obtain ⟨front, hfront⟩ := Cutter.left_suffix (lineCutter eol) (buf ++ chunk)
      refine ⟨front, ?_⟩
      rw [flatten_cons, ← append_assoc, ← append_assoc]
      exact congrArg (· ++ before.flatten) hfront
    have hrest := ih (plain_unterminated eol (buf ++ chunk)) hnext
    have hfirst : (lineCutter eol).frames (buf ++ chunk) = lines eol (buf ++ chunk) := rfl
    have hleft : (lineCutter eol).left (buf ++ chunk) = unterminated eol (buf ++ chunk) := rfl
    rw [Cutter.run, hfirst, hleft, hrest, flatten_cons, ← append_assoc]
    obtain happend | ⟨-, hcr, -, behind, hmore, -⟩ :=
      (lines_append eol (buf ++ chunk) chunks.flatten).2
    · exact happend.symm
    · -- Otherwise the chunk ends with a CR and the next begins with an LF.
      exfalso
      apply h [chunk] chunks rfl
      rw [flatten_singleton, hmore]
      exact ⟨hcr, prefix_append [10] behind⟩

theorem undivided_of_absent (h : ¬ [13, 10] <:+: chunks.flatten) : Undivided [] chunks := by
  rintro before after rfl ⟨⟨front, hfront⟩, ⟨behind, hbehind⟩⟩
  apply h
  refine ⟨front, behind, ?_⟩
  rw [flatten_append, ← hbehind, ← nil_append before.flatten, ← hfront]
  simp

/-- A CR at the end of a chunk ends a line, and the LF behind it another one. -/
theorem lines_divided (before behind : Bytes) :
    unterminated .auto (before ++ [13]) = [] ∧
      lines .auto (10 :: behind) = [] :: lines .auto behind ∧
      lines .auto (before ++ 13 :: 10 :: behind) =
        lines .auto (before ++ [13]) ++ lines .auto behind := by
  have hplain := plain_unterminated .auto before
  have hcr : Ends .auto [13] [] := .inr (.inr ⟨rfl, nofun⟩)
  have hlf : Ends .auto [10] behind := .inr (.inl rfl)
  have hcrlf : Ends .auto [13, 10] behind := .inl rfl
  refine ⟨?_, lines_line (plain_nil _) hlf, ?_⟩
  · have hleft := unterminated_line hplain hcr
    rw [append_nil] at hleft
    rw [(lines_append .auto before [13]).1, hleft, unterminated_plain (plain_nil _)]
  · have hshort : lines .auto (before ++ [13]) =
        lines .auto before ++ [unterminated .auto before] := by
      obtain happend | ⟨-, -, -, _, hmore, -⟩ := (lines_append .auto before [13]).2
      · have hone := lines_line hplain hcr
        rw [append_nil, lines_plain (plain_nil _)] at hone
        rw [happend, hone]
      · cases hmore
    have hlong : lines .auto (before ++ 13 :: 10 :: behind) =
        lines .auto before ++ unterminated .auto before :: lines .auto behind := by
      obtain happend | ⟨-, -, -, _, hmore, -⟩ :=
        (lines_append .auto before (13 :: 10 :: behind)).2
      · rw [happend]
        exact congrArg _ (lines_line hplain hcrlf)
      · cases hmore
    rw [hlong, hshort, append_assoc]
    rfl

theorem feed_of_not_overflows (h : ¬ f.Overflows chunks) :
    f.feed chunks =
      (((lineCutter f.eol).run [] chunks).1, .ok (unterminated f.eol chunks.flatten)) := by
  cases hfeed : (f.feed chunks).2 with
  | error e => exact absurd ⟨e, hfeed⟩ h
  | ok rest =>
    have hrun : (lineCutter f.eol).run [] chunks = ((f.feed chunks).1, rest) :=
      run_of_feed (Prod.ext rfl hfeed)
    have hleft := run_left f.eol chunks
    rw [hrun] at hleft ⊢
    exact Prod.ext rfl (hfeed.trans (congrArg _ hleft))

theorem frames_of_feed {frames : List Bytes} (h : f.feed chunks = (frames, .ok rest)) :
    ¬ f.Overflows chunks ∧ frames = ((lineCutter f.eol).run [] chunks).1 := by
  refine ⟨?_, (congrArg Prod.fst (run_of_feed h)).symm⟩
  rintro ⟨e, he⟩
  rw [h] at he
  cases he

/-- A stream that fits in one chunk fits with a CRLF divided between two. -/
theorem not_overflows_divided {maxFrame : ℕ} {before behind : Bytes}
    (hshort : (unterminated .auto (before ++ [13, 10] ++ behind)).length ≤ maxFrame) :
    ¬ (LineFramer.mk .auto maxFrame).Overflows [before ++ [13], 10 :: behind] := by
  obtain ⟨hcr, -, -⟩ := lines_divided before behind
  have hbytes : before ++ [13, 10] ++ behind = before ++ [13] ++ 10 :: behind := by simp
  rw [overflows_iff]
  rintro ⟨chunks, hchunks, hlong⟩
  obtain rfl | ⟨later, rfl, hlater⟩ := prefix_cons_iff.mp hchunks
  · exact absurd hlong (Nat.not_lt_zero _)
  obtain rfl | ⟨last, rfl, hlast⟩ := prefix_cons_iff.mp hlater
  · rw [flatten_singleton, hcr] at hlong
    exact absurd hlong (Nat.not_lt_zero _)
  · rw [prefix_nil.mp hlast, flatten_cons, flatten_singleton, ← hbytes] at hlong
    exact absurd hlong (Nat.not_lt.mpr hshort)

/-- In automatic mode, two ways of dividing a stream into chunks give the same frames for
exactly those streams that hold no CRLF, or that overflow anyway. A way that divides no CRLF
always gives the lines of the stream. -/
theorem auto_frames_iff (maxFrame : ℕ) (stream : Bytes) :
    ((∀ chunks chunks' frames frames' rest rest',
          chunks.flatten = stream → chunks'.flatten = stream →
          (LineFramer.mk .auto maxFrame).feed chunks = (frames, .ok rest) →
          (LineFramer.mk .auto maxFrame).feed chunks' = (frames', .ok rest') →
          frames = frames') ↔
        ¬ [13, 10] <:+: stream ∨ maxFrame < (unterminated .auto stream).length) ∧
      ∀ chunks frames rest, chunks.flatten = stream → Undivided [] chunks →
        (LineFramer.mk .auto maxFrame).feed chunks = (frames, .ok rest) →
        frames = lines .auto stream := by
  have hundivided : ∀ chunks frames rest, chunks.flatten = stream → Undivided [] chunks →
      (LineFramer.mk .auto maxFrame).feed chunks = (frames, .ok rest) →
      frames = lines .auto stream := by
    rintro chunks frames rest rfl hchunks hfeed
    obtain ⟨-, rfl⟩ := frames_of_feed hfeed
    exact run_of_undivided (plain_nil _) hchunks
  refine ⟨⟨?_, ?_⟩, hundivided⟩
  · intro hsame
    by_contra hcond
    rw [not_or, not_not, not_lt] at hcond
    obtain ⟨⟨before, behind, rfl⟩, hshort⟩ := hcond
    obtain ⟨-, hlf, hwhole⟩ := lines_divided before behind
    have hbytes : before ++ [13, 10] ++ behind = before ++ [13] ++ 10 :: behind := by simp
    have hone : ¬ (LineFramer.mk .auto maxFrame).Overflows [before ++ [13, 10] ++ behind] := by
      rw [overflows_whole]
      exact Nat.not_lt.mpr hshort
    have htwo := not_overflows_divided hshort
    have heq := hsame _ _ _ _ _ _ (flatten_singleton)
      (by rw [flatten_cons, flatten_singleton, hbytes])
      (feed_of_not_overflows hone) (feed_of_not_overflows htwo)
    -- The two runs differ by one frame.
    have hlength := congrArg length heq
    have hrun : ((lineCutter .auto).run [] [before ++ [13], 10 :: behind]).1 =
        lines .auto (before ++ [13]) ++ [] :: lines .auto behind := by
      obtain ⟨hcr, hlf, -⟩ := lines_divided before behind
      have hleft : (lineCutter .auto).left (before ++ [13]) = [] := hcr
      rw [Cutter.run, Cutter.run, Cutter.run, nil_append, hleft, nil_append, append_nil, ← hlf]
      rfl
    rw [hrun, Cutter.run, Cutter.run, nil_append, append_nil] at hlength
    have hframes : (lineCutter .auto).frames (before ++ [13, 10] ++ behind) =
        lines .auto (before ++ [13]) ++ lines .auto behind := by
      rw [← hwhole, append_assoc]
      rfl
    rw [hframes, length_append, length_append, length_cons] at hlength
    omega
  · rintro (hcrlf | hlong) chunks chunks' frames frames' rest rest' hchunks hchunks' hfeed hfeed'
    · rw [hundivided chunks frames rest hchunks
          (undivided_of_absent (hchunks.symm ▸ hcrlf)) hfeed,
        hundivided chunks' frames' rest' hchunks'
          (undivided_of_absent (hchunks'.symm ▸ hcrlf)) hfeed']
    · exfalso
      apply (frames_of_feed hfeed).1
      rw [overflows_iff]
      exact ⟨chunks, prefix_refl _, hchunks.symm ▸ hlong⟩

/-- A CRLF in one chunk ends a line; divided between two it ends two. -/
theorem auto_crlf_divided :
    (LineFramer.mk .auto 4).feed [[97, 13, 10]] = ([[97]], .ok []) ∧
      (LineFramer.mk .auto 4).feed [[97, 13], [10]] = ([[97], []], .ok []) := by
  decide +kernel

end LineFramer

end TraceMux.Core
