/-
# The metadata of a capture

A capture runner writes `meta.toml` by hand: a line for each entry, with the value as a basic
string. The label of the source and the name of the host are free text; they go through an
escape for the backslash, the quote and three control characters.

The reader for such files follows the grammar of TOML, by which a basic string holds no control
character but the tab. Escapes by number, which the writer never makes, are left out.
-/

import TraceMux.Core.Log.Rfc3339
import TraceMux.Server.ExportApi

namespace TraceMux.Server.PcapMeta

open Base List TraceMux.Core Core.Log ExportApi

def replace (old : Char) (new : String) (value : Text) : Text :=
  value.flatMap fun c => if c = old then new.toList else [c]

def tomlEscape (value : Text) : Text :=
  replace '\t' "\\t" (replace '\r' "\\r" (replace '\n' "\\n" (replace '"' "\\\""
    (replace '\\' "\\\\" value))))

def line (key : String) (value : Text) : Text :=
  key.toList ++ " = \"".toList ++ value ++ "\"\n".toList

def writeMeta (sid : Uuid) (now : ℤ) (source : Text) (host : Option Text) : Text :=
  line "log_format_version" "1.0.0".toList ++ line "sid" sid.hyphenated ++
    line "created" (formatRfc3339Ns now).toList ++ line "source" (tomlEscape source) ++
    (host.elim [] fun host => line "host" (tomlEscape host)) ++
    line "decoder" "pcap-packet".toList

/-- What the file is to say. -/
def entries (sid : Uuid) (now : ℤ) (source : Text) (host : Option Text) : List (String × Text) :=
  [("log_format_version", "1.0.0".toList), ("sid", sid.hyphenated),
    ("created", (formatRfc3339Ns now).toList), ("source", source)] ++
    host.toList.map (fun host => ("host", host)) ++ [("decoder", "pcap-packet".toList)]

/-- Control characters that do not stand in a basic string. -/
def isControl (c : Char) : Bool := c.toNat < 0x20 && c.toNat ≠ 9 || c.toNat = 0x7F

def unescape (c : Char) : Option Char :=
  ("btnfr\"\\".toList.zip "\x08\t\n\x0c\r\"\\".toList).lookup c

/-- A basic string up to its closing quote, and the text behind it. -/
def readString : Text → Option (Text × Text)
  | [] => none
  | '"' :: rest => some ([], rest)
  | '\\' :: form :: rest =>
    (unescape form).bind fun c => (readString rest).map fun read => (c :: read.1, read.2)
  | c :: rest =>
    if isControl c then none else (readString rest).map fun read => (c :: read.1, read.2)

def isBare (c : Char) : Bool := c.isAlphanum || c = '_' || c = '-'

/-- The lines of a file; `fuel` bounds their number. -/
def readLines : ℕ → Text → Option (List (String × Text))
  | 0, text => if text = [] then some [] else none
  | fuel + 1, text =>
    let key := text.takeWhile isBare
    if text = [] then some []
    else if key = [] then none
    else do
      let rest ← (text.drop key.length).dropPrefix? " = \"".toList
      let (value, rest) ← readString rest
      let rest ← rest.dropPrefix? ['\n']
      let later ← readLines fuel rest
      return (String.ofList key, value) :: later

def readToml (text : Text) : Option (List (String × Text)) := readLines text.length text

/-- The characters that are written in a form that is read back. -/
def isWritable (c : Char) : Bool := !isControl c || c = '\n' || c = '\r'

theorem replace_eq_self {old : Char} (new : String) {value : Text} (h : old ∉ value) :
    replace old new value = value := by
  have hkeep : replace old new value = value.flatMap fun c => [c] := by
    apply flatMap_congr
    intro c hc
    rw [if_neg (by rintro rfl; exact h hc)]
  rw [hkeep, flatMap_singleton']

theorem tomlEscape_eq_self {value : Text} (h : ∀ c ∈ "\\\"\n\r\t".toList, c ∉ value) :
    tomlEscape value = value := by
  simp only [String.reduceToList, forall_mem_cons] at h
  simp only [tomlEscape, replace_eq_self, h, not_false_eq_true]

theorem readString_tomlEscape (value rest : Text) :
    readString (tomlEscape value ++ '"' :: rest) =
      if value.all isWritable then some (value, rest) else none := by
  induction value with
  | nil => rfl
  | cons c value ih =>
    have hcons : tomlEscape (c :: value) = tomlEscape [c] ++ tomlEscape value := by
      simp [tomlEscape, replace]
    have hchar : ∀ more, readString (tomlEscape [c] ++ more) =
        if isWritable c then (readString more).map fun read => (c :: read.1, read.2)
        else none := by
      intro more
      by_cases hc : c ∈ "\\\"\n\r\t".toList
      · simp only [String.reduceToList, mem_cons, not_mem_nil, or_false] at hc
        rcases hc with rfl | rfl | rfl | rfl | rfl
        all_goals rfl
      · rw [tomlEscape_eq_self fun d hd hmem => hc (by rwa [mem_singleton.mp hmem] at hd)]
        simp only [String.reduceToList, mem_cons, not_mem_nil, or_false, not_or] at hc
        cases hcontrol : isControl c <;> simp [readString, hc, isWritable, hcontrol]
    rw [hcons, append_assoc, hchar, ih, all_cons]
    cases isWritable c <;> cases value.all isWritable <;> rfl

theorem readLines_lines {lines : List (String × Text)} {fuel : ℕ}
    (hkeys : ∀ e ∈ lines, e.1.toList ≠ [] ∧ ∀ c ∈ e.1.toList, isBare c = true)
    (hfuel : lines.length ≤ fuel) :
    readLines fuel (lines.flatMap fun e => line e.1 (tomlEscape e.2)) =
      if lines.all (·.2.all isWritable) then some lines else none := by
  induction lines generalizing fuel with
  | nil => cases fuel <;> rfl
  | cons e lines ih =>
    obtain ⟨hne, hbare⟩ := hkeys e mem_cons_self
    obtain ⟨fuel, rfl⟩ := Nat.exists_eq_add_of_lt hfuel
    have hlater := ih (fun e he => hkeys e (mem_cons_of_mem _ he)) (Nat.le_add_right _ fuel)
    rw [flatMap_cons]
    generalize (lines.flatMap fun e => line e.1 (tomlEscape e.2)) = later at hlater ⊢
    have hline : line e.1 (tomlEscape e.2) ++ later = e.1.toList ++ (" = \"".toList ++
        (tomlEscape e.2 ++ '"' :: (['\n'] ++ later))) := by
      simp [line]
    have hkey : ∀ rest, (e.1.toList ++ (" = \"".toList ++ rest)).takeWhile isBare =
        e.1.toList := by
      intro rest
      rw [takeWhile_append_of_pos hbare]
      simp [isBare]
    rw [hline, readLines]
    simp only [hkey, append_eq_nil_iff, hne, false_and, if_false, drop_left,
      dropPrefix?_append_of_beq _ (beq_self_eq_true _), readString_tomlEscape,
      Option.bind_eq_bind, Option.bind_some, all_cons]
    by_cases hvalue : e.2.all isWritable = true
    · simp only [hvalue, if_true, Option.bind_some, hlater, Bool.true_and,
        dropPrefix?_append_of_beq _ (beq_self_eq_true _)]
      cases lines.all (·.2.all isWritable) <;> simp
    · simp [hvalue]

/-- The file is read back exactly when no string in it holds a control character other than
tabs and line ends. -/
theorem readToml_writeMeta_iff (sid : Uuid) (now : ℤ) (source : Text) (host : Option Text) :
    readToml (writeMeta sid now source host) = some (entries sid now source host) ↔
      ∀ e ∈ entries sid now source host, ∀ c ∈ e.2, isWritable c = true := by
  have hsid : tomlEscape sid.hyphenated = sid.hyphenated :=
    tomlEscape_eq_self fun c hc hmem => (by simp : ∀ c ∈ "\\\"\n\r\t".toList,
      c ∉ "-0123456789abcdef".toList) c hc (Uuid.mem_hyphenated hmem)
  have hnow : tomlEscape (formatRfc3339Ns now).toList = (formatRfc3339Ns now).toList :=
    tomlEscape_eq_self fun c hc hmem => (by simp : ∀ c ∈ "\\\"\n\r\t".toList,
      ¬ (c.isDigit = true ∨ c ∈ ['-', ':', 'T', '.', 'Z'])) c hc (mem_formatRfc3339Ns hmem)
  have hbody : writeMeta sid now source host =
      (entries sid now source host).flatMap fun e => line e.1 (tomlEscape e.2) := by
    cases host <;> simp [writeMeta, entries, hsid, hnow] <;> rfl
  have hfuel : (entries sid now source host).length ≤ (writeMeta sid now source host).length := by
    cases host <;> simp [writeMeta, entries, line]
  rw [readToml, hbody, readLines_lines ?_ (hbody ▸ hfuel)]
  · simp
  · cases host <;> simp [entries] <;> decide

/-- A label with a control character makes a file that is not TOML. -/
theorem not_readToml_writeMeta :
    readToml (writeMeta 0 0 "pcap:\x1beth0".toList none) = none := by decide +kernel

end TraceMux.Server.PcapMeta
