/-
# Content detection

A sample of a source is decoded under every encoding that is supported, and each gets a score
for how much the result looks like text. In `auto` mode the best one goes into effect if its
score is high and far enough above the next one of another family.

The labels are scored apart, `cp932` too, which is no label the decoder knows and is decoded
as UTF-8. It gets the score of UTF-8 less the four points for valid UTF-8 and counts as of
another family, so that the margin is never reached where UTF-8 is the clear answer: the
configured encoding stays in effect.
-/

import Mathlib.Data.List.Sort
import TraceMux.Core.TextEncoding
import TraceMux.Server.Prefetch
import TraceMux.Server.Requests

namespace TraceMux.Server.Detect

open Base TraceMux.Core Core.Codec List
open Server.Prefetch (defaultMaxSampleBytes)
open Server.Requests (EncodingCandidate LogTypeCandidate ContentDetectionReport)

/-- What the rules of a classifier rest on: lower case, and regular expressions. -/
structure Matchers where
  toLowercase : String → String
  /-- A pattern that builds, with or without regard to case: how often it matches a text. -/
  findIter : String → Bool → Option (String → ℕ)

structure ClassificationMatch where
  kind : ClassificationMatchKind
  pattern : String
  tag : String
  count : ℕ
  deriving DecidableEq, Repr

/-- Occurrences that do not overlap, the first `skip` characters left out. -/
def countSubstringsFrom (needle : Text) : ℕ → Text → ℕ
  | _, [] => 0
  | skip + 1, _ :: rest => countSubstringsFrom needle skip rest
  | 0, c :: rest =>
    if needle.isPrefixOf (c :: rest) then
      1 + countSubstringsFrom needle (needle.length - 1) rest
    else
      countSubstringsFrom needle 0 rest

def countSubstrings (haystack needle : String) : ℕ :=
  if needle = "" then 0 else countSubstringsFrom needle.toList 0 haystack.toList

section Classifier

variable (matchers : Matchers)

/-- A rule without a pattern or without a tag is left out. -/
def isActive (rule : ClassificationRule) : Bool := rule.pattern ≠ "" && rule.tag ≠ ""

/-- How often a rule matches a text; a regular expression that does not build never does. -/
def countMatches (rule : ClassificationRule) (text : String) : ℕ :=
  match rule.matchKind with
  | .contains =>
    if rule.caseSensitive then countSubstrings text rule.contains
    else countSubstrings (matchers.toLowercase text) (matchers.toLowercase rule.contains)
  | .regex =>
    match matchers.findIter rule.pattern (!rule.caseSensitive) with
    | some count => count text
    | none => 0

/-- The rules that match, in order. -/
def matchesForText (classifier : List ClassificationRule) (text : String) :
    List ClassificationMatch :=
  (classifier.filter isActive).filterMap fun rule =>
    let count := countMatches matchers rule text
    if 0 < count then some ⟨rule.matchKind, rule.pattern, rule.tag, count⟩ else none

def tagsForText (classifier : List ClassificationRule) (text : String) : List String :=
  addTags [] ((matchesForText matchers classifier text).map ClassificationMatch.tag)

end Classifier

def supportedTextEncodings : List String :=
  ["utf-8", "shift_jis", "cp932", "euc-jp", "iso-2022-jp"]

/-- A label in lower case and without blanks, if it is supported. -/
def canonicalEncodingLabel (value : String) : String :=
  let normalized := String.ofList ((Text.trim value.toList).map Char.toLower)
  if normalized ∈ supportedTextEncodings then normalized else "utf-8"

def labelRank (label : String) : ℕ :=
  (supportedTextEncodings.findIdx? (· = label)).getD (2 ^ 64 - 1)

def encodingFamily (label : String) : String :=
  if label = "shift_jis" ∨ label = "cp932" then "shift-jis-family" else label

/-- A confidence, with tokens that explain it. -/
structure Score where
  confidence : ℕ
  evidence : List String
  deriving DecidableEq, Repr

def Score.adjust (score : Score) (applies : Bool) (token : String) (change : ℕ → ℕ) : Score :=
  if applies then ⟨change score.confidence, score.evidence ++ [token]⟩ else score

/-- The control characters of Unicode. -/
def isControl (c : Char) : Bool :=
  c.toNat ≤ 0x1F || (0x7F ≤ c.toNat && c.toNat ≤ 0x9F)

/-- A control character other than line ends and tabs. -/
def isStrayControl (c : Char) : Bool :=
  isControl c && !(c = '\r' || c = '\n' || c = '\t')

def isJapanese (c : Char) : Bool :=
  (0x3040 ≤ c.toNat && c.toNat ≤ 0x30FF) || (0x3400 ≤ c.toNat && c.toNat ≤ 0x4DBF) ||
    (0x4E00 ≤ c.toNat && c.toNat ≤ 0x9FFF) || (0xFF66 ≤ c.toNat && c.toNat ≤ 0xFF9F)

def hasJapaneseText (text : Text) : Bool := text.any isJapanese

/-- Whether some place of the sample is an escape sequence of ISO-2022-JP. -/
def looksLikeIso2022Jp (sample : Bytes) : Bool :=
  sample.tails.any fun rest =>
    [0x1B, 0x24, 0x42].isPrefixOf rest || [0x1B, 0x24, 0x40].isPrefixOf rest ||
      [0x1B, 0x28, 0x42].isPrefixOf rest || [0x1B, 0x28, 0x4A].isPrefixOf rest

/-- How much a decoded sample looks like text. -/
def textConfidence (sample : Bytes) (text : Text) (hadErrors : Bool) : Score :=
  let totalChars := max text.length 1
  let replacementChars := text.count (Char.ofNat 0xFFFD)
  let controlChars := text.countP isStrayControl
  let printableChars := totalChars - (replacementChars + controlChars)
  let printableRatio := printableChars * 100 / totalChars
  let start : Score := {
    confidence := min ((if hadErrors then 28 else 68) + printableRatio / 4) 100
    evidence := [if hadErrors then "decode-errors" else "decode-clean"] }
  let replaced := start.adjust (0 < replacementChars) "replacement-chars"
    (· - min replacementChars 5 * 8)
  let controlled := replaced.adjust (0 < controlChars) "control-chars"
    (· - min controlChars 8 * 4)
  controlled.adjust (sample.contains 0) "nul-bytes" (min · 25)

def validUtf8 (sample : Bytes) : Bool :=
  !StreamDecoder.hadErrors (Utf8.decoder.decode sample)

section Detection

variable (encodings : Encodings) (matchers : Matchers)

def scoreSample (sample : Bytes) (label : String) : Score :=
  let decoded := decode encodings label sample
  let score := textConfidence sample decoded.1 decoded.2
  let marked := score.adjust (label = "utf-8" && [0xEF, 0xBB, 0xBF].isPrefixOf sample)
    "utf8-bom" (max · 100)
  let escaped := marked.adjust (label = "iso-2022-jp" && looksLikeIso2022Jp sample)
    "iso-2022-jp-escape" (max · 95)
  let valid := escaped.adjust (label = "utf-8" && validUtf8 sample && !decoded.2)
    "valid-utf8" fun confidence => min (confidence + 4) 100
  valid.adjust (hasJapaneseText decoded.1) "japanese-text"
    fun confidence => min (confidence + 4) 100

def scoreEncoding (sample : Bytes) (label : String) : EncodingCandidate :=
  if sample = [] then
    { label, confidence := 0, hadErrors := false, evidence := ["empty-sample"] }
  else
    let score := scoreSample encodings sample label
    { label
      confidence := score.confidence
      hadErrors := (decode encodings label sample).2
      evidence := score.evidence }

/-- The order of candidates: the most confident first, then by rank. -/
def Before (left right : EncodingCandidate) : Prop :=
  right.confidence < left.confidence ∨
    left.confidence = right.confidence ∧ labelRank left.label ≤ labelRank right.label

instance : DecidableRel Before := fun left right =>
  inferInstanceAs (Decidable (right.confidence < left.confidence ∨
    left.confidence = right.confidence ∧ labelRank left.label ≤ labelRank right.label))

def detectEncodings (sample : Bytes) : List EncodingCandidate :=
  (supportedTextEncodings.map (scoreEncoding encodings sample)).insertionSort Before

def logTypeConfidence (count : ℕ) : ℕ := min (55 + min count 3 * 15) 100

def detectLogTypes (sample : Bytes) (encoding : String) (classifier : List ClassificationRule) :
    List LogTypeCandidate :=
  if sample = [] ∨ classifier = [] then []
  else
    let decoded := decode encodings encoding sample
    if decoded.2 ∧ decoded.1 = [] then []
    else
      (matchesForText matchers classifier (String.ofList decoded.1)).map fun matched =>
        { tag := matched.tag
          kind := matched.kind
          pattern := matched.pattern
          count := matched.count
          confidence := logTypeConfidence matched.count }

structure ContentDetectionSettings where
  mode : DetectionMode := .configured
  configuredEncoding : String := "utf-8"
  classifier : List ClassificationRule := []
  minEncodingConfidence : ℕ := 80
  minEncodingDelta : ℕ := 8

def effectiveEncoding (configured : String) (candidates : List EncodingCandidate)
    (settings : ContentDetectionSettings) : String :=
  if settings.mode ≠ .auto then configured
  else
    match candidates with
    | [] => configured
    | best :: rest =>
      let second := (rest.find? fun candidate =>
        encodingFamily candidate.label ≠ encodingFamily best.label).elim 0
          EncodingCandidate.confidence
      if settings.minEncodingConfidence ≤ best.confidence ∧
          settings.minEncodingDelta ≤ best.confidence - second then
        best.label
      else
        configured

/-- The encoding under which the rules of the classifier are tried. -/
def sampledEncoding (configured : String) (candidates : List EncodingCandidate)
    (settings : ContentDetectionSettings) : String :=
  if settings.mode = .configured then configured
  else
    match candidates with
    | [] => configured
    | best :: _ =>
      if settings.minEncodingConfidence ≤ best.confidence then best.label else configured

def detectContent (sample : Bytes) (settings : ContentDetectionSettings) :
    ContentDetectionReport :=
  let configured := canonicalEncodingLabel settings.configuredEncoding
  let sample := sample.take defaultMaxSampleBytes
  if settings.mode = .off then
    { mode := settings.mode
      sampleBytes := sample.length
      configuredEncoding := configured
      effectiveEncoding := configured
      sampledEncoding := configured
      encodingCandidates := []
      logTypeCandidates := [] }
  else
    let candidates := detectEncodings encodings sample
    let sampled := sampledEncoding configured candidates settings
    { mode := settings.mode
      sampleBytes := sample.length
      configuredEncoding := configured
      effectiveEncoding := effectiveEncoding configured candidates settings
      sampledEncoding := sampled
      encodingCandidates := candidates
      logTypeCandidates :=
        match settings.mode with
        | .auto | .suggest => detectLogTypes encodings matchers sample sampled settings.classifier
        | .configured | .off => [] }

end Detection

variable {encodings : Encodings} {matchers : Matchers} {settings : ContentDetectionSettings}
  {bound : ℕ} {label : String} {left right : EncodingCandidate}

section Utf8Sample

variable {text : Text} {b : UInt8}

theorem mem_of_mem_encode (hb : b.toNat < 0x80) (h : b ∈ Lines.encode text) :
    Char.ofNat b.toNat ∈ text := by
  obtain ⟨c, hc, hbyte⟩ := mem_flatMap.mp h
  by_cases hascii : c.toNat < 0x80
  · rw [ShiftJis.utf8_ascii hascii, mem_singleton] at hbyte
    rw [hbyte, ShiftJis.toNat_byte (by omega), Char.ofNat_toNat]
    exact hc
  · obtain ⟨_, _, _, hutf8⟩ := ShiftJis.utf8_nonAscii (Nat.le_of_not_lt hascii)
    have := hutf8.high b hbyte
    omega

theorem encode_ne_cons {rest : Bytes}
    (hb : Utf8.decoder.step Utf8.decoder.init b = (Utf8.decoder.init, [none])) :
    Lines.encode text ≠ b :: rest := by
  intro h
  have hdecode := Utf8.decode_encode text
  rw [h, StreamDecoder.decode_eq_decodeFrom, StreamDecoder.decodeFrom_cons, hb] at hdecode
  cases text with
  | nil => cases hdecode
  | cons c text => cases (cons.inj hdecode).1

/-- The only byte order mark with which UTF-8 begins is its own. -/
theorem forBom_of_start {bytes : Bytes} (h : bytes <+: Lines.encode text)
    (hbom : ¬ [0xEF, 0xBB, 0xBF] <+: bytes) : forBom bytes = none := by
  have hmark {first second : UInt8}
      (hfirst : Utf8.decoder.step Utf8.decoder.init first = (Utf8.decoder.init, [none])) :
      ¬ [first, second].isPrefixOf bytes = true := by
    intro hstart
    obtain ⟨rest, hrest⟩ := (List.isPrefixOf_iff_prefix.mp hstart).trans h
    exact encode_ne_cons hfirst hrest.symm
  rw [forBom, if_neg (fun hutf8 => hbom (List.isPrefixOf_iff_prefix.mp hutf8)),
    if_neg (hmark rfl), if_neg (hmark rfl)]

theorem decode_encode_utf8 {label : String}
    (hlabel : encodingForLabel encodings label = Utf8.decoder)
    (h : ¬ [0xEF, 0xBB, 0xBF] <+: Lines.encode text) :
    decode encodings label (Lines.encode text) = (text, false) := by
  rw [decode, decodeUnits_of_forBom (forBom_of_start List.prefix_rfl h), hlabel, Utf8.decode_encode]
  refine Prod.ext ?_ ?_
  · rw [StreamDecoder.replaced, map_map]
    exact map_id text
  · simp [StreamDecoder.hadErrors]

end Utf8Sample

/-- Evidence against a text does not raise its score. -/
theorem Score.adjust_le {score : Score} {applies : Bool} {token : String} {change : ℕ → ℕ}
    (hchange : ∀ n, change n ≤ n) (hscore : score.confidence ≤ bound) :
    (score.adjust applies token change).confidence ≤ bound := by
  cases applies with
  | false => exact hscore
  | true => exact (hchange _).trans hscore

variable {sample : Bytes} {text : Text}

theorem textConfidence_clean (hne : text ≠ []) (hreplacement : Char.ofNat 0xFFFD ∉ text)
    (hcontrol : ∀ c ∈ text, isStrayControl c = false) (hnul : 0 ∉ sample) :
    textConfidence sample text false = ⟨93, ["decode-clean"]⟩ := by
  have hlength : max text.length 1 = text.length :=
    Nat.max_eq_left (length_pos_iff.mpr hne)
  have hcount : text.count (Char.ofNat 0xFFFD) = 0 := count_eq_zero.mpr hreplacement
  have hcountP : text.countP isStrayControl = 0 := by
    rw [countP_eq_zero]
    intro c hc
    rw [hcontrol c hc]
    exact Bool.false_ne_true
  have hratio : text.length * 100 / text.length = 100 :=
    Nat.mul_div_cancel_left 100 (length_pos_iff.mpr hne)
  have hcontains : sample.contains 0 = false := by
    rw [contains_eq_mem]
    exact decide_eq_false hnul
  rw [textConfidence]
  simp only [hlength, hcount, hcountP, hcontains, Nat.sub_zero, Nat.add_zero, hratio]
  rfl

/-- A malformed sample has at least one replacement, which costs more than what is left. -/
theorem textConfidence_malformed (sample : Bytes) (hreplacement : Char.ofNat 0xFFFD ∈ text) :
    (textConfidence sample text true).confidence ≤ 45 := by
  have hcount : 0 < text.count (Char.ofNat 0xFFFD) := count_pos_iff.mpr hreplacement
  rw [textConfidence]
  simp only [hcount, decide_true, if_true]
  refine Score.adjust_le (fun n => Nat.min_le_left n 25)
    (Score.adjust_le (fun n => Nat.sub_le n _) ?_)
  generalize text.count (Char.ofNat 0xFFFD) = replacementChars at hcount
  generalize max text.length 1 = totalChars
  generalize text.countP isStrayControl = controlChars
  have hratio : (totalChars - (replacementChars + controlChars)) * 100 / totalChars ≤ 100 :=
    Nat.div_le_of_le_mul (Nat.mul_le_mul_right 100 (Nat.sub_le _ _))
  change min (28 + (totalChars - (replacementChars + controlChars)) * 100 / totalChars / 4) 100 -
    min replacementChars 5 * 8 ≤ 45
  generalize (totalChars - (replacementChars + controlChars)) * 100 / totalChars = ratio at hratio ⊢
  omega

theorem looksLikeIso2022Jp_eq_false (h : 0x1B ∉ sample) : looksLikeIso2022Jp sample = false := by
  have hstart {second third : UInt8} {rest : Bytes} (hrest : rest <:+ sample) :
      [0x1B, second, third].isPrefixOf rest = false := by
    rw [← Bool.not_eq_true, isPrefixOf_iff_prefix]
    intro hpre
    exact h (hrest.subset (hpre.subset mem_cons_self))
  rw [looksLikeIso2022Jp, any_eq_false]
  intro rest hrest
  have hsuffix := (mem_tails _ _).mp hrest
  rw [hstart hsuffix, hstart hsuffix, hstart hsuffix, hstart hsuffix]
  exact Bool.false_ne_true

/-- A malformed sample without an escape sequence scores low under every label but `utf-8`. -/
theorem scoreSample_malformed (hlabel : label ≠ "utf-8") (hescape : 0x1B ∉ sample)
    (h : (decode encodings label sample).2 = true) :
    (scoreSample encodings sample label).confidence ≤ 49 := by
  have hreplacement : Char.ofNat 0xFFFD ∈ (decode encodings label sample).1 :=
    StreamDecoder.mem_replaced h
  have htext := textConfidence_malformed sample hreplacement
  rw [scoreSample]
  simp only [h, hlabel, looksLikeIso2022Jp_eq_false hescape, decide_false, Bool.false_and,
    Bool.and_false]
  generalize textConfidence sample (decode encodings label sample).1 true = score at htext
  generalize hasJapaneseText (decode encodings label sample).1 = japanese
  change (score.adjust japanese _ _).confidence ≤ 49
  cases japanese with
  | false => exact htext.trans (by omega)
  | true =>
    change min (score.confidence + 4) 100 ≤ 49
    omega

/-- A text with Japanese characters, without replacements and stray control characters, that
does not begin with the byte order mark of UTF-8. -/
structure PlainJapanese (text : Text) : Prop where
  japanese : ∃ c ∈ text, isJapanese c = true
  replacement : Char.ofNat 0xFFFD ∉ text
  control : ∀ c ∈ text, isStrayControl c = false
  bom : ¬ [0xEF, 0xBB, 0xBF] <+: Lines.encode text

namespace PlainJapanese

variable (h : PlainJapanese text)
include h

theorem ne_nil : text ≠ [] := by
  obtain ⟨c, hc, -⟩ := h.japanese
  exact ne_nil_of_mem hc

theorem encode_ne_nil : Lines.encode text ≠ [] := by
  intro hnil
  have hdecode := Utf8.decode_encode text
  rw [hnil, StreamDecoder.decode_nil] at hdecode
  exact h.ne_nil (map_eq_nil_iff.mp hdecode.symm)

theorem byte_notMem {b : UInt8} (hb : b.toNat < 0x80)
    (hcontrol : isStrayControl (Char.ofNat b.toNat) = true) : b ∉ Lines.encode text := by
  intro hmem
  rw [h.control _ (mem_of_mem_encode hb hmem)] at hcontrol
  exact Bool.false_ne_true hcontrol

/-- Decoded as UTF-8 it scores 93, and the points for Japanese text and for valid UTF-8. -/
theorem scoreSample_utf8 {label : String}
    (hlabel : encodingForLabel encodings label = Utf8.decoder) :
    (scoreSample encodings (Lines.encode text) label).confidence =
      if label = "utf-8" then 100 else 97 := by
  have hdecode := decode_encode_utf8 hlabel h.bom
  have htext := textConfidence_clean h.ne_nil h.replacement h.control
    (h.byte_notMem (b := 0) (by decide) (by decide))
  have hescape := looksLikeIso2022Jp_eq_false
    (h.byte_notMem (b := 0x1B) (by decide) (by decide))
  have hjapanese : hasJapaneseText text = true := any_eq_true.mpr h.japanese
  have hmark : [0xEF, 0xBB, 0xBF].isPrefixOf (Lines.encode text) = false := by
    rw [← Bool.not_eq_true, isPrefixOf_iff_prefix]
    exact h.bom
  have hvalid : validUtf8 (Lines.encode text) = true := by
    simp [validUtf8, Utf8.decode_encode, StreamDecoder.hadErrors]
  rw [scoreSample]
  simp only [hdecode, htext, hescape, hjapanese, hmark, hvalid, Bool.and_false]
  by_cases hutf8 : label = "utf-8"
  · simp only [hutf8, decide_true]
    rfl
  · simp only [hutf8, decide_false]
    rfl

end PlainJapanese

theorem scoreEncoding_label (sample : Bytes) (label : String) :
    (scoreEncoding encodings sample label).label = label := by
  rw [scoreEncoding]
  split <;> rfl

theorem before_of_lt (h : right.confidence < left.confidence) :
    Before left right := .inl h

/-- Where UTF-8 scores highest and `cp932` next, they are the first two candidates. -/
theorem insertionSort_of_lt {score : String → EncodingCandidate}
    (hutf8 : (score "cp932").confidence < (score "utf-8").confidence)
    (hcp932 : bound < (score "cp932").confidence)
    (hothers : ∀ label ∈ ["shift_jis", "euc-jp", "iso-2022-jp"],
      (score label).confidence ≤ bound) :
    ∃ rest, (supportedTextEncodings.map score).insertionSort Before =
      score "utf-8" :: score "cp932" :: rest := by
  have hshiftJis := hothers "shift_jis" (by simp)
  have heucJp := hothers "euc-jp" (by simp)
  have hiso := hothers "iso-2022-jp" (by simp)
  have hfirst : ∀ candidate ∈ ["shift_jis", "cp932", "euc-jp", "iso-2022-jp"].map score,
      Before (score "utf-8") candidate := by
    simp only [map_cons, map_nil, forall_mem_cons]
    exact ⟨before_of_lt (by omega), before_of_lt (by omega), before_of_lt (by omega),
      before_of_lt (by omega), nofun⟩
  have hsecond : ∀ candidate ∈ ["euc-jp", "iso-2022-jp"].map score,
      Before (score "cp932") candidate := by
    simp only [map_cons, map_nil, forall_mem_cons]
    exact ⟨before_of_lt (by omega), before_of_lt (by omega), nofun⟩
  have hswap : ¬ Before (score "shift_jis") (score "cp932") := by
    rintro (hlt | ⟨heq, -⟩) <;> omega
  rw [supportedTextEncodings, map_cons,
    insertionSort_cons_of_forall_rel Before hfirst, map_cons, map_cons, insertionSort_cons,
    insertionSort_cons_of_forall_rel Before hsecond, orderedInsert_of_not_le Before _ hswap]
  exact ⟨_, rfl⟩

theorem canonicalEncodingLabel_mem (value : String) :
    canonicalEncodingLabel value ∈ supportedTextEncodings := by
  rw [canonicalEncodingLabel]
  split
  · assumption
  · exact mem_cons_self

theorem supported_cases (h : label ∈ supportedTextEncodings) :
    label = "utf-8" ∨ label = "cp932" ∨ label ∈ ["shift_jis", "euc-jp", "iso-2022-jp"] := by
  simp only [supportedTextEncodings, mem_cons, not_mem_nil, or_false] at h ⊢
  rcases h with h | h | h | h | h
  · exact .inl h
  · exact .inr (.inr (.inl h))
  · exact .inr (.inl h)
  · exact .inr (.inr (.inr (.inl h)))
  · exact .inr (.inr (.inr (.inr h)))

/-- UTF-8 goes into effect on such a sample only where it was configured: as the label it is
`utf-8`, or one that is not supported; as an encoding it is `cp932` besides. -/
theorem detectContent_utf8_iff {text : Text} (hplain : PlainJapanese text)
    (hutf8 : encodings.forLabel "utf-8" = some Utf8.decoder)
    (hcp932 : encodings.forLabel "cp932" = none)
    (hlimit : (Lines.encode text).length ≤ defaultMaxSampleBytes)
    (hmalformed : ∀ label ∈ ["shift_jis", "euc-jp", "iso-2022-jp"],
      (decode encodings label (Lines.encode text)).2 = true)
    (configured : String) (classifier : List ClassificationRule) :
    ((detectContent encodings matchers (Lines.encode text)
        { mode := .auto, configuredEncoding := configured, classifier }).effectiveEncoding =
          "utf-8" ↔
      canonicalEncodingLabel configured = "utf-8") ∧
    (encodingForLabel encodings (detectContent encodings matchers (Lines.encode text)
        { mode := .auto, configuredEncoding := configured, classifier }).effectiveEncoding =
          Utf8.decoder ↔
      canonicalEncodingLabel configured = "utf-8" ∨
        canonicalEncodingLabel configured = "cp932") := by
  -- The configured encoding stays in effect.
  have heffective : (detectContent encodings matchers (Lines.encode text)
      { mode := .auto, configuredEncoding := configured, classifier }).effectiveEncoding =
        canonicalEncodingLabel configured := by
    have hscore (label : String) :
        (scoreEncoding encodings (Lines.encode text) label).confidence =
          (scoreSample encodings (Lines.encode text) label).confidence := by
      rw [scoreEncoding, if_neg hplain.encode_ne_nil]
    have hbest : (scoreEncoding encodings (Lines.encode text) "utf-8").confidence = 100 := by
      rw [hscore, hplain.scoreSample_utf8 (by rw [encodingForLabel, hutf8]; rfl)]
      rfl
    have hnext : (scoreEncoding encodings (Lines.encode text) "cp932").confidence = 97 := by
      rw [hscore, hplain.scoreSample_utf8 (by rw [encodingForLabel, hcp932]; rfl)]
      rfl
    have hothers : ∀ label ∈ ["shift_jis", "euc-jp", "iso-2022-jp"],
        (scoreEncoding encodings (Lines.encode text) label).confidence ≤ 49 := by
      intro label hlabel
      have hne : label ≠ "utf-8" := by
        rintro rfl
        revert hlabel
        decide
      rw [hscore]
      apply scoreSample_malformed hne _ (hmalformed label hlabel)
      exact hplain.byte_notMem (by decide) (by decide)
    obtain ⟨rest, hcandidates⟩ := insertionSort_of_lt (by omega) (by omega) hothers
    rw [detectContent]
    simp only [take_of_length_le hlimit, detectEncodings, hcandidates]
    rw [if_neg (by decide)]
    -- The margin between the two candidates is too small for the default thresholds.
    rw [effectiveEncoding]
    split
    · rfl
    · rw [find?_cons_of_pos, Option.elim_some, if_neg]
      · rw [hbest, hnext]
        exact fun h => absurd h.2 (by decide : ¬ 8 ≤ 100 - 97)
      · rw [scoreEncoding_label, scoreEncoding_label]
        decide
  rw [heffective]
  refine ⟨Iff.rfl, ?_⟩
  constructor
  · intro hdecoder
    have hclean := decode_encode_utf8 hdecoder hplain.bom
    obtain hlabel | hlabel | hother := supported_cases (canonicalEncodingLabel_mem configured)
    · exact .inl hlabel
    · exact .inr hlabel
    · have herror := hmalformed _ hother
      rw [hclean] at herror
      exact absurd herror Bool.false_ne_true
  · rintro (hlabel | hlabel)
    · rw [hlabel, encodingForLabel, hutf8]
      rfl
    · rw [hlabel, encodingForLabel, hcp932]
      rfl

/-- Every byte other than ASCII is malformed, as in ISO-2022-JP without escape sequences. -/
def ascii : StreamDecoder where
  State := Unit
  init := ()
  step _ b := ((), [if b.toNat < 0x80 then some (Char.ofNat b.toNat) else none])
  finish _ := []
  finish_init := rfl

/-- The encodings, as far as one hiragana in UTF-8 needs them. -/
def sampleEncodings : Encodings where
  forLabel label :=
    if label = "euc-jp" ∨ label = "iso-2022-jp" then some ascii
    else hiraganaTable.encodings.forLabel label

theorem plainJapanese_hiragana : PlainJapanese [Char.ofNat 0x3042] where
  japanese := ⟨_, mem_cons_self, by decide⟩
  replacement := by decide
  control := forall_mem_singleton.mpr (by decide)
  bom := by decide

theorem malformed_hiragana : ∀ label ∈ ["shift_jis", "euc-jp", "iso-2022-jp"],
    (decode sampleEncodings label (Lines.encode [Char.ofNat 0x3042])).2 = true := by
  simp only [forall_mem_cons]
  exact ⟨by decide +kernel, by decide +kernel, by decide +kernel, nofun⟩

theorem detectContent_utf8_hiragana :
    (detectContent sampleEncodings ⟨id, fun _ _ => none⟩ (Lines.encode [Char.ofNat 0x3042])
      { mode := .auto, configuredEncoding := " UTF-8 " }).effectiveEncoding = "utf-8" :=
  (detectContent_utf8_iff plainJapanese_hiragana rfl rfl (by decide) malformed_hiragana
    " UTF-8 " []).1.mpr (by decide)

/-- The configured Shift_JIS stays in effect over one hiragana in UTF-8. -/
theorem detectContent_keeps_shiftJis :
    (detectContent sampleEncodings ⟨id, fun _ _ => none⟩ [0xE3, 0x81, 0x82]
      { mode := .auto, configuredEncoding := "shift_jis" }).effectiveEncoding = "shift_jis" ∧
      decode sampleEncodings "utf-8" [0xE3, 0x81, 0x82] = ([Char.ofNat 0x3042], false) ∧
      (decode sampleEncodings "shift_jis" [0xE3, 0x81, 0x82]).2 = true := by
  decide +kernel

end TraceMux.Server.Detect
