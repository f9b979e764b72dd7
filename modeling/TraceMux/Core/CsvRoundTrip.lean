/-
# Export to CSV and import again

A session is exported to CSV and the file is imported again. The texts survive with their
quotes and commas, row by row. The times of origin do not: the exporter names their column
`ts_origin`, the importer looks for `ts`, `time` or `timestamp`, and a row without a time
column gets the time of the import.
-/

import TraceMux.Base.StreamDecoder
import TraceMux.Core.Exporter.Rows
import TraceMux.Core.Importer.Csv
import TraceMux.Core.Log.Rfc3339

namespace TraceMux.Core.CsvRoundTrip

open Base Core.Log Core.FileSink Core.Exporter Core.Importer Core.Importer.Csv List

def PlainField (s : Text) : Prop := ∀ c ∈ s, needsQuote c = false

-- The instance is the one for lists: characters are finite, and a search through all of them is
-- found first.
instance : DecidablePred PlainField := fun s =>
  List.decidableBAll (fun c => needsQuote c = false) s

theorem parseRowFrom_plain {field : Text} (h : PlainField field) (out : List Text)
    (cur rest : Text) :
    parseRowFrom out cur false false (field ++ rest) =
      parseRowFrom out (cur ++ field) false false rest := by
  induction field generalizing cur with
  | nil => rw [nil_append, append_nil]
  | cons c field ih =>
    have hc : c ≠ '"' ∧ c ≠ ',' := by
      have hplain := h c List.mem_cons_self
      simp only [needsQuote, decide_eq_false_iff_not, not_or] at hplain
      exact ⟨hplain.2.1, hplain.1⟩
    rw [List.cons_append, parseRowFrom]
    simp only [hc.1, hc.2, false_and, if_false, Bool.false_eq_true]
    rw [ih (fun d hd => h d (List.mem_cons_of_mem _ hd)), List.append_assoc,
      List.singleton_append]

theorem parseRowFrom_quoted (text : Text) (out : List Text) (cur : Text) {rest : Text}
    (hrest : rest.head? ≠ some '"') :
    parseRowFrom out cur true false (text.flatMap quoteChar ++ '"' :: rest) =
      parseRowFrom out (cur ++ text) false false rest := by
  induction text generalizing cur with
  | nil => simp [parseRowFrom, hrest]
  | cons c text ih =>
    rw [flatMap_cons, append_assoc]
    by_cases hc : c = '"'
    · subst hc
      have hfirst : parseRowFrom out cur true false
          ('"' :: '"' :: (text.flatMap quoteChar ++ '"' :: rest)) =
          parseRowFrom out (cur ++ ['"']) true false (text.flatMap quoteChar ++ '"' :: rest) := by
        simp [parseRowFrom]
      refine hfirst.trans ?_
      rw [ih, append_assoc, singleton_append]
    · have hchar : quoteChar c = [c] := if_neg hc
      rw [hchar, singleton_append, parseRowFrom]
      simp only [hc, false_and, and_false, if_false, Bool.false_eq_true, Bool.true_eq_false]
      rw [ih, append_assoc, singleton_append]

/-- A field is read back up to what follows it, unless that is a quote. -/
theorem parseRowFrom_quote (out : List Text) (text : Text) (rest : Text)
    (hrest : rest.head? ≠ some '"') :
    parseRowFrom out [] false false (quote text ++ rest) =
      parseRowFrom out text false false rest := by
  unfold quote
  split
  · have hopen : parseRowFrom out [] false false ('"' :: (text.flatMap quoteChar ++ '"' :: rest)) =
        parseRowFrom out [] true false (text.flatMap quoteChar ++ '"' :: rest) := by
      simp [parseRowFrom]
    rw [cons_append, append_assoc, singleton_append, hopen, parseRowFrom_quoted text out [] hrest,
      nil_append]
  · next hplain =>
    exact parseRowFrom_plain (by simpa [PlainField] using hplain) out [] rest

theorem csvLine_singleton (field : Text) : csvLine [field] = field := by
  simp [csvLine, List.intercalate]

theorem csvLine_cons (first second : Text) (rest : List Text) :
    csvLine (first :: second :: rest) = first ++ ',' :: csvLine (second :: rest) := by
  simp [csvLine, List.intercalate]

theorem parseRowFrom_csvLine (out : List Text) (field : Text) (fields : List Text) :
    parseRowFrom out [] false false (csvLine ((field :: fields).map quote)) =
      out ++ field :: fields := by
  induction fields generalizing out field with
  | nil =>
    have hread := parseRowFrom_quote out field [] (by simp)
    rw [append_nil] at hread
    rw [map_singleton, csvLine_singleton, hread, parseRowFrom]
  | cons next fields ih =>
    have hcomma : ∀ line, parseRowFrom out field false false (',' :: line) =
        parseRowFrom (out ++ [field]) [] false false line := fun line => by
      simp [parseRowFrom]
    rw [map_cons, map_cons, csvLine_cons, parseRowFrom_quote out field _ (by simp), hcomma,
      ← map_cons, ih, append_assoc, singleton_append]

/-- Any fields, quoted and joined by commas, are read back as they were. -/
theorem parseRow_csvLine_quote (field : Text) (fields : List Text) :
    parseRow (csvLine ((field :: fields).map quote)) = field :: fields :=
  parseRowFrom_csvLine [] field fields

theorem mem_csvLine {fields : List Text} {c : Char} (h : c ∈ csvLine fields) :
    c = ',' ∨ ∃ field ∈ fields, c ∈ field := by
  induction fields with
  | nil => simp [csvLine, List.intercalate] at h
  | cons first fields ih =>
    cases fields with
    | nil =>
      rw [csvLine_singleton] at h
      exact .inr ⟨first, List.mem_cons_self, h⟩
    | cons second rest =>
      rw [csvLine_cons, List.mem_append, List.mem_cons] at h
      rcases h with h | h | h
      · exact .inr ⟨first, List.mem_cons_self, h⟩
      · exact .inl h
      · apply (ih h).imp_right
        rintro ⟨field, hfield, hc⟩
        exact ⟨field, List.mem_cons_of_mem _ hfield, hc⟩

variable {text row : Text} {codec : RowCodec} {lib : RowLib} {timezone : Option UtcOffset}

theorem mem_quote {c : Char} (h : c ∈ quote text) : c = '"' ∨ c ∈ text := by
  unfold quote at h
  split at h
  · simp only [mem_cons, mem_append, mem_flatMap, not_mem_nil, or_false] at h
    obtain h | ⟨d, hd, hc⟩ | h := h
    · exact .inl h
    · unfold quoteChar at hc
      split at hc
      · exact .inl (by simpa using hc)
      · exact .inr (mem_singleton.mp hc ▸ hd)
    · exact .inl h
  · exact .inr h

def OneLine (s : Text) : Prop := ∀ c ∈ s, c ≠ '\n' ∧ c ≠ '\r'

instance : DecidablePred OneLine := fun s =>
  List.decidableBAll (fun c => c ≠ '\n' ∧ c ≠ '\r') s

/-- A row with the given text behind five fields that need no quotes. -/
def IsCsvRow (row text : Text) : Prop :=
  ∃ plain : List Text, plain.length = 5 ∧ (∀ field ∈ plain, PlainField field) ∧
    row = csvLine (plain ++ [quote text])

theorem oneLine_of_plainField {s : Text} (h : PlainField s) : OneLine s := by
  intro c hc
  have hplain := h c hc
  simp only [needsQuote, decide_eq_false_iff_not, not_or] at hplain
  exact hplain.2.2

theorem IsCsvRow.oneLine (h : IsCsvRow row text) (htext : OneLine text) : OneLine row := by
  obtain ⟨plain, -, hplain, rfl⟩ := h
  intro c hc
  rcases mem_csvLine hc with rfl | ⟨field, hfield, hmem⟩
  · decide
  · rcases mem_append.mp hfield with hfield | hfield
    · exact oneLine_of_plainField (hplain field hfield) c hmem
    · rw [mem_singleton.mp hfield] at hmem
      rcases mem_quote hmem with rfl | hmem
      · decide
      · exact htext c hmem

theorem oneLine_of_rows {rows texts : List Text} (h : List.Forall₂ IsCsvRow rows texts)
    (htexts : ∀ text ∈ texts, OneLine text) : ∀ row ∈ rows, OneLine row := by
  induction h with
  | nil => simp
  | @cons row text rows texts hrow _ ih =>
    exact forall_mem_cons.mpr ⟨hrow.oneLine (htexts text mem_cons_self),
      ih fun t ht => htexts t (mem_cons_of_mem _ ht)⟩

theorem IsCsvRow.ne_nil (h : IsCsvRow row text) : row ≠ [] := by
  obtain ⟨plain, hlength, -, rfl⟩ := h
  match plain, hlength with
  | first :: second :: rest, _ =>
    rw [cons_append, cons_append, csvLine_cons]
    simp

theorem IsCsvRow.parseRow_eq (h : IsCsvRow row text) :
    ∃ plain : List Text, plain.length = 5 ∧ parseRow row = plain ++ [text] := by
  obtain ⟨plain, hlength, hplain, rfl⟩ := h
  refine ⟨plain, hlength, ?_⟩
  have hquote : plain.map quote = plain := by
    refine (map_congr_left fun field hfield => ?_).trans (map_id plain)
    have hnone : field.any needsQuote = false := by simpa [PlainField] using hplain field hfield
    simp [quote, hnone]
  have hline : plain ++ [quote text] = (plain ++ [text]).map quote := by
    rw [map_append, hquote, map_singleton]
  obtain ⟨first, rest, rfl⟩ : ∃ first rest, plain = first :: rest :=
    exists_cons_of_ne_nil (by rintro rfl; cases hlength)
  rw [hline, cons_append, parseRow, parseRowFrom_csvLine]
  rfl

theorem trimEnd_of_oneLine {s : Text} (h : OneLine s) : trimEnd s = s := by
  rw [trimEnd, rdropWhile_eq_self_iff]
  intro hne
  have hlast := h _ (getLast_mem hne)
  simp [hlast.1, hlast.2]

/-- A session that was recorded: every row has a payload, and its timestamps are 64-bit numbers of
nanoseconds. -/
structure TextSession (codec : RowCodec) where
  files : SessionFiles
  raw : DiskFile
  index : DiskFile
  rows : List IndexEntry
  payloads : List Bytes
  origins : List ℤ
  raw_eq : files.raw = some raw
  index_eq : files.index = some index
  index_bytes : index.bytes = rows.flatMap codec.line
  isFinite : ∀ row ∈ rows, F32.isFinite row.driftPpm = true
  read_eq : rows.map (fun row => readAt raw.bytes row.off row.len) = payloads.map .ok
  tsOrigin_eq : rows.map IndexEntry.tsOrigin = origins.map formatRfc3339Ns
  origin_range : ∀ ns ∈ origins, -2 ^ 63 ≤ ns ∧ ns < 2 ^ 63
  tsIngest_eq : ∀ row ∈ rows, ∃ ns : ℤ, (-2 ^ 63 ≤ ns ∧ ns < 2 ^ 63) ∧
    row.tsIngest = formatRfc3339Ns ns

def TextSession.texts {codec : RowCodec} (session : TextSession codec) (lib : RowLib)
    (encoding : Option String) : List Text :=
  session.payloads.map fun data =>
    (lib.decodeText data (resolveTextEncoding lib.toTextLib session.files encoding)).toList

/-- What the file sink has written to a new directory is such a session. -/
theorem textSession_of_adds {files : SessionFiles} {appended : List Appended}
    (hadds : Adds codec {} files appended) (hraw : files.raw.isSome) (hindex : files.index.isSome)
    (hfinite : ∀ a ∈ appended, F32.isFinite a.ts.driftPpm = true)
    (horigin : ∀ a ∈ appended, -2 ^ 63 ≤ a.ts.tsOriginNs ∧ a.ts.tsOriginNs < 2 ^ 63)
    (hingest : ∀ a ∈ appended, -2 ^ 63 ≤ a.ts.tsIngestNs ∧ a.ts.tsIngestNs < 2 ^ 63) :
    ∃ session : TextSession codec, session.files = files ∧
      session.payloads = appended.map (fun a => a.data.take u32Max) ∧
      session.origins = appended.map fun a => a.ts.tsOriginNs := by
  obtain ⟨raw, hraw⟩ := Option.isSome_iff_exists.mp hraw
  obtain ⟨index, hindex⟩ := Option.isSome_iff_exists.mp hindex
  have hrawBytes : raw.bytes = payloadBytes appended := by
    have hbytes := hadds.raw
    rw [hraw] at hbytes
    exact hbytes
  have hread := rowsFrom_readAt_take appended [] []
  rw [append_nil, nil_append, ← hrawBytes] at hread
  have hmem : ∀ row ∈ rowsFrom 0 appended, ∃ a ∈ appended,
      row.driftPpm = a.ts.driftPpm ∧ row.tsIngest = formatRfc3339Ns a.ts.tsIngestNs := by
    intro row hrow
    obtain ⟨a, ha, off, rfl⟩ := exists_of_mem_rowsFrom hrow
    exact ⟨a, ha, rfl, rfl⟩
  exact ⟨{
    files, raw, index
    rows := rowsFrom 0 appended
    payloads := appended.map fun a => a.data.take u32Max
    origins := appended.map fun a => a.ts.tsOriginNs
    raw_eq := hraw
    index_eq := hindex
    index_bytes := by
      have hbytes := hadds.index
      rw [hindex] at hbytes
      exact hbytes
    isFinite := by
      intro row hrow
      obtain ⟨a, ha, hdrift, -⟩ := hmem row hrow
      rw [hdrift]
      exact hfinite a ha
    read_eq := by
      rw [map_map]
      exact hread
    tsOrigin_eq := by
      rw [rowsFrom_tsOrigin, map_map]
      rfl
    origin_range := by
      intro ns hns
      obtain ⟨a, ha, rfl⟩ := mem_map.mp hns
      exact horigin a ha
    tsIngest_eq := by
      intro row hrow
      obtain ⟨a, ha, -, htext⟩ := hmem row hrow
      exact ⟨_, hingest a ha, htext⟩ }, rfl, rfl, rfl⟩

/-- What is needed of the date library: it formats the timestamps of the index, and what it makes
of them needs no quotes. -/
def FormatsTimestamps (lib : TextLib) (timezone : Option UtcOffset) : Prop :=
  ∀ ns : ℤ, -2 ^ 63 ≤ ns → ns < 2 ^ 63 →
    ∃ text, formatRfc3339InTimezone lib (formatRfc3339Ns ns) timezone = .ok text ∧
      PlainField text.toList

/-- Export a session to CSV and import the file into a fresh directory. -/
def roundTrip (lib : RowLib) (codec : RowCodec) (files : SessionFiles)
    (timezone : Option UtcOffset) (encoding : Option String) (parseRfc3339 : String → Option ℤ)
    (sid : Uuid) (clock : ℕ → ℤ) : Except TraceMuxError Unit × Destination :=
  match exportSession lib codec .csv files timezone encoding with
  | (.error e, _) => (.error e, {})
  | (.ok (), lines) =>
    importFile codec parseRfc3339 sid clock (Lines.encode (lines.flatMap String.toList))

theorem needsQuote_eq_false {c : Char} (h : c.isDigit = true ∨ c ∈ ['-', ':', 'T', '.', 'Z']) :
    needsQuote c = false := by
  by_contra hneeds
  rw [Bool.not_eq_false, needsQuote, decide_eq_true_eq] at hneeds
  rcases hneeds with rfl | rfl | rfl | rfl
  all_goals exact absurd h (by decide)

theorem plainField_formatRfc3339Ns (ns : ℤ) : PlainField (formatRfc3339Ns ns).toList :=
  fun _ hc => needsQuote_eq_false (mem_formatRfc3339Ns hc)

theorem formatsTimestamps_none (lib : TextLib) : FormatsTimestamps lib none := fun ns _ _ =>
  ⟨formatRfc3339Ns ns, rfl, plainField_formatRfc3339Ns ns⟩

theorem plainField_ofNat (n : ℕ) : PlainField (Text.ofNat n) :=
  fun _ hc => needsQuote_eq_false (.inl (Text.isDigit_of_mem_ofNat hc))

theorem writeRows_csv (hformats : FormatsTimestamps lib.toTextLib timezone)
    {entries : List IndexEntry}
    (hstamps : ∀ entry ∈ entries, ∀ ts ∈ [entry.tsOrigin, entry.tsIngest],
      ∃ ns : ℤ, (-2 ^ 63 ≤ ns ∧ ns < 2 ^ 63) ∧ ts = formatRfc3339Ns ns) {texts : List String}
    (hlength : entries.length = texts.length) :
    ∃ rows : List Text, writeRows lib .csv timezone (entries.zip texts) =
        (.ok (), rows.map fun row => String.ofList (row ++ ['\n'])) ∧
      List.Forall₂ IsCsvRow rows (texts.map String.toList) := by
  induction entries generalizing texts with
  | nil =>
    have hnil : texts = [] := length_eq_zero_iff.mp hlength.symm
    subst hnil
    exact ⟨[], rfl, .nil⟩
  | cons entry entries ih =>
    cases texts with
    | nil => cases hlength
    | cons text texts =>
      obtain ⟨later, hlater, hrows⟩ := ih
        (fun e he => hstamps e (mem_cons_of_mem _ he)) (Nat.succ.inj hlength)
      have hfirst := hstamps entry mem_cons_self
      obtain ⟨origin, horigin, htsOrigin⟩ := hfirst entry.tsOrigin (by simp)
      obtain ⟨ingest, hingest, htsIngest⟩ := hfirst entry.tsIngest (by simp)
      obtain ⟨tsOrigin, hformat, hplain⟩ := hformats origin horigin.1 horigin.2
      obtain ⟨tsIngest, hformat', hplain'⟩ := hformats ingest hingest.1 hingest.2
      rw [← htsOrigin] at hformat
      rw [← htsIngest] at hformat'
      have hdir : PlainField (dirStr entry.dir) := by
        cases entry.dir <;> decide
      have hkind : PlainField (kindStr entry.kind) := by
        cases entry.kind <;> decide
      have hrow : IsCsvRow (csvLine (csvFields tsOrigin.toList tsIngest.toList entry text.toList))
          text.toList := by
        refine ⟨[tsOrigin.toList, tsIngest.toList, dirStr entry.dir, kindStr entry.kind,
          Text.ofNat entry.len], rfl, ?_, rfl⟩
        simp only [mem_cons, not_mem_nil, or_false, forall_eq_or_imp, forall_eq]
        exact ⟨hplain, hplain', hdir, hkind, plainField_ofNat _⟩
      refine ⟨_ :: later, ?_, .cons hrow hrows⟩
      rw [zip_cons_cons, writeRows]
      simp only [RowFormat.line, hformat, hformat']
      simp only [hlater]
      rfl

theorem exportSession_csv (hcodec : codec.Lawful)
    (hformats : FormatsTimestamps lib.toTextLib timezone) (session : TextSession codec)
    (encoding : Option String) :
    ∃ rows : List Text, exportSession lib codec .csv session.files timezone encoding =
        (.ok (), (csvLine csvHeader :: rows).map fun row => String.ofList (row ++ ['\n'])) ∧
      List.Forall₂ IsCsvRow rows (session.texts lib encoding) := by
  obtain ⟨entries, hsame, hexport⟩ := exportRows_rows lib hcodec .csv timezone
    (resolveTextEncoding lib.toTextLib session.files encoding) session.isFinite session.read_eq
  have hsplit := RowCodec.split_rows hcodec session.rows []
  rw [append_nil, Lines.split_nil, append_nil, ← session.index_bytes] at hsplit
  have hlength : session.rows.length = session.payloads.length := by
    simpa using congrArg length session.read_eq
  have hstamps : ∀ entry ∈ entries, ∀ ts ∈ [entry.tsOrigin, entry.tsIngest],
      ∃ ns : ℤ, (-2 ^ 63 ≤ ns ∧ ns < 2 ^ 63) ∧ ts = formatRfc3339Ns ns := by
    intro entry hentry ts hts
    simp only [mem_cons, not_mem_nil, or_false] at hts
    rcases hts with rfl | rfl
    · have horigin := mem_map_of_mem (f := IndexEntry.tsOrigin) hentry
      rw [RowCodec.map_eq_of_sameRow (fun _ _ => rfl) hsame, session.tsOrigin_eq] at horigin
      obtain ⟨ns, hns, heq⟩ := mem_map.mp horigin
      exact ⟨ns, session.origin_range ns hns, heq.symm⟩
    · have hingest := mem_map_of_mem (f := IndexEntry.tsIngest) hentry
      rw [RowCodec.map_eq_of_sameRow (fun _ _ => rfl) hsame] at hingest
      obtain ⟨row, hrow, heq⟩ := mem_map.mp hingest
      obtain ⟨ns, hrange, hns⟩ := session.tsIngest_eq row hrow
      exact ⟨ns, hrange, heq ▸ hns⟩
  have hcount : entries.length = (session.payloads.map
      (lib.decodeText · (resolveTextEncoding lib.toTextLib session.files encoding))).length := by
    rw [← hsame.length_eq, length_map, hlength]
  obtain ⟨rows, hwrite, hrows⟩ := writeRows_csv hformats hstamps hcount
  rw [map_map] at hrows
  refine ⟨rows, ?_, hrows⟩
  unfold exportSession
  simp only [session.index_eq, session.raw_eq, hsplit, hexport, hwrite]
  rfl

/-- A text as the importer appends it when there is no time column. -/
def importedText (now : ℤ) (text : Text) : Imported := ⟨now, now, .bytes, none, Lines.encode text⟩

section Import

variable (codec) (parseRfc3339 : String → Option ℤ) (sid : Uuid) (clock : ℕ → ℤ)

variable {codec sid} in
theorem importRows_csv {rows texts : List Text} (hrows : List.Forall₂ IsCsvRow rows texts)
    (hlines : ∀ text ∈ texts, OneLine text) (count : ℕ) {d : Destination} {before : List Imported}
    (hd : d.Holds codec sid before) :
    ∃ d', importRows codec parseRfc3339 sid clock { text := some 5 } count
        (rows.map Lines.encode) d = (.ok (), d') ∧
      d'.Holds codec sid (before ++ takenAt clock importedText count texts) ∧
      d'.lines.map LineEntry.text =
        d.lines.map LineEntry.text ++ texts.map String.ofList := by
  induction hrows generalizing count d before with
  | nil =>
    refine ⟨d, rfl, ?_, (append_nil _).symm⟩
    rw [takenAt, append_nil]
    exact hd
  | @cons row text rows texts hrow _ ih =>
    have hline : OneLine row := hrow.oneLine (hlines text mem_cons_self)
    obtain ⟨plain, hlength, hparse⟩ := hrow.parseRow_eq
    have htext : rowText { text := some 5 } (plain ++ [text]) = text := by
      simp [rowText, ← hlength]
    have himported : importedRow parseRfc3339 { text := some 5 } (plain ++ [text]) (clock count) =
        importedText (clock count) text := by
      simp only [importedRow, htext]
      rfl
    generalize hnow : clock count = now at *
    have hholds := hd.append (importedText now text)
    have hfirst : (emitRow codec parseRfc3339 sid { text := some 5 } (plain ++ [text]) now d).Holds
        codec sid (before ++ [importedText now text]) := by
      simp only [emitRow, himported]
      exact ⟨hholds.raw_eq, hholds.index_eq⟩
    obtain ⟨d', himport, hholds, htexts⟩ := ih
      (fun t ht => hlines t (mem_cons_of_mem _ ht)) (count + 1) hfirst
    refine ⟨d', ?_, ?_, ?_⟩
    · rw [map_cons, importRows, Lines.decode_encode]
      simp only [String.toList_ofList, trimEnd_of_oneLine hline, if_neg hrow.ne_nil, hparse, hnow]
      exact himport
    · rw [takenAt, append_cons, hnow]
      exact hholds
    · simp only [htexts, emitRow, htext, map_append, map_cons, map_nil, append_assoc]
      rfl

theorem importFile_csv {rows texts : List Text} (hrows : List.Forall₂ IsCsvRow rows texts)
    (hlines : ∀ text ∈ texts, OneLine text) :
    ∃ d, importFile codec parseRfc3339 sid clock (Lines.encode
        (((csvLine csvHeader :: rows).map fun row => String.ofList (row ++ ['\n'])).flatMap
          String.toList)) = (.ok (), d) ∧
      d.Holds codec sid (takenAt clock importedText 0 texts) ∧
      d.lines.map LineEntry.text = texts.map String.ofList := by
  have hheader : OneLine (csvLine csvHeader) := by decide
  have hone : ∀ row ∈ csvLine csvHeader :: rows, OneLine row := by
    intro row hrow
    rcases mem_cons.mp hrow with rfl | hrow
    · exact hheader
    · exact oneLine_of_rows hrows hlines row hrow
  have hchars : ((csvLine csvHeader :: rows).map fun row => String.ofList (row ++ ['\n'])).flatMap
      String.toList = (csvLine csvHeader :: rows).flatMap (· ++ ['\n']) := by
    simp [flatMap_map]
  have hfields : parseRow (csvLine csvHeader) = csvHeader := by decide
  obtain ⟨d, himport, hholds, htexts⟩ := importRows_csv parseRfc3339 clock hrows hlines 0
    (Destination.holds_nil codec sid)
  refine ⟨d, ?_, hholds, htexts⟩
  rw [importFile, hchars, Lines.split_encode hone, map_cons]
  exact himport

end Import

/-- The times of origin of rows without a time column. -/
theorem map_takenAt_importedText (clock : ℕ → ℤ) (count : ℕ) (texts : List Text) :
    (takenAt clock importedText count texts).map
        (fun p => (formatRfc3339Ns p.tsOriginNs, p.data.take u32Max)) =
      ((List.range' count texts.length).map fun k => formatRfc3339Ns (clock k)).zip
        (texts.map fun text => (Lines.encode text).take u32Max) := by
  induction texts generalizing count with
  | nil => rfl
  | cons text rest ih =>
    rw [takenAt, map_cons, ih, length_cons, range'_succ, map_cons, map_cons, zip_cons_cons]
    rfl

theorem TextSession.length_texts (session : TextSession codec) (lib : RowLib)
    (encoding : Option String) : (session.texts lib encoding).length = session.origins.length := by
  have hread := congrArg length session.read_eq
  have horigins := congrArg length session.tsOrigin_eq
  simp only [length_map] at hread horigins
  rw [TextSession.texts, length_map, ← hread, horigins]

/-- The round trip of a session with texts in one line ends well, with every text in its place and
the times of the import. -/
theorem roundTrip_texts (hcodec : codec.Lawful)
    (hformats : FormatsTimestamps lib.toTextLib timezone) (encoding : Option String)
    (session : TextSession codec) (htexts : ∀ text ∈ session.texts lib encoding, OneLine text)
    (parseRfc3339 : String → Option ℤ) (sid : Uuid) (clock : ℕ → ℤ) :
    ∃ d, roundTrip lib codec session.files timezone encoding parseRfc3339 sid clock = (.ok (), d) ∧
      d.lines.map LineEntry.text = (session.texts lib encoding).map String.ofList ∧
      sessionPayloads codec d.raw d.index = some
        (((List.range session.origins.length).map fun k => formatRfc3339Ns (clock k)).zip
          ((session.texts lib encoding).map fun text => (Lines.encode text).take u32Max)) := by
  obtain ⟨rows, hexport, hrows⟩ := exportSession_csv hcodec hformats session encoding
  obtain ⟨d, himport, hholds, hlines⟩ := importFile_csv codec parseRfc3339 sid clock hrows htexts
  refine ⟨d, ?_, hlines, ?_⟩
  · rw [roundTrip, hexport]
    exact himport
  · rw [hholds.sessionPayloads hcodec, map_takenAt_importedText, session.length_texts,
      range_eq_range']

/-- Export and import of a session with texts in one line always end well, and `lines.jsonl` has
the texts. The rows that come back are those that were exported exactly when the import's clock
shows the time of origin of every row when the row is taken, and no text is too long for the
length in a row. -/
theorem roundTrip_same_rows_iff {lib : RowLib} {codec : RowCodec} (hcodec : codec.Lawful)
    {timezone : Option UtcOffset} (hformats : FormatsTimestamps lib.toTextLib timezone)
    (encoding : Option String) (session : TextSession codec)
    (htexts : ∀ text ∈ session.texts lib encoding, OneLine text)
    (parseRfc3339 : String → Option ℤ) (sid : Uuid) (clock : ℕ → ℤ)
    (hclock : ∀ k, -2 ^ 63 ≤ clock k ∧ clock k < 2 ^ 63) :
    ∃ d, roundTrip lib codec session.files timezone encoding parseRfc3339 sid clock = (.ok (), d) ∧
      d.lines.map LineEntry.text = (session.texts lib encoding).map String.ofList ∧
      (sessionPayloads codec d.raw d.index =
          some ((session.origins.map formatRfc3339Ns).zip
            ((session.texts lib encoding).map Lines.encode)) ↔
        session.origins = (List.range session.origins.length).map clock ∧
          ∀ text ∈ session.texts lib encoding, (Lines.encode text).length ≤ u32Max) := by
  obtain ⟨d, htrip, hlines, hback⟩ := roundTrip_texts hcodec hformats encoding session htexts
    parseRfc3339 sid clock
  refine ⟨d, htrip, hlines, ?_⟩
  have hlength := session.length_texts lib encoding
  have horigins : ((range session.origins.length).map fun k => formatRfc3339Ns (clock k)) =
      session.origins.map formatRfc3339Ns ↔
        session.origins = (range session.origins.length).map clock := by
    have hmap : ((range session.origins.length).map fun k => formatRfc3339Ns (clock k)) =
        ((range session.origins.length).map clock).map formatRfc3339Ns := by
      rw [map_map]
      rfl
    have hrange : ∀ ns ∈ (range session.origins.length).map clock,
        -2 ^ 63 ≤ ns ∧ ns < 2 ^ 63 := by
      intro ns hns
      obtain ⟨k, -, rfl⟩ := mem_map.mp hns
      exact hclock k
    rw [hmap]
    constructor
    · intro h
      exact (map_formatRfc3339Ns_inj hrange session.origin_range h).symm
    · intro h
      rw [← h]
  have hwhole : ((session.texts lib encoding).map fun text => (Lines.encode text).take u32Max) =
      (session.texts lib encoding).map Lines.encode ↔
        ∀ text ∈ session.texts lib encoding, (Lines.encode text).length ≤ u32Max := by
    rw [map_inj_left]
    apply forall₂_congr
    intro text _
    exact take_eq_self_iff _
  rw [hback, Option.some_inj, ← horigins, ← hwhole]
  constructor
  · intro heq
    have hunzip := congrArg unzip heq
    rw [unzip_zip (by simp [hlength]), unzip_zip (by simp [hlength])] at hunzip
    exact Prod.mk.inj hunzip
  · rintro ⟨hfirst, hsecond⟩
    rw [hfirst, hsecond]

/-- A payload whose row can be read again and whose text is in one line. -/
structure Exportable (decode : Bytes → String) (a : Appended) : Prop where
  isFinite : F32.isFinite a.ts.driftPpm = true
  origin_range : -2 ^ 63 ≤ a.ts.tsOriginNs ∧ a.ts.tsOriginNs < 2 ^ 63
  ingest_range : -2 ^ 63 ≤ a.ts.tsIngestNs ∧ a.ts.tsIngestNs < 2 ^ 63
  oneLine : OneLine (decode (a.data.take u32Max)).toList

/-- What the file sink has logged in any number of runs on a new directory, with any calls in
between, survives an export to CSV and the import of the file: `lines.jsonl` has the texts of all
payloads, in the order in which they were logged. -/
theorem roundTrip_execRuns (codecs : Codecs) (hcodec : codecs.index.Lawful)
    (hformats : FormatsTimestamps lib.toTextLib timezone) (encoding : Option String)
    {runs : List SinkRun} (hne : runs ≠ [])
    (h : ∀ a ∈ runs.flatMap SinkRun.appended, Exportable (lib.decodeText ·
      (resolveTextEncoding lib.toTextLib (execRuns codecs {} runs) encoding)) a)
    (parseRfc3339 : String → Option ℤ) (sid : Uuid) (clock : ℕ → ℤ) :
    ∃ d, roundTrip lib codecs.index (execRuns codecs {} runs) timezone encoding parseRfc3339 sid
        clock = (.ok (), d) ∧
      d.lines.map LineEntry.text = (runs.flatMap SinkRun.appended).map fun a =>
        lib.decodeText (a.data.take u32Max)
          (resolveTextEncoding lib.toTextLib (execRuns codecs {} runs) encoding) := by
  obtain ⟨hraw, hindex⟩ := execRuns_isSome codecs {} hne
  obtain ⟨session, hfiles, hpayloads, -⟩ := textSession_of_adds (execRuns_adds codecs {} runs) hraw
    hindex (fun a ha => (h a ha).isFinite) (fun a ha => (h a ha).origin_range)
    (fun a ha => (h a ha).ingest_range)
  have htexts : session.texts lib encoding = (runs.flatMap SinkRun.appended).map fun a =>
      (lib.decodeText (a.data.take u32Max)
        (resolveTextEncoding lib.toTextLib (execRuns codecs {} runs) encoding)).toList := by
    rw [TextSession.texts, hfiles, hpayloads, map_map]
    rfl
  have hlines : ∀ text ∈ session.texts lib encoding, OneLine text := by
    intro text htext
    rw [htexts] at htext
    obtain ⟨a, ha, rfl⟩ := mem_map.mp htext
    exact (h a ha).oneLine
  obtain ⟨d, htrip, htext, -⟩ := roundTrip_texts hcodec hformats encoding session hlines
    parseRfc3339 sid clock
  rw [hfiles] at htrip
  refine ⟨d, htrip, ?_⟩
  rw [htext, htexts, map_map]
  simp [Function.comp_def]

def plainLib : RowLib where
  DateTime := Unit
  parseRfc3339 _ := none
  formatIn _ _ := none
  decodeText bytes _ := String.ofList (StreamDecoder.replaced (Utf8.decoder.decode bytes))
  parseMeta _ := none
  jsonRow _ _ := ""

def textRow : IndexEntry :=
  IndexEntry.fromEnvelope ⟨5, 6, 0, 0, 0, 0, .synced, 0, .system⟩ 7 .in .bytes 0 4

def oneRow : TextSession DecimalRows.codec where
  files := { raw := some ⟨[0x61, 0x2C, 0x22, 0x62], 0⟩
             index := some ⟨DecimalRows.codec.line textRow, 0⟩ }
  raw := ⟨[0x61, 0x2C, 0x22, 0x62], 0⟩
  index := ⟨DecimalRows.codec.line textRow, 0⟩
  rows := [textRow]
  payloads := [[0x61, 0x2C, 0x22, 0x62]]
  origins := [5]
  raw_eq := rfl
  index_eq := rfl
  index_bytes := by simp
  isFinite := by decide
  read_eq := rfl
  tsOrigin_eq := rfl
  origin_range := by decide
  tsIngest_eq row hrow := by
    rw [List.mem_singleton.mp hrow]
    exact ⟨6, by decide, rfl⟩

theorem texts_oneRow : oneRow.texts plainLib none = ["a,\"b".toList] := by decide

theorem oneLine_oneRow : ∀ text ∈ oneRow.texts plainLib none, OneLine text := by
  decide

/-- A row that is imported at the very time of its origin comes back as it was. -/
theorem roundTrip_same_rows_at_origin :
    ∃ d, roundTrip plainLib DecimalRows.codec oneRow.files none none Log.parseRfc3339Ns 9
        (fun _ => 5) = (.ok (), d) ∧
      sessionPayloads DecimalRows.codec d.raw d.index =
        some [("1970-01-01T00:00:00.000000005Z", [0x61, 0x2C, 0x22, 0x62])] := by
  obtain ⟨d, htrip, -, hiff⟩ := roundTrip_same_rows_iff DecimalRows.codec_lawful
    (formatsTimestamps_none plainLib.toTextLib) none oneRow oneLine_oneRow Log.parseRfc3339Ns 9
    (fun _ => 5) (fun _ => by decide)
  refine ⟨d, htrip, ?_⟩
  rw [hiff.mpr ⟨rfl, by rw [texts_oneRow]; decide⟩, texts_oneRow]
  decide

/-- A row that is imported at any other time comes back with that time. -/
theorem roundTrip_import_time :
    ∃ d, roundTrip plainLib DecimalRows.codec oneRow.files none none Log.parseRfc3339Ns 9
        (fun _ => 1700000000000000000) = (.ok (), d) ∧
      oneRow.rows.map IndexEntry.tsOrigin = ["1970-01-01T00:00:00.000000005Z"] ∧
      sessionPayloads DecimalRows.codec d.raw d.index =
        some [("2023-11-14T22:13:20Z", [0x61, 0x2C, 0x22, 0x62])] := by
  obtain ⟨d, htrip, -, hback⟩ := roundTrip_texts DecimalRows.codec_lawful
    (formatsTimestamps_none plainLib.toTextLib) none oneRow oneLine_oneRow Log.parseRfc3339Ns 9
    (fun _ => 1700000000000000000)
  refine ⟨d, htrip, by decide, ?_⟩
  rw [hback, texts_oneRow]
  decide

theorem roundTrip_execRuns_two :
    ∃ d, roundTrip plainLib DecimalRows.codec
        (execRuns decimalCodecs {} [plainRun [[0x61, 0x2C]], plainRun [[0x22, 0x62]]]) none none
        Log.parseRfc3339Ns 9 (fun _ => 5) = (.ok (), d) ∧
      d.lines.map LineEntry.text = ["a,", "\"b"] := by
  obtain ⟨d, htrip, htexts⟩ := roundTrip_execRuns decimalCodecs DecimalRows.codec_lawful
    (formatsTimestamps_none plainLib.toTextLib) none
    (cons_ne_nil (plainRun [[0x61, 0x2C]]) [plainRun [[0x22, 0x62]]])
    (by
      intro a ha
      simp [SinkRun.appended, appendedBy, plainRun] at ha
      rcases ha with rfl | rfl
      · exact ⟨by decide, by decide, by decide, by decide⟩
      · exact ⟨by decide, by decide, by decide, by decide⟩)
    Log.parseRfc3339Ns 9 (fun _ => 5)
  exact ⟨d, htrip, htexts.trans (by decide)⟩

end TraceMux.Core.CsvRoundTrip
