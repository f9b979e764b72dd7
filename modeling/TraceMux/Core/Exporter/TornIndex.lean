/-
# A torn index that is written on

A crash can leave the last row of `index.jsonl` cut short. A sink that is opened on the
directory afterwards appends behind the cut, so that its first row is on the line of the
torn one. The readers of the index take a line that is not a row as an error; which rows
they still return depends on where the cut was and on whether anything was appended.
-/

import TraceMux.Core.Exporter.Text
import TraceMux.Core.Source.Replay

namespace TraceMux.Core.Exporter

open Base Core.Log Core.FileSink Core.Source ReplaySource List

/-- A directory whose index was cut inside its last row. -/
structure TornDir (codec : RowCodec) (files : SessionFiles) where
  /-- The rows wholly on disk. -/
  before : List IndexEntry
  /-- The last row as it was written. -/
  last : IndexEntry
  /-- What is left of it. -/
  cut : Bytes
  index_eq : DiskFile.contents files.index = before.flatMap codec.line ++ cut
  cut_prefix : cut <+: codec.line last
  cut_ne : cut ≠ codec.line last
  finite : ∀ row ∈ before ++ [last], F32.isFinite row.driftPpm
  readable : ∀ row ∈ before, ∃ data,
    readAt (DiskFile.contents files.raw) row.off row.len = .ok data

section Torn

variable {codec : RowCodec} {files : SessionFiles}

theorem TornDir.cut_prefix_text (dir : TornDir codec files) : dir.cut <+: codec.text dir.last := by
  rcases prefix_concat_iff.mp dir.cut_prefix with hwhole | htext
  · exact absurd hwhole dir.cut_ne
  · exact htext

/-- The line feed is the last byte of a row, so a cut inside a row has none. -/
theorem TornDir.lf_notMem (h : codec.Lawful) (dir : TornDir codec files) : Lines.lf ∉ dir.cut :=
  fun hmem => h.lf_notMem dir.last (dir.cut_prefix_text.subset hmem)

/-- The directory after a crash that leaves the first `n` bytes of the index. -/
def cutIndex (files : SessionFiles) (n : ℕ) : SessionFiles :=
  { files with index := files.index.map fun file => { file with bytes := file.bytes.take n } }

theorem contents_cutIndex (files : SessionFiles) (n : ℕ) :
    DiskFile.contents (cutIndex files n).index = (DiskFile.contents files.index).take n := by
  rw [cutIndex]
  cases files.index with
  | none => exact take_nil.symm
  | some file => rfl

theorem exists_readAt_rowsFrom {appended : List Appended}
    (h : ∀ a ∈ appended, a.data.length ≤ u32Max) (before after : Bytes) {row : IndexEntry}
    (hrow : row ∈ rowsFrom before.length appended) :
    ∃ data, readAt (before ++ (payloadBytes appended ++ after)) row.off row.len = .ok data := by
  have hmem := mem_map_of_mem
    (f := fun row => readAt (before ++ (payloadBytes appended ++ after)) row.off row.len) hrow
  rw [rowsFrom_readAt h, mem_map] at hmem
  obtain ⟨a, -, ha⟩ := hmem
  exact ⟨a.data, ha.symm⟩

/-- Runs of the sink on a new directory, and a crash that leaves `kept` bytes of the last
row, leave a torn directory. -/
def TornDir.ofRuns {codecs : Codecs} {runs : List SinkRun} {init : List Appended} {a : Appended}
    (happended : runs.flatMap SinkRun.appended = init ++ [a])
    (hruns : ∀ b ∈ init ++ [a], b.data.length ≤ u32Max ∧ F32.isFinite b.ts.driftPpm)
    {kept : ℕ} (hkept : kept < (codecs.index.line (a.row (payloadBytes init).length)).length) :
    TornDir codecs.index (cutIndex (execRuns codecs {} runs)
      (((rowsFrom 0 init).flatMap codecs.index.line).length + kept)) where
  before := rowsFrom 0 init
  last := a.row (payloadBytes init).length
  cut := (codecs.index.line (a.row (payloadBytes init).length)).take kept
  index_eq := by
    have hindex := (execRuns_adds codecs {} runs).index
    have hrows : rowsFrom 0 (init ++ [a]) =
        rowsFrom 0 init ++ [a.row (payloadBytes init).length] := by
      rw [rowsFrom_append, Nat.zero_add]
      rfl
    rw [happended] at hindex
    rw [contents_cutIndex, hindex]
    simp only [DiskFile.contents, nil_append, length_nil]
    rw [hrows, flatMap_append, take_length_add_append, flatMap_singleton]
  cut_prefix := take_prefix _ _
  cut_ne := by
    intro h
    have hlen := congrArg length h
    rw [length_take] at hlen
    omega
  finite := by
    intro row hrow
    rcases mem_append.mp hrow with hbefore | hlast
    · obtain ⟨b, hb, off, rfl⟩ := exists_of_mem_rowsFrom hbefore
      exact (hruns b (mem_append_left _ hb)).2
    · rw [mem_singleton] at hlast
      rw [hlast]
      exact (hruns a (by simp)).2
  readable := by
    intro row hrow
    have hraw := (execRuns_adds codecs {} runs).raw
    rw [happended] at hraw
    have hread := exists_readAt_rowsFrom (fun b hb => (hruns b (mem_append_left _ hb)).1) []
      (payloadBytes [a]) hrow
    rw [cutIndex, hraw]
    simpa [payloadBytes, DiskFile.contents] using hread

end Torn

section Returned

variable (lib : TextLib) (codec : RowCodec) (timezone : Option UtcOffset)
  (encoding : Option String)

def rowFrame (raw : Bytes) (row : IndexEntry) : Option Frame :=
  match frameOf raw row with
  | .ok frame => frame
  | .error _ => none

/-- Every one of the rows is returned, in order, by a replay and by the text exporter. -/
def StillReturned (files : SessionFiles) (rows : List IndexEntry) : Prop :=
  (∀ path, (rows.map (rowFrame (DiskFile.contents files.raw))).Sublist
    ((replayed codec files path).map some)) ∧
  (rows.map fun row => (exportLine lib (DiskFile.contents files.raw) timezone
    (resolveTextEncoding lib files encoding) row).toOption).Sublist
      ((exportText lib codec files timezone encoding).2.map some)

variable {lib codec timezone encoding}

theorem exists_map_eq {α β γ : Type} {f : α → γ} {g : β → γ} {l : List α}
    (h : ∀ x ∈ l, ∃ y, f x = g y) : ∃ ys : List β, l.map f = ys.map g := by
  have hrange : l.map f ∈ Set.range (map g) := by
    rw [Set.range_list_map]
    intro z hz
    obtain ⟨x, hx, rfl⟩ := mem_map.mp hz
    obtain ⟨y, hy⟩ := h x hx
    exact ⟨y, hy.symm⟩
  obtain ⟨ys, hys⟩ := hrange
  exact ⟨ys, hys.symm⟩

variable {raw : Bytes} {row : IndexEntry} {files : SessionFiles} {rows : List IndexEntry}

theorem exists_frame (h : ∃ data, readAt raw row.off row.len = .ok data) :
    ∃ frame, frameOf raw row = .ok (some frame) := by
  obtain ⟨data, hdata⟩ := h
  rw [frameOf, hdata]
  cases row.kind <;> exact ⟨_, rfl⟩

/-- A row that can be read, with a timestamp that can be converted, has a line. -/
theorem exists_line (label : String) (h : ∃ data, readAt raw row.off row.len = .ok data)
    (hts : ∃ ts, formatRfc3339InTimezone lib row.tsOrigin timezone = .ok ts) :
    ∃ text, exportLine lib raw timezone label row = .ok text := by
  obtain ⟨data, hdata⟩ := h
  obtain ⟨ts, hformat⟩ := hts
  rw [exportLine, hdata]
  simp only [hformat]
  exact ⟨_, rfl⟩

theorem stillReturned_of_parse (h : codec.Lawful) {extra : List IndexEntry} {tail : Bytes}
    (hindexSome : files.index.isSome) (hrawSome : files.raw.isSome)
    (hindex : DiskFile.contents files.index = rows.flatMap codec.line ++ tail)
    (htail : codec.parseLines (Lines.split tail) = .ok extra)
    (hfinite : ∀ row ∈ rows, F32.isFinite row.driftPpm)
    (hread : ∀ row ∈ rows, ∃ data,
      readAt (DiskFile.contents files.raw) row.off row.len = .ok data)
    (hts : ∀ row ∈ rows, ∃ ts, formatRfc3339InTimezone lib row.tsOrigin timezone = .ok ts) :
    StillReturned lib codec timezone encoding files rows := by
  have hsplit : Lines.split (DiskFile.contents files.index) =
      rows.map codec.text ++ Lines.split tail := by
    rw [hindex, RowCodec.split_rows h]
  constructor
  · intro path
    obtain ⟨read, hsame, hparse⟩ := RowCodec.parseLines_rows h hfinite
    have hall : codec.parseLines (Lines.split (DiskFile.contents files.index)) =
        .ok (read ++ extra) := by
      rw [hsplit, hparse, htail]
      rfl
    obtain ⟨frames, hframes⟩ := exists_map_eq fun row hrow => exists_frame (hread row hrow)
    have hreadFrames : read.map (frameOf (DiskFile.contents files.raw)) =
        frames.map fun frame => .ok (some frame) := by
      rw [RowCodec.map_eq_of_sameRow (fun _ _ => rfl) hsame, hframes]
    have hrows : rows.map (rowFrame (DiskFile.contents files.raw)) = frames.map some := by
      have hmap := congrArg (map fun result => match result with
        | .ok frame => frame
        | .error _ => none) hframes
      rw [map_map, map_map] at hmap
      exact hmap
    rw [replayed_ok hindexSome hrawSome hall, map_append, hreadFrames, collect_append, hrows,
      map_append]
    exact sublist_append_left _ _
  · obtain ⟨texts, htexts⟩ := exists_map_eq fun row hrow =>
      exists_line (resolveTextEncoding lib files encoding) (hread row hrow) (hts row hrow)
    have hrows : (rows.map fun row => (exportLine lib (DiskFile.contents files.raw) timezone
        (resolveTextEncoding lib files encoding) row).toOption) = texts.map some := by
      have hmap := congrArg (map Except.toOption) htexts
      rw [map_map, map_map] at hmap
      exact hmap
    have hexport : (exportText lib codec files timezone encoding).2 =
        texts ++ (exportLines lib codec (DiskFile.contents files.raw) timezone
          (resolveTextEncoding lib files encoding) (Lines.split tail)).2 := by
      have hlines := exportLines_rows h hfinite htexts (Lines.split tail)
      obtain ⟨index, hindex⟩ := Option.isSome_iff_exists.mp hindexSome
      obtain ⟨raw, hraw⟩ := Option.isSome_iff_exists.mp hrawSome
      rw [hindex, DiskFile.contents_some] at hsplit
      rw [hraw, DiskFile.contents_some] at hlines
      rw [exportText, hindex, hraw]
      simp only [hsplit, hlines, DiskFile.contents_some]
    rw [hrows, hexport, map_append]
    exact sublist_append_left _ _

theorem eq_nil_of_stillReturned {e : RowCodec.LineError}
    (hparse : codec.parseLines (Lines.split (DiskFile.contents files.index)) = .error e)
    (hreturned : StillReturned lib codec timezone encoding files rows) : rows = [] := by
  have hsub := hreturned.1 ""
  obtain ⟨e', herror⟩ := openDir_error hparse { path := "" }
  rw [replayed, herror, map_nil, sublist_nil, map_eq_nil_iff] at hsub
  exact hsub

end Returned

section WrittenOn

variable {lib : TextLib} {codecs : Codecs} {timezone : Option UtcOffset}
  {encoding : Option String} {files : SessionFiles}

def newRows (files : SessionFiles) (run : SinkRun) : List IndexEntry :=
  rowsFrom (DiskFile.contents files.raw).length run.appended

variable {run : SinkRun}

theorem newRows_eq_nil : newRows files run = [] ↔ run.appended = [] := by
  unfold newRows
  cases run.appended with
  | nil => exact iff_of_true rfl rfl
  | cons a rest => exact iff_of_false (cons_ne_nil _ _) (cons_ne_nil _ _)

theorem TornDir.index_exec (dir : TornDir codecs.index files) (run : SinkRun) :
    DiskFile.contents (run.exec codecs files).index =
      dir.before.flatMap codecs.index.line ++
        (dir.cut ++ (newRows files run).flatMap codecs.index.line) := by
  rw [(exec_spec codecs files run).1.index, dir.index_eq, append_assoc]
  rfl

/-- A cut row that is written on is a line that is not a row, and so is one that is
neither written on nor whole. -/
theorem TornDir.parse_error (hcodec : codecs.index.Strict) (dir : TornDir codecs.index files)
    (hcut : dir.cut ≠ []) (hwhole : ¬ (run.appended = [] ∧ dir.cut = codecs.index.text dir.last)) :
    ∃ e, codecs.index.parseLines
      (Lines.split (DiskFile.contents (run.exec codecs files).index)) = .error e := by
  have htail : ∃ e, codecs.index.parseLines (Lines.split
      (dir.cut ++ (newRows files run).flatMap codecs.index.line)) = .error e := by
    cases hrows : newRows files run with
    | nil =>
      have htext : dir.cut ≠ codecs.index.text dir.last := fun h =>
        hwhole ⟨newRows_eq_nil.mp hrows, h⟩
      obtain ⟨e, he⟩ := hcodec.rejects_cut _ _ dir.cut_prefix_text hcut htext
      rw [flatMap_nil, append_nil, Lines.split_tail (dir.lf_notMem hcodec.toLawful) hcut]
      exact ⟨e, RowCodec.parseLines_rejects hcut he _⟩
    | cons row rows =>
      obtain ⟨e, he⟩ := hcodec.rejects_joined _ _ row dir.cut_prefix_text hcut
      have hlf : Lines.lf ∉ dir.cut ++ codecs.index.text row := by
        rw [mem_append, not_or]
        exact ⟨dir.lf_notMem hcodec.toLawful, hcodec.lf_notMem row⟩
      have hcr : (dir.cut ++ codecs.index.text row).getLast? ≠ some Lines.cr := by
        rw [getLast?_append_of_ne_nil _ (hcodec.ne_nil row)]
        exact hcodec.getLast_ne row
      have hline : dir.cut ++ (row :: rows).flatMap codecs.index.line =
          (dir.cut ++ codecs.index.text row) ++ Lines.lf ::
            rows.flatMap codecs.index.line := by
        simp [RowCodec.line]
      rw [hline, Lines.split_line hlf hcr]
      exact ⟨e, RowCodec.parseLines_rejects (by simp [hcut]) he _⟩
  obtain ⟨e, he⟩ := htail
  obtain ⟨read, -, hparse⟩ := RowCodec.parseLines_rows hcodec.toLawful
    fun row hrow => dir.finite row (mem_append_left _ hrow)
  refine ⟨e, ?_⟩
  rw [dir.index_exec, RowCodec.split_rows hcodec.toLawful, hparse, he]
  rfl

/-- After a crash inside the last row of the index and a further run, every row that was
wholly on disk and every new row is returned exactly when nothing was left of the torn
row, or nothing was appended and the torn row is whole but for its line feed, or there
is no row to return. -/
theorem returned_after_crash_iff (hcodec : codecs.index.Strict) (dir : TornDir codecs.index files)
    {run : SinkRun}
    (hrun : ∀ a ∈ run.appended, a.data.length ≤ u32Max ∧ F32.isFinite a.ts.driftPpm)
    (hts : ∀ row ∈ dir.before ++ newRows files run,
      ∃ ts, formatRfc3339InTimezone lib row.tsOrigin timezone = .ok ts) :
    StillReturned lib codecs.index timezone encoding (run.exec codecs files)
        (dir.before ++ newRows files run) ↔
      dir.cut = [] ∨
        (run.appended = [] ∧ (dir.cut = codecs.index.text dir.last ∨ dir.before = [])) := by
  obtain ⟨hadds, hrawSome, hindexSome⟩ := exec_spec codecs files run
  have hread : ∀ row ∈ dir.before ++ newRows files run, ∃ data,
      readAt (DiskFile.contents (run.exec codecs files).raw) row.off row.len = .ok data := by
    intro row hrow
    rw [hadds.raw]
    rcases mem_append.mp hrow with hbefore | hnew
    · obtain ⟨data, hdata⟩ := dir.readable row hbefore
      exact ⟨data, readAt_append hdata _⟩
    · have hread := exists_readAt_rowsFrom (fun a ha => (hrun a ha).1)
        (DiskFile.contents files.raw) [] hnew
      rwa [append_nil] at hread
  have hfinite : ∀ row ∈ dir.before ++ newRows files run, F32.isFinite row.driftPpm := by
    intro row hrow
    rcases mem_append.mp hrow with hbefore | hnew
    · exact dir.finite row (mem_append_left _ hbefore)
    · obtain ⟨a, ha, off, rfl⟩ := exists_of_mem_rowsFrom hnew
      exact (hrun a ha).2
  constructor
  · intro hreturned
    by_cases hcut : dir.cut = []
    · exact .inl hcut
    · by_cases hwhole : run.appended = [] ∧ dir.cut = codecs.index.text dir.last
      · exact .inr ⟨hwhole.1, .inl hwhole.2⟩
      · obtain ⟨e, he⟩ := dir.parse_error hcodec hcut hwhole
        have hnil := eq_nil_of_stillReturned he hreturned
        rw [append_eq_nil_iff] at hnil
        exact .inr ⟨newRows_eq_nil.mp hnil.2, .inr hnil.1⟩
  · rintro (hcut | ⟨happended, hcut | hbefore⟩)
    · have hindex : DiskFile.contents (run.exec codecs files).index =
          (dir.before ++ newRows files run).flatMap codecs.index.line ++ [] := by
        rw [dir.index_exec, hcut, flatMap_append, nil_append, append_nil]
      exact stillReturned_of_parse hcodec.toLawful hindexSome hrawSome hindex rfl hfinite hread hts
    · have hrows : newRows files run = [] := newRows_eq_nil.mpr happended
      have hindex : DiskFile.contents (run.exec codecs files).index =
          dir.before.flatMap codecs.index.line ++ dir.cut := by
        rw [dir.index_exec, hrows, flatMap_nil, append_nil]
      obtain ⟨drift, hlast⟩ := hcodec.roundTrip dir.last (dir.finite _ (by simp))
      have htail : codecs.index.parseLines (Lines.split dir.cut) =
          .ok [{ dir.last with driftPpm := drift }] := by
        rw [hcut, Lines.split_tail (hcodec.lf_notMem _) (hcodec.ne_nil _), RowCodec.parseLines,
          if_neg (hcodec.ne_nil _), hlast]
        rfl
      rw [hrows, append_nil] at hfinite hread hts ⊢
      exact stillReturned_of_parse hcodec.toLawful hindexSome hrawSome hindex htail hfinite hread
        hts
    · rw [hbefore, newRows_eq_nil.mpr happended]
      exact ⟨fun _ => nil_sublist _, nil_sublist _⟩

end WrittenOn

/-- Libraries that print every byte as the character with its number. -/
def plainLib : TextLib where
  DateTime := Unit
  parseRfc3339 _ := none
  formatIn _ _ := none
  decodeText bytes _ := String.ofList (bytes.map fun b => Char.ofNat b.toNat)
  parseMeta _ := none

def plainAppended (data : Bytes) : Appended := ⟨{ sid := 7 }, stampAt 1, .in, data⟩

/-- A run appended two payloads; the crash left `kept` bytes of the second row. -/
def crashed (kept : ℕ) : SessionFiles :=
  cutIndex (execRuns decimalCodecs {} [plainRun [[1], [2]]])
    (((rowsFrom 0 [plainAppended [1]]).flatMap decimalCodecs.index.line).length + kept)

theorem one_lt_line (row : IndexEntry) : 1 < (decimalCodecs.index.line row).length := by
  have hpos := length_pos_iff.mpr (DecimalRows.codec_strict.ne_nil row)
  rw [RowCodec.line, length_append, length_singleton]
  exact Nat.succ_lt_succ hpos

/-- The directory after that crash, with nothing or one byte of the row left. -/
def crashedDir (kept : ℕ) (h : kept < 2) : TornDir decimalCodecs.index (crashed kept) :=
  have happended : [plainRun [[1], [2]]].flatMap SinkRun.appended =
      [plainAppended [1]] ++ [plainAppended [2]] := rfl
  TornDir.ofRuns happended (by decide) (Nat.lt_of_lt_of_le h (one_lt_line _))

/-- A crash between two rows loses nothing: the payload appended after it is returned
behind the one that was there. -/
theorem returned_after_crash_between_rows :
    StillReturned plainLib decimalCodecs.index none none
        ((plainRun [[3]]).exec decimalCodecs (crashed 0))
        ((crashedDir 0 (by decide)).before ++ newRows (crashed 0) (plainRun [[3]])) ↔
      (crashedDir 0 (by decide)).cut = [] ∨
        ((plainRun [[3]]).appended = [] ∧
          ((crashedDir 0 (by decide)).cut = decimalCodecs.index.text
            (crashedDir 0 (by decide)).last ∨ (crashedDir 0 (by decide)).before = [])) :=
  returned_after_crash_iff DecimalRows.codec_strict (crashedDir 0 (by decide)) (by decide)
    fun row _ => ⟨row.tsOrigin, rfl⟩

/-- A crash that leaves the first byte of the last row, an opening brace, and one further
payload: the earlier row and the new one are not returned. -/
theorem not_returned_after_crash_in_row :
    (crashedDir 1 (by decide)).cut = [0x7B] ∧
      ¬ StillReturned plainLib decimalCodecs.index none none
        ((plainRun [[3]]).exec decimalCodecs (crashed 1))
        ((crashedDir 1 (by decide)).before ++ newRows (crashed 1) (plainRun [[3]])) := by
  have hcut : (crashedDir 1 (by decide)).cut = [0x7B] := by
    show (DecimalRows.codec.line _).take 1 = [0x7B]
    rfl
  refine ⟨hcut, fun hreturned => ?_⟩
  have happended : (plainRun [[3]]).appended ≠ [] := cons_ne_nil _ _
  obtain ⟨e, he⟩ := (crashedDir 1 (by decide)).parse_error DecimalRows.codec_strict
    (by rw [hcut]; exact cons_ne_nil _ _) fun h => happended h.1
  have hnil := eq_nil_of_stillReturned he hreturned
  rw [append_eq_nil_iff, newRows_eq_nil] at hnil
  cases hnil.2

end TraceMux.Core.Exporter
