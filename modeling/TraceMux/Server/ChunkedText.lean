/-
# The text of a chunked source

The default pipeline of a source decodes every chunk as it comes: the framer passes a
chunk on whole, and the decoder keeps nothing from one chunk to the next. The records of a
run are therefore the texts of its chunks. They make up the text of the byte string where
the chunks are aligned with the encoding; a character that lies across two chunks is
replaced in both.
-/

import TraceMux.Core.Codec
import TraceMux.Server.Runner

namespace TraceMux.Server.ChunkedText

open Base TraceMux.Core Core.Codec Server.Runner List

variable {encodings : Encodings} {label : String} {tagsForText : String → List String}
  {sink : LogSink Record}

def defaultDecoder (encodings : Encodings) (label : String) (tagsForText : String → List String) :
    Decoder Record := classifyingDecoder (utf8TextDecoder encodings label) tagsForText

/-- The state of a run of the default pipeline, the texts of its records kept. -/
abbrev TextRun (encodings : Encodings) (label : String) (tagsForText : String → List String)
    (sink : LogSink Record) : Type :=
  RunState passthroughFramer (defaultDecoder encodings label tagsForText) sink.texted

/-- The texts of the records of a chunk: its own decoding, unless it has no bytes. -/
def recordTexts (encodings : Encodings) (label : String) (chunk : Bytes) : List String :=
  if chunk = [] then [] else [String.ofList (decode encodings label chunk).1]

theorem decode_chunk (tagsForText : String → List String) {chunk : Bytes} (h : chunk ≠ [])
    (s : (defaultDecoder encodings label tagsForText).State) :
    ∃ record : Record, record.text = some (String.ofList (decode encodings label chunk).1) ∧
      (defaultDecoder encodings label tagsForText).decode s chunk = (.ok (some record), s) := by
  let decoded := decode encodings label chunk
  refine ⟨{
    text := some (String.ofList decoded.1)
    tags := addTags (if decoded.2 then ["decode_error"] else [])
      (tagsForText (String.ofList decoded.1)) }, rfl, ?_⟩
  simp only [defaultDecoder, classifyingDecoder, utf8TextDecoder, if_neg h]
  rfl

variable {s s' : sink.texted.State} {ts : DualTimestamp}
  {st : TextRun encodings label tagsForText sink}

theorem texted_appendRaw {dir : Direction} {data : Bytes} {result : Except TraceMuxError Unit}
    (h : sink.texted.appendRaw s ts dir data = (result, s')) : s'.2 = s.2 :=
  (congrArg (fun r => r.2.2) h).symm

theorem texted_appendRecord {record : Record}
    (h : sink.texted.appendRecord s ts record = (.ok (), s')) :
    s'.2 = s.2 ++ record.text.toList := by
  simp only [LogSink.texted] at h
  split at h
  · cases h
    rfl
  · cases h

theorem texted_appendRecord_error {record : Record} {e : TraceMuxError}
    (h : sink.texted.appendRecord s ts record = (.error e, s')) : s'.2 = s.2 := by
  simp only [LogSink.texted] at h
  split at h
  · cases h
  · cases h
    rfl

theorem drain_nil (ts : DualTimestamp) (h : st.buf = []) : drain ts st = (.ok (), st) := by
  obtain ⟨ingest, framer, decoder, sink, buf, stats⟩ := st
  cases h
  rw [drain]
  rfl

/-- Draining the framer decodes the buffered chunk, unless the sink refuses its record. -/
theorem drain_chunk (ts : DualTimestamp) (st : TextRun encodings label tagsForText sink) :
    ((drain ts st).1 = .ok () ∧ (drain ts st).2.buf = [] ∧
      (drain ts st).2.sink.2 = st.sink.2 ++ recordTexts encodings label st.buf) ∨
    ((drain ts st).1 ≠ .ok () ∧ (drain ts st).2.sink.2 = st.sink.2) := by
  by_cases hbuf : st.buf = []
  · rw [drain_nil ts hbuf, recordTexts, if_pos hbuf, append_nil]
    exact .inl ⟨rfl, hbuf, rfl⟩
  obtain ⟨record, htext, hdecode⟩ := decode_chunk tagsForText hbuf st.decoder
  have hpoll : passthroughFramer.pollFrame st.framer st.buf = (.ok (some st.buf), (), []) :=
    if_neg hbuf
  rw [recordTexts, if_neg hbuf]
  unfold drain
  split
  · next h =>
    rw [hpoll] at h
    cases h
  · next h =>
    rw [hpoll] at h
    cases h
  · next framed fs buf h =>
    rw [hpoll] at h
    cases h
    simp only [hdecode]
    split
    · next e ss happend => exact .inr ⟨by rintro ⟨⟩, texted_appendRecord_error happend⟩
    · next ss happend =>
      rw [drain_nil ts rfl]
      refine .inl ⟨rfl, rfl, ?_⟩
      rw [texted_appendRecord happend, htext]
      rfl

/-- A chunk is decoded on its own, or the run ends before it. -/
theorem handleFrame_chunk (stamps : ℕ → DualTimestamp) (sourceLabel : String) (frame : Frame)
    (hbuf : st.buf = []) :
    ((handleFrame stamps sourceLabel frame st).1 = .ok () ∧
      (handleFrame stamps sourceLabel frame st).2.buf = [] ∧
      (handleFrame stamps sourceLabel frame st).2.sink.2 =
        st.sink.2 ++ recordTexts encodings label (framePayload frame)) ∨
    ((handleFrame stamps sourceLabel frame st).1 ≠ .ok () ∧
      (handleFrame stamps sourceLabel frame st).2.sink.2 = st.sink.2) := by
  unfold handleFrame
  simp only
  split
  · next e ss happend => exact .inr ⟨by rintro ⟨⟩, texted_appendRaw happend⟩
  · next ss happend =>
    have hsink : ss.2 = st.sink.2 := texted_appendRaw happend
    split
    · exact .inr ⟨by rintro ⟨⟩, hsink⟩
    · next wire _ =>
      have hchunk := drain_chunk (stamps st.stats.rawFrames) { st with
        ingest := (st.ingest.publishWire st.stats.sid wire).2
        sink := ss
        buf := st.buf ++ framePayload frame
        stats := { st.stats with rawFrames := st.stats.rawFrames + 1 } }
      simp only [hbuf, nil_append, hsink] at hchunk ⊢
      exact hchunk

/-- The texts of a run are those of the chunks it has decoded, which are all of them when
the loop comes to its end. -/
theorem runFrames_texts (stamps : ℕ → DualTimestamp) (sourceLabel : String) (frames : List Frame)
    (hbuf : st.buf = []) :
    ∃ n, n ≤ frames.length ∧
      ((runFrames stamps sourceLabel frames st).1 = .ok () → n = frames.length) ∧
      (runFrames stamps sourceLabel frames st).2.sink.2 = st.sink.2 ++
        ((frames.map framePayload).take n).flatMap (recordTexts encodings label) := by
  induction frames generalizing st with
  | nil => exact ⟨0, le_rfl, fun _ => rfl, (append_nil _).symm⟩
  | cons frame rest ih =>
    have hframe := handleFrame_chunk stamps sourceLabel frame hbuf
    rw [runFrames]
    split
    · next e st' hstop =>
      rw [hstop] at hframe
      rcases hframe with ⟨hok, -⟩ | ⟨-, hsame⟩
      · cases hok
      · exact ⟨0, Nat.zero_le _, by rintro ⟨⟩, hsame.trans (append_nil _).symm⟩
    · next st' hok =>
      rw [hok] at hframe
      rcases hframe with ⟨-, hempty, htexts⟩ | ⟨herror, -⟩
      · obtain ⟨n, hn, hall, hrest⟩ := ih hempty
        refine ⟨n + 1, Nat.succ_le_succ hn, fun h => congrArg _ (hall h), ?_⟩
        rw [hrest, htexts, map_cons, take_succ_cons, flatMap_cons, append_assoc]
      · exact absurd rfl herror

theorem flatMap_recordTexts (chunk : Bytes) :
    (recordTexts encodings label chunk).flatMap String.toList =
      (decode encodings label chunk).1 := by
  unfold recordTexts
  split
  · next hempty => rw [hempty, decode_nil, flatMap_nil]
  · rw [flatMap_singleton, String.toList_ofList]

theorem finishRun_texts (source : Core.Source) (st : TextRun encodings label tagsForText sink) :
    (finishRun source st).2.sink.2 = st.sink.2 :=
  finishRun_sink (P := fun s : sink.texted.State => s.2 = st.sink.2) (fun _ h => h)
    (fun _ h => h) source rfl

section Runs

variable {ingest : Ingest} {source : Core.Source} {stamps : ℕ → DualTimestamp} {freshSid : Uuid}
  {options : RunnerNotifyOptions} {result : Except RunnerError RunnerStats}

/-- The texts of a run of the default pipeline, however it ends: each chunk is decoded on its
own, up to the last that the run has decoded. -/
theorem texts_of_run
    (hrun : runSourceOnceNotify passthroughFramer (defaultDecoder encodings label tagsForText)
      sink.texted ingest source stamps freshSid options = (result, some st)) :
    ∃ n, n ≤ source.frames.length ∧ (result.isOk = true → n = source.frames.length) ∧
      st.sink.2 =
        ((source.frames.map framePayload).take n).flatMap (recordTexts encodings label) := by
  unfold runSourceOnceNotify at hrun
  split at hrun
  · cases hrun
  next channel _ =>
  obtain ⟨n, hn, hall, htexts⟩ := runFrames_texts stamps (sourceLabel channel) source.frames
    (show (startRun passthroughFramer (defaultDecoder encodings label tagsForText) sink.texted
      ingest channel freshSid options).buf = [] from rfl)
  refine ⟨n, hn, ?_⟩
  split at hrun
  · next e st' hstop =>
    cases hrun
    rw [hstop] at htexts
    exact ⟨nofun, htexts⟩
  · next st' hok =>
    cases hrun
    rw [hok] at htexts hall
    exact ⟨fun _ => hall rfl, (finishRun_texts source st').trans htexts⟩

/-- Each chunk with bytes that a run of the default pipeline decodes becomes one record, with the
text of that chunk on its own. The texts make up the text of the bytes when the chunks are aligned
with the encoding. -/
theorem record_texts_of_aligned
    (hrun : runSourceOnceNotify passthroughFramer (defaultDecoder encodings label tagsForText)
      sink.texted ingest source stamps freshSid options = (result, some st)) :
    ∃ n, n ≤ source.frames.length ∧ (result.isOk = true → n = source.frames.length) ∧
      st.sink.2 =
        ((source.frames.map framePayload).take n).flatMap (recordTexts encodings label) ∧
      st.sink.2.flatMap String.toList =
        ((source.frames.map framePayload).take n).flatMap
          (fun chunk => (decode encodings label chunk).1) ∧
      (Aligned encodings label ((source.frames.map framePayload).take n) →
        st.sink.2.flatMap String.toList =
          (decode encodings label ((source.frames.map framePayload).take n).flatten).1) := by
  obtain ⟨n, hn, hall, htexts⟩ := texts_of_run hrun
  have hflat : st.sink.2.flatMap String.toList =
      ((source.frames.map framePayload).take n).flatMap
        (fun chunk => (decode encodings label chunk).1) := by
    rw [htexts, flatMap_assoc]
    simp only [flatMap_recordTexts]
  exact ⟨n, hn, hall, htexts, hflat,
    fun haligned => hflat.trans (flatMap_decode_of_aligned haligned)⟩

end Runs

def openSink : LogSink Record where
  State := Unit
  init := ()
  appendRaw _ _ _ _ := (.ok (), ())
  appendRecord _ _ _ := (.ok (), ())
  commit _ := (.ok (), ())
  close _ := (.ok (), ())

def onlyUtf8 : Encodings where
  forLabel _ := none

def plainTextRun (chunks : List Bytes) :
    Except RunnerError RunnerStats × Option (TextRun onlyUtf8 "utf-8" (fun _ => []) openSink) :=
  runSourceOnceNotify passthroughFramer (defaultDecoder onlyUtf8 "utf-8" fun _ => [])
    openSink.texted .new { opening := .ok ⟨"tcp", "lab"⟩, frames := chunks.map .bytes }
    (fun _ => stampAt 0) 7 {}

theorem exists_plainTextRun (chunks : List Bytes) :
    ∃ result st, plainTextRun chunks = (result, some st) := by
  unfold plainTextRun runSourceOnceNotify
  simp only
  split
  · exact ⟨_, _, rfl⟩
  · exact ⟨_, _, rfl⟩

/-- The chunk `あ`, a chunk without bytes and a chunk behind them. -/
theorem record_texts_two_chunks :
    ∃ result st, plainTextRun [[0xE3, 0x81, 0x82], [], [0x41]] = (result, some st) ∧
      (result.isOk = true →
        st.sink.2 = ["あ", "A"] ∧ st.sink.2.flatMap String.toList = ['あ', 'A']) := by
  obtain ⟨result, st, hrun⟩ := exists_plainTextRun [[0xE3, 0x81, 0x82], [], [0x41]]
  refine ⟨result, st, hrun, fun hok => ?_⟩
  obtain ⟨n, -, hall, htexts, -, haligned⟩ := record_texts_of_aligned hrun
  obtain rfl := hall hok
  exact ⟨htexts, haligned (.inr ⟨rfl, rfl, rfl, rfl, .inr ⟨rfl, rfl, rfl, rfl, .inl rfl⟩⟩)⟩

/-- The bytes of `あ` in two chunks: three replacements instead of one character, and not
that character however far the run has come. -/
theorem split_character_is_replaced :
    (decode onlyUtf8 "utf-8" [0xE3, 0x81, 0x82]).1 = ['あ'] ∧
      ∃ result st, plainTextRun [[0xE3], [0x81, 0x82]] = (result, some st) ∧
        st.sink.2.flatMap String.toList ≠ ['あ'] ∧
        (result.isOk = true →
          st.sink.2.flatMap String.toList = ['\uFFFD', '\uFFFD', '\uFFFD']) := by
  obtain ⟨result, st, hrun⟩ := exists_plainTextRun [[0xE3], [0x81, 0x82]]
  obtain ⟨n, hn, hall, htexts⟩ := texts_of_run hrun
  refine ⟨rfl, result, st, hrun, ?_, fun hok => ?_⟩
  · have hcount : n ≤ 2 := hn
    rw [htexts]
    obtain rfl | rfl | rfl : n = 0 ∨ n = 1 ∨ n = 2 := by omega
    · decide
    · decide
    · decide
  · obtain rfl := hall hok
    rw [htexts]
    decide

end TraceMux.Server.ChunkedText
