/-
# Where a sample is cut

The sample that content detection takes ends with the time limit, with the source or after
64 KiB, wherever in a character that is. It is decoded as if it were a whole text, so that a
stream of valid UTF-8 counts as malformed unless the sample happens to end between two
characters.
-/

import TraceMux.Server.DefaultPipeline

namespace TraceMux.Server.DetectionSample

open Base TraceMux.Core Core.Codec Core.FileSink Server.Runner Server.Prefetch Server.Detect List
open Server.DefaultPipeline Server.ExportEncoding
open Server.Requests (EncodingCandidate)

def sent (s : LiveSource) (n : ℕ) : Bytes := (s.frames n).flatMap framePayload

/-- The stream of a source is valid UTF-8 as a whole: it ends with the last byte of a text, or it
goes on for ever and every character comes to its end. -/
inductive Utf8Stream (s : LiveSource) : Prop
  | ends (text : Text) (n : ℕ) (h : ∀ m, n ≤ m → sent s m = Lines.encode text)
  | endless (chars : ℕ → Char)
      (hsent : ∀ n, ∃ k, sent s n <+: Lines.encode ((List.range k).map chars))
      (hchars : ∀ k, ∃ n, Lines.encode ((List.range k).map chars) <+: sent s n)

variable {s : LiveSource} {sample : Bytes} {text : Text}

theorem Utf8Stream.sent_prefix (h : Utf8Stream s) (n : ℕ) :
    ∃ text, sent s n <+: Lines.encode text := by
  cases h with
  | ends text m h =>
    refine ⟨text, ?_⟩
    rw [← h (n + m) (Nat.le_add_left m n)]
    exact (s.frames_prefix n m).flatMap framePayload
  | endless chars hsent _ =>
    obtain ⟨k, hk⟩ := hsent n
    exact ⟨_, hk⟩

/-- Sampling ends with the first `n` frames of a source. -/
structure SampledTo (s : LiveSource) (n : ℕ) : Prop where
  inTime : s.InTime n
  stops : s.StopsAt 0 n
  first : ∀ m < n, ¬ s.StopsAt 0 m

/-- Cutting a piece before it is appended does not change what is kept of the whole. -/
theorem take_append_take (limit : ℕ) (sample piece rest : Bytes) :
    (sample ++ piece.take (limit - sample.length) ++ rest).take limit =
      (sample ++ (piece ++ rest)).take limit := by
  rw [append_assoc, take_append, take_append, take_append, take_append,
    take_take, length_take, Nat.min_self]
  rcases Nat.le_total piece.length (limit - sample.length) with hfits | hlong
  · rw [Nat.min_eq_right hfits]
  · rw [Nat.min_eq_left hlong, Nat.sub_self, Nat.sub_eq_zero_of_le hlong, take_zero]

theorem sent_succ {frame : Frame} (hframe : (s.calls 0).await = some (.ok (some frame))) (n : ℕ) :
    sent s (n + 1) = framePayload frame ++ sent s.next n := by
  rw [sent, LiveSource.frames_succ hframe, flatMap_cons, sent]

/-- The sample is what the frames that were taken have sent, up to the limit. -/
theorem sampleLoop_taken {fuel : ℕ} {prefetched : List Frame} {result : PrefetchedSource × Bytes}
    (hlimit : sample.length ≤ defaultMaxSampleBytes)
    (h : sampleLoop fuel s sample prefetched = some (.ok result)) :
    ∃ n, s.InTime n ∧ s.StopsAt sample.length n ∧ (∀ m < n, ¬ s.StopsAt sample.length m) ∧
      result.2 = (sample ++ sent s n).take defaultMaxSampleBytes := by
  induction fuel generalizing s sample prefetched with
  | zero => cases h
  | succ fuel ih =>
    have hnow (hstops : s.StopsAt sample.length 0) (hresult : result.2 = sample) :
        ∃ n, s.InTime n ∧ s.StopsAt sample.length n ∧ (∀ m < n, ¬ s.StopsAt sample.length m) ∧
          result.2 = (sample ++ sent s n).take defaultMaxSampleBytes := by
      refine ⟨0, fun _ hi => absurd hi (Nat.not_lt_zero _), hstops,
        fun _ hm => absurd hm (Nat.not_lt_zero _), ?_⟩
      rw [hresult, sent, LiveSource.frames, flatMap_nil, append_nil, take_of_length_le hlimit]
    rw [sampleLoop, s.recv_fst] at h
    split at h
    · next hroom =>
      split at h
      · next frame hframe =>
        rw [s.recv_snd (Recv.await_of_timeout hframe)] at h
        have hlimit' : (sample ++ (framePayload frame).take
            (defaultMaxSampleBytes - sample.length)).length ≤ defaultMaxSampleBytes := by
          rw [length_append, length_take]
          omega
        obtain ⟨n, htime, hstops, hfirst, hresult⟩ := ih hlimit' h
        refine ⟨n + 1, (LiveSource.inTime_succ hframe n).mpr htime,
          (LiveSource.stopsAt_succ hframe hroom n).mpr hstops, fun m hm hstop => ?_, ?_⟩
        · cases m with
          | zero =>
            rcases hstop with hfull | hlate | hend
            · exact absurd hfull (Nat.not_le.mpr hroom)
            · rw [hframe] at hlate
              cases hlate
            · rw [hframe] at hend
              cases hend
          | succ m =>
            exact hfirst m (Nat.lt_of_succ_lt_succ hm)
              ((LiveSource.stopsAt_succ hframe hroom m).mp hstop)
        · rw [hresult, sent_succ (Recv.await_of_timeout hframe), take_append_take]
      · next hcall =>
        cases h
        exact hnow (.inr (.inr hcall)) rfl
      · next hcall =>
        cases h
        exact hnow (.inr (.inl hcall)) rfl
      · cases h
    · next hfull =>
      cases h
      exact hnow (.inl (Nat.le_add_right_of_le (Nat.not_lt.mp hfull))) rfl

theorem SampledTo.unique {m n : ℕ} (hm : SampledTo s m) (hn : SampledTo s n) : m = n := by
  rcases Nat.lt_trichotomy m n with hlt | heq | hgt
  · exact absurd hm.stops (hn.first m hlt)
  · exact heq
  · exact absurd hn.stops (hm.first n hgt)

/-- What detection is given of a source that opens, after enough rounds. -/
theorem SampledTo.prefetchForDetection {n : ℕ} (hn : SampledTo s n) (hopen : s.opening = .ok ())
    {mode : DetectionMode} (hmode : mode.samples = true) :
    ∃ fuel prefetched, prefetchForDetection fuel s mode =
      some (.ok (prefetched, some ((sent s n).take defaultMaxSampleBytes))) := by
  obtain ⟨fuel, result, hloop⟩ :=
    (exists_sampleLoop_ok_iff (s := s) [] []).mpr ⟨n, hn.inTime, hn.stops⟩
  obtain ⟨m, htime, hstops, hfirst, hresult⟩ := sampleLoop_taken (Nat.zero_le _) hloop
  rw [SampledTo.unique ⟨htime, hstops, hfirst⟩ hn, nil_append] at hresult
  refine ⟨fuel, result.1, ?_⟩
  rw [Prefetch.prefetchForDetection, if_pos hmode, hopen]
  simp only [hloop, Option.map_some, Except.map, hresult]

variable {encodings : Encodings} {matchers : Matchers}

/-- The score of a sample of UTF-8 says whether it was cut between two characters. -/
theorem scoreEncoding_hadErrors_iff (h : sample <+: Lines.encode text)
    (hutf8 : encodings.forLabel "utf-8" = some Utf8.decoder) :
    (scoreEncoding encodings sample "utf-8").hadErrors = false ↔
      ∃ first, sample = Lines.encode first := by
  have hlabel : encodingForLabel encodings "utf-8" = Utf8.decoder := by
    rw [encodingForLabel, hutf8]
    rfl
  -- Decoding it fails as the decoder does, whether or not a mark is left out.
  have hdecode : (decode encodings "utf-8" sample).2 =
      StreamDecoder.hadErrors (Utf8.decoder.decode sample) := by
    by_cases hbom : [0xEF, 0xBB, 0xBF] <+: sample
    · obtain ⟨rest, rfl⟩ := hbom
      have hmark : Utf8.decoder.decode [0xEF, 0xBB, 0xBF] = [some (Char.ofNat 0xFEFF)] := rfl
      have hunits : decodeUnits encodings "utf-8" ([0xEF, 0xBB, 0xBF] ++ rest) =
          Utf8.decoder.decode rest := rfl
      rfl
    · rw [decode, decodeUnits_of_forBom (forBom_of_start h hbom), hlabel]
  rw [scoreEncoding]
  split
  · next hempty => exact iff_of_true rfl ⟨[], hempty⟩
  · rw [hdecode, Utf8.hadErrors_of_prefix_iff h]
    constructor
    · rintro ⟨first, -, hfirst⟩
      exact ⟨first, hfirst⟩
    · rintro ⟨first, rfl⟩
      exact (Utf8.hadErrors_of_prefix_iff h).mp (by simp [Utf8.decode_encode,
        StreamDecoder.hadErrors])

/-- A source whose stream is valid UTF-8 is scored for UTF-8 without a decoding error exactly if
what was sent when sampling ends, or the first 64 KiB of it, ends between two characters. -/
theorem detection_utf8_iff {setup : Setup} {now : SystemTime} {defaults : Defaults}
    {sessionDir : Option SessionFiles} {options : SourceStartOptions} {s : LiveSource} {n : ℕ}
    (hutf8 : setup.encodings.forLabel "utf-8" = some Utf8.decoder) (hvalid : Utf8Stream s)
    (hopen : s.opening = .ok ())
    (hmode : (defaults.detectionModeFor options).samples = true)
    (hn : SampledTo s n) :
    ∃ fuel started report,
      startDefaultPipeline setup matchers now defaults fuel s sessionDir options =
          some (.ok started) ∧
        started.pipeline.detection = some report ∧
        (∃ candidate ∈ report.encodingCandidates, candidate.label = "utf-8") ∧
        ((∀ candidate ∈ report.encodingCandidates, candidate.label = "utf-8" →
            candidate.hadErrors = false) ↔
          ∃ first, (sent s n).take defaultMaxSampleBytes = Lines.encode first) := by
  obtain ⟨fuel, prefetched, hprefetch⟩ := hn.prefetchForDetection hopen hmode
  obtain ⟨text, htext⟩ := hvalid.sent_prefix n
  generalize hsample : (sent s n).take defaultMaxSampleBytes = sample at hprefetch
  have hcut : sample <+: Lines.encode text := by
    rw [← hsample]
    exact (List.take_prefix _ _).trans htext
  have hlimit : sample.length ≤ defaultMaxSampleBytes := by
    rw [← hsample]
    exact length_take_le _ _
  have hon : defaults.detectionModeFor options ≠ .off := by
    intro hoff
    rw [hoff] at hmode
    cases hmode
  have hcandidates (candidate : EncodingCandidate) :
      candidate ∈ (detect setup matchers defaults options sample).encodingCandidates ∧
        candidate.label = "utf-8" ↔ candidate = scoreEncoding setup.encodings sample "utf-8" := by
    rw [detect, detectContent]
    simp only [take_of_length_le hlimit, if_neg hon, detectEncodings]
    rw [mem_insertionSort, mem_map]
    constructor
    · rintro ⟨⟨label, -, rfl⟩, heq⟩
      rw [scoreEncoding_label] at heq
      rw [heq]
    · rintro rfl
      exact ⟨⟨_, mem_cons_self, rfl⟩, scoreEncoding_label sample _⟩
  refine ⟨fuel, startOver setup matchers now defaults sessionDir options prefetched (some sample),
    detect setup matchers defaults options sample, ?_, rfl, ?_, ?_⟩
  · rw [startDefaultPipeline, Prefetch.afterSampling, hprefetch]
    rfl
  · obtain ⟨hmem, hlabel⟩ := (hcandidates _).mpr rfl
    exact ⟨_, hmem, hlabel⟩
  · rw [← scoreEncoding_hadErrors_iff hcut hutf8]
    constructor
    · intro hall
      obtain ⟨hmem, hlabel⟩ := (hcandidates _).mpr rfl
      exact hall _ hmem hlabel
    · intro hclean candidate hmem hlabel
      rw [(hcandidates candidate).mp ⟨hmem, hlabel⟩]
      exact hclean

/-- A source that sends some pieces, with a pause of `pause` milliseconds behind the first, and
ends. -/
def pausingSource (pieces : List Bytes) (pause : ℕ) : LiveSource where
  opening := .ok ()
  metadata := ⟨"tcp", "lab"⟩
  calls i := ⟨some (if i = 1 then pause else 0), .ok (pieces[i]?.map Frame.bytes)⟩

def autoDefaults : Defaults := { detectionMode := .auto }

def sampleSetup : Setup := { plainSetup with encodings := sampleEncodings }

/-- One hiragana, in two pieces. -/
def cutHiragana (pause : ℕ) : LiveSource := pausingSource [[0xE3, 0x81], [0x82]] pause

theorem utf8Stream_cutHiragana (pause : ℕ) : Utf8Stream (cutHiragana pause) :=
  .ends [Char.ofNat 0x3042] 2 fun m hm => by
    obtain ⟨k, rfl⟩ := Nat.exists_eq_add_of_le' hm
    cases k <;> rfl

theorem sampledTo_cutHiragana : SampledTo (cutHiragana 0) 2 where
  inTime
    | 0, _ => ⟨.bytes [0xE3, 0x81], rfl⟩
    | 1, _ => ⟨.bytes [0x82], rfl⟩
  stops := .inr (.inr rfl)
  first := by
    intro m hm
    obtain rfl | rfl : m = 0 ∨ m = 1 := by omega
    all_goals
      rintro (hfull | hlate | hend)
      · exact absurd hfull (by decide)
      · cases hlate
      · cases hend

/-- Without a pause the sample holds both pieces. -/
theorem detection_utf8_hiragana :
    ∃ fuel started report,
      startDefaultPipeline sampleSetup ⟨id, fun _ _ => none⟩ 0 autoDefaults fuel
          (cutHiragana 0) none {} = some (.ok started) ∧
        started.pipeline.detection = some report ∧
        (∃ candidate ∈ report.encodingCandidates, candidate.label = "utf-8") ∧
        ((∀ candidate ∈ report.encodingCandidates, candidate.label = "utf-8" →
            candidate.hadErrors = false) ↔
          ∃ first, (sent (cutHiragana 0) 2).take defaultMaxSampleBytes = Lines.encode first) :=
  detection_utf8_iff rfl (utf8Stream_cutHiragana 0) rfl rfl sampledTo_cutHiragana

/-- With a pause before the last byte, the sample holds the first two bytes, and
UTF-8 is scored with a decoding error. -/
theorem detection_cut_hiragana :
    Utf8Stream (cutHiragana 300) ∧
      ∃ started report,
        startDefaultPipeline sampleSetup ⟨id, fun _ _ => none⟩ 0 autoDefaults 2
            (cutHiragana 300) none {} = some (.ok started) ∧
          started.pipeline.detection = some report ∧ report.sampleBytes = 2 ∧
          ∃ candidate ∈ report.encodingCandidates,
            candidate.label = "utf-8" ∧ candidate.hadErrors = true := by
  exact ⟨utf8Stream_cutHiragana 300, _, _, rfl, rfl, by decide +kernel, by decide +kernel⟩

end TraceMux.Server.DetectionSample
