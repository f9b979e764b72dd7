/-
# The encoding of the default pipeline

A source is started with an encoding of its own or with that of the server. Where it is
sampled, the report of content detection decides on the label, and the decoder, the log sink
and the registry all get the same one.

Detection puts the configured label into its canonical form first, and a label that is not
among those it supports becomes `utf-8`. Outside `auto` mode nothing is to be detected, but
`suggest` mode has a report too: a source that is configured for any other encoding is
decoded as UTF-8 there.
-/

import TraceMux.Server.ContentDetection

namespace TraceMux.Server.DefaultPipeline

open Base TraceMux.Core Core.Codec Core.FileSink Server.ChunkedText Server.ExportEncoding
open Server.Detect
open Server.Prefetch (LiveSource PrefetchedSource afterSampling prefetchForDetection)
open Server.Requests (ContentDetectionReport)

/-- What sources are started with that do not say otherwise. -/
structure Defaults where
  encoding : String := "utf-8"
  classifier : List ClassificationRule := []
  detectionMode : DetectionMode := .configured

def Defaults.encodingFor (defaults : Defaults) (options : SourceStartOptions) : String :=
  options.encoding.getD defaults.encoding

def Defaults.classifierFor (defaults : Defaults) (options : SourceStartOptions) :
    List ClassificationRule := options.classifier.getD defaults.classifier

def Defaults.detectionModeFor (defaults : Defaults) (options : SourceStartOptions) :
    DetectionMode := options.detectionMode.getD defaults.detectionMode

/-- What the registry keeps about the pipeline of a source. -/
structure SourcePipelineMetadata where
  decoder : Option String := none
  encoding : Option String := none
  detectionMode : Option DetectionMode := none
  detection : Option ContentDetectionReport := none

structure Started where
  source : PrefetchedSource
  textDecoder : String
  classifier : List ClassificationRule
  /-- The sink in the session directory, if there is one. -/
  logsink : Option OpenSink
  pipeline : SourcePipelineMetadata

def Started.decoder (encodings : Encodings) (matchers : Matchers) (started : Started) :
    Decoder Record :=
  defaultDecoder encodings started.textDecoder (tagsForText matchers started.classifier)

section Start

variable (setup : Setup) (matchers : Matchers) (now : SystemTime) (defaults : Defaults)

def logSinkFor (sessionDir : Option SessionFiles) (encoding : String) : Option OpenSink :=
  sessionDir.map fun files =>
    FileLogSink.createWithLabels setup.codecs now files (setup.labels encoding)

def detect (options : SourceStartOptions) (sample : Bytes) : ContentDetectionReport :=
  detectContent setup.encodings matchers sample {
    mode := defaults.detectionModeFor options
    configuredEncoding := defaults.encodingFor options
    classifier := defaults.classifierFor options }

def startOver (sessionDir : Option SessionFiles) (options : SourceStartOptions)
    (source : PrefetchedSource) (sample : Option Bytes) : Started :=
  let detection := sample.map (detect setup matchers defaults options)
  let encoding := detection.elim (defaults.encodingFor options)
    ContentDetectionReport.effectiveEncoding
  { source
    textDecoder := encoding
    classifier := defaults.classifierFor options
    logsink := logSinkFor setup now sessionDir encoding
    pipeline := {
      decoder := some (decoderLabel encoding)
      encoding := some encoding
      detectionMode := some (defaults.detectionModeFor options)
      detection } }

/-- Start the default pipeline, as far as `fuel` rounds of sampling go. -/
def startDefaultPipeline (fuel : ℕ) (source : LiveSource) (sessionDir : Option SessionFiles)
    (options : SourceStartOptions) : Option (Except TraceMuxError Started) :=
  afterSampling fuel source (defaults.detectionModeFor options)
    (startOver setup matchers now defaults sessionDir options)

end Start

variable {setup : Setup} {matchers : Matchers} {now : SystemTime} {defaults : Defaults}

variable {fuel : ℕ} {source : LiveSource} {sessionDir : Option SessionFiles}
  {options : SourceStartOptions} {started : Started}

theorem startDefaultPipeline_ok
    (h : startDefaultPipeline setup matchers now defaults fuel source sessionDir options =
      some (.ok started)) :
    ∃ prefetched sample,
      prefetchForDetection fuel source (defaults.detectionModeFor options) =
          some (.ok (prefetched, sample)) ∧
        started = startOver setup matchers now defaults sessionDir options prefetched sample := by
  obtain ⟨result, hprefetch, hresult⟩ := Option.map_eq_some_iff.mp h
  cases result with
  | error e => cases hresult
  | ok pair =>
    cases hresult
    exact ⟨pair.1, pair.2, hprefetch, rfl⟩

theorem prefetchForDetection_sample {mode : DetectionMode} {prefetched : PrefetchedSource}
    {sample : Option Bytes}
    (h : prefetchForDetection fuel source mode = some (.ok (prefetched, sample))) :
    sample.isSome ↔ mode = .auto ∨ mode = .suggest := by
  rw [prefetchForDetection] at h
  split at h
  · next hsamples =>
    have hmode : mode = .auto ∨ mode = .suggest := by
      cases mode with
      | configured => cases hsamples
      | auto => exact .inl rfl
      | suggest => exact .inr rfl
      | off => cases hsamples
    split at h
    · cases h
    · obtain ⟨result, -, hresult⟩ := Option.map_eq_some_iff.mp h
      cases result with
      | error e => cases hresult
      | ok pair =>
        cases hresult
        exact iff_of_true rfl hmode
  · next hsamples =>
    cases h
    apply iff_of_false Bool.false_ne_true
    rintro (rfl | rfl) <;> exact hsamples rfl

/-- The log sink and the registry have the label of the decoder. Outside `auto` mode that is
the configured encoding, unless the source is sampled for suggestions and the canonical form
of the configured label denotes another encoding. -/
theorem startDefaultPipeline_encoding_iff {fuel : ℕ} {source : LiveSource}
    {sessionDir : Option SessionFiles} {options : SourceStartOptions} {started : Started}
    (hstart : startDefaultPipeline setup matchers now defaults fuel source sessionDir options =
      some (.ok started))
    (hmode : defaults.detectionModeFor options ≠ .auto) :
    (∀ sink ∈ started.logsink, sink.sink.labels.decoder = decoderLabel started.textDecoder) ∧
      started.pipeline.encoding = some started.textDecoder ∧
      (encodingForLabel setup.encodings started.textDecoder =
          encodingForLabel setup.encodings (defaults.encodingFor options) ↔
        (defaults.detectionModeFor options = .suggest →
          encodingForLabel setup.encodings
              (canonicalEncodingLabel (defaults.encodingFor options)) =
            encodingForLabel setup.encodings (defaults.encodingFor options))) := by
  have hlabel : started.textDecoder =
      if defaults.detectionModeFor options = .suggest then
        canonicalEncodingLabel (defaults.encodingFor options)
      else defaults.encodingFor options := by
    obtain ⟨prefetched, sample, hprefetch, rfl⟩ := startDefaultPipeline_ok hstart
    have hsample := prefetchForDetection_sample hprefetch
    rw [or_iff_right hmode] at hsample
    cases sample with
    | none =>
      rw [if_neg fun hsuggest => Bool.false_ne_true (hsample.mpr hsuggest)]
      rfl
    | some sample =>
      have hsuggest := hsample.mp rfl
      -- Outside `auto` mode the configured label stays in effect, in its canonical form.
      simp [startOver, detect, detectContent, effectiveEncoding, hsuggest]
  refine ⟨?_, ?_, ?_⟩
  · obtain ⟨prefetched, sample, -, rfl⟩ := startDefaultPipeline_ok hstart
    intro sink hsink
    obtain ⟨files, -, rfl⟩ := Option.map_eq_some_iff.mp hsink
    rfl
  · obtain ⟨prefetched, sample, -, rfl⟩ := startDefaultPipeline_ok hstart
    rfl
  · rw [hlabel]
    by_cases hsuggest : defaults.detectionModeFor options = .suggest
    · rw [if_pos hsuggest]
      exact ⟨fun hencoding _ => hencoding, fun hencoding => hencoding hsuggest⟩
    · rw [if_neg hsuggest]
      exact iff_of_true rfl fun h => absurd h hsuggest

def silentSource : LiveSource where
  opening := .ok ()
  metadata := ⟨"tcp", "lab"⟩
  calls _ := ⟨some 0, .ok none⟩

def hiraganaSetup : Setup := { plainSetup with encodings := hiraganaTable.encodings }

theorem startDefaultPipeline_encoding_configured :
    ∃ started, startDefaultPipeline hiraganaSetup ⟨id, fun _ _ => none⟩ 0 {} 1 silentSource none
        { encoding := some "sjis" } = some (.ok started) ∧
      encodingForLabel hiraganaSetup.encodings started.textDecoder =
        encodingForLabel hiraganaSetup.encodings "sjis" := by
  obtain ⟨started, hstart⟩ : ∃ started, startDefaultPipeline hiraganaSetup
      ⟨id, fun _ _ => none⟩ 0 {} 1 silentSource none { encoding := some "sjis" } =
        some (.ok started) := ⟨_, rfl⟩
  have hiff := (startDefaultPipeline_encoding_iff hstart (by decide)).2.2
  exact ⟨started, hstart, hiff.mpr nofun⟩

/-- A source that is configured for Shift_JIS under another label is decoded as UTF-8 once it
is sampled for suggestions. -/
theorem startDefaultPipeline_suggest_sjis :
    ∃ started, startDefaultPipeline hiraganaSetup ⟨id, fun _ _ => none⟩ 0 {} 1 silentSource none
        { encoding := some "sjis", detectionMode := some .suggest } = some (.ok started) ∧
      started.textDecoder = "utf-8" ∧
      encodingForLabel hiraganaSetup.encodings "utf-8" ≠
        encodingForLabel hiraganaSetup.encodings "sjis" := by
  refine ⟨_, rfl, by decide +kernel, fun h => ?_⟩
  have hdecode := congrArg (fun decoder => decoder.decode [0x82, 0xA0]) h
  revert hdecode
  decide

end TraceMux.Server.DefaultPipeline
