/-
# Sampling a source before it runs

Content detection reads the first frames of a source before its pipeline starts. The
frames it has read are kept and handed to the pipeline first, so that sampling should not
change what is logged. It does where the source fails while it is sampled: the start is
given up, and the frames that were kept go with it. A source that keeps sending frames
without bytes is never done being sampled.
-/

import TraceMux.Server.ExportEncoding
import TraceMux.Server.SessionDir

namespace TraceMux.Server.Prefetch

open Base TraceMux.Core Core.FileSink Server.Runner Server.ChunkedText Server.ExportEncoding List

/-- A call of `recv`: the milliseconds it takes, if it ever returns, and what it returns. -/
structure Recv where
  after : Option ℕ
  result : Except TraceMuxError (Option Frame)

/-- What the call returns, if it is waited for without a limit. -/
def Recv.await (call : Recv) : Option (Except TraceMuxError (Option Frame)) :=
  call.after.map fun _ => call.result

/-- What the call returns, if it is given up after `limit` milliseconds. -/
def Recv.timeout (limit : ℕ) (call : Recv) : Option (Except TraceMuxError (Option Frame)) :=
  match call.after with
  | some ms => if ms ≤ limit then some call.result else none
  | none => none

theorem Recv.await_of_timeout {limit : ℕ} {call : Recv}
    {result : Except TraceMuxError (Option Frame)} (h : call.timeout limit = some result) :
    call.await = some result := by
  unfold timeout at h
  split at h
  · next ms hafter =>
    split at h
    · rw [await, hafter]
      exact h
    · cases h
  · cases h

/-- A source that is not opened yet, and the calls of `recv` that follow each other on it,
until it ends or fails. A call that is given up takes nothing from the source. -/
structure LiveSource where
  opening : Except TraceMuxError Unit
  metadata : ChannelMeta
  calls : ℕ → Recv

def LiveSource.next (s : LiveSource) : LiveSource :=
  { s with calls := fun i => s.calls (i + 1) }

/-- The next call. A source that has ended or failed stays where it is. -/
def LiveSource.recv (s : LiveSource) : Recv × LiveSource :=
  match (s.calls 0).result with
  | .ok (some _) => (s.calls 0, s.next)
  | _ => (s.calls 0, s)

/-- A source with frames that were read from it before. -/
structure PrefetchedSource where
  inner : LiveSource
  prefetched : List Frame
  isOpen : Bool

def PrefetchedSource.unopened (inner : LiveSource) : PrefetchedSource := ⟨inner, [], false⟩

def PrefetchedSource.opened (inner : LiveSource) (prefetched : List Frame) : PrefetchedSource :=
  ⟨inner, prefetched, true⟩

def PrefetchedSource.open (s : PrefetchedSource) : Except TraceMuxError PrefetchedSource :=
  if s.isOpen then .ok s
  else
    match s.inner.opening with
    | .ok () => .ok { s with isOpen := true }
    | .error e => .error e

def PrefetchedSource.recv (s : PrefetchedSource) : Recv × PrefetchedSource :=
  match s.prefetched with
  | frame :: rest => (⟨some 0, .ok (some frame)⟩, { s with prefetched := rest })
  | [] => (s.inner.recv.1, { s with inner := s.inner.recv.2 })

def defaultMaxSampleBytes : ℕ := 64 * 1024

/-- Milliseconds. -/
def detectionSampleTimeout : ℕ := 250

def sampleLoop : ℕ → LiveSource → Bytes → List Frame →
    Option (Except TraceMuxError (PrefetchedSource × Bytes))
  | 0, _, _, _ => none
  | fuel + 1, source, sample, prefetched =>
    if sample.length < defaultMaxSampleBytes then
      match source.recv.1.timeout detectionSampleTimeout with
      | some (.ok (some frame)) =>
        let remaining := defaultMaxSampleBytes - sample.length
        sampleLoop fuel source.recv.2 (sample ++ (framePayload frame).take remaining)
          (prefetched ++ [frame])
      | some (.ok none) => some (.ok (.opened source.recv.2 prefetched, sample))
      -- The time is up; the call that was given up has taken nothing.
      | none => some (.ok (.opened source prefetched, sample))
      | some (.error e) => some (.error e)
    else some (.ok (.opened source prefetched, sample))

/-- The source to run, and the sample if one was taken. -/
def prefetchForDetection (fuel : ℕ) (source : LiveSource) (mode : DetectionMode) :
    Option (Except TraceMuxError (PrefetchedSource × Option Bytes)) :=
  if mode.samples then
    match source.opening with
    | .error e => some (.error e)
    | .ok () =>
      (sampleLoop fuel source [] []).map fun result =>
        result.map fun (source, sample) => (source, some sample)
  else some (.ok (.unopened source, none))

/-- Sample a source, as far as `fuel` rounds go, and start it. -/
def afterSampling {α : Type*} (fuel : ℕ) (source : LiveSource) (mode : DetectionMode)
    (start : PrefetchedSource → Option Bytes → α) : Option (Except TraceMuxError α) :=
  (prefetchForDetection fuel source mode).map fun result =>
    result.map fun (source, sample) => start source sample

/-- The pipeline a source is started in. -/
structure Pipeline where
  setup : Setup
  files : SessionFiles
  now : SystemTime
  ingest : Ingest
  stamps : ℕ → DualTimestamp
  configuredEncoding : String
  /-- The effective encoding of the report on a sample. -/
  detectContent : DetectionMode → Bytes → String

/-- The source that is run, and the encoding it is decoded under. -/
def Pipeline.start (pipeline : Pipeline) (fuel : ℕ) (mode : DetectionMode)
    (source : LiveSource) : Option (Except TraceMuxError (PrefetchedSource × String)) :=
  afterSampling fuel source mode fun source sample =>
    (source, sample.elim pipeline.configuredEncoding (pipeline.detectContent mode))

/-- The frames that the first `n` calls of `recv` return to a run. -/
def received : ℕ → PrefetchedSource → List Frame
  | 0, _ => []
  | n + 1, source =>
    match source.recv.1.await with
    | some (.ok (some frame)) => frame :: received n source.recv.2
    | _ => []

/-- The sink of the source. It keeps the raw frames it has accepted. -/
def Pipeline.sink (pipeline : Pipeline) (encoding : String) : LogSink Record :=
  pipeline.setup.sinkOf pipeline.files pipeline.now encoding

/-- The raw frames a run under an encoding logs for the frames it receives. -/
def Pipeline.loggedFor (pipeline : Pipeline) (encoding : String) (channel : ChannelMeta)
    (frames : List Frame) : List Bytes :=
  (runFrames pipeline.stamps (sourceLabel channel) frames
    (startRun passthroughFramer
      (defaultDecoder pipeline.setup.encodings encoding pipeline.setup.tagsForText)
      (pipeline.sink encoding) pipeline.ingest channel pipeline.setup.sid
      { sidOverride := some pipeline.setup.sid })).2.sink.2

/-- The raw frames that are logged after `t` calls of `recv`, and `t` rounds of sampling
before them. -/
def Pipeline.logged (pipeline : Pipeline) (mode : DetectionMode) (source : LiveSource) (t : ℕ) :
    List Bytes :=
  match pipeline.start t mode source with
  | some (.ok (source, encoding)) =>
    match source.open with
    | .ok source => pipeline.loggedFor encoding source.inner.metadata (received t source)
    | .error _ => []
  | _ => []

/-- The `i`-th raw frame of the log, which is there at some time. -/
def Pipeline.Logs (pipeline : Pipeline) (mode : DetectionMode) (source : LiveSource) (i : ℕ)
    (payload : Bytes) : Prop :=
  ∃ t, (pipeline.logged mode source t)[i]? = some payload

/-- The payloads that are logged for the frames of a run, counting from the `i`-th: up to
the first one that does not fit into a wire frame, and with it. -/
def acceptedFrom (fits : ℕ → Frame → Bool) : ℕ → List Frame → List Bytes
  | _, [] => []
  | i, frame :: rest =>
    framePayload frame :: if fits i frame then acceptedFrom fits (i + 1) rest else []

theorem acceptedFrom_prefix (fits : ℕ → Frame → Bool) (i : ℕ) (frames rest : List Frame) :
    acceptedFrom fits i frames <+: acceptedFrom fits i (frames ++ rest) := by
  induction frames generalizing i with
  | nil => exact nil_prefix
  | cons frame frames ih =>
    rw [cons_append, acceptedFrom, acceptedFrom, prefix_cons_inj]
    split
    · exact ih (i + 1)
    · exact prefix_refl _

section DefaultPipeline

variable {encodings : Codec.Encodings} {label : String} {tagsForText : String → List String}
  {sink : LogSink Record}

theorem drain_ok (hrecord : ∀ s ts record, (sink.appendRecord s ts record).1 = .ok ())
    (ts : DualTimestamp)
    (st : RunState passthroughFramer (defaultDecoder encodings label tagsForText) sink) :
    (drain ts st).1 = .ok () := by
  fun_induction drain ts st with
  | case1 st e fs buf hpoll =>
    simp only [passthroughFramer] at hpoll
    split at hpoll <;> cases hpoll
  | case2 => rfl
  | case3 st framed fs buf hpoll st' e ds hdecode =>
    have hframed : framed ≠ [] := by
      simp only [passthroughFramer] at hpoll
      split at hpoll
      · cases hpoll
      · next hbuf =>
        cases hpoll
        exact hbuf
    obtain ⟨record, -, hok⟩ := decode_chunk tagsForText hframed st'.decoder
    rw [hok] at hdecode
    cases hdecode
  | case4 _ _ _ _ _ _ _ _ ih => exact ih
  | case5 st framed fs buf hpoll st' record ds hdecode st'' e ss happend =>
    have hok := hrecord st''.sink ts record
    rw [happend] at hok
    cases hok
  | case6 _ _ _ _ _ _ _ _ _ _ _ _ ih => exact ih

variable (hraw : ∀ s ts dir data, (sink.appendRaw s ts dir data).1 = .ok ())
include hraw

variable (hrecord : ∀ s ts record, (sink.appendRecord s ts record).1 = .ok ())
include hrecord

/-- What a run of the default pipeline logs depends on the sizes of the frames alone. -/
theorem runFrames_accepted (stamps : ℕ → DualTimestamp) (sourceLabel : String)
    {fits : ℕ → Frame → Bool} (frames : List Frame)
    (st : RunState passthroughFramer (defaultDecoder encodings label tagsForText) sink.recorded)
    (hfits : ∀ i frame, fits i frame = true ↔ FitsFrame st.stats.sid stamps sourceLabel i frame) :
    (runFrames stamps sourceLabel frames st).2.sink.2 =
      st.sink.2 ++ acceptedFrom fits st.stats.rawFrames frames := by
  have hraw' : ∀ s ts dir data, (sink.recorded.appendRaw s ts dir data).1 = .ok () := by
    intro s ts dir data
    have hok := hraw s.1 ts dir data
    simp only [LogSink.recorded]
    split
    · rfl
    · next herror =>
      rw [herror] at hok
      cases hok
  have hrecord' : ∀ s ts record, (sink.recorded.appendRecord s ts record).1 = .ok () :=
    fun s ts record => hrecord s.1 ts record
  induction frames generalizing st with
  | nil => exact (append_nil _).symm
  | cons frame rest ih =>
    -- No frame ends a run of the default pipeline, but by its size.
    have hne : ∀ e, (handleFrame stamps sourceLabel frame st).1 ≠ .error (.traceMux e) := by
      intro e h
      unfold handleFrame at h
      simp only at h
      split at h
      · next happend =>
        have hok := hraw' st.sink (stamps st.stats.rawFrames) .in (framePayload frame)
        rw [happend] at hok
        cases hok
      · split at h
        · cases h
        · rw [drain_ok hrecord'] at h
          cases h
    obtain ⟨hsink, hsid, hcount, hgoes⟩ := handleFrame_cases stamps sourceLabel frame st hne
    rw [runFrames, acceptedFrom]
    split
    · next e st' hstop =>
      rw [hstop] at hsink hgoes
      have hlarge : ¬ fits st.stats.rawFrames frame = true := by
        intro hfit
        cases hgoes.mpr ((hfits _ _).mp hfit)
      rw [if_neg hlarge]
      exact hsink
    · next st' hok =>
      rw [hok] at hsink hsid hcount hgoes
      rw [if_pos ((hfits _ _).mpr (hgoes.mp rfl)), ih st' (by rw [hsid]; exact hfits), hsink,
        hcount, append_assoc]
      rfl

end DefaultPipeline

instance (sid : Uuid) (stamps : ℕ → DualTimestamp) (label : String) (i : ℕ) (frame : Frame) :
    Decidable (FitsFrame sid stamps label i frame) :=
  inferInstanceAs (Decidable (_ ≤ _))

/-- Whether the `i`-th frame of a run fits into one wire frame. -/
def Pipeline.fits (pipeline : Pipeline) (channel : ChannelMeta) (i : ℕ) (frame : Frame) : Bool :=
  decide (FitsFrame
    (pipeline.ingest.registerSession pipeline.setup.sid channel.kind channel.iface none).1
    pipeline.stamps (sourceLabel channel) i frame)

/-- The log of a run does not depend on the encoding. -/
theorem Pipeline.loggedFor_eq (pipeline : Pipeline) (encoding : String) (channel : ChannelMeta)
    (frames : List Frame) :
    pipeline.loggedFor encoding channel frames =
      acceptedFrom (pipeline.fits channel) 0 frames := by
  apply runFrames_accepted
  · intros
    rfl
  · intros
    rfl
  · intro i frame
    exact decide_eq_true_iff

/-- The frames that the first `n` calls of `recv` return. -/
def LiveSource.frames : ℕ → LiveSource → List Frame
  | 0, _ => []
  | n + 1, s =>
    match (s.calls 0).await with
    | some (.ok (some frame)) => frame :: s.next.frames n
    | _ => []

section Frames

variable {s : LiveSource} {frame : Frame}

theorem LiveSource.frames_succ (h : (s.calls 0).await = some (.ok (some frame))) (n : ℕ) :
    s.frames (n + 1) = frame :: s.next.frames n := by
  rw [frames, h]

theorem LiveSource.frames_eq_nil
    (h : ∀ frame, (s.calls 0).await ≠ some (.ok (some frame))) (n : ℕ) : s.frames n = [] := by
  cases n with
  | zero => rfl
  | succ n =>
    rw [frames]
    split
    · next frame hframe => exact absurd hframe (h frame)
    · rfl

theorem LiveSource.recv_fst (s : LiveSource) : s.recv.1 = s.calls 0 := by
  unfold recv
  split <;> rfl

theorem LiveSource.recv_snd (h : (s.calls 0).await = some (.ok (some frame))) :
    s.recv.2 = s.next := by
  have hresult : (s.calls 0).result = .ok (some frame) := by
    obtain ⟨_, -, hresult⟩ := Option.map_eq_some_iff.mp h
    exact hresult
  rw [recv, hresult]

theorem LiveSource.recv_snd_of_end (h : (s.calls 0).await = some (.ok none)) :
    s.recv.2 = s := by
  have hresult : (s.calls 0).result = .ok none := by
    obtain ⟨_, -, hresult⟩ := Option.map_eq_some_iff.mp h
    exact hresult
  rw [recv, hresult]

theorem LiveSource.take_frames (s : LiveSource) (n m : ℕ) :
    (s.frames (n + m)).take n = s.frames n := by
  induction n generalizing s with
  | zero => rfl
  | succ n ih =>
    rw [Nat.add_right_comm]
    by_cases h : ∃ frame, (s.calls 0).await = some (.ok (some frame))
    · obtain ⟨frame, hframe⟩ := h
      rw [frames_succ hframe, frames_succ hframe, take_succ_cons, ih]
    · have hnone := not_exists.mp h
      rw [frames_eq_nil hnone, frames_eq_nil hnone, take_nil]

theorem LiveSource.frames_prefix (s : LiveSource) (n m : ℕ) : s.frames n <+: s.frames (n + m) := by
  rw [← s.take_frames n m]
  exact take_prefix ..

theorem received_nil (s : LiveSource) (isOpen : Bool) (n : ℕ) :
    received n ⟨s, [], isOpen⟩ = s.frames n := by
  induction n generalizing s with
  | zero => rfl
  | succ n ih =>
    rw [received, LiveSource.frames]
    simp only [PrefetchedSource.recv, s.recv_fst]
    split
    · next frame hframe => rw [s.recv_snd hframe, ih]
    · rfl

/-- `kept` are the frames that were read from `s` until it was left as `after`. -/
inductive ReadFrom : LiveSource → List Frame → LiveSource → Prop
  | nil (s : LiveSource) : ReadFrom s [] s
  | cons {s after : LiveSource} {frame : Frame} {kept : List Frame}
      (hframe : (s.calls 0).await = some (.ok (some frame))) (hrest : ReadFrom s.next kept after) :
      ReadFrom s (frame :: kept) after

variable {kept : List Frame} {after : LiveSource}

theorem ReadFrom.metadata (h : ReadFrom s kept after) : after.metadata = s.metadata := by
  induction h with
  | nil => rfl
  | cons _ _ ih => exact ih

theorem ReadFrom.received (h : ReadFrom s kept after) (isOpen : Bool) (n : ℕ) :
    received n ⟨after, kept, isOpen⟩ = s.frames n := by
  induction h generalizing n with
  | nil s => exact received_nil s isOpen n
  | cons hframe _ ih =>
    cases n with
    | zero => rfl
    | succ n =>
      rw [LiveSource.frames_succ hframe, ← ih]
      rfl

end Frames

section Sampling

variable {s : LiveSource} {sample : Bytes} {fuel : ℕ} {prefetched : List Frame} {frame : Frame}

/-- What sampling keeps was read from the source, in order and without a gap. -/
theorem sampleLoop_ok {result : PrefetchedSource × Bytes}
    (h : sampleLoop fuel s sample prefetched = some (.ok result)) :
    ∃ kept after, ReadFrom s kept after ∧ result.1 = .opened after (prefetched ++ kept) := by
  induction fuel generalizing s sample prefetched with
  | zero => cases h
  | succ fuel ih =>
    rw [sampleLoop] at h
    split at h
    · split at h
      · next frame hcall =>
        rw [s.recv_fst] at hcall
        have hframe := Recv.await_of_timeout hcall
        rw [s.recv_snd hframe] at h
        obtain ⟨kept, after, hread, hresult⟩ := ih h
        rw [append_assoc] at hresult
        exact ⟨frame :: kept, after, .cons hframe hread, hresult⟩
      · next hcall =>
        rw [s.recv_fst] at hcall
        cases h
        refine ⟨[], s, .nil s, ?_⟩
        rw [s.recv_snd_of_end (Recv.await_of_timeout hcall), append_nil]
      · cases h
        exact ⟨[], s, .nil s, by rw [append_nil]⟩
      · cases h
    · cases h
      exact ⟨[], s, .nil s, by rw [append_nil]⟩

/-- More rounds do not change how sampling ends. -/
theorem sampleLoop_add {result : Except TraceMuxError (PrefetchedSource × Bytes)}
    (h : sampleLoop fuel s sample prefetched = some result) (more : ℕ) :
    sampleLoop (fuel + more) s sample prefetched = some result := by
  induction fuel generalizing s sample prefetched with
  | zero => cases h
  | succ fuel ih =>
    rw [Nat.add_right_comm, sampleLoop]
    rw [sampleLoop] at h
    split at h
    · next hroom =>
      rw [if_pos hroom]
      split at h
      · exact ih h
      · exact h
      · exact h
      · exact h
    · next hfull =>
      rw [if_neg hfull]
      exact h

/-- The first `n` calls return frames before the time is up. -/
def LiveSource.InTime (s : LiveSource) (n : ℕ) : Prop :=
  ∀ i < n, ∃ frame, (s.calls i).timeout detectionSampleTimeout = some (.ok (some frame))

/-- The bytes of the frames that the first `n` calls return. -/
def LiveSource.byteCount (s : LiveSource) (n : ℕ) : ℕ :=
  ((s.frames n).map fun frame => (framePayload frame).length).sum

/-- Sampling has a reason to stop after `n` frames, beside an error: the sample is full
with `taken` bytes from before, the time is up, or the source has ended. -/
def LiveSource.StopsAt (s : LiveSource) (taken n : ℕ) : Prop :=
  defaultMaxSampleBytes ≤ taken + s.byteCount n ∨
    (s.calls n).timeout detectionSampleTimeout = none ∨
    (s.calls n).timeout detectionSampleTimeout = some (.ok none)

section

variable (hframe : (s.calls 0).timeout detectionSampleTimeout = some (.ok (some frame)))
include hframe

theorem LiveSource.inTime_succ (n : ℕ) : s.InTime (n + 1) ↔ s.next.InTime n := by
  constructor
  · intro h i hi
    exact h (i + 1) (Nat.succ_lt_succ hi)
  · intro h i hi
    cases i with
    | zero => exact ⟨frame, hframe⟩
    | succ i => exact h i (Nat.lt_of_succ_lt_succ hi)

/-- A sample that takes a frame is full exactly if the bytes of the frame fill it. -/
theorem LiveSource.stopsAt_succ (hroom : sample.length < defaultMaxSampleBytes) (n : ℕ) :
    s.StopsAt sample.length (n + 1) ↔
      s.next.StopsAt (sample ++
        (framePayload frame).take (defaultMaxSampleBytes - sample.length)).length n := by
  have hcount : s.byteCount (n + 1) = (framePayload frame).length + s.next.byteCount n := by
    rw [byteCount, frames_succ (Recv.await_of_timeout hframe), map_cons, sum_cons]
    rfl
  unfold StopsAt
  rw [hcount, length_append, length_take]
  apply or_congr
  · omega
  · exact Iff.rfl

end

/-- Sampling ends without an error exactly if it has another reason to stop behind frames
that all come in time. -/
theorem exists_sampleLoop_ok_iff (sample : Bytes) (prefetched : List Frame) :
    (∃ fuel result, sampleLoop fuel s sample prefetched = some (.ok result)) ↔
      ∃ n, s.InTime n ∧ s.StopsAt sample.length n := by
  constructor
  · rintro ⟨fuel, result, h⟩
    induction fuel generalizing s sample prefetched with
    | zero => cases h
    | succ fuel ih =>
      have hnow : s.StopsAt sample.length 0 → ∃ n, s.InTime n ∧ s.StopsAt sample.length n :=
        fun hstops => ⟨0, fun _ hi => absurd hi (Nat.not_lt_zero _), hstops⟩
      rw [sampleLoop] at h
      split at h
      · next hroom =>
        rw [s.recv_fst] at h
        split at h
        · next frame hframe =>
          rw [s.recv_snd (Recv.await_of_timeout hframe)] at h
          obtain ⟨n, htime, hstops⟩ := ih _ _ h
          exact ⟨n + 1, (LiveSource.inTime_succ hframe n).mpr htime,
            (LiveSource.stopsAt_succ hframe hroom n).mpr hstops⟩
        · next hcall => exact hnow (.inr (.inr hcall))
        · next hcall => exact hnow (.inr (.inl hcall))
        · cases h
      · next hfull => exact hnow (.inl (Nat.le_add_right_of_le (Nat.not_lt.mp hfull)))
  · rintro ⟨n, htime, hstops⟩
    induction n generalizing s sample prefetched with
    | zero =>
      refine ⟨1, ?_⟩
      rw [sampleLoop, s.recv_fst]
      split
      · next hroom =>
        rcases hstops with hfull | hlate | hend
        · exact absurd hfull (Nat.not_le.mpr hroom)
        · rw [hlate]
          exact ⟨_, rfl⟩
        · rw [hend]
          exact ⟨_, rfl⟩
      · exact ⟨_, rfl⟩
    | succ n ih =>
      obtain ⟨frame, hframe⟩ := htime 0 (Nat.succ_pos n)
      by_cases hroom : sample.length < defaultMaxSampleBytes
      · obtain ⟨fuel, result, hloop⟩ := ih _ (prefetched ++ [frame])
          ((LiveSource.inTime_succ hframe n).mp htime)
          ((LiveSource.stopsAt_succ hframe hroom n).mp hstops)
        refine ⟨fuel + 1, result, ?_⟩
        rw [sampleLoop, if_pos hroom, s.recv_fst, hframe, s.recv_snd (Recv.await_of_timeout hframe)]
        exact hloop
      · refine ⟨1, (.opened s prefetched, sample), ?_⟩
        rw [sampleLoop, if_neg hroom]

end Sampling

section Logs

variable (pipeline : Pipeline) {mode : DetectionMode} {source : LiveSource}

theorem logged_of_not_samples (hmode : mode.samples = false) (hopen : source.opening = .ok ())
    (t : ℕ) :
    pipeline.logged mode source t =
      acceptedFrom (pipeline.fits source.metadata) 0 (source.frames t) := by
  have hstart : pipeline.start t mode source =
      some (.ok (.unopened source, pipeline.configuredEncoding)) := by
    rw [Pipeline.start, afterSampling, prefetchForDetection, hmode]
    rfl
  have hopened : (PrefetchedSource.unopened source).open = .ok ⟨source, [], true⟩ := by
    simp only [PrefetchedSource.open, PrefetchedSource.unopened, hopen]
    rfl
  rw [Pipeline.logged, hstart]
  simp only [hopened]
  rw [pipeline.loggedFor_eq, received_nil]

variable {t i : ℕ} {result : PrefetchedSource × Bytes} {e : TraceMuxError} {payload : Bytes}

theorem logged_of_samples (hmode : mode.samples = true) (hopen : source.opening = .ok ())
    (hloop : sampleLoop t source [] [] = some (.ok result)) :
    pipeline.logged mode source t =
      acceptedFrom (pipeline.fits source.metadata) 0 (source.frames t) := by
  obtain ⟨kept, after, hread, hresult⟩ := sampleLoop_ok hloop
  have hstart : pipeline.start t mode source =
      some (.ok (.opened after kept, pipeline.detectContent mode result.2)) := by
    rw [Pipeline.start, afterSampling, prefetchForDetection, if_pos hmode, hopen]
    simp only [hloop, Option.map_some, Except.map, hresult]
    rfl
  have hopened : (PrefetchedSource.opened after kept).open = .ok ⟨after, kept, true⟩ := rfl
  rw [Pipeline.logged, hstart]
  simp only [hopened]
  rw [pipeline.loggedFor_eq, hread.received, hread.metadata]

/-- Nothing is logged before sampling has ended without an error. -/
theorem logged_eq_nil (hmode : mode.samples = true) (hopen : source.opening = .ok ())
    (hloop : ∀ result, sampleLoop t source [] [] ≠ some (.ok result)) :
    pipeline.logged mode source t = [] := by
  rw [Pipeline.logged, Pipeline.start, afterSampling, prefetchForDetection, if_pos hmode, hopen]
  cases hresult : sampleLoop t source [] [] with
  | none => rfl
  | some result =>
    cases result with
    | error e => rfl
    | ok result => exact absurd hresult (hloop result)

theorem logged_of_not_open (hopen : source.opening = .error e) (t : ℕ) :
    pipeline.logged mode source t = [] := by
  rw [Pipeline.logged, Pipeline.start, afterSampling, prefetchForDetection, hopen]
  cases mode.samples with
  | true => rfl
  | false =>
    have hclosed : (PrefetchedSource.unopened source).open = .error e := by
      simp only [PrefetchedSource.open, PrefetchedSource.unopened, hopen]
      rfl
    simp only [Bool.false_eq_true, if_false, Option.map_some, Except.map, hclosed]

/-- Sampling logs nothing that would not be logged without it. -/
theorem logs_off_of_logs (h : pipeline.Logs mode source i payload) :
    pipeline.Logs .off source i payload := by
  obtain ⟨t, hlogged⟩ := h
  refine ⟨t, ?_⟩
  cases hopen : source.opening with
  | error e =>
    rw [logged_of_not_open pipeline hopen] at hlogged
    cases hlogged
  | ok u =>
    rw [logged_of_not_samples pipeline rfl hopen]
    cases hmode : mode.samples with
    | false =>
      rw [logged_of_not_samples pipeline hmode hopen] at hlogged
      exact hlogged
    | true =>
      by_cases hends : ∃ result, sampleLoop t source [] [] = some (.ok result)
      · obtain ⟨result, hloop⟩ := hends
        rw [logged_of_samples pipeline hmode hopen hloop] at hlogged
        exact hlogged
      · rw [logged_eq_nil pipeline hmode hopen (not_exists.mp hends)] at hlogged
        cases hlogged

theorem logs_off_zero (hopen : source.opening = .ok ()) {frame : Frame}
    (hframe : (source.calls 0).await = some (.ok (some frame))) :
    pipeline.Logs .off source 0 (framePayload frame) := by
  refine ⟨1, ?_⟩
  rw [logged_of_not_samples pipeline rfl hopen, LiveSource.frames_succ hframe]
  rfl

/-- The raw log of a source is the same with sampling as without, exactly if the source is
not sampled or does not open, if its first call fails, so that there is nothing to lose, or
if sampling stops behind frames that come in time with a full sample, at the time limit or
at the end of the source. -/
theorem logs_iff_logs_off :
    (∀ i payload, pipeline.Logs mode source i payload ↔ pipeline.Logs .off source i payload) ↔
      (mode.samples = true → source.opening = .ok () →
        (∃ e, (source.calls 0).timeout detectionSampleTimeout = some (.error e)) ∨
          ∃ n, source.InTime n ∧ source.StopsAt 0 n) := by
  have hends := exists_sampleLoop_ok_iff (s := source) [] []
  constructor
  · intro hsame hmode hopen
    by_cases hstops : ∃ n, source.InTime n ∧ source.StopsAt 0 n
    · exact .inr hstops
    have hnone : ∀ i payload, ¬ pipeline.Logs mode source i payload := by
      rintro i payload ⟨t, hlogged⟩
      rw [logged_eq_nil pipeline hmode hopen fun result hloop =>
        hstops (hends.mp ⟨t, result, hloop⟩)] at hlogged
      cases hlogged
    have hnow : ¬ source.StopsAt 0 0 := fun hstop =>
      hstops ⟨0, fun _ hi => absurd hi (Nat.not_lt_zero _), hstop⟩
    cases hcall : (source.calls 0).timeout detectionSampleTimeout with
    | none => exact absurd (.inr (.inl hcall)) hnow
    | some result =>
      cases result with
      | error e => exact .inl ⟨e, rfl⟩
      | ok frame =>
        cases frame with
        | none => exact absurd (.inr (.inr hcall)) hnow
        | some frame =>
          have hfirst := logs_off_zero pipeline hopen (Recv.await_of_timeout hcall)
          exact absurd ((hsame 0 _).mpr hfirst) (hnone 0 _)
  · intro hcond i payload
    constructor
    · exact logs_off_of_logs pipeline
    · intro hoff
      cases hopen : source.opening with
      | error e =>
        obtain ⟨t, hlogged⟩ := hoff
        rw [logged_of_not_open pipeline hopen] at hlogged
        cases hlogged
      | ok u =>
        cases hmode : mode.samples with
        | false =>
          obtain ⟨t, hlogged⟩ := hoff
          refine ⟨t, ?_⟩
          rw [logged_of_not_samples pipeline hmode hopen]
          rw [logged_of_not_samples pipeline rfl hopen] at hlogged
          exact hlogged
        | true =>
          rcases hcond hmode hopen with ⟨e, herror⟩ | hstops
          · -- Nothing is logged of a source that fails at once.
            obtain ⟨t, hlogged⟩ := hoff
            have hnone : ∀ frame, (source.calls 0).await ≠ some (.ok (some frame)) := by
              intro frame hframe
              rw [Recv.await_of_timeout herror] at hframe
              cases hframe
            rw [logged_of_not_samples pipeline rfl hopen, LiveSource.frames_eq_nil hnone] at hlogged
            cases hlogged
          · obtain ⟨fuel, result, hloop⟩ := hends.mpr hstops
            obtain ⟨t, hlogged⟩ := hoff
            rw [logged_of_not_samples pipeline rfl hopen] at hlogged
            refine ⟨fuel + t, ?_⟩
            rw [logged_of_samples pipeline hmode hopen (sampleLoop_add hloop t), Nat.add_comm]
            obtain ⟨rest, hrest⟩ := source.frames_prefix t fuel
            rw [← hrest]
            obtain ⟨more, hmore⟩ := acceptedFrom_prefix (pipeline.fits source.metadata) 0
              (source.frames t) rest
            rw [← hmore, List.getElem?_append_left (List.getElem?_eq_some_iff.mp hlogged).1]
            exact hlogged

end Logs

def failingSource : LiveSource where
  opening := .ok ()
  metadata := ⟨"tcp", "lab"⟩
  calls
    | 0 => ⟨some 0, .ok (some (.bytes [0x41]))⟩
    | _ => ⟨some 0, .error ⟨.E1102SourceClosed, "tcp read lab: connection reset"⟩⟩

def plainPipeline : Pipeline where
  setup := plainSetup
  files := {}
  now := 0
  ingest := .new
  stamps _ := stampAt 0
  configuredEncoding := "utf-8"
  detectContent _ _ := "utf-8"

theorem sampleLoop_failingSource (fuel : ℕ) (result : PrefetchedSource × Bytes) :
    sampleLoop fuel failingSource [] [] ≠ some (.ok result) := by
  match fuel with
  | 0 | 1 => nofun
  | fuel + 2 => nofun

/-- The frame before the failure is logged without sampling, and never with it. -/
theorem sampling_loses_frame :
    plainPipeline.Logs .off failingSource 0 [0x41] ∧
      ∀ i payload, ¬ plainPipeline.Logs .auto failingSource i payload := by
  have hframe : (failingSource.calls 0).await = some (.ok (some (.bytes [0x41]))) := rfl
  constructor
  · exact logs_off_zero plainPipeline rfl hframe
  · rintro i payload ⟨t, hlogged⟩
    rw [logged_eq_nil plainPipeline rfl rfl (sampleLoop_failingSource t)] at hlogged
    cases hlogged

end TraceMux.Server.Prefetch
