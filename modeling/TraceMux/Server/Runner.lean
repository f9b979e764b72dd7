/-
# The source runner

A runner reads a source to its end. Every frame is appended to the log sink as it
came, encoded and published to the live subscribers, and fed to the framer, whose
frames are decoded and appended as records. The first error of any of these ends
the run.
-/

import TraceMux.Core.Pipeline
import TraceMux.Server.Ingest
import TraceMux.Server.Wire

namespace TraceMux.Server.Runner

open Base TraceMux.Core Server.Wire

def framePayload : Frame → Bytes
  | .bytes data => data
  | .datagram _ data => data
  | .ssh _ data => data
  | .visa _ data => data
  | .other _ data => data

/-- Why a run ends early: a part of the pipeline failed, or a frame could not be
encoded for the live subscribers. -/
inductive RunnerError
  | traceMux (e : TraceMuxError)
  | wire (e : WireError)
  deriving DecidableEq, Repr

/-- Summary of a run. -/
structure RunnerStats where
  sid : Uuid
  rawFrames : ℕ := 0
  framed : ℕ := 0
  decodedRecords : ℕ := 0
  deriving DecidableEq, Repr

section Pipeline

variable {Record : Type} (framer : Framer) (decoder : Decoder Record) (sink : LogSink Record)

/-- Everything a run changes. -/
structure RunState where
  ingest : Ingest
  framer : framer.State
  decoder : decoder.State
  sink : sink.State
  buf : Bytes
  stats : RunnerStats

variable {framer decoder sink}

/-- The inner loop: frames are taken from the buffer and decoded until the framer
needs more bytes. -/
def drain (ts : DualTimestamp) (st : RunState framer decoder sink) :
    Except RunnerError Unit × RunState framer decoder sink :=
  match _hpoll : framer.pollFrame st.framer st.buf with
  | (.error e, fs, buf) => (.error (.traceMux e), { st with framer := fs, buf := buf })
  | (.ok none, fs, buf) => (.ok (), { st with framer := fs, buf := buf })
  | (.ok (some framed), fs, buf) =>
    let st := { st with
      framer := fs, buf := buf, stats := { st.stats with framed := st.stats.framed + 1 } }
    match decoder.decode st.decoder framed with
    | (.error e, ds) => (.error (.traceMux e), { st with decoder := ds })
    | (.ok none, ds) => drain ts { st with decoder := ds }
    | (.ok (some record), ds) =>
      let st := { st with decoder := ds }
      match sink.appendRecord st.sink ts record with
      | (.error e, ss) => (.error (.traceMux e), { st with sink := ss })
      | (.ok (), ss) =>
        drain ts { st with
          sink := ss
          stats := { st.stats with decodedRecords := st.stats.decodedRecords + 1 } }
termination_by st.buf.length
decreasing_by
  all_goals exact framer.consumes _ _ _ _ _ _hpoll

/-- The body of the outer loop. The `stamps` are the readings of the clock, one for
every frame. -/
def handleFrame (stamps : ℕ → DualTimestamp) (sourceLabel : String) (frame : Frame)
    (st : RunState framer decoder sink) :
    Except RunnerError Unit × RunState framer decoder sink :=
  let raw := framePayload frame
  let ts := stamps st.stats.rawFrames
  match sink.appendRaw st.sink ts .in raw with
  | (.error e, ss) => (.error (.traceMux e), { st with sink := ss })
  | (.ok (), ss) =>
    let st := { st with
      sink := ss, stats := { st.stats with rawFrames := st.stats.rawFrames + 1 } }
    match encodeDataEnvelope st.stats.sid 0 st.stats.rawFrames ts raw sourceLabel with
    | .error e => (.error (.wire e), st)
    | .ok wire =>
      drain ts { st with
        ingest := (st.ingest.publishWire st.stats.sid wire).2
        buf := st.buf ++ raw }

/-- The outer loop. -/
def runFrames (stamps : ℕ → DualTimestamp) (sourceLabel : String) :
    List Frame → RunState framer decoder sink →
      Except RunnerError Unit × RunState framer decoder sink
  | [], st => (.ok (), st)
  | frame :: rest, st =>
    match handleFrame stamps sourceLabel frame st with
    | (.error e, st) => (.error e, st)
    | (.ok (), st) => runFrames stamps sourceLabel rest st

variable (framer decoder sink)

/-- The options of a run: the id to register under, and a label. The id that a
session gets without one is fresh. -/
structure RunnerNotifyOptions where
  sidOverride : Option Uuid := none
  label : Option String := none

def startRun (ingest : Ingest) (channel : ChannelMeta) (freshSid : Uuid)
    (options : RunnerNotifyOptions) : RunState framer decoder sink :=
  let registered := ingest.registerSession (options.sidOverride.getD freshSid) channel.kind
    channel.iface options.label
  ⟨registered.2, framer.init, decoder.init, sink.init, [], { sid := registered.1 }⟩

def sourceLabel (channel : ChannelMeta) : String := s!"{channel.kind}:{channel.iface}"

variable {framer decoder sink}

/-- What follows the loop: the source has ended, the sink is committed and closed, and
the source is closed. -/
def finishRun (source : Source) (st : RunState framer decoder sink) :
    Except RunnerError RunnerStats × RunState framer decoder sink :=
  match source.ending with
  | .error e => (.error (.traceMux e), st)
  | .ok () =>
    match sink.commit st.sink with
    | (.error e, ss) => (.error (.traceMux e), { st with sink := ss })
    | (.ok (), ss) =>
      match sink.close ss with
      | (.error e, ss) => (.error (.traceMux e), { st with sink := ss })
      | (.ok (), ss) =>
        match source.closing with
        | .error e => (.error (.traceMux e), { st with sink := ss })
        | .ok () => (.ok st.stats, { st with sink := ss })

variable (framer decoder sink)

/-- Run one source until its end. The state is none when the source did not open. -/
def runSourceOnceNotify (ingest : Ingest) (source : Source) (stamps : ℕ → DualTimestamp)
    (freshSid : Uuid) (options : RunnerNotifyOptions) :
    Except RunnerError RunnerStats × Option (RunState framer decoder sink) :=
  match source.opening with
  | .error e => (.error (.traceMux e), none)
  | .ok channel =>
    match runFrames stamps (sourceLabel channel) source.frames
        (startRun framer decoder sink ingest channel freshSid options) with
    | (.error e, st) => (.error e, some st)
    | (.ok (), st) =>
      let finished := finishRun source st
      (finished.1, some finished.2)

end Pipeline

section SinkRule

variable {Record : Type} {framer : Framer} {decoder : Decoder Record} {sink : LogSink Record}
  {P : sink.State → Prop}

variable {st : RunState framer decoder sink}

variable {stamps : ℕ → DualTimestamp}

theorem finishRun_sink (hcommit : ∀ s, P s → P (sink.commit s).2)
    (hclose : ∀ s, P s → P (sink.close s).2) (source : Source) (h : P st.sink) :
    P (finishRun source st).2.sink := by
  have hcommitted := hcommit st.sink h
  unfold finishRun
  split
  · exact h
  · split
    · next hstop =>
      rw [hstop] at hcommitted
      exact hcommitted
    · next ss hok =>
      rw [hok] at hcommitted
      have hclosed := hclose ss hcommitted
      split
      · next hstop =>
        rw [hstop] at hclosed
        exact hclosed
      · next hdone =>
        rw [hdone] at hclosed
        split
        · exact hclosed
        · exact hclosed

end SinkRule

section Recording

variable {Record : Type} {framer : Framer} {decoder : Decoder Record} {sink : LogSink Record}
  {ts : DualTimestamp}

variable {s s' : sink.recorded.State} {sid : Uuid} {stamps : ℕ → DualTimestamp}
  {sourceLabel : String} {frame : Frame}

theorem recorded_appendRecord {record : Record} {result : Except TraceMuxError Unit}
    (h : sink.recorded.appendRecord s ts record = (result, s')) : s'.2 = s.2 := by
  cases h
  rfl

theorem recorded_appendRaw {dir : Direction} {data : Bytes}
    (h : sink.recorded.appendRaw s ts dir data = (.ok (), s')) : s'.2 = s.2 ++ [data] := by
  simp only [LogSink.recorded] at h
  split at h
  · cases h
    rfl
  · cases h

/-- Draining the framer accepts no payload and counts no raw frame. -/
theorem drain_recorded (ts : DualTimestamp) (st : RunState framer decoder sink.recorded) :
    (drain ts st).2.sink.2 = st.sink.2 ∧ (drain ts st).2.stats.sid = st.stats.sid ∧
      (drain ts st).2.stats.rawFrames = st.stats.rawFrames := by
  fun_induction drain ts st with
  | case1 | case2 | case3 => exact ⟨rfl, rfl, rfl⟩
  | case4 st _ _ _ _ _ _ _ ih => exact ih
  | case5 st _ _ _ _ _ _ _ _ _ e ss happend =>
    exact ⟨recorded_appendRecord happend, rfl, rfl⟩
  | case6 st _ _ _ _ _ _ _ _ _ ss happend ih =>
    exact ⟨ih.1.trans (recorded_appendRecord happend), ih.2⟩

theorem drain_ok {st : RunState framer decoder sink}
    (hno : ∀ e, (drain ts st).1 ≠ .error (.traceMux e)) : (drain ts st).1 = .ok () := by
  fun_induction drain ts st with
  | case1 | case3 | case5 => exact absurd rfl (hno _)
  | case2 => rfl
  | case4 _ _ _ _ _ _ _ _ ih => exact ih hno
  | case6 _ _ _ _ _ _ _ _ _ _ _ _ ih => exact ih hno

/-- The `i`-th frame of a run fits into one wire frame. -/
def FitsFrame (sid : Uuid) (stamps : ℕ → DualTimestamp) (sourceLabel : String) (i : ℕ)
    (frame : Frame) : Prop :=
  (toVecNamed (dataEnvelope sid 0 (i + 1) (stamps i) (framePayload frame) sourceLabel
    "bytes")).length ≤ maxFrameBytes

/-- Every frame but the last fits into one wire frame, counting from the `n`-th. -/
def AllButLastFit (sid : Uuid) (stamps : ℕ → DualTimestamp) (sourceLabel : String) (n : ℕ)
    (frames : List Frame) : Prop :=
  ∀ i frame, frames[i]? = some frame → i + 1 < frames.length →
    FitsFrame sid stamps sourceLabel (n + i) frame

theorem allButLastFit_single (sid : Uuid) (stamps : ℕ → DualTimestamp) (sourceLabel : String)
    (n : ℕ) (frame : Frame) : AllButLastFit sid stamps sourceLabel n [frame] := by
  intro i _ _ hlt
  simp at hlt

theorem allButLastFit_cons {n : ℕ} {next : Frame} {rest : List Frame} :
    AllButLastFit sid stamps sourceLabel n (frame :: next :: rest) ↔
      FitsFrame sid stamps sourceLabel n frame ∧
        AllButLastFit sid stamps sourceLabel (n + 1) (next :: rest) := by
  constructor
  · intro h
    refine ⟨h 0 frame rfl (by simp), fun i f hf hlt => ?_⟩
    have hfits := h (i + 1) f hf (by simpa using hlt)
    rwa [Nat.add_comm i 1, ← Nat.add_assoc] at hfits
  · rintro ⟨hfirst, hrest⟩ i f hf hlt
    cases i with
    | zero =>
      cases hf
      exact hfirst
    | succ i =>
      have hfits := hrest i f hf (by simpa using hlt)
      rwa [Nat.add_right_comm, Nat.add_assoc] at hfits

/-- What one frame does, unless a part of the pipeline fails: its payload is
accepted, and the run goes on exactly when the frame fits. -/
theorem handleFrame_cases (stamps : ℕ → DualTimestamp) (sourceLabel : String) (frame : Frame)
    (st : RunState framer decoder sink.recorded)
    (hno : ∀ e, (handleFrame stamps sourceLabel frame st).1 ≠ .error (.traceMux e)) :
    (handleFrame stamps sourceLabel frame st).2.sink.2 = st.sink.2 ++ [framePayload frame] ∧
      (handleFrame stamps sourceLabel frame st).2.stats.sid = st.stats.sid ∧
      (handleFrame stamps sourceLabel frame st).2.stats.rawFrames = st.stats.rawFrames + 1 ∧
      ((handleFrame stamps sourceLabel frame st).1 = .ok () ↔
        FitsFrame st.stats.sid stamps sourceLabel st.stats.rawFrames frame) := by
  unfold handleFrame at hno ⊢
  simp only at hno ⊢
  split
  · next e ss happend =>
    rw [happend] at hno
    exact absurd rfl (hno e)
  · next ss happend =>
    rw [happend] at hno
    have hpayload := recorded_appendRaw happend
    simp only at hno ⊢
    split
    · next e hencode =>
      refine ⟨hpayload, rfl, rfl, ?_⟩
      constructor
      · intro h
        cases h
      · intro hfits
        have hok := (encode_isOk_iff _).mpr hfits
        rw [encodeDataEnvelope, encodeDataEnvelopeWithKind] at hencode
        rw [hencode] at hok
        cases hok
    · next wire hencode =>
      rw [hencode] at hno
      refine ⟨(drain_recorded ..).1.trans hpayload, (drain_recorded ..).2.1,
        (drain_recorded ..).2.2, iff_of_true (drain_ok hno) ?_⟩
      apply (encode_isOk_iff _).mp
      rw [encodeDataEnvelope, encodeDataEnvelopeWithKind] at hencode
      rw [hencode]
      rfl

theorem handleFrame_of_error {st : RunState framer decoder sink} {ss : sink.State} {e : WireError}
    (happend : sink.appendRaw st.sink (stamps st.stats.rawFrames) .in (framePayload frame) =
      (.ok (), ss))
    (hencode : encodeDataEnvelope st.stats.sid 0 (st.stats.rawFrames + 1)
      (stamps st.stats.rawFrames) (framePayload frame) sourceLabel = .error e) :
    handleFrame stamps sourceLabel frame st =
      (.error (.wire e),
        { st with sink := ss, stats.rawFrames := st.stats.rawFrames + 1 }) := by
  unfold handleFrame
  simp only [happend, hencode]

/-- The loop accepts every payload exactly when every frame but the last fits. -/
theorem runFrames_recorded_iff (stamps : ℕ → DualTimestamp) (sourceLabel : String)
    (frames : List Frame) (st : RunState framer decoder sink.recorded)
    (hno : ∀ e, (runFrames stamps sourceLabel frames st).1 ≠ .error (.traceMux e)) :
    (runFrames stamps sourceLabel frames st).2.sink.2 = st.sink.2 ++ frames.map framePayload ↔
      AllButLastFit st.stats.sid stamps sourceLabel st.stats.rawFrames frames := by
  induction frames generalizing st with
  | nil =>
    constructor
    · intro _ i frame hframe
      cases hframe
    · intro _
      simp [runFrames]
  | cons frame rest ih =>
    have hfirst : ∀ e, (handleFrame stamps sourceLabel frame st).1 ≠ .error (.traceMux e) := by
      intro e he
      apply hno e
      rw [runFrames]
      split
      · next hstop => rw [hstop] at he; exact he
      · next hok => rw [hok] at he; cases he
    obtain ⟨hsink, hsid, hraw, hfits⟩ := handleFrame_cases stamps sourceLabel frame st hfirst
    rw [runFrames] at hno ⊢
    split
    · next e st' hstop =>
      rw [hstop] at hsink hfits
      simp only at hsink
      have hnot : ¬ FitsFrame st.stats.sid stamps sourceLabel st.stats.rawFrames frame := by
        intro hf
        cases hfits.mpr hf
      cases rest with
      | nil =>
        constructor
        · exact fun _ => allButLastFit_single _ _ _ _ _
        · exact fun _ => hsink
      | cons next rest =>
        constructor
        · intro hall
          simp [hsink] at hall
        · intro hall
          exact absurd (allButLastFit_cons.mp hall).1 hnot
    · next st' hok =>
      rw [hok] at hsink hsid hraw hfits hno
      have hrest := ih st' hno
      rw [hsink, hsid, hraw, List.append_assoc] at hrest
      rw [List.map_cons, ← List.singleton_append, hrest]
      cases rest with
      | nil =>
        constructor
        · exact fun _ => allButLastFit_single _ _ _ _ _
        · intro _ i f hf
          cases hf
      | cons next rest =>
        rw [allButLastFit_cons]
        exact ⟨fun h => ⟨hfits.mp rfl, h⟩, And.right⟩

theorem finishRun_recorded (source : Source) (st : RunState framer decoder sink.recorded) :
    (finishRun source st).2.sink.2 = st.sink.2 :=
  finishRun_sink (P := fun s : sink.recorded.State => s.2 = st.sink.2) (fun _ h => h)
    (fun _ h => h) source rfl

end Recording

def quietSink : LogSink Bytes where
  State := Unit
  init := ()
  appendRaw _ _ _ _ := (.ok (), ())
  appendRecord _ _ _ := (.ok (), ())
  commit _ := (.ok (), ())
  close _ := (.ok (), ())

def rawDecoder : Decoder Bytes where
  State := Unit
  init := ()
  decode _ frame := (.ok (some frame), ())

/-- A run of the given payloads through the plain pipeline. -/
def plainRun (payloads : List Bytes) :
    Except RunnerError RunnerStats ×
      Option (RunState passthroughFramer rawDecoder quietSink.recorded) :=
  runSourceOnceNotify passthroughFramer rawDecoder quietSink.recorded .new
    { opening := .ok ⟨"tcp", "lab"⟩, frames := payloads.map .bytes } (fun _ => stampAt 0) 7 {}

/-- A frame of more than `maxFrameBytes` bytes ends the plain run behind its append. -/
theorem plainRun_large {big : Bytes} (hlarge : maxFrameBytes < big.length) (rest : List Bytes) :
    ∃ e st, plainRun (big :: rest) = (.error (.wire e), some st) ∧ st.sink.2 = [big] := by
  cases hencode : encodeDataEnvelope 7 0 1 (stampAt 0) big (sourceLabel ⟨"tcp", "lab"⟩) with
  | ok wire =>
    have hfits := (encode_isOk_iff _).mp (congrArg Except.isOk hencode)
    -- A data frame is at least as long as its body.
    have hbody : (.string "body", .binary big) ∈
        dataPayload 7 0 (stampAt 0) big (sourceLabel ⟨"tcp", "lab"⟩) "bytes" := by
      simp [dataPayload]
    exact absurd hfits (Nat.not_le.mpr (hlarge.trans_le (length_le_toVecNamed rfl hbody)))
  | error e =>
    have hframe : handleFrame (fun _ => stampAt 0) (sourceLabel ⟨"tcp", "lab"⟩) (.bytes big)
        (startRun passthroughFramer rawDecoder quietSink.recorded .new ⟨"tcp", "lab"⟩ 7 {}) = _ :=
      handleFrame_of_error rfl hencode
    unfold plainRun runSourceOnceNotify
    simp only [List.map_cons, runFrames, hframe]
    exact ⟨e, _, rfl, rfl⟩

/-- When no source, framer, decoder or sink fails, a run appends the payload of
every frame, in order and once, exactly when every frame but the last fits into one
wire frame. A frame that does not fit ends the run behind its own append. -/
theorem run_records_all_iff {Record : Type} {framer : Framer} {decoder : Decoder Record}
    {sink : LogSink Record} {ingest : Ingest} {source : Source}
    {stamps : ℕ → DualTimestamp} {freshSid : Uuid} {options : RunnerNotifyOptions}
    (hno : ∀ e, (runSourceOnceNotify framer decoder sink.recorded ingest source stamps freshSid
      options).1 ≠ .error (.traceMux e)) :
    ∃ channel st,
      source.opening = .ok channel ∧
      (runSourceOnceNotify framer decoder sink.recorded ingest source stamps freshSid
        options).2 = some st ∧
      (st.sink.2 = source.frames.map framePayload ↔
        AllButLastFit (ingest.registerSession (options.sidOverride.getD freshSid) channel.kind
          channel.iface options.label).1 stamps (sourceLabel channel) 0 source.frames) := by
  unfold runSourceOnceNotify at hno ⊢
  cases hopen : source.opening with
  | error e =>
    rw [hopen] at hno
    exact absurd rfl (hno e)
  | ok channel =>
    rw [hopen] at hno
    simp only at hno ⊢
    have hiff := runFrames_recorded_iff stamps (sourceLabel channel) source.frames
      (startRun framer decoder sink.recorded ingest channel freshSid options)
    cases hrun : runFrames stamps (sourceLabel channel) source.frames
        (startRun framer decoder sink.recorded ingest channel freshSid options) with
    | mk result st =>
      rw [hrun] at hno hiff
      cases result with
      | error e =>
        refine ⟨channel, st, rfl, rfl, hiff fun e' he => hno e' ?_⟩
        cases he
        rfl
      | ok u =>
        refine ⟨channel, (finishRun source st).2, rfl, rfl, ?_⟩
        rw [finishRun_recorded]
        exact hiff (fun e he => by cases he)

/-- Two small frames are both recorded. -/
theorem run_records_all_small :
    (∀ e, (plainRun [[1, 2], [3]]).1 ≠ .error (.traceMux e)) ∧
      ∃ st, (plainRun [[1, 2], [3]]).2 = some st ∧ st.sink.2 = [[1, 2], [3]] := by
  have hok : (plainRun [[1, 2], [3]]).1.isOk = true := by decide +kernel
  have hno : ∀ e, (plainRun [[1, 2], [3]]).1 ≠ .error (.traceMux e) := by
    intro e he
    rw [he] at hok
    cases hok
  obtain ⟨channel, st, hopen, hst, hiff⟩ := run_records_all_iff hno
  cases hopen
  refine ⟨hno, st, hst, hiff.mpr ?_⟩
  intro i frame hframe hlt
  have hzero : i = 0 := Nat.lt_one_iff.mp (Nat.lt_of_succ_lt_succ hlt)
  rw [hzero] at hframe ⊢
  cases hframe
  unfold FitsFrame
  decide +kernel

/-- A frame of one byte more than `maxFrameBytes` with another behind it: no part of
the pipeline fails, and the second frame is not recorded. -/
theorem run_stops_at_large_frame :
    (∀ e, (plainRun [List.replicate (maxFrameBytes + 1) 0, [1]]).1 ≠ .error (.traceMux e)) ∧
      ∃ st, (plainRun [List.replicate (maxFrameBytes + 1) 0, [1]]).2 = some st ∧
        st.sink.2 = [List.replicate (maxFrameBytes + 1) 0] := by
  have hlarge : maxFrameBytes < (List.replicate (maxFrameBytes + 1) (0 : UInt8)).length := by
    rw [List.length_replicate]
    exact Nat.lt_succ_self _
  obtain ⟨e, st, hrun, hsink⟩ := plainRun_large hlarge [[1]]
  rw [hrun]
  exact ⟨fun _ => nofun, st, rfl, hsink⟩

end TraceMux.Server.Runner
