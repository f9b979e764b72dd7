/-
# What the runner hands to its decoder

The runner frames, decodes and logs in one loop. As far as the framer is concerned, a run
that ends well has fed it the payloads of the source as chunks: the decoder was given the
frames, and the buffer holds what was left over. An error of the framer ends the run.
-/

import TraceMux.Core.Framer.Line
import TraceMux.Server.Runner

namespace TraceMux.Core

open Base

/-- The frames a decoder was given, kept beside its own state. -/
def Decoder.given {Record : Type} (decoder : Decoder Record) : Decoder Record where
  State := decoder.State × List Bytes
  init := (decoder.init, [])
  decode s frame :=
    let r := decoder.decode s.1 frame
    (r.1, r.2, s.2 ++ [frame])

end TraceMux.Core

namespace TraceMux.Server.Runner

open Base TraceMux.Core

variable {Record : Type} {framer : Framer} {decoder : Decoder Record} {sink : LogSink Record}

variable {st st' : RunState framer decoder.given sink} {stamps : ℕ → DualTimestamp}
  {sourceLabel : String}

theorem drain_given {ts : DualTimestamp} (h : (drain ts st).1 = .ok ()) :
    ∃ frames, (drain ts st).2.decoder.2 = st.decoder.2 ++ frames ∧
      framer.drain st.framer st.buf =
        (frames, .ok ((drain ts st).2.framer, (drain ts st).2.buf)) := by
  fun_induction drain ts st with
  | case1 => cases h
  | case2 st fs buf hpoll =>
    refine ⟨[], (List.append_nil _).symm, ?_⟩
    exact Framer.drain_of_none hpoll
  | case3 => cases h
  | case4 st framed fs buf hpoll _ ds hdecode ih
  | case6 st framed fs buf hpoll _ record ds hdecode _ ss happend ih =>
    obtain ⟨frames, hgiven, hdrain⟩ := ih h
    refine ⟨framed :: frames, ?_, ?_⟩
    · obtain rfl : _ = ds := congrArg Prod.snd hdecode
      rw [hgiven]
      exact List.append_assoc _ [framed] frames
    · rw [Framer.drain_of_frame hpoll, hdrain]
  | case5 => cases h

/-- A run that ends well has fed the framer: the decoder was given its frames, and the buffer
holds what is left over. -/
theorem runFrames_given {frames : List Frame}
    (h : runFrames stamps sourceLabel frames st = (.ok (), st')) :
    ∃ given, st'.decoder.2 = st.decoder.2 ++ given ∧
      framer.feed st.framer st.buf (frames.map framePayload) = (given, .ok st'.buf) := by
  induction frames generalizing st with
  | nil =>
    cases h
    exact ⟨[], (List.append_nil _).symm, rfl⟩
  | cons frame frames ih =>
    rw [runFrames] at h
    split at h
    · cases h
    · next st₁ hframe =>
      obtain ⟨first, hfirst, hdrain⟩ : ∃ first, st₁.decoder.2 = st.decoder.2 ++ first ∧
          framer.drain st.framer (st.buf ++ framePayload frame) =
            (first, .ok (st₁.framer, st₁.buf)) := by
        unfold handleFrame at hframe
        simp only at hframe
        split at hframe
        · cases hframe
        · split at hframe
          · cases hframe
          · have hstate := congrArg Prod.snd hframe
            obtain ⟨first, hgiven, hdrain⟩ := drain_given (congrArg Prod.fst hframe)
            rw [hstate] at hgiven hdrain
            exact ⟨first, hgiven, hdrain⟩
      obtain ⟨later, hlater, hfeed⟩ := ih h
      refine ⟨first ++ later, by rw [hlater, hfirst, List.append_assoc], ?_⟩
      rw [List.map_cons, Framer.feed, hdrain]
      simp only
      rw [hfeed]

/-- Lines with a fixed terminator: over a run that ends well the decoder is given every line
that the source has ended, however the source divides them, and an open line at the end is
given to nobody. -/
theorem run_decodes_lines {f : LineFramer} {term : Bytes} (hterm : f.eol.terminator? = some term)
    {ingest : Ingest} {source : Source} {freshSid : Uuid} {options : RunnerNotifyOptions}
    {stats : RunnerStats} {st : RunState f.cutting.framer decoder.given sink}
    (hrun : runSourceOnceNotify f.cutting.framer decoder.given sink ingest source stamps freshSid
      options = (.ok stats, some st)) :
    st.decoder.2.flatMap (· ++ term) ++ st.buf = (source.frames.map framePayload).flatten ∧
      (∀ line ∈ st.decoder.2, ¬ term <:+: line) ∧ ¬ term <:+: st.buf := by
  unfold runSourceOnceNotify at hrun
  split at hrun
  · cases hrun
  · split at hrun
    · cases hrun
    · next st₁ hframes =>
      -- The end of the run leaves the decoder and the buffer alone.
      obtain ⟨hdecoder, hbuf⟩ : st.decoder = st₁.decoder ∧ st.buf = st₁.buf := by
        obtain ⟨-, hst⟩ := Prod.mk.inj hrun
        rw [← Option.some.inj hst]
        unfold finishRun
        repeat' split
        all_goals exact ⟨rfl, rfl⟩
      obtain ⟨given, hgiven, hfeed⟩ := runFrames_given hframes
      obtain ⟨rfl, hrest⟩ := LineFramer.feed_eq_lines hterm hfeed
      have hlines :
          st.decoder.2 = LineFramer.lines f.eol (source.frames.map framePayload).flatten :=
        (congrArg Prod.snd hdecoder).trans hgiven
      rw [hlines, hbuf, hrest]
      refine ⟨LineFramer.flatMap_lines hterm _, fun line hline => ?_, ?_⟩
      · exact LineFramer.not_infix_of_plain hterm (LineFramer.plain_of_mem_lines hline)
      · exact LineFramer.not_infix_of_plain hterm (LineFramer.plain_unterminated _ _)

/-- A line that is divided, and one that is not ended. -/
def lineRun : Except RunnerError RunnerStats ×
    Option (RunState (LineFramer.mk .lf 9).cutting.framer rawDecoder.given quietSink) :=
  runSourceOnceNotify _ _ _ .new
    { opening := .ok ⟨"tcp", "lab"⟩, frames := [.bytes [97], .bytes [98, 10, 99]] }
    (fun _ => stampAt 0) 7 {}

theorem run_decodes_lines_divided :
    ∃ stats st, lineRun = (.ok stats, some st) ∧
      st.decoder.2.flatMap (· ++ [10]) ++ st.buf = [97, 98, 10, 99] := by
  have hends : lineRun.1.isOk = true ∧ lineRun.2.isSome = true := by decide +kernel
  rcases hrun : lineRun with ⟨_ | stats, _ | st⟩ <;> rw [hrun] at hends
  · cases hends.1
  · cases hends.1
  · cases hends.2
  · exact ⟨stats, st, rfl, (run_decodes_lines rfl hrun).1⟩

end TraceMux.Server.Runner
