/-
# The UDP sink

The sink of a UDP source sends on the socket of the source. A datagram goes to the target that
a control call has set for it, or to the last peer that the source has heard from.
-/

import TraceMux.Base.Lines
import TraceMux.Core.ErrorId

namespace TraceMux.Core.Sink

open Base

/-- What the libraries do with texts and addresses. -/
structure Net (Addr : Type) where
  fromUtf8 : Bytes → Except String String
  /-- The bytes of a text are read back. -/
  fromUtf8_encode : ∀ text : String, fromUtf8 (Lines.encode text.toList) = .ok text
  parse : String → Except String Addr
  display : Addr → String
  /-- A text in quotes. -/
  debug : String → String

variable {Addr : Type}

structure UdpSink (Addr : Type) where
  nextTarget : Option Addr := none

/-- The target of the next datagram. It is used once. -/
def UdpSink.resolveTarget (lastPeer : Option Addr) (sink : UdpSink Addr) :
    Except TraceMuxError Addr × UdpSink Addr :=
  match sink.nextTarget with
  | some target => (.ok target, { sink with nextTarget := none })
  | none =>
    match lastPeer with
    | some peer => (.ok peer, sink)
    | none => (.error ⟨.E2001WireMalformed,
        "udp write target is required before any peer has sent data"⟩, sink)

/-- The error of a datagram that cannot be sent. -/
def sendError (net : Net Addr) (target : Addr) (reason : String) : TraceMuxError :=
  ⟨.E1102SourceClosed, s!"udp send {net.display target}: {reason}"⟩

/-- Control calls. Only the one for the next target does anything. -/
def UdpSink.ctl (net : Net Addr) (kind : String) (data : Option Bytes) (sink : UdpSink Addr) :
    Except TraceMuxError Unit × UdpSink Addr :=
  if kind ≠ "udp-next-target" then (.ok (), sink)
  else
    match data with
    | none => (.ok (), { sink with nextTarget := none })
    | some data =>
      match net.fromUtf8 data with
      | .error e => (.error ⟨.E2001WireMalformed, s!"udp target utf8: {e}"⟩, sink)
      | .ok text =>
        match net.parse text with
        | .error e => (.error ⟨.E2001WireMalformed,
            s!"udp target address {net.debug text}: {e}"⟩, sink)
        | .ok target => (.ok (), { sink with nextTarget := some target })

theorem UdpSink.resolveTarget_snd (lastPeer : Option Addr) (sink : UdpSink Addr) :
    (sink.resolveTarget lastPeer).2 = ⟨none⟩ := by
  obtain ⟨nextTarget⟩ := sink
  cases nextTarget with
  | some target => rfl
  | none => cases lastPeer <;> rfl

theorem UdpSink.resolveTarget_eq_ok {lastPeer : Option Addr} {sink : UdpSink Addr} {target : Addr}
    (h : (sink.resolveTarget lastPeer).1 = .ok target) :
    (sink.nextTarget.or lastPeer) = some target := by
  obtain ⟨_ | next⟩ := sink
  · cases lastPeer with
    | none => cases h
    | some peer => exact congrArg some (Except.ok.inj h)
  · exact congrArg some (Except.ok.inj h)

end TraceMux.Core.Sink
