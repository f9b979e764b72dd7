/-
# The error registry

Every public error of the program carries a stable identifier and a message.
The registry is closed: an identifier is one of the codes below, and each code
has its own text.
-/

import Mathlib.Data.List.Basic

namespace TraceMux.Core

/-- Stable identifiers of the public errors. -/
inductive ErrorId
  | E1001PipelineGeneric
  | E1002Backpressure
  | E1003FramerOverflow
  | E1101SourceOpen
  | E1102SourceClosed
  | E1103PcapBackendUnavailable
  | E1104PcapPermissionDenied
  | E1105PcapInvalidFilter
  | E1106PcapInterfaceUnavailable
  | E1301DecoderSchema
  | E1401WalFsync
  | E1402RotateFail
  | E2001WireMalformed
  | E2002WireLimit
  | E2101AuthRejected
  | E2102TlsHandshake
  | E2103TofuMismatch
  deriving DecidableEq, Repr

/-- The code printed in front of every message. -/
def ErrorId.code : ErrorId → String
  | .E1001PipelineGeneric => "E-1001"
  | .E1002Backpressure => "E-1002"
  | .E1003FramerOverflow => "E-1003"
  | .E1101SourceOpen => "E-1101"
  | .E1102SourceClosed => "E-1102"
  | .E1103PcapBackendUnavailable => "E-1103"
  | .E1104PcapPermissionDenied => "E-1104"
  | .E1105PcapInvalidFilter => "E-1105"
  | .E1106PcapInterfaceUnavailable => "E-1106"
  | .E1301DecoderSchema => "E-1301"
  | .E1401WalFsync => "E-1401"
  | .E1402RotateFail => "E-1402"
  | .E2001WireMalformed => "E-2001"
  | .E2002WireLimit => "E-2002"
  | .E2101AuthRejected => "E-2101"
  | .E2102TlsHandshake => "E-2102"
  | .E2103TofuMismatch => "E-2103"

/-- The crate-wide error. The wrapped cause is kept by the program for its
operator only, and nothing branches on it. -/
structure TraceMuxError where
  id : ErrorId
  message : String
  deriving DecidableEq, Repr

namespace TraceMuxError

/-- The text under which an error is shown. -/
def display (e : TraceMuxError) : String := s!"{e.id.code}: {e.message}"

end TraceMuxError

end TraceMux.Core
