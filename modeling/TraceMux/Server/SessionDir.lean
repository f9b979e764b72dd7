/-
# The directory of a source

A persistent source is given a directory under the session root when it is
started, named after its specification and the clock; a source that is resumed
or restarted keeps the one it has.
-/

import TraceMux.Core.SessionName
import TraceMux.Core.Source.ChannelSpec

namespace TraceMux.Server

open Base Core.Source Core.SessionName

/-- How content detection is used for a source. -/
inductive DetectionMode
  | configured
  | auto
  | suggest
  | off
  deriving DecidableEq, Repr

/-- The modes in which a source is sampled. -/
def DetectionMode.samples : DetectionMode → Bool
  | .auto | .suggest => true
  | .configured | .off => false

structure ClassificationRule where
  contains : String := ""
  regex : Option String := none
  tag : String
  caseSensitive : Bool := false
  deriving DecidableEq, Repr

structure SourceStartOptions where
  classifier : Option (List ClassificationRule) := none
  encoding : Option String := none
  detectionMode : Option DetectionMode := none
  sessionNamePattern : Option Text := none
  label : Option String := none
  deriving DecidableEq, Repr

/-- New settings win over the ones a source was started with. -/
def mergeStartOptions (base overrides : SourceStartOptions) : SourceStartOptions where
  classifier := overrides.classifier.or base.classifier
  encoding := overrides.encoding.or base.encoding
  detectionMode := overrides.detectionMode.or base.detectionMode
  sessionNamePattern := overrides.sessionNamePattern.or base.sessionNamePattern
  label := overrides.label.or base.label

/-- The kind of a source as it stands in names. -/
def kindTag : ChannelSpec → Text
  | .file .. => "file".toList
  | .tcp .. => "tcp".toList
  | .udp .. => "udp".toList
  | .pcap .. => "pcap".toList
  | .serial .. => "serial".toList
  | .process .. => "process".toList
  | .pipe .. => "pipe".toList
  | .mock .. => "mock".toList
  | .replay .. => "replay".toList
  | .syslog .. => "syslog".toList
  | .mqtt .. => "mqtt".toList
  | .httpWebhook .. => "http-webhook".toList
  | .telnet .. => "telnet".toList
  | .ssh .. => "ssh".toList
  | .remote .. => "remote".toList
  | .visa .. | .journald .. | .winEventLog .. | .etw .. | .jLinkRtt .. | .canBus .. =>
    "other".toList

def sanitize (s : Text) : Text := s.map safeChar

/-- The last component of a path, as the Unix path library finds it: empty and
`.` components do not count, and a path that ends in `..` has none. -/
def fileName (path : Text) : Option Text :=
  match ((path.splitOn '/').filter fun part => part ≠ [] ∧ part ≠ ['.']).getLast? with
  | none => none
  | some last => if last = ['.', '.'] then none else some last

/-- The interface of a source as it stands in names. -/
def ifaceTag : ChannelSpec → Text
  | .serial port .. => sanitize port.toList
  | .tcp addr => sanitize addr.toList
  | .telnet addr => sanitize addr.toList
  | .ssh addr _ => sanitize addr.toList
  | .udp bind => sanitize bind.toList
  | .syslog bind => sanitize bind.toList
  | .httpWebhook bind _ => sanitize bind.toList
  | .pcap config => sanitize config.interface.toList
  | .file path _ => sanitize ((fileName path.toList).getD "file".toList)
  | .pipe path => sanitize ((fileName path.toList).getD "file".toList)
  | .process argv =>
    sanitize ((fileName (argv.head?.getD "proc").toList).getD "proc".toList)
  | .mqtt _ topic => sanitize topic.toList
  | .mock tag => sanitize tag.toList
  | .replay path => sanitize path.toList
  | .remote url => sanitize url.toList
  | .visa .. | .journald .. | .winEventLog .. | .etw .. | .jLinkRtt .. | .canBus .. =>
    "iface".toList

structure UtcDateTime where
  year : ℤ
  month : ℕ
  day : ℕ
  hour : ℕ
  minute : ℕ
  second : ℕ
  deriving DecidableEq, Repr

/-- What the system clock shows at a start: the time since the epoch in
nanoseconds, zero before it, and the calendar time. -/
structure ClockReading where
  sinceEpochNs : ℕ
  utc : UtcDateTime
  deriving DecidableEq, Repr

/-- The clock `ns` nanoseconds into the first second after the epoch. -/
def ClockReading.epoch (ns : ℕ := 0) : ClockReading := ⟨ns, ⟨1970, 1, 1, 0, 0, 0⟩⟩

def i64Max : ℕ := 2 ^ 63 - 1

def unixNsNow (clock : ClockReading) : ℕ := min clock.sinceEpochNs i64Max

/-- The calendar time without separators. -/
def compactUtcTimestamp (clock : ClockReading) : Text :=
  Text.ofIntPadded 4 clock.utc.year ++ Text.ofIntPadded 2 clock.utc.month ++
    Text.ofIntPadded 2 clock.utc.day ++ ['-'] ++ Text.ofIntPadded 2 clock.utc.hour ++
    Text.ofIntPadded 2 clock.utc.minute ++ Text.ofIntPadded 2 clock.utc.second

abbrev Path := List Text

/-- The values that a new directory name is made of. -/
def sessionNameParts (spec : ChannelSpec) (clock : ClockReading) : SessionNameParts where
  namePrefix := "tracemux".toList
  kind := kindTag spec
  iface := ifaceTag spec
  timestamp := compactUtcTimestamp clock
  unixNs := unixNsNow clock

def sessionDirName (spec : ChannelSpec) (pattern : Text) (clock : ClockReading) : Text :=
  renderSessionName pattern (sessionNameParts spec clock)

/-- The settings of the source manager that decide where sources are persisted. -/
structure ManagerConfig where
  sessionRoot : Option Path := none
  sessionNamePattern : Text := defaultServerSessionNamePattern
  deriving DecidableEq, Repr

def ManagerConfig.patternFor (config : ManagerConfig) (options : SourceStartOptions) : Text :=
  options.sessionNamePattern.getD config.sessionNamePattern

/-- The directory of a source: the one it has, or a new one under the root. -/
def sessionDirFor (config : ManagerConfig) (spec : ChannelSpec) (reuse : Option Path)
    (options : SourceStartOptions) (clock : ClockReading) : Option Path :=
  reuse.or (config.sessionRoot.map fun root =>
    root ++ [sessionDirName spec (config.patternFor options) clock])

end TraceMux.Server
