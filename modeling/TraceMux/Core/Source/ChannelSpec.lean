/-
# Channel specifications

What a client asks the server to open. The variants and their fields are those of
the configuration schema; machine integers stand for their values.
-/

import Mathlib.Data.Nat.Notation

namespace TraceMux.Core.Source

/-- Where a packet capture is persisted. -/
inductive PcapSaveMode
  | session
  | pcapng
  | both
  deriving DecidableEq, Repr

/-- How much of a packet capture is published live. -/
inductive PcapPublishMode
  | statsOnly
  | sampled
  | full
  deriving DecidableEq, Repr

/-- The parameters of a packet capture. -/
structure PcapConfig where
  interface : String := ""
  displayName : Option String := none
  promiscuous : Bool := false
  snaplen : ℕ := 65535
  bufferBytes : Option ℕ := none
  timeoutMs : ℕ := 1000
  immediate : Bool := false
  filter : Option String := none
  saveMode : PcapSaveMode := .session
  pcapngPath : Option String := none
  publishMode : PcapPublishMode := .statsOnly
  deriving DecidableEq, Repr

inductive ChannelSpec
  | serial (port : String) (baud dataBits : ℕ) (parity : String) (stopBits : ℕ) (flow : String)
  | tcp (addr : String)
  | udp (bind : String)
  | pcap (config : PcapConfig)
  | file (path : String) (follow : Bool)
  | pipe (path : String)
  | process (argv : List String)
  | mock (tag : String)
  | replay (path : String)
  | syslog (bind : String)
  | mqtt (broker topic : String)
  | httpWebhook (bind path : String)
  | telnet (addr : String)
  | ssh (addr user : String)
  | visa (resource : String)
  | remote (url : String)
  | journald (unit : Option String)
  | winEventLog (channel : String)
  | etw (provider : String)
  | jLinkRtt (channel : ℕ)
  | canBus (iface : String)
  deriving DecidableEq, Repr

end TraceMux.Core.Source
