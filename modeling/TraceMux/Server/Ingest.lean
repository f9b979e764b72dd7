/-
# Ingest

The shared bookkeeping between the runners and the connections: which sessions
there are, the broadcast channel of each, and the counters of each. A frame is
published by handing it to the channel of its session; a session that is not
registered swallows it.
-/

import TraceMux.Base.Broadcast
import TraceMux.Base.ByteFile
import TraceMux.Core.Time

namespace TraceMux.Server

open Base Base.Broadcast TraceMux.Core

/-- Channels in the order in which they are made. -/
abbrev FanoutId := ℕ

def defaultCapacity : ℕ := 1024

/-- What is known of a registered session. -/
structure SessionState where
  sid : Uuid
  kind : String
  iface : String
  label : Option String
  fanout : FanoutId
  deriving DecidableEq, Repr

/-- Counters of one session. -/
structure IngestStats where
  framesIn : ℕ := 0
  bytesLogged : ℕ := 0
  dropped : ℕ := 0
  deriving DecidableEq, Repr

/-- The registry, the channels of all sessions that were ever registered, and the
counters. -/
structure Ingest where
  registry : Uuid → Option SessionState
  fanouts : FanoutId → Channel Bytes
  nextFanout : FanoutId
  stats : Uuid → Option IngestStats

namespace Ingest

def new : Ingest where
  registry _ := none
  fanouts _ := Channel.new defaultCapacity
  nextFanout := 0
  stats _ := none

/-- Register a session under an id, unless the id is taken; its channel is new. -/
def registerSession (ig : Ingest) (sid : Uuid) (kind iface : String) (label : Option String) :
    Uuid × Ingest :=
  match ig.registry sid with
  | some existing => (existing.sid, ig)
  | none =>
    (sid,
      { ig with
        registry :=
          Function.update ig.registry sid (some ⟨sid, kind, iface, label, ig.nextFanout⟩)
        nextFanout := ig.nextFanout + 1 })

/-- Forget a session. Its receivers keep what its channel still holds. -/
def removeSession (ig : Ingest) (sid : Uuid) : Ingest :=
  { ig with registry := Function.update ig.registry sid none }

def statsOf (ig : Ingest) (sid : Uuid) : IngestStats := (ig.stats sid).getD {}

def recordFrame (ig : Ingest) (sid : Uuid) (bytes : ℕ) : Ingest :=
  let e := ig.statsOf sid
  { ig with
    stats := Function.update ig.stats sid
      (some { e with framesIn := e.framesIn + 1, bytesLogged := e.bytesLogged + bytes }) }

def recordDrop (ig : Ingest) (sid : Uuid) (n : ℕ) : Ingest :=
  let e := ig.statsOf sid
  { ig with stats := Function.update ig.stats sid (some { e with dropped := e.dropped + n }) }

def publishWire (ig : Ingest) (sid : Uuid) (bytes : Bytes) : Option ℕ × Ingest :=
  match ig.registry sid with
  | none => (none, ig)
  | some session =>
    let sent := (ig.fanouts session.fanout).send bytes
    (some (sent.1.getD 0),
      recordFrame { ig with fanouts := Function.update ig.fanouts session.fanout sent.2 } sid
        bytes.length)

end Ingest

end TraceMux.Server
