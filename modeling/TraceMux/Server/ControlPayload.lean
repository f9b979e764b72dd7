/-
# Payloads of control requests

A client asks for a source by a map: what to open, and the options of the start. A field
that is missing, of another type or out of range is refused with a text that names it. The
fields are read in the order of the source, so that the text names the first one that is
wrong. Texts of the client go into two kinds of refusals as they are: an unknown kind of
source and an unknown mode of a capture.
-/

import TraceMux.Server.RemoteMirror
import TraceMux.Server.SessionDir

namespace TraceMux.Server

open Base Base.MsgPack Core.Source
open Server.RemoteMirror (mapGet mapStr)

def DetectionMode.asStr : DetectionMode → String
  | .configured => "configured"
  | .auto => "auto"
  | .suggest => "suggest"
  | .off => "off"

def DetectionMode.parse (value : String) : Option DetectionMode :=
  match String.ofList ((Text.trim value.toList).map Char.toLower) with
  | "configured" | "default" | "defaults" => some .configured
  | "auto" | "automatic" => some .auto
  | "suggest" | "suggestion" | "suggestions" => some .suggest
  | "off" | "none" | "disabled" => some .off
  | _ => none

/-- What a rule of the classifier looks for. -/
inductive ClassificationMatchKind
  | contains
  | regex
  deriving DecidableEq, Repr

namespace ClassificationRule

/-- A rule has a regular expression unless it is empty. -/
def matchKind (rule : ClassificationRule) : ClassificationMatchKind :=
  match rule.regex with
  | some pattern => if pattern = "" then .contains else .regex
  | none => .contains

/-- The text a rule looks for. -/
def pattern (rule : ClassificationRule) : String :=
  match rule.regex with
  | some pattern => if pattern = "" then rule.contains else pattern
  | none => rule.contains

/-- Whether a rule can be evaluated. `builds` says of a pattern, and of whether case is
ignored, that it is a regular expression. -/
def isValid (builds : String → Bool → Bool) (rule : ClassificationRule) : Bool :=
  rule.matchKind = .contains || builds rule.pattern (!rule.caseSensitive)

end ClassificationRule

namespace Requests

def requiredText (message : String) (value : Value) (key : String) : Except String String :=
  match mapStr value key with
  | some s => .ok s
  | none => .error message

/-- A text without the blanks around it, or nothing. -/
def trimmed (s : String) : Option String :=
  match Text.trim s.toList with
  | [] => none
  | c :: rest => some (String.ofList (c :: rest))

/-- A field of text that may be missing or blank. -/
def optionalText (message : String) (value : Value) (key : String) :
    Except String (Option String) :=
  match mapGet value key with
  | some (.string s) => .ok (trimmed s)
  | some _ => .error message
  | none => .ok none

/-- A number of `width` bits in a field. -/
def unsigned (width : ℕ) (key : String) (v : Value) : Except String ℕ :=
  match v.asU64 with
  | none => .error s!"spec.{key} integer is required"
  | some n => if n < 2 ^ width then .ok n else .error s!"spec.{key} is out of range"

/-- A number that has to be there. -/
def requiredUnsigned (width : ℕ) (value : Value) (key : String) : Except String ℕ :=
  match mapGet value key with
  | none => .error s!"spec.{key} integer is required"
  | some v => unsigned width key v

/-- The first of several names of a field that is there decides. -/
def optionalAny {α : Type} (read : Value → String → Except String α) (value : Value)
    (keys : List String) (default : α) : Except String α :=
  match keys.find? fun key => (mapGet value key).isSome with
  | some key => read value key
  | none => .ok default

def requiredStr (value : Value) (key : String) : Except String String :=
  requiredText s!"spec.{key} string is required" value key

def optionalBool (value : Value) (key : String) (default : Bool) : Except String Bool :=
  match mapGet value key with
  | some (.boolean b) => .ok b
  | some _ => .error s!"spec.{key} bool is required"
  | none => .ok default

def optionalBoolAny (value : Value) (keys : List String) (default : Bool) : Except String Bool :=
  optionalAny (fun value key => optionalBool value key default) value keys default

def optionalStr (value : Value) (key : String) : Except String (Option String) :=
  optionalText s!"spec.{key} string is required" value key

def optionalStrAny (value : Value) (keys : List String) : Except String (Option String) :=
  optionalAny optionalStr value keys none

def optionalU32 (value : Value) (key : String) (default : ℕ) : Except String ℕ :=
  match mapGet value key with
  | some v => unsigned 32 key v
  | none => .ok default

def optionalU32Any (value : Value) (keys : List String) (default : ℕ) : Except String ℕ :=
  optionalAny (fun value key => optionalU32 value key default) value keys default

def optionalU32OptionAny (value : Value) (keys : List String) : Except String (Option ℕ) :=
  optionalAny (fun value key => (optionalU32 value key 0).map some) value keys none

def requiredU32 (value : Value) (key : String) : Except String ℕ := requiredUnsigned 32 value key

def requiredU8 (value : Value) (key : String) : Except String ℕ := requiredUnsigned 8 value key

def requiredStringArray (value : Value) (key : String) : Except String (List String) :=
  match mapGet value key with
  | some (.array items) => items.mapM fun item =>
    match item.asStr with
    | some s => .ok s
    | none => .error s!"spec.{key} items must be strings"
  | _ => .error s!"spec.{key} string array is required"

def optionalPayloadStr (value : Value) (key : String) : Except String (Option String) :=
  optionalText s!"start.{key} string is required" value key

def detectionModeFromPayload (value : Value) : Except String (Option DetectionMode) := do
  match ← optionalPayloadStr value "detection_mode" with
  | none => return none
  | some raw =>
    match DetectionMode.parse raw with
    | some mode => return some mode
    | none => throw "start.detection_mode must be configured, auto, suggest, or off"

def classifierRuleStr (value : Value) (key : String) : Except String String :=
  requiredText s!"start.classifier[].{key} string is required" value key

def classifierRuleOptionalStr (value : Value) (key : String) : Except String (Option String) :=
  optionalText s!"start.classifier[].{key} string is required" value key

/-- A rule of the classifier; one without a tag or without a pattern is left out. -/
def classifierRule (contains regex : Option String) (tag : String) (caseSensitive : Bool) :
    Except String (Option ClassificationRule) :=
  if trimmed tag = none then .ok none
  else
    match contains, regex with
    | some _, some _ => .error "start.classifier[] must specify only one of contains or regex"
    | some contains, none =>
      .ok (if trimmed contains = none then none
        else some { contains := contains, tag := tag, caseSensitive := caseSensitive })
    | none, some regex =>
      .ok (if trimmed regex = none then none
        else some { regex := some regex, tag := tag, caseSensitive := caseSensitive })
    | none, none => .ok none

/-- Whether a rule of the client looks at case. -/
def caseSensitiveOf (item : Value) : Except String Bool :=
  match mapGet item "case_sensitive" with
  | some (.boolean b) => .ok b
  | some _ => .error "start.classifier[].case_sensitive bool is required"
  | none => .ok false

def classifierRules (builds : String → Bool → Bool) :
    List Value → Except String (List ClassificationRule)
  | [] => .ok []
  | item :: rest => do
      let tag ← classifierRuleStr item "tag"
      let caseSensitive ← caseSensitiveOf item
      let contains ← classifierRuleOptionalStr item "contains"
      let regex ← classifierRuleOptionalStr item "regex"
      match ← classifierRule contains regex tag caseSensitive with
      | none => classifierRules builds rest
      | some rule =>
        if rule.isValid builds then
          return rule :: (← classifierRules builds rest)
        else throw "start.classifier[].regex is not a valid regular expression"

def classifierFromPayload (builds : String → Bool → Bool) (value : Value) :
    Except String (Option (List ClassificationRule)) :=
  match mapGet value "classifier" with
  | none => .ok none
  | some (.array items) => (classifierRules builds items).map some
  | some _ => .error "start.classifier array is required"

def startOptionsFromPayload (builds : String → Bool → Bool) (value : Value) :
    Except String SourceStartOptions := do
  let encoding ← optionalPayloadStr value "encoding"
  let detectionMode ← detectionModeFromPayload value
  let sessionNamePattern ← optionalPayloadStr value "session_name_pattern"
  let classifier ← classifierFromPayload builds value
  return {
    classifier := classifier
    encoding := encoding
    detectionMode := detectionMode
    sessionNamePattern := sessionNamePattern.map String.toList }

def parsePcapSaveMode : String → Except String PcapSaveMode
  | "session" | "session-dir" => .ok .session
  | "pcapng" => .ok .pcapng
  | "both" => .ok .both
  | other => .error s!"unsupported pcap save mode: {other}"

def parsePcapPublishMode : String → Except String PcapPublishMode
  | "stats" | "stats-only" => .ok .statsOnly
  | "sample" | "sampled" => .ok .sampled
  | "full" | "packet-list" => .ok .full
  | other => .error s!"unsupported pcap publish mode: {other}"

/-- A packet capture. -/
def pcapConfigFromValue (value : Value) : Except String PcapConfig := do
  let saveMode ← (← optionalStrAny value ["save_mode", "save"]).mapM parsePcapSaveMode
  let publishMode ←
    (← optionalStrAny value ["publish_mode", "publish"]).mapM parsePcapPublishMode
  let interface ← requiredStr value "interface"
  let displayName ← optionalStrAny value ["display_name", "display"]
  let promiscuous ← optionalBoolAny value ["promiscuous", "promisc"] false
  let snaplen ← optionalU32 value "snaplen" 65535
  let bufferBytes ← optionalU32OptionAny value ["buffer_bytes", "buffer"]
  let timeoutMs ← optionalU32Any value ["timeout_ms", "timeout"] 1000
  let immediate ← optionalBool value "immediate" false
  let filter ← optionalStr value "filter"
  let pcapngPath ← optionalStrAny value ["pcapng_path", "pcapng"]
  return {
    interface := interface
    displayName := displayName
    promiscuous := promiscuous
    snaplen := snaplen
    bufferBytes := bufferBytes
    timeoutMs := timeoutMs
    immediate := immediate
    filter := filter
    saveMode := saveMode.getD .session
    pcapngPath := pcapngPath
    publishMode := publishMode.getD .statsOnly }

/-- What a client asks to open. -/
def channelSpecFromValue (value : Value) : Except String ChannelSpec := do
  let kind ← requiredStr value "kind"
  match kind with
  | "serial" =>
    return .serial (← requiredStr value "port") (← requiredU32 value "baud")
      (← requiredU8 value "data_bits") (← requiredStr value "parity")
      (← requiredU8 value "stop_bits") (← requiredStr value "flow")
  | "tcp" => return .tcp (← requiredStr value "addr")
  | "udp" => return .udp (← requiredStr value "bind")
  | "pcap" => return .pcap (← pcapConfigFromValue value)
  | "file" => return .file (← requiredStr value "path") (← optionalBool value "follow" false)
  | "pipe" => return .pipe (← requiredStr value "path")
  | "process" => return .process (← requiredStringArray value "argv")
  | "mock" => return .mock (← requiredStr value "tag")
  | "replay" => return .replay (← requiredStr value "path")
  | "syslog" => return .syslog (← requiredStr value "bind")
  | "mqtt" => return .mqtt (← requiredStr value "broker") (← requiredStr value "topic")
  | "http-webhook" =>
    return .httpWebhook (← requiredStr value "bind") (← requiredStr value "path")
  | "telnet" => return .telnet (← requiredStr value "addr")
  | "ssh" => return .ssh (← requiredStr value "addr") (← requiredStr value "user")
  | "visa" => return .visa (← requiredStr value "resource")
  | "remote" => return .remote (← requiredStr value "url")
  | "journald" => return .journald (mapStr value "unit")
  | "win-event-log" => return .winEventLog (← requiredStr value "channel")
  | "etw" => return .etw (← requiredStr value "provider")
  | "j-link-rtt" => return .jLinkRtt (← requiredU8 value "channel")
  | "can-bus" => return .canBus (← requiredStr value "iface")
  | _ => throw s!"unsupported source kind: {kind}"

end Requests

end TraceMux.Server
