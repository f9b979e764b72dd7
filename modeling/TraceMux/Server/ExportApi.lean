/-
# The routes for exports

Two routes hand out exports: one the export of a session, the other a bundle of several. A
request for a session export is accepted with a bearer token, or with a ticket for the same
session, format, time zone and encoding. A bundle is handed out for a ticket only, and is the
one the ticket was asked for with.

This module has what the routes compute. When and in which order they touch what they share is
the subject of `TraceMux.Server.DownloadTickets`.
-/

import TraceMux.Base.Fallible
import TraceMux.Base.PathName
import TraceMux.Core.Exporter.Rows
import TraceMux.Server.Auth

namespace TraceMux.Server.ExportApi

open Base TraceMux.Core Core.Exporter Core.Log Server.Auth

inductive StatusCode
  | badRequest
  | unauthorized
  | forbidden
  | notFound
  | internalServerError
  deriving DecidableEq, Repr

structure ExportApiError where
  status : StatusCode
  errorId : String
  message : String
  deriving DecidableEq, Repr

/-- A request without the right to what it asks for. -/
def ExportApiError.auth (message : String) : ExportApiError := ⟨.unauthorized, "E-2101", message⟩

inductive ExportFormat
  | text
  | csv
  | jsonl
  | pcapng
  deriving DecidableEq, Repr

def toAsciiLowercase (s : Text) : Text := s.map Char.toLower

/-- Read the name of a format. -/
def ExportFormat.parse (value : String) : Except ExportApiError ExportFormat :=
  match String.ofList (toAsciiLowercase (Text.trim value.toList)) with
  | "text" => .ok .text
  | "csv" => .ok .csv
  | "jsonl" => .ok .jsonl
  | "pcapng" => .ok .pcapng
  | other => .error ⟨.badRequest, "E-1001",
      "unsupported export format `" ++ other ++ "`; use text, csv, jsonl, or pcapng"⟩

def ExportFormat.extension : ExportFormat → String
  | .text => "txt"
  | .csv => "csv"
  | .jsonl => "jsonl"
  | .pcapng => "pcapng"

def ExportFormat.contentType : ExportFormat → String
  | .text => "text/plain; charset=utf-8"
  | .csv => "text/csv; charset=utf-8"
  | .jsonl => "application/x-ndjson; charset=utf-8"
  | .pcapng => "application/vnd.tcpdump.pcapng"

def ExportFormat.label : ExportFormat → String
  | .text => "text"
  | .csv => "csv"
  | .jsonl => "jsonl"
  | .pcapng => "pcapng"

/-- The query of a request for a session export or for a ticket for one. -/
structure ExportQuery where
  format : String := "text"
  tz : Option String := none
  encoding : Option String := none
  ticket : Option String := none
  filename : Option String := none
  deriving DecidableEq, Repr

structure ExportBundleEntry where
  sid : String
  sourceName : Option String := none
  encoding : Option String := none
  deriving DecidableEq, Repr

structure ExportBundleTicketRequest where
  entries : List ExportBundleEntry
  format : String := "text"
  tz : Option String := none
  filenamePattern : Option String := none
  timestampMs : Option ℕ := none
  deriving DecidableEq, Repr

structure BundleDownloadQuery where
  ticket : String
  deriving DecidableEq, Repr

/-- What a ticket for a session export is good for. -/
structure DownloadTicketScope where
  sid : Uuid
  format : ExportFormat
  timezone : Option String
  encoding : Option String
  deriving DecidableEq, Repr

/-- Defaults for what a query leaves out. -/
structure ExportDefaults where
  timezone : Option String := none
  encoding : Option String := none
  deriving DecidableEq, Repr

/-- The libraries the routes rest on. -/
structure Libraries where
  argon2 : Argon2
  /-- Reading a UUID from text, or saying why the text is none. -/
  parseUuid : String → Except String Uuid

/-- The part of the route state that never changes. -/
structure ExportRouteState where
  auth : BearerVerifier := {}
  noAuth : Bool := false
  defaults : ExportDefaults := {}
  deriving DecidableEq, Repr

/-- A value that is not blank, without white space around it. -/
def cleanOptional (value : Option String) : Option String :=
  value.bind fun value =>
    if (Text.trim value.toList).isEmpty then none else some (String.ofList (Text.trim value.toList))

structure HeaderMap where
  /-- The first `Authorization` field. -/
  authorization : Option Bytes := none
  deriving DecidableEq, Repr

/-- The text of a header field with nothing but visible ASCII and tabs. -/
def headerText (value : Bytes) : Option Text :=
  if value.all fun b => (32 ≤ b && b < 127) || b = 9 then
    some (value.map fun b => Char.ofNat b.toNat)
  else none

/-- What an `Authorization` field has behind `Bearer` and a blank. -/
def bearerToken (headers : HeaderMap) : Option String :=
  headers.authorization.bind fun value =>
    (headerText value).bind fun text =>
      if "Bearer ".toList.isPrefixOf text then some (String.ofList (text.drop 7)) else none

/-- Whether a request may have what it asks for. -/
def authorizeExport (lib : Libraries) (state : ExportRouteState) (headers : HeaderMap)
    (peer : IpAddr) : Except ExportApiError Unit :=
  if state.noAuth && isLoopbackAllowed peer then .ok ()
  else
    match bearerToken headers with
    | none => .error (.auth "missing bearer token")
    | some token =>
      match state.auth.verify lib.argon2 token with
      | .ok () => .ok ()
      | .error _ => .error (.auth "bearer token rejected")

/-- Read a session id. -/
def parseSid (lib : Libraries) (sidText : String) : Except ExportApiError Uuid :=
  match lib.parseUuid sidText with
  | .ok sid => .ok sid
  | .error reason => .error ⟨.badRequest, "E-2001", "invalid sid `" ++ sidText ++ "`: " ++ reason⟩

def ticketScope (lib : Libraries) (sidText : String) (query : ExportQuery)
    (defaults : ExportDefaults) : Except ExportApiError DownloadTicketScope := do
  let sid ← parseSid lib sidText
  let format ← ExportFormat.parse query.format
  return { sid := sid, format := format,
           timezone := (cleanOptional query.tz).or defaults.timezone,
           encoding := (cleanOptional query.encoding).or defaults.encoding }

def validateBundleRequest (request : ExportBundleTicketRequest) : Except ExportApiError Unit :=
  if request.entries = [] then
    .error ⟨.badRequest, "E-1001", "bundle export requires at least one entry"⟩
  else if 0xffff < request.entries.length then
    .error ⟨.badRequest, "E-1001", "too many entries for ZIP32 bundle export"⟩
  else (ExportFormat.parse request.format).map fun _ => ()

/-- Characters file names do not have. -/
def isInvalid (c : Char) : Bool :=
  c ∈ ['<', '>', ':', '"', '/', '\\', '|', '?', '*'] || c.toNat < 32 ||
    (127 ≤ c.toNat && c.toNat < 160)

/-- Replace characters; `previousSpace` is set behind a blank. -/
def sanitizeFrom : Bool → Text → Text
  | _, [] => []
  | previousSpace, c :: rest =>
    if isInvalid c then '-' :: sanitizeFrom false rest
    else if Text.isWhitespace c then
      if previousSpace then sanitizeFrom true rest else ' ' :: sanitizeFrom true rest
    else c :: sanitizeFrom false rest

/-- Make a text safe as a file name. -/
def sanitizeFilename (value : Text) : Text :=
  let trimmed := (Text.trim (sanitizeFrom false value)).rdropWhile (· = '.')
  if trimmed.isEmpty then "tracemux-export".toList else trimmed

def withExtension (format : ExportFormat) (filename : Text) : Text :=
  let ext := '.' :: format.extension.toList
  if ext.isSuffixOf (toAsciiLowercase filename) then filename else filename ++ ext

def nonBlank (value : Option String) : Option Text :=
  (value.map String.toList).filter fun value => !(Text.trim value).isEmpty

def exportFilename (sid : Uuid) (format : ExportFormat) (requested : Option String) : Text :=
  let fallback := "tracemux-".toList ++ sid.hyphenated ++ '.' :: format.extension.toList
  withExtension format (sanitizeFilename ((nonBlank requested).getD fallback))

def maxUnixTimestamp : ℕ := 253402300799

/-- A time of day in file names. -/
def timestampToken (timestampMs : ℕ) : Text :=
  let seconds := min (timestampMs / 1000) (2 ^ 63 - 1)
  if seconds ≤ maxUnixTimestamp then
    (formatRfc3339Ns (seconds * 1000000000)).toList.filter (· ≠ ':')
  else Text.ofNat timestampMs

example : String.ofList (timestampToken 1700000000123) = "2023-11-14T221320Z" := by decide

def bundleBaseName (format : ExportFormat) (timestampMs : ℕ) : Text :=
  sanitizeFilename ("tracemux-all-".toList ++ timestampToken timestampMs ++
    '-' :: format.label.toList)

def bundleFilename (format : ExportFormat) (timestampMs : ℕ) : Text :=
  bundleBaseName format timestampMs ++ ".zip".toList

structure BundleExportJob where
  sid : Uuid
  sourceName : Option String
  encoding : Option String
  sessionDir : String
  deriving DecidableEq, Repr

/-- What a step of a request finds outside: the sessions and the files of that time, the
exporters that run on them, and the clock on the wall. -/
structure World where
  sessionDirForSid : Uuid → Option String
  sessionRoot : Option String
  pathExists : String → Bool
  canonicalize : String → Except String String
  isFile : String → Bool
  exportRows : RowFormat → (sessionDir : String) → (timezone encoding : Option String) →
    Except TraceMuxError Bytes
  exportPackets : (sessionDir : String) → (timezone : Option String) → Except TraceMuxError Bytes
  createBundleZip : List BundleExportJob → ExportFormat → (timezone : Option String) →
    (filenamePattern : Option String) → (timestampMs : ℕ) → Except ExportApiError Bytes
  /-- Why the task of an export died, if it did. -/
  joinError : Option String := none
  /-- Why the length of the artifact cannot be read, if it cannot. -/
  statError : Option String := none
  /-- Why the artifact cannot be opened, if it cannot. -/
  openError : Option String := none
  systemTime : ℤ

/-- A file handed out. -/
structure ExportArtifact where
  filename : Text
  contentType : String
  body : Bytes
  deriving DecidableEq, Repr

/-- Milliseconds since the Unix epoch, none before it. -/
def systemTimeMs (systemTime : ℤ) : ℕ := (systemTime.toNat / 1000000) % 2 ^ 64

def sessionDirOf (world : World) (sid : Uuid) : Except ExportApiError String :=
  match world.sessionDirForSid sid with
  | some sessionDir => .ok sessionDir
  | none => .error ⟨.notFound, "E-1001",
      "source `" ++ String.ofList sid.hyphenated ++ "` has no persisted session-dir"⟩

def ensureInside (world : World) (path canonicalPath root : String) :
    Except ExportApiError Unit :=
  match world.canonicalize root with
  | .error reason => .error ⟨.internalServerError, "E-1001",
      "session root is not accessible: " ++ root ++ ": " ++ reason⟩
  | .ok canonicalRoot =>
    if (PathName.components canonicalRoot.toList).isPrefixOf
        (PathName.components canonicalPath.toList) then .ok ()
    else .error ⟨.forbidden, "E-1001",
      "source session-dir is outside configured session root: " ++ path⟩

/-- Whether a directory may be exported. -/
def ensureSessionDir (world : World) (path : String) : Except ExportApiError Unit :=
  if !world.pathExists path then
    .error ⟨.notFound, "E-1001", "source session-dir does not exist: " ++ path⟩
  else
    match world.canonicalize path with
    | .error reason => .error ⟨.notFound, "E-1001",
        "source session-dir is not accessible: " ++ path ++ ": " ++ reason⟩
    | .ok canonicalPath => do
        if let some root := world.sessionRoot then ensureInside world path canonicalPath root
        if !world.isFile (path ++ "/index.jsonl") then
          .error ⟨.notFound, "E-1001", "source session-dir is missing index.jsonl: " ++ path⟩

/-- The file an export task has written; `task` and `artifact` name them in errors. -/
def artifactBody (world : World) (task artifact : String)
    (result : Except ExportApiError Bytes) : Except ExportApiError Bytes :=
  match world.joinError with
  | some reason => .error ⟨.internalServerError, "E-1001", task ++ " task failed: " ++ reason⟩
  | none =>
    match result with
    | .error e => .error e
    | .ok body =>
      match world.statError, world.openError with
      | some reason, _ => .error ⟨.internalServerError, "E-1001",
          "statting " ++ artifact ++ " artifact: " ++ reason⟩
      | none, some reason => .error ⟨.internalServerError, "E-1001",
          "opening " ++ artifact ++ " artifact: " ++ reason⟩
      | none, none => .ok body

def exportOne (world : World) (format : ExportFormat) (sessionDir : String)
    (timezone encoding : Option String) : Except TraceMuxError Bytes :=
  match format with
  | .text => world.exportRows .text sessionDir timezone encoding
  | .csv => world.exportRows .csv sessionDir timezone encoding
  | .jsonl => world.exportRows .jsonl sessionDir timezone encoding
  | .pcapng => world.exportPackets sessionDir timezone

def exporterError (e : TraceMuxError) : ExportApiError := ⟨.badRequest, e.id.code, e.display⟩

def exportSession (lib : Libraries) (state : ExportRouteState) (world : World)
    (sidText : String) (query : ExportQuery) : Except ExportApiError ExportArtifact := do
  let sid ← parseSid lib sidText
  let format ← ExportFormat.parse query.format
  let sessionDir ← sessionDirOf world sid
  ensureSessionDir world sessionDir
  let timezone := (cleanOptional query.tz).or state.defaults.timezone
  let encoding := (cleanOptional query.encoding).or state.defaults.encoding
  let body ← artifactBody world "export" "export"
    ((exportOne world format sessionDir timezone encoding).mapError exporterError)
  return ⟨exportFilename sid format query.filename, format.contentType, body⟩

def bundleJob (lib : Libraries) (state : ExportRouteState) (world : World)
    (entry : ExportBundleEntry) : Except ExportApiError BundleExportJob := do
  let sid ← parseSid lib entry.sid
  let sessionDir ← sessionDirOf world sid
  ensureSessionDir world sessionDir
  return { sid := sid, sourceName := entry.sourceName, sessionDir := sessionDir,
           encoding := (cleanOptional entry.encoding).or state.defaults.encoding }

/-- Export several sessions to one archive. -/
def exportBundle (lib : Libraries) (state : ExportRouteState) (world : World)
    (request : ExportBundleTicketRequest) : Except ExportApiError ExportArtifact := do
  validateBundleRequest request
  let format ← ExportFormat.parse request.format
  let timezone := (cleanOptional request.tz).or state.defaults.timezone
  let timestampMs := request.timestampMs.getD (systemTimeMs world.systemTime)
  let jobs ← request.entries.mapM (bundleJob lib state world)
  let body ← artifactBody world "bundle export" "bundle"
    (world.createBundleZip jobs format timezone request.filenamePattern timestampMs)
  return ⟨bundleFilename format timestampMs, "application/zip", body⟩

variable {lib : Libraries} {state : ExportRouteState} {world : World}

theorem sessionDirOf_eq_ok {sid : Uuid} {sessionDir : String}
    (h : sessionDirOf world sid = .ok sessionDir) :
    world.sessionDirForSid sid = some sessionDir := by
  unfold sessionDirOf at h
  split at h
  · next found hfound =>
    cases h
    exact hfound
  · cases h

theorem artifactBody_eq_ok {task artifact : String} {result : Except ExportApiError Bytes}
    {body : Bytes} (h : artifactBody world task artifact result = .ok body) :
    result = .ok body := by
  unfold artifactBody at h
  split at h
  · cases h
  · split at h
    · cases h
    · split at h <;> first | exact h | cases h

end TraceMux.Server.ExportApi
