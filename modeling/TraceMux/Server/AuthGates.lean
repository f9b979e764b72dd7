/-
# Three gates

The web socket, the routes for exports and the routes for annotations share the hashes of the
tokens they accept and the switch that turns authentication off, and each decides for itself
whether a request comes in. The web socket looks at the token first: one that does not verify
is refused even from the loopback interface with authentication switched off, where the other
two do not look at it.
-/

import TraceMux.Server.AnnotationApi

namespace TraceMux.Server.AuthGates

open Base Server.Auth Server.ExportApi Server.AnnotationApi

def bearerPrefix : Text := "bearer.".toList

/-- The first token in a list of subprotocols. -/
def extractBearer (headerValue : Text) : Option String :=
  (headerValue.splitOn ',').findSome? fun part =>
    if bearerPrefix.isPrefixOf (Text.trim part) then
      some (String.ofList ((Text.trim part).drop bearerPrefix.length))
    else none

/-- What the web socket decides. -/
inductive AuthOutcome
  | bearer
  | loopbackNoAuth
  | rejected (reason : String)
  deriving DecidableEq, Repr

/-- Decide about a request for a web socket. -/
def checkAuth (argon2 : Argon2) (headerValue : Option Text) (peer : IpAddr) (auth : BearerVerifier)
    (noAuth : Bool) : AuthOutcome :=
  match headerValue.bind extractBearer with
  | some token =>
    match auth.verify argon2 token with
    | .ok () => .bearer
    | .error _ => .rejected "bearer rejected"
  | none =>
    if noAuth && isLoopbackAllowed peer then .loopbackNoAuth
    else .rejected "no bearer and not loopback-no-auth"

/-- The token in the first `Sec-WebSocket-Protocol` field. -/
def protocolToken (protocol : Option Bytes) : Option String :=
  (protocol.bind headerText).bind extractBearer

/-- What the server was started with, and the peer that asks. -/
structure Gates where
  lib : Libraries
  auth : BearerVerifier
  noAuth : Bool
  peer : IpAddr

/-- A request to each of the three endpoints, with the same token or without one. -/
structure Requests (token : Option String) where
  protocol : Option Bytes
  headers : HeaderMap
  protocol_token : protocolToken protocol = token
  headers_token : bearerToken headers = token

namespace Gates

variable (gates : Gates)

def webSocketAccepts (protocol : Option Bytes) : Bool :=
  match checkAuth gates.lib.argon2 (protocol.bind headerText) gates.peer gates.auth
      gates.noAuth with
  | .bearer | .loopbackNoAuth => true
  | .rejected _ => false

/-- The request for an export is let through. -/
def exportAccepts (headers : HeaderMap) : Bool :=
  (authorizeExport gates.lib { auth := gates.auth, noAuth := gates.noAuth } headers
    gates.peer).isOk

/-- The request for annotations is let through. -/
def annotationsAccepts (headers : HeaderMap) : Bool :=
  (authorizeAnnotations gates.lib { auth := gates.auth, noAuth := gates.noAuth } headers
    gates.peer).isOk

def exempt : Bool := gates.noAuth && isLoopbackAllowed gates.peer

def verified (token : Option String) : Bool :=
  token.any fun token => (gates.auth.verify gates.lib.argon2 token).isOk

/-- What a request may be accepted for: a token that one of the configured hashes verifies, or a
peer on the loopback interface with authentication switched off. -/
def Allowed (token : Option String) : Prop :=
  (∃ presented ∈ token, ∃ hash ∈ gates.auth.hashes,
    gates.lib.argon2.verifyPassword hash presented = true) ∨
      (isLoopbackAllowed gates.peer = true ∧ gates.noAuth = true)

end Gates

theorem exists_hash_of_verifyAny {argon2 : Argon2} {token : String} {hashes : List String}
    (h : verifyAny argon2 token hashes = .ok ()) :
    ∃ hash ∈ hashes, argon2.verifyPassword hash token = true := by
  induction hashes with
  | nil => cases h
  | cons hash rest ih =>
    rw [verifyAny] at h
    split at h
    · cases h
    · split at h
      · next hverified => exact ⟨hash, List.mem_cons_self, hverified⟩
      · obtain ⟨later, hlater, hverified⟩ := ih h
        exact ⟨later, List.mem_cons_of_mem hash hlater, hverified⟩

namespace Gates

variable (gates : Gates)

/-- The web socket decides by the token, and by the peer only where there is none. -/
theorem webSocketAccepts_eq (protocol : Option Bytes) :
    gates.webSocketAccepts protocol =
      if (protocolToken protocol).isSome then gates.verified (protocolToken protocol)
      else gates.exempt := by
  rw [webSocketAccepts, checkAuth, ← protocolToken]
  cases protocolToken protocol with
  | none =>
    rw [← exempt]
    cases gates.exempt <;> simp
  | some token =>
    rw [verified, Option.any_some]
    dsimp only
    cases gates.auth.verify gates.lib.argon2 token <;> rfl

/-- The routes for exports do not look at the token of a peer that needs none. -/
theorem exportAccepts_eq (headers : HeaderMap) :
    gates.exportAccepts headers = (gates.exempt || gates.verified (bearerToken headers)) := by
  rw [exportAccepts, authorizeExport, ← exempt]
  cases gates.exempt with
  | true => rfl
  | false =>
    cases bearerToken headers with
    | none => rfl
    | some token =>
      rw [verified, Option.any_some]
      dsimp only
      cases gates.auth.verify gates.lib.argon2 token <;> rfl

theorem annotationsAccepts_eq (headers : HeaderMap) :
    gates.annotationsAccepts headers = gates.exportAccepts headers := by
  rw [annotationsAccepts, exportAccepts, authorizeAnnotations, authorizeExport, ← exempt]
  cases gates.exempt with
  | true => rfl
  | false =>
    cases bearerToken headers with
    | none => rfl
    | some token =>
      dsimp only
      cases gates.auth.verify gates.lib.argon2 token <;> rfl

variable {token : Option String}

theorem allowed_of_verified (h : gates.verified token = true) : gates.Allowed token := by
  cases token with
  | none => cases h
  | some presented =>
    change (verifyAny gates.lib.argon2 presented gates.auth.hashes).isOk = true at h
    cases hverify : verifyAny gates.lib.argon2 presented gates.auth.hashes with
    | error e => rw [hverify] at h; cases h
    | ok _ => exact .inl ⟨presented, rfl, exists_hash_of_verifyAny hverify⟩

theorem allowed_of_exempt (h : gates.exempt = true) : gates.Allowed token := by
  rw [exempt, Bool.and_eq_true] at h
  exact .inr ⟨h.2, h.1⟩

/-- The gates decide alike, and accept only what they should, exactly if the peer needs a token,
has sent none, or has sent one that verifies. -/
theorem accepts_agree_iff {token : Option String} (requests : Requests token) :
    (gates.webSocketAccepts requests.protocol = gates.exportAccepts requests.headers ∧
      gates.exportAccepts requests.headers = gates.annotationsAccepts requests.headers ∧
      (gates.webSocketAccepts requests.protocol = true ∨
        gates.exportAccepts requests.headers = true ∨
        gates.annotationsAccepts requests.headers = true → gates.Allowed token)) ↔
      ¬ (gates.noAuth = true ∧ isLoopbackAllowed gates.peer = true ∧
        ∃ presented ∈ token, (gates.auth.verify gates.lib.argon2 presented).isOk = false) := by
  have hexempt : gates.exempt = true ↔
      gates.noAuth = true ∧ isLoopbackAllowed gates.peer = true := Bool.and_eq_true_iff
  have hsocket := gates.webSocketAccepts_eq requests.protocol
  have hexport := gates.exportAccepts_eq requests.headers
  rw [requests.protocol_token] at hsocket
  rw [requests.headers_token] at hexport
  rw [annotationsAccepts_eq, and_iff_right rfl, and_iff_left (fun h => ?_), hsocket, hexport]
  · rw [← and_assoc, ← hexempt]
    cases token with
    | none => simp [verified]
    | some presented =>
      have hverified : gates.verified (some presented) =
          (gates.auth.verify gates.lib.argon2 presented).isOk := rfl
      rw [hverified]
      cases gates.exempt <;>
        cases hok : (gates.auth.verify gates.lib.argon2 presented).isOk <;> simp [hok]
  · rw [or_self, hsocket, hexport, Bool.or_eq_true] at h
    obtain hsocket | hexempt | hverified := h
    · split at hsocket
      · exact gates.allowed_of_verified hsocket
      · exact gates.allowed_of_exempt hsocket
    · exact gates.allowed_of_exempt hexempt
    · exact gates.allowed_of_verified hverified

end Gates

def fieldBytes (text : Text) : Bytes := text.map fun c => UInt8.ofNat c.toNat

/-- A server without hashes and without authentication, asked from its own machine. -/
def localGates : Gates where
  lib := { argon2 := ⟨fun _ => none, fun hash token => hash = token⟩
           parseUuid := fun _ => .error "" }
  auth := {}
  noAuth := true
  peer := .v4 0x7F000001

/-- A token that does not verify keeps out of the web socket what comes in elsewhere. -/
theorem webSocket_refuses_local :
    protocolToken (some (fieldBytes "tracemux.v1, bearer.nope".toList)) = some "nope" ∧
      bearerToken { authorization := some (fieldBytes "Bearer nope".toList) } = some "nope" ∧
      localGates.webSocketAccepts (some (fieldBytes "tracemux.v1, bearer.nope".toList)) = false ∧
      localGates.exportAccepts { authorization := some (fieldBytes "Bearer nope".toList) } =
        true ∧
      localGates.annotationsAccepts { authorization := some (fieldBytes "Bearer nope".toList) } =
        true := by
  decide +kernel

end TraceMux.Server.AuthGates
