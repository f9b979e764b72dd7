/-
# Bearer tokens and loopback peers

The server keeps hashes of bearer tokens and accepts a token that one of them verifies. With
authentication switched off it accepts everything that comes from the loopback interface, and
from nowhere else.
-/

import TraceMux.Core.ErrorId

namespace TraceMux.Server.Auth

open TraceMux.Core

/-- The address of a peer. -/
inductive IpAddr
  | v4 (bits : BitVec 32)
  | v6 (bits : BitVec 128)
  deriving DecidableEq, Repr

/-- Whether a peer may go without a token when authentication is off. An IPv4 address that is
written as an IPv6 one is none of the loopback interface. -/
def isLoopbackAllowed : IpAddr → Bool
  | .v4 bits => bits >>> 24 = 127
  | .v6 bits => bits = 1

inductive AuthError
  | rejected
  | invalidHash (reason : String)
  deriving DecidableEq, Repr

structure Argon2 where
  /-- Why a text is not a hash, if it is none. -/
  invalid : String → Option String
  verifyPassword : (hash token : String) → Bool

/-- The hashes of the tokens that are accepted. -/
structure BearerVerifier where
  hashes : List String := []
  deriving DecidableEq, Repr

def verifyAny (argon2 : Argon2) (token : String) : List String → Except AuthError Unit
  | [] => .error .rejected
  | hash :: rest =>
    match argon2.invalid hash with
    | some reason => .error (.invalidHash reason)
    | none => if argon2.verifyPassword hash token then .ok () else verifyAny argon2 token rest

def BearerVerifier.verify (auth : BearerVerifier) (argon2 : Argon2) (token : String) :
    Except AuthError Unit := verifyAny argon2 token auth.hashes

end TraceMux.Server.Auth
