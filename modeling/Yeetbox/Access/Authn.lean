import Yeetbox.Storage.Name
import Yeetbox.Storage.Time64

/-!
# Authentication

An authenticator decides whether an assertion is good, and says which session a peer has.
`SimpleAuth` holds the sessions of its peers and the passwords of its users.
-/

set_option autoImplicit false

namespace Yeetbox.Access

open Library Storage

abbrev UserId := Name

/-- `std::net::IpAddr`. -/
inductive IpAddr where
  | v4 (octets : BitVec 32)
  | v6 (octets : BitVec 128)
  deriving DecidableEq

/-- The session of a peer that is authenticated. -/
structure Session where
  userId : Option UserId
  authMech : String
  startTime : Timestamp
  peerIp : IpAddr
  peerPort : UInt16

structure AuthenticateArg where
  mechanism : String
  assertion : Bytes

structure AuthenticateResult where
  decision : Option Bool := none
  userDisabled : Bool := false
  allAuthDisabled : Bool := false
  deriving DecidableEq

def AuthenticateResult.reject : AuthenticateResult := { decision := some false }

def AuthenticateResult.accept : AuthenticateResult := { decision := some true }

/-- An `anyhow::Error`. -/
inductive AnyhowError where
  /-- A `Utf8Error`, converted by `?`. -/
  | utf8Error
  | other (message : String)

/-- The trait of the authenticators. -/
class Authenticator (Authn : Type) where
  getAuthMechs : Authn → List String
  attemptAuthn : Authn → AuthenticateArg → Except AnyhowError AuthenticateResult
  checkAuthn : Authn → IpAddr → UInt16 → Except AnyhowError (Option Session)

/-- Sessions by peer, and passwords by user name. -/
structure SimpleAuth where
  authenticatedPeers : List ((IpAddr × UInt16) × Session) := []
  db : List (Name × Name) := []

def SimpleAuth.new : SimpleAuth := {}

/-- `str::from_utf8`. -/
def fromUtf8 (bytes : Bytes) : Except AnyhowError Name :=
  match ofUtf8 bytes with
  | some text => .ok text
  | none => .error .utf8Error

def SimpleAuth.attemptAuthn (auth : SimpleAuth) (arg : AuthenticateArg) :
    Except AnyhowError AuthenticateResult :=
  if arg.mechanism = "ANONYMOUS" then .ok .accept
  else if arg.mechanism ≠ "PLAIN" then .ok .reject
  else if arg.assertion.length > 1000 then .ok .reject
  else
    -- There must be two nulls exactly.
    match arg.assertion.splitOn 0 with
    | [authzid, authcid, passwd] =>
        if authzid.length > 0 ∧ authzid ≠ authcid then .ok .reject
        else do
          let authcid ← fromUtf8 authcid
          let passwd ← fromUtf8 passwd
          let success := (auth.db.lookup authcid).any fun pw => pw == passwd
          .ok (if success then .accept else .reject)
    | _ => .ok .reject

def SimpleAuth.checkAuthn (auth : SimpleAuth) (peerIp : IpAddr) (peerPort : UInt16) :
    Except AnyhowError (Option Session) :=
  .ok (auth.authenticatedPeers.lookup (peerIp, peerPort))

instance : Authenticator SimpleAuth where
  getAuthMechs _ := ["ANONYMOUS", "PLAIN"]
  attemptAuthn := SimpleAuth.attemptAuthn
  checkAuthn := SimpleAuth.checkAuthn

end Yeetbox.Access
