import Yeetbox.Access.Authn
import Yeetbox.Storage.Idle

/-!
# The service provider

`FileSystemServiceProvider` holds an authenticator, an authorizer and the storage. Its handlers lock
the storage and hand their request on; they consult neither of the other two.

A provider that did ask would go through a run as this one goes through the run without the
requests of peers that may not write (`runAll_answerAllowed`).

The answers that the storage gets from outside while it serves a request belong to the request, so
a run in which a request is left out gets the same answers for all others.
-/

set_option autoImplicit false

namespace Yeetbox.Access

open Library Storage

/-! ## Authorization -/

/-- An `std::io::Error`. -/
structure IoError where
  message : String

/-- The trait of the authorizers, for the requests that the storage serves. -/
class Authorizer (Authz : Type) where
  isAuthzMakeDirectory : Authz → Session → MakeDirectoryArg → Except IoError Bool
  isAuthzUpload : Authz → Session → UploadArg → Except IoError Bool
  isAuthzAppend : Authz → Session → AppendArg → Except IoError Bool
  isAuthzDownload : Authz → Session → DownloadArg → Except IoError Bool
  isAuthzDelete : Authz → Session → DeleteArg → Except IoError Bool
  isAuthzList : Authz → Session → ListArg → Except IoError Bool
  isAuthzMove : Authz → Session → MoveArg → Except IoError Bool
  isAuthzCopy : Authz → Session → CopyArg → Except IoError Bool

/-- An authorizer that allows reading for all users, and writing for authenticated users. -/
structure SimpleAuthz where

/-- The session is not one of an anonymous user. -/
def notAnonymous (session : Session) : Bool := session.authMech != "ANONYMOUS"

instance : Authorizer SimpleAuthz where
  isAuthzMakeDirectory _ session _ := .ok (notAnonymous session)
  isAuthzUpload _ session _ := .ok (notAnonymous session)
  isAuthzAppend _ session _ := .ok (notAnonymous session)
  isAuthzDownload _ _ _ := .ok true
  isAuthzDelete _ session _ := .ok (notAnonymous session)
  isAuthzList _ _ _ := .ok true
  isAuthzMove _ session _ := .ok (notAnonymous session)
  isAuthzCopy _ session _ := .ok (notAnonymous session)

/-- The method of the authorizer that matches a request. -/
def isAuthz {Authz : Type} [Authorizer Authz] (authz : Authz) (session : Session) :
    Request → Except IoError Bool
  | .makeDirectory arg => Authorizer.isAuthzMakeDirectory authz session arg
  | .upload arg => Authorizer.isAuthzUpload authz session arg
  | .append arg => Authorizer.isAuthzAppend authz session arg
  | .download arg => Authorizer.isAuthzDownload authz session arg
  | .delete arg => Authorizer.isAuthzDelete authz session arg
  | .list arg => Authorizer.isAuthzList authz session arg
  | .move arg => Authorizer.isAuthzMove authz session arg
  | .copy arg => Authorizer.isAuthzCopy authz session arg

/-- The requests that write. -/
def isWrite : Request → Bool
  | .download _ | .list _ => false
  | _ => true

/-- The simple authorizer allows reading, and writing in a session that is not anonymous. -/
theorem simpleAuthz_allows (authz : SimpleAuthz) (session : Session) (req : Request) :
    isAuthz authz session req = .ok (!isWrite req || notAnonymous session) := by
  cases req <;> rfl

/-! ## The provider -/

/-- The parts of the service. -/
structure FileSystemServiceProvider (Authn Authz : Type) where
  authn : Authn
  authz : Authz
  storage : Stores

/-- The provider that `main` builds. -/
def FileSystemServiceProvider.main : FileSystemServiceProvider SimpleAuth SimpleAuthz where
  authn := .new
  authz := {}
  storage := {}

/-- A request with the address of its peer, and the answers from outside while it is served. -/
structure Incoming where
  peerIp : IpAddr
  peerPort : UInt16
  request : Request
  outside : Env

/-- The world in which a request finds the storage. -/
def Stores.world (stores : Stores) : World where
  db := stores.db
  blobs := stores.blobs

variable {Authn Authz : Type}

/-- Lock the storage and hand it a request. -/
def forward (provider : FileSystemServiceProvider Authn Authz) (incoming : Incoming) :
    Outcome World Status Response :=
  (handle incoming.outside incoming.request).run (Stores.world provider.storage)

/-- The provider after a request was answered. -/
def answer (provider : FileSystemServiceProvider Authn Authz) (incoming : Incoming) :
    FileSystemServiceProvider Authn Authz :=
  { provider with storage := (forward provider incoming).state.stores }

/-- **A request leaves the storage as it is exactly when its condition holds.** -/
theorem answer_storage_iff {provider : FileSystemServiceProvider Authn Authz}
    {incoming : Incoming} : (answer provider incoming).storage = provider.storage ↔
      Idle incoming.outside (Stores.world provider.storage) incoming.request :=
  handle_idle_iff

theorem answer_eq_self {provider : FileSystemServiceProvider Authn Authz} {incoming : Incoming}
    (idle : Idle incoming.outside (Stores.world provider.storage) incoming.request) :
    answer provider incoming = provider :=
  congrArg (fun storage => { provider with storage := storage }) (answer_storage_iff.mpr idle)

/-- A request to read leaves the provider as it is. -/
theorem answer_read (provider : FileSystemServiceProvider Authn Authz) {incoming : Incoming}
    (read : isWrite incoming.request = false) : answer provider incoming = provider := by
  refine answer_eq_self ?_
  generalize incoming.request = req at read ⊢
  cases req with
  | download arg => trivial
  | list arg => trivial
  | _ => cases read

/-! ## Peers without a session -/

variable [Authenticator Authn]

/-- The peer of a request has no session, or an anonymous one. -/
def isAnonymous (provider : FileSystemServiceProvider Authn Authz) (incoming : Incoming) : Bool :=
  match Authenticator.checkAuthn provider.authn incoming.peerIp incoming.peerPort with
  | .ok (some session) => session.authMech == "ANONYMOUS"
  | _ => true

/-- A request to write from a peer without a session or with an anonymous one. -/
def isUnauthorized (provider : FileSystemServiceProvider Authn Authz) (incoming : Incoming) :
    Bool :=
  isWrite incoming.request && isAnonymous provider incoming

/-- The session of the peer is there and the authorizer allows the request in it. -/
def isAllowed [Authorizer Authz] (provider : FileSystemServiceProvider Authn Authz)
    (incoming : Incoming) : Bool :=
  match Authenticator.checkAuthn provider.authn incoming.peerIp incoming.peerPort with
  | .ok (some session) =>
      match isAuthz provider.authz session incoming.request with
      | .ok allowed => allowed
      | .error _ => false
  | _ => false

/-- **The requests to write that the two parts do not allow are those without a session and those
with an anonymous one.** -/
theorem isUnauthorized_eq (provider : FileSystemServiceProvider Authn SimpleAuthz)
    (incoming : Incoming) : isUnauthorized provider incoming =
      (isWrite incoming.request && !isAllowed provider incoming) := by
  rw [isUnauthorized, isAnonymous, isAllowed]
  rcases Authenticator.checkAuthn provider.authn incoming.peerIp incoming.peerPort with
    err | _ | session
  · rfl
  · rfl
  · dsimp only
    rw [simpleAuthz_allows, notAnonymous]
    cases isWrite incoming.request with
    | true => simp [bne]
    | false => rfl

/-- What the authorizer is there for: a provider that hands a request on only when its peer has a
session and the authorizer allows the request in it. -/
def answerAllowed [Authorizer Authz] (provider : FileSystemServiceProvider Authn Authz)
    (incoming : Incoming) : FileSystemServiceProvider Authn Authz :=
  if isAllowed provider incoming then answer provider incoming else provider

/-- What is not unauthorized is answered as it would be by a provider that asks. -/
theorem answerAllowed_eq (provider : FileSystemServiceProvider Authn SimpleAuthz)
    (incoming : Incoming) : answerAllowed provider incoming =
      if isUnauthorized provider incoming then provider else answer provider incoming := by
  rw [answerAllowed, isUnauthorized_eq]
  cases write : isWrite incoming.request with
  | true => cases isAllowed provider incoming <;> rfl
  | false =>
      rw [answer_read provider write]
      simp

/-- Requests leave the sessions as they are. -/
theorem isUnauthorized_answer (provider : FileSystemServiceProvider Authn Authz)
    (incoming other : Incoming) :
    isUnauthorized (answer provider incoming) other = isUnauthorized provider other := rfl

/-- **A provider that asks goes through the run without the unauthorized requests.** -/
theorem runAll_answerAllowed (provider : FileSystemServiceProvider Authn SimpleAuthz)
    (run : List Incoming) : runAll answerAllowed provider run =
      runAll answer provider (run.filter fun incoming => !isUnauthorized provider incoming) := by
  induction run generalizing provider with
  | nil => rfl
  | cons incoming rest ih =>
      rw [runAll_cons, ih, answerAllowed_eq]
      cases unauthorized : isUnauthorized provider incoming with
      | true => rw [if_pos rfl, List.filter_cons_of_neg (by simp [unauthorized])]
      | false =>
          rw [if_neg Bool.false_ne_true, List.filter_cons_of_pos (by simp [unauthorized]),
            runAll_cons]
          rfl

end Yeetbox.Access
