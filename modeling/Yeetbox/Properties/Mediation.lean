import Yeetbox.Access.Provider
import Yeetbox.Library.Runs

/-!
# Who may write

A provider with the simple authorizer is mediated along a run when no request to write changes the
storage if its peer has no session or an anonymous one. It then arrives where a provider arrives
that asks the authenticator and the authorizer first (`Mediated.as_asked`). The handlers never ask,
so a run is mediated exactly when each such request finds a storage in which it has nothing to do
(`mediated_iff`).
-/

set_option autoImplicit false

namespace Yeetbox.Access

open Library Storage

section Runs

variable {Authn : Type} [Authenticator Authn]

/-- The requests to write without a session or with an anonymous one change nothing in a run, and
the run arrives at the same storage when they are left out. -/
structure Mediated (provider : FileSystemServiceProvider Authn SimpleAuthz)
    (run : List Incoming) : Prop where
  unchanged : Guarded answer (fun provider incoming => isUnauthorized provider incoming = true →
    (answer provider incoming).storage = provider.storage) provider run
  leftOut : (runAll answer provider run).storage =
    (runAll answer provider (run.filter fun incoming => !isUnauthorized provider incoming)).storage

/-- **A mediated run arrives where a provider arrives that asks the authenticator and the authorizer
before it hands a request on.** -/
theorem Mediated.as_asked {provider : FileSystemServiceProvider Authn SimpleAuthz}
    {run : List Incoming} (mediated : Mediated provider run) :
    (runAll answer provider run).storage = (runAll answerAllowed provider run).storage := by
  rw [runAll_answerAllowed]
  exact mediated.leftOut

/-- **A run is mediated exactly when each request to write without a session or with an anonymous
one is idle where it is answered.** -/
theorem mediated_iff (provider : FileSystemServiceProvider Authn SimpleAuthz)
    (run : List Incoming) : Mediated provider run ↔
      Guarded answer (fun provider incoming => isUnauthorized provider incoming = true →
        Idle incoming.outside (Stores.world provider.storage) incoming.request) provider run := by
  constructor
  · intro mediated
    exact mediated.unchanged.mono fun _ _ same unauthorized =>
      answer_storage_iff.mp (same unauthorized)
  · intro idle
    have unchanged : Guarded answer (fun provider incoming =>
        isUnauthorized provider incoming = true → answer provider incoming = provider)
          provider run :=
      idle.mono fun provider incoming condition unauthorized =>
        answer_eq_self (condition unauthorized)
    refine ⟨unchanged.mono fun _ _ same unauthorized => ?_, ?_⟩
    · rw [same unauthorized]
    · rw [unchanged.left_out isUnauthorized_answer]

end Runs

/-! ## A request without a session -/

/-- The request of some peer to create the folder `a` in the root. -/
def createFolderA : Incoming where
  peerIp := .v4 0
  peerPort := 1
  request := .makeDirectory { target := some ⟨[['a']]⟩ }
  outside := .numbered .unchanged

/-- A peer without a session creates a folder. -/
theorem createFolderA_notMediated : ¬ Mediated FileSystemServiceProvider.main [createFolderA] := by
  intro mediated
  have same := mediated.unchanged.1 (by decide)
  have entry := congrArg (fun stores : Stores => stores.db.fs[entryKey rootFsid ['a']]?) same
  exact absurd entry (by decide)

end Yeetbox.Access
