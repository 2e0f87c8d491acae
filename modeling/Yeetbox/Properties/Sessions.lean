import Yeetbox.Storage.Entries
import Yeetbox.Storage.Pending

/-!
# Fragmented uploads

A client may send a file in fragments. The first fragment makes the server issue a token, further
fragments present it, and a final request that presents it commits the file. The requests of other
clients come in between, in any number and order. As long as ULIDs are fresh and nobody else
presents the token, the file has exactly the bytes of its own fragments, in the order in which they
were sent (`fragments_do_not_mix`).

That a ULID is fresh says two things: no other call draws it (`Env.FreshBelow`), and no request has
presented it before it was drawn (`Unforeseen`).
-/

set_option autoImplicit false

namespace Yeetbox.Storage

open Library

variable (env : Env)

/-- A request that presents the token of a session is a fragment of it, and is answered by `Ok`. -/
def FragmentOf (token : Bytes) (server : Server) (req : Request) : Prop :=
  req.token = token → ∃ arg result, req = .upload arg ∧ arg.incomplete = true ∧
    ((upload env arg).run server.world).result = .ok result

/-- The bytes that a request sends with a token. -/
def Request.sentWith (token : Bytes) : Request → Bytes
  | .upload arg => if arg.continuation = token then arg.data.bytes else []
  | _ => []

/-- The bytes that some requests send with a token, in their order. -/
def sentWith (token : Bytes) (requests : List Request) : Bytes :=
  requests.flatMap (Request.sentWith token)

variable {env}

theorem sentWith_of_ne {token : Bytes} {req : Request} (others : req.token ≠ token) :
    req.sentWith token = [] := by
  cases req with
  | upload arg => exact if_neg others
  | _ => rfl

theorem receivedData_eq (writes : ∀ call size, env.write call size = size) (world : World)
    (arg : UploadArg) : receivedData env world arg = arg.data.bytes := by
  rw [receivedData, writes, List.take_length]

/-- **A pending blob gathers what is sent with its token, whatever requests come in between.** -/
theorem Pending.run {horizon call : ℕ} (fresh : env.FreshBelow horizon)
    (writes : ∀ call size, env.write call size = size) {between : List Request} :
    ∀ {server : Server} {content : Bytes},
      Guarded (serve env) (fun server req => FragmentOf env (env.newUlid call).toBytes server req ∧
        (serve env server req).world.calls ≤ horizon) server between →
      RowsDrawn env server.world → Pending env server.world call content →
        Pending env (runAll (serve env) server between).world call
          (content ++ sentWith (env.newUlid call).toBytes between) := by
  induction between with
  | nil =>
      intro server content _ _ pending
      simpa [sentWith] using pending
  | cons req rest ih =>
      rintro server content ⟨⟨fragment, bounded⟩, guarded⟩ rows pending
      rw [runAll_cons, sentWith, List.flatMap_cons, ← sentWith, ← List.append_assoc]
      refine ih guarded (rows.served req) ?_
      by_cases own : req.token = (env.newUlid call).toBytes
      · obtain ⟨arg, result, rfl, incomplete, ok⟩ := fragment own
        have presented : arg.continuation = (env.newUlid call).toBytes := own
        have added := pending.fragment presented incomplete ok
        rw [receivedData_eq writes] at added
        rwa [Request.sentWith, if_pos presented]
      · rw [sentWith_of_ne own, List.append_nil]
        exact pending.kept fresh rows bounded own

/-- Rows and blobs are sound after a run in which ULIDs are fresh. -/
theorem serverAfter_blobsSound {horizon : ℕ} (fresh : env.FreshBelow horizon)
    {requests : List Request}
    (guarded : Guarded (serve env) (fun server req => Unforeseen env horizon server req ∧
      (serve env server req).world.calls ≤ horizon) .empty requests) :
    BlobsSound env horizon (serverAfter env requests).world := by
  have kept : ∀ server req, (Unforeseen env horizon server req ∧
      (serve env server req).world.calls ≤ horizon) → BlobsSound env horizon server.world →
        BlobsSound env horizon (serve env server req).world := by
    rintro server req ⟨unforeseen, bounded⟩ sound
    exact sound.served fresh unforeseen bounded
  exact guarded.invariant kept (.empty horizon)

/-- **Fragmented uploads do not mix.** The file that the last request of a session commits has the
bytes of the session's own fragments in the order in which they were sent, whatever requests came
before the session and in between. -/
theorem fragments_do_not_mix (env : Env) (writes : ∀ call size, env.write call size = size)
    (earlier between : List Request) (first last : UploadArg) (issued result : UploadResult)
    (fresh : env.FreshBelow
      (serverAfter env (earlier ++ .upload first :: (between ++ [.upload last]))).world.calls)
    (unforeseen : Guarded (serve env) (Unforeseen env
        (serverAfter env (earlier ++ .upload first :: (between ++ [.upload last]))).world.calls)
      .empty (earlier ++ .upload first :: (between ++ [.upload last])))
    (new : first.continuation = []) (opening : first.incomplete = true)
    (opened : ((upload env first).run (serverAfter env earlier).world).result = .ok issued)
    (own : Guarded (serve env) (FragmentOf env issued.continuation)
      (serverAfter env (earlier ++ [.upload first])) between)
    (presented : last.continuation = issued.continuation) (closing : last.incomplete = false)
    (closed : ((upload env last).run
      (serverAfter env (earlier ++ .upload first :: between)).world).result = .ok result) :
    CommitsFile (serverAfter env (earlier ++ .upload first :: between)).world
      (serverAfter env (earlier ++ .upload first :: (between ++ [.upload last]))).world
      (first.data.bytes ++ sentWith issued.continuation between ++ last.data.bytes) := by
  have bounded := calls_bounded env .empty (earlier ++ .upload first :: (between ++ [.upload last]))
  obtain ⟨before, ⟨unforeseenFirst, boundedFirst⟩, during⟩ :=
    guarded_append_iff.mp (unforeseen.and bounded)
  obtain ⟨inside, _⟩ := guarded_append_iff.mp during
  have sound := serverAfter_blobsSound fresh before
  obtain ⟨token, pending⟩ := Pending.start fresh sound boundedFirst new opening opened
  rw [receivedData_eq writes] at pending
  rw [token] at own presented ⊢
  have reached : serverAfter env (earlier ++ [.upload first]) =
      serve env (serverAfter env earlier) (.upload first) :=
    serverAfter_append env earlier [.upload first]
  have ended : serverAfter env (earlier ++ .upload first :: between) =
      runAll (serve env) (serve env (serverAfter env earlier) (.upload first)) between :=
    serverAfter_append env earlier (.upload first :: between)
  have finished : serverAfter env (earlier ++ .upload first :: (between ++ [.upload last])) =
      serve env (serverAfter env (earlier ++ .upload first :: between)) (.upload last) := by
    rw [ended, serverAfter_append, runAll_cons, runAll_append]
    rfl
  rw [reached] at own
  have guarded := own.and inside.right
  have gathered := pending.run fresh writes guarded (sound.rows.served _)
  rw [← ended] at gathered
  have committed := gathered.finish presented closing closed
  rw [receivedData_eq writes] at committed
  rwa [finished]

/-! ## A session of three fragments -/

/-- The fragment of a session in the root. -/
def fragmentOfB (data : Payload) (continuation : Bytes) (incomplete : Bool) : UploadArg where
  target := some ⟨[['b']]⟩
  data := data
  continuation := continuation
  incomplete := incomplete

/-- A second fragment, and an upload of another client before it. -/
def betweenFragments : List Request :=
  [.upload uploadOneFile, .upload (fragmentOfB { bytes := [4] } (Ulid.toBytes 0) true)]

theorem three_fragments :
    CommitsFile (serverAfter (.numbered .unchanged)
        ([] ++ .upload (fragmentOfB { bytes := [3] } [] true) :: betweenFragments)).world
      (serverAfter (.numbered .unchanged)
        ([] ++ .upload (fragmentOfB { bytes := [3] } [] true) :: (betweenFragments ++
          [.upload (fragmentOfB { bytes := [5] } (Ulid.toBytes 0) false)]))).world
      ([3] ++ sentWith (Ulid.toBytes 0) betweenFragments ++ [5]) :=
  fragments_do_not_mix (.numbered .unchanged) (fun _ _ => rfl) [] betweenFragments
    (fragmentOfB { bytes := [3] } [] true) (fragmentOfB { bytes := [5] } (Ulid.toBytes 0) false)
    ⟨Ulid.toBytes 0⟩ ⟨[]⟩ (Env.numbered_freshBelow _ (by decide)) (by decide) rfl rfl (by decide)
    ⟨fun same => absurd same (by decide), fun _ => ⟨_, ⟨Ulid.toBytes 0⟩, rfl, rfl, by decide⟩,
      trivial⟩ rfl rfl (by decide)

end Yeetbox.Storage
