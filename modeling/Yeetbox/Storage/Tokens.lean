import Yeetbox.Storage.Identifiers
import Yeetbox.Storage.Rows

/-!
# Issued tokens

A server that issues a token keeps the ULID of the token for the upload that goes on: as long as
ULIDs are fresh and clients present only issued tokens, no row names it (`TokensDrawn.served`). So
an honest client never presents a ULID that is yet to be drawn (`TokensDrawn.unforeseen`).

`ServerSound` puts together what an honest request keeps: entries are canonical, ids are distinct,
rows name blobs of their own, and no issued token is that of a row (`serverAfter_sound`).
-/

set_option autoImplicit false

namespace Yeetbox.Storage

open Library

variable (env : Env)

/-- Every issued token is that of a ULID drawn before, and no row names its blob. -/
def TokensDrawn (server : Server) : Prop :=
  ∀ token ∈ server.issued, ∃ call, token = (env.newUlid call).toBytes ∧
    call < server.world.calls ∧ ∀ key, ¬ RowNames env server.world.db.ver key call

variable {env} {server : Server} {req : Request}

theorem mem_issuedBy_iff {token : Bytes} {answer : Except Status Response} :
    token ∈ issuedBy answer ↔
      ∃ result, answer = .ok (.uploaded result) ∧ result.continuation = token ∧ token ≠ [] := by
  constructor
  · intro issued
    rcases answer with _ | response
    · cases issued
    · cases response with
      | uploaded result =>
          rw [issuedBy] at issued
          split at issued
          · cases issued
          · rename_i nonempty
            rw [List.mem_singleton] at issued
            exact ⟨result, rfl, issued.symm, issued ▸ nonempty⟩
      | _ => cases issued
  · rintro ⟨result, rfl, rfl, nonempty⟩
    rw [issuedBy, if_neg nonempty]
    exact List.mem_singleton_self _

theorem map_eq_ok {First Second : Type} {form : First → Second} {answer : Except Status First}
    {formed : Second} (ok : answer.map form = .ok formed) :
    ∃ result, answer = .ok result ∧ form result = formed := by
  cases answer with
  | error err => cases ok
  | ok result => exact ⟨result, rfl, Except.ok.inj ok⟩

/-- A token was issued before, or the request is an upload that issues it. -/
theorem issued_cases {token : Bytes} (issued : token ∈ (serve env server req).issued) :
    token ∈ server.issued ∨ ∃ arg result, req = .upload arg ∧
      ((upload env arg).run server.world).result = .ok result ∧ result.continuation = token ∧
      token ≠ [] := by
  rcases List.mem_append.mp issued with before | new
  · exact .inl before
  · obtain ⟨result, answered, continues, nonempty⟩ := mem_issuedBy_iff.mp new
    cases req with
    | upload arg =>
        obtain ⟨result', ok, same⟩ := map_eq_ok answered
        cases same
        exact .inr ⟨arg, _, rfl, ok, continues, nonempty⟩
    | makeDirectory arg | append arg | download arg | delete arg | list arg | move arg | copy arg =>
        obtain ⟨_, _, same⟩ := map_eq_ok answered
        cases same

/-- The token that an upload issues is that of its own ULID, and the upload commits nothing. -/
theorem upload_issues {world : World} {arg : UploadArg} {result : UploadResult}
    (ok : ((upload env arg).run world).result = .ok result) (issues : result.continuation ≠ []) :
    ∃ ulid drawn, UploadToken env world arg ulid drawn ∧ result.continuation = ulid.toBytes ∧
      ((upload env arg).run world).state = withReceived env drawn arg ulid := by
  have done := upload_ok ok
  generalize ((upload env arg).run world).state = later at done ⊢
  cases done with
  | fragment ulid drawn token incomplete => exact ⟨ulid, drawn, token, rfl, rfl⟩
  | committed => exact absurd rfl issues

/-- **Issued tokens stay those of ULIDs that no row names.** -/
theorem TokensDrawn.served {horizon : ℕ} (fresh : env.FreshBelow horizon)
    (rows : RowsDrawn env server.world) (tokens : TokensDrawn env server)
    (honest : Honest server req) (bounded : (serve env server req).world.calls ≤ horizon) :
    TokensDrawn env (serve env server req) := by
  have rises : server.world.calls ≤ (serve env server req).world.calls := serve_calls_le server req
  have kept : ∀ token ∈ server.issued, ∃ call, token = (env.newUlid call).toBytes ∧
      call < (serve env server req).world.calls ∧
      ∀ key, ¬ RowNames env (serve env server req).world.db.ver key call := by
    intro token before
    obtain ⟨call, rfl, early, unnamed⟩ := tokens token before
    refine ⟨call, rfl, early.trans_le rises, ?_⟩
    intro key names
    exact unnamed key (RowsDrawn.names_older fresh bounded early names)
  intro token issued
  rcases issued_cases issued with before | ⟨arg, result, rfl, ok, rfl, nonempty⟩
  · exact kept token before
  · obtain ⟨ulid, drawn, token, continues, ends⟩ := upload_issues ok nonempty
    cases token with
    | continued _ presented =>
        refine kept _ ?_
        rcases honest with none | issued
        · exact absurd (presented.symm.trans none) (Ulid.toBytes_ne_nil ulid)
        · exact (presented.trans continues.symm) ▸ issued
    | fresh new =>
        rw [serve_upload_world, ends] at bounded ⊢
        have drawn : server.world.calls < (withReceived env (server.world.advance 1) arg
            (env.newUlid server.world.calls)).calls := by
          rw [withReceived, World.withBlobs_calls, World.advance_calls, World.advance_calls]
          omega
        exact ⟨server.world.calls, continues, drawn,
          rows.unnamed fresh (Nat.le_refl _) (drawn.trans_le bounded)⟩

/-- **An honest client presents no ULID that is yet to be drawn.** -/
theorem TokensDrawn.unforeseen {horizon : ℕ} (fresh : env.FreshBelow horizon)
    (tokens : TokensDrawn env server) (honest : Honest server req) :
    Unforeseen env horizon server req := by
  intro call below later presented
  rcases honest with none | issued
  · exact Ulid.toBytes_ne_nil _ (presented.symm.trans none)
  · obtain ⟨drawn, token, early, _⟩ := tokens _ issued
    have calls := fresh (by omega) below (Ulid.toBytes_injective (token.symm.trans presented))
    omega

/-! ## Blobs of rows under honest requests -/

/-- **Rows stay apart from issued tokens in every honest run.** -/
theorem serverAfter_tokensDrawn {horizon : ℕ} (fresh : env.FreshBelow horizon)
    {requests : List Request} (honest : Guarded (serve env) Honest .empty requests)
    (bounded : (serverAfter env requests).world.calls ≤ horizon) :
    TokensDrawn env (serverAfter env requests) := by
  have kept : ∀ server req,
      (Honest server req ∧
        (serve env server req).world.calls ≤ (serverAfter env requests).world.calls) →
      RowsDrawn env server.world ∧ TokensDrawn env server →
      RowsDrawn env (serve env server req).world ∧ TokensDrawn env (serve env server req) := by
    rintro server req ⟨honestly, before⟩ ⟨rows, tokens⟩
    exact ⟨rows.served req, tokens.served fresh rows honestly (before.trans bounded)⟩
  have start : RowsDrawn env (Server.empty).world ∧ TokensDrawn env .empty :=
    ⟨.empty, fun token issued => by cases issued⟩
  exact ((honest.and (calls_bounded env .empty requests)).invariant kept start).2

/-- The ULID that an honest client presents is not one whose blob a row names. -/
theorem TokensDrawn.presented_ne (tokens : TokensDrawn env server) (honest : Honest server req)
    {ulid : Ulid} (presented : req.token = ulid.toBytes) {key : Bytes} {call : ℕ}
    (names : RowNames env server.world.db.ver key call) : env.newUlid call ≠ ulid := by
  rcases honest with none | issued
  · exact absurd (presented.symm.trans none) (Ulid.toBytes_ne_nil ulid)
  · obtain ⟨drawn, token, _, unnamed⟩ := tokens _ issued
    have same : ulid = env.newUlid drawn := Ulid.toBytes_injective (presented.symm.trans token)
    intro other
    exact unnamed key (names.congr (other.trans same))

/-- **An honest request leaves the blob of a row alone, unless it appends or deletes.** -/
theorem TokensDrawn.named_kept {horizon : ℕ} (fresh : env.FreshBelow horizon)
    (rows : RowsDrawn env server.world) (tokens : TokensDrawn env server)
    (honest : Honest server req) (bounded : (serve env server req).world.calls ≤ horizon)
    (others : ∀ path, Touches env server.world (serve env server req).world req path →
      (∃ ulid, req.token = Ulid.toBytes ulid ∧ path = blobPath ulid) ∨
        ∃ call, server.world.calls ≤ call ∧ call < (serve env server req).world.calls ∧
          path = blobPath (env.newUlid call))
    {key row : Bytes} (found : server.world.db.ver[key]? = some row) :
    (serve env server req).world.blobs[inBlobs (row.drop versionValueSize)]? =
      server.world.blobs[inBlobs (row.drop versionValueSize)]? := by
  obtain ⟨call, names, early, path⟩ := rows.path found
  rw [path]
  refine serve_blob_kept fun touches => ?_
  rcases others _ touches with ⟨ulid, presented, same⟩ | ⟨drawn, later, below, same⟩
  · exact tokens.presented_ne honest presented names (blobPath_injective same)
  · have calls := fresh (by omega) (by omega) (blobPath_injective same)
    omega

/-! ## Sound servers -/

/-- What holds of a server as long as ULIDs are fresh, clients present only issued tokens, and few
ids are allocated. -/
structure ServerSound (env : Env) (horizon : ℕ) (server : Server) : Prop where
  canonical : Canonical env.toNormalization server.world.db.fs
  counted : Counted server.world.db server.allocated
  blobs : BlobsSound env horizon server.world
  tokens : TokensDrawn env server

theorem ServerSound.empty (horizon : ℕ) : ServerSound env horizon .empty where
  canonical := .empty
  counted := .empty
  blobs := .empty horizon
  tokens token issued := by cases issued

/-- A request is honest, and is answered within some horizon of calls and few allocated ids. -/
structure Permitted (env : Env) (horizon : ℕ) (server : Server) (req : Request) : Prop where
  honest : Honest server req
  bounded : (serve env server req).world.calls ≤ horizon
  few : (serve env server req).allocated < 2 ^ 64 - 1

/-- The requests of an honest run are permitted up to the end of the run. -/
theorem permitted_of_honest {start : Server} {requests : List Request}
    (honest : Guarded (serve env) Honest start requests)
    (few : (runAll (serve env) start requests).allocated < 2 ^ 64 - 1) :
    Guarded (serve env) (Permitted env (runAll (serve env) start requests).world.calls) start
      requests := by
  have bounded := calls_bounded env start requests
  have allocated := guarded_le (allocated_le env) start requests
  exact ((honest.and bounded).and allocated).mono fun _ _ ⟨⟨honest, bounded⟩, allocated⟩ =>
    ⟨honest, bounded, allocated.trans_lt few⟩

variable {horizon : ℕ} (fresh : env.FreshBelow horizon)
include fresh

/-- **A permitted request keeps the server sound.** -/
theorem ServerSound.served (sound : ServerSound env horizon server)
    (permitted : Permitted env horizon server req) :
    ServerSound env horizon (serve env server req) where
  canonical := (serve_commits server req).canonical sound.canonical
  counted := (serve_commits server req).counted (allocated_le env server req) permitted.few
    sound.counted
  blobs := sound.blobs.served fresh (sound.tokens.unforeseen fresh permitted.honest)
    permitted.bounded
  tokens := sound.tokens.served fresh sound.blobs.rows permitted.honest permitted.bounded

/-- **The server is sound after every permitted run.** -/
theorem serverAfter_sound {requests : List Request}
    (permitted : Guarded (serve env) (Permitted env horizon) .empty requests) :
    ServerSound env horizon (serverAfter env requests) := by
  have kept : ∀ server req, Permitted env horizon server req → ServerSound env horizon server →
      ServerSound env horizon (serve env server req) := by
    intro server req permitted sound
    exact sound.served fresh permitted
  exact permitted.invariant kept (.empty horizon)

end Yeetbox.Storage
