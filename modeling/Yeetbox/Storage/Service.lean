import Yeetbox.Library.Runs
import Yeetbox.Storage.Append
import Yeetbox.Storage.Copy
import Yeetbox.Storage.Delete
import Yeetbox.Storage.Download
import Yeetbox.Storage.Listing
import Yeetbox.Storage.MakeDirectory
import Yeetbox.Storage.Move
import Yeetbox.Storage.Upload

/-!
# The service

`FileSystemServiceProvider` hands each request to the storage while it holds the storage mutex, so
the requests of all clients are answered one after the other. A run of the server is the list of
these requests in the order of their answers.

Next to the world a `Server` keeps two things that only statements about runs need: the
continuation tokens it has issued, and how many ids its successful requests have allocated.
-/

set_option autoImplicit false

namespace Yeetbox.Storage

open Library

/-- The requests that the storage serves. -/
inductive Request where
  | makeDirectory (arg : MakeDirectoryArg)
  | upload (arg : UploadArg)
  | append (arg : AppendArg)
  | download (arg : DownloadArg)
  | delete (arg : DeleteArg)
  | list (arg : ListArg)
  | move (arg : MoveArg)
  | copy (arg : CopyArg)

/-- Their results. -/
inductive Response where
  | madeDirectory
  | uploaded (result : UploadResult)
  | appended
  | downloaded (result : DownloadResult)
  | deleted (result : DeleteResult)
  | listed (result : ListResult)
  | moved
  | copied

variable (env : Env)

/-- Hand a request to the storage. -/
def handle : Request → Op Response
  | .makeDirectory arg => (makeDirectory env arg).map fun _ => .madeDirectory
  | .upload arg => (upload env arg).map .uploaded
  | .append arg => (append env arg).map fun _ => .appended
  | .download arg => (download env arg).map .downloaded
  | .delete arg => (delete env arg).map .deleted
  | .list arg => (list env arg).map .listed
  | .move arg => (move env arg).map fun _ => .moved
  | .copy arg => (copy env arg).map fun _ => .copied

/-! ## Runs of the server -/

/-- The world, the tokens issued so far, and the number of ids allocated so far. -/
structure Server where
  world : World := .empty
  issued : List Bytes := []
  allocated : ℕ := 0

/-- The server on an empty database and an empty blob directory. -/
def Server.empty : Server := {}

/-- The token that a result issues. -/
def issuedBy : Except Status Response → List Bytes
  | .ok (.uploaded result) => if result.continuation = [] then [] else [result.continuation]
  | _ => []

/-- The number of ids that a request allocates: the folders, files and copies that it creates. -/
def allocatedBy : Request → Except Status Response → ℕ
  | .makeDirectory _, .ok _ => 1
  | .upload arg, .ok _ => if arg.incomplete then 0 else 1
  | .copy _, .ok _ => 1
  | _, _ => 0

/-- The server after a request was handled. -/
def Server.answered (server : Server) (req : Request) (outcome : Outcome World Status Response) :
    Server where
  world := outcome.state
  issued := server.issued ++ issuedBy outcome.result
  allocated := server.allocated + allocatedBy req outcome.result

/-- Answer one request. -/
def serve (server : Server) (req : Request) : Server :=
  server.answered req ((handle env req).run server.world)

@[simp] theorem serve_makeDirectory_world (server : Server) (arg : MakeDirectoryArg) :
    (serve env server (.makeDirectory arg)).world =
      ((makeDirectory env arg).run server.world).state := rfl

@[simp] theorem serve_upload_world (server : Server) (arg : UploadArg) :
    (serve env server (.upload arg)).world = ((upload env arg).run server.world).state := rfl

/-- The server after a run from the empty one. -/
def serverAfter (requests : List Request) : Server := runAll (serve env) .empty requests

theorem serverAfter_append (first second : List Request) :
    serverAfter env (first ++ second) = runAll (serve env) (serverAfter env first) second :=
  runAll_append _ _ _ _

/-! ## Conditions on requests -/

/-- The continuation token that a request presents. -/
def Request.token : Request → Bytes
  | .upload arg => arg.continuation
  | _ => []

/-- Clients present only tokens that the server has issued. -/
def Honest (server : Server) (req : Request) : Prop :=
  req.token = [] ∨ req.token ∈ server.issued

instance (server : Server) (req : Request) : Decidable (Honest server req) :=
  inferInstanceAs (Decidable (_ ∨ _))

/-- A ULID is fresh for the clients too: none presents it as a token before it is drawn. -/
def Unforeseen (horizon : ℕ) (server : Server) (req : Request) : Prop :=
  ∀ call < horizon, server.world.calls ≤ call → req.token ≠ (env.newUlid call).toBytes

instance (horizon : ℕ) (server : Server) (req : Request) :
    Decidable (Unforeseen env horizon server req) :=
  inferInstanceAs (Decidable (∀ call < horizon, _ → _))

end Yeetbox.Storage
