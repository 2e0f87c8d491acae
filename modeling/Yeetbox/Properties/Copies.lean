import Yeetbox.Storage.Kinds
import Yeetbox.Storage.Way

/-!
# Copies

A copy should read as its source did, be of the same type, and live on its own. For a version blob,
which is what every upload creates, `copy` has only a note where the work is to be done: it makes a
record of another type, and neither a version row nor a blob. A copy of a copy is always refused,
since its blob is looked up under its number in decimal. So a copy that returns `Ok` never is what
it is for (`copy_never_independent`).
-/

set_option autoImplicit false

namespace Yeetbox.Storage

open Library

variable (env : Env)

/-- A request appends to, deletes or moves a path. -/
def Request.ActsOn (path : List Name) : Request → Prop
  | .append arg => ∃ version, arg.target = some ⟨path, version⟩
  | .delete arg => ∃ version, arg.target = some ⟨path, version⟩
  | .move arg => ∃ version, arg.target = some ⟨path, version⟩
  | _ => False

/-- What a download of the head of a path returns. -/
def downloaded (world : World) (path : List Name) (offset length : UInt64) :
    Except Status DownloadResult :=
  ((download env ⟨some ⟨path, none⟩, offset, length⟩).run world).result

/-- A path reads in one world as another path does in another world, if the file reads transfer the
same number of bytes. -/
def ReadsAlike (first second : World) (path path' : List Name) : Prop :=
  ∀ offset length, downloaded env first path offset length =
    downloaded env { second with calls := first.calls } path' offset length

/-- What a copy is for: it reads as its source did and is of the same type, the source is as before,
what is done later with the one does not change what the other returns, and the copy can be copied
wherever the source can. -/
structure CopyIndependent (server : Server) (target : RequestedFileId) (destination : List Name) :
    Prop where
  content : ReadsAlike env (serve env server (.copy ⟨some target, destination⟩)).world server.world
    destination target.path
  type : ∀ source record, keyOfPath env.toNormalization server.world.db.fs target.path =
      some source → RecordAt server.world.db.fs source record →
    ∃ key record', keyOfPath env.toNormalization
        (serve env server (.copy ⟨some target, destination⟩)).world.db.fs destination = some key ∧
      RecordAt (serve env server (.copy ⟨some target, destination⟩)).world.db.fs key record' ∧
      record'.type = record.type
  unchanged : ReadsAlike env (serve env server (.copy ⟨some target, destination⟩)).world
    server.world target.path target.path
  source : ∀ requests : List Request, (∀ req ∈ requests, req.ActsOn target.path) →
    ReadsAlike env
      (runAll (serve env) (serve env server (.copy ⟨some target, destination⟩)) requests).world
      (serve env server (.copy ⟨some target, destination⟩)).world destination destination
  copy : ∀ requests : List Request, (∀ req ∈ requests, req.ActsOn destination) →
    ReadsAlike env
      (runAll (serve env) (serve env server (.copy ⟨some target, destination⟩)) requests).world
      (serve env server (.copy ⟨some target, destination⟩)).world target.path target.path
  again : ∀ another, ((Storage.copy env ⟨some target, another⟩).run
      (serve env server (.copy ⟨some target, destination⟩)).world).result = .ok () →
    ((Storage.copy env ⟨some ⟨destination, none⟩, another⟩).run
      (serve env server (.copy ⟨some target, destination⟩)).world).result = .ok ()

variable {env}

/-- The destination of a copy resolves to the record of a normal blob. -/
theorem copy_destination {world : World} {req : CopyArg}
    (ok : ((copy env req).run world).result = .ok ()) :
    ∃ key record, keyOfPath env.toNormalization ((copy env req).run world).state.db.fs
        req.destination = some key ∧
      RecordAt ((copy env req).run world).state.db.fs key record ∧
      record.type = objTypeNormalBlob := by
  have outcome := copy_cases env world req
  generalize (copy env req).run world = done at outcome ok ⊢
  cases outcome with
  | refused err => cases ok
  | stopped err copied stops count blob => cases ok
  | created parentId name copied later stops named walked free blob result =>
      rw [result]
      have leads := (walkFolders_eq_ok_iff.mp walked).insert free
      exact ⟨_, _, keyOfPath_of_walk named (walkFolders_eq_ok_iff.mpr (leads _)),
        recordAt_insert_iff.mpr (.inl ⟨rfl, rfl⟩), rfl⟩

/-- A source that can be copied in a reachable state is a version blob. -/
theorem copyable_versioned (dated : env.Dated) {requests : List Request} {key : Bytes}
    {record : FsRecordValue}
    (there : RecordAt (serverAfter env requests).world.db.fs key record)
    (copyable : Copyable (serverAfter env requests).world record) :
    record.type = objTypeVersionBlob := by
  rcases serverAfter_kinds env requests there with folder | versioned | ⟨normal, call, ulid⟩
  · rw [Copyable, folder] at copyable
    rcases copyable with versioned | link | ⟨normal | appended | blocks, _⟩
    all_goals contradiction
  · exact versioned
  · rcases copyable with versioned | link | ⟨_, found⟩
    · exact versioned
    · rw [normal] at link
      exact absurd link (by decide)
    · rw [ulid] at found
      exact absurd (decimal_missing dated (serverAfter_blobsNamed env requests) call) found

/-- **A copy that returns `Ok` is never what it is for**: it is not of the type of its source. -/
theorem copy_never_independent (dated : env.Dated) (requests : List Request)
    (target : RequestedFileId) (destination : List Name)
    (ok : ((copy env ⟨some target, destination⟩).run (serverAfter env requests).world).result =
      .ok ()) : ¬ CopyIndependent env (serverAfter env requests) target destination := by
  intro independent
  obtain ⟨source, record, resolved, there, copyable⟩ := copy_source env ok
  obtain ⟨key, record', arrives, there', same⟩ := independent.type source record resolved there
  obtain ⟨key', copied, arrives', at_copy, normal⟩ := copy_destination ok
  cases arrives.symm.trans arrives'
  rw [there'.unique at_copy, normal, copyable_versioned dated there copyable] at same
  exact absurd same (by decide)

/-- The upload of a file. -/
def uploadCopied : UploadArg := { target := some ⟨[['a']]⟩, data := { bytes := [51, 52] } }

/-- The server after it. -/
def serverToCopy : Server := serverAfter (.stamped .unchanged) [.upload uploadCopied]

theorem serverToCopy_never_independent :
    ¬ CopyIndependent (.stamped .unchanged) serverToCopy ⟨[['a']], none⟩ [['b']] :=
  copy_never_independent (Env.stamped_dated _) [.upload uploadCopied] ⟨[['a']], none⟩ [['b']]
    (by decide)

/-- **The copy of a file cannot be read, and cannot be copied.** -/
theorem copied_not_independent :
    ((copy (.stamped .unchanged) ⟨some ⟨[['a']], none⟩, [['b']]⟩).run serverToCopy.world).result =
        .ok () ∧
      downloaded (.stamped .unchanged) serverToCopy.world [['a']] 0 9 = .ok ⟨[51, 52], true⟩ ∧
      downloaded (.stamped .unchanged) (serve (.stamped .unchanged) serverToCopy
        (.copy ⟨some ⟨[['a']], none⟩, [['b']]⟩)).world [['b']] 0 9 =
          .error (.internal "database corrupted: missing version") ∧
      ((copy (.stamped .unchanged) ⟨some ⟨[['b']], none⟩, [['c']]⟩).run
        (serve (.stamped .unchanged) serverToCopy
          (.copy ⟨some ⟨[['a']], none⟩, [['b']]⟩)).world).result = .error .notFound ∧
      ¬ CopyIndependent (.stamped .unchanged) serverToCopy ⟨[['a']], none⟩ [['b']] := by
  have refused : downloaded (.stamped .unchanged) (serve (.stamped .unchanged) serverToCopy
      (.copy ⟨some ⟨[['a']], none⟩, [['b']]⟩)).world [['b']] 0 9 =
        .error (.internal "database corrupted: missing version") := by
    decide
  refine ⟨by decide, by decide, refused, by decide, fun independent => ?_⟩
  have alike := independent.content 0 9
  rw [refused] at alike
  exact absurd alike (by decide)

end Yeetbox.Storage
