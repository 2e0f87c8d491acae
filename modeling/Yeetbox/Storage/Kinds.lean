import Yeetbox.Storage.Owners

/-!
# The kinds of objects

The record of an object is that of a folder, or it has the type that an upload or a copy gives to it
(`serverAfter_kinds`). Every file in the blob directory is the blob of a ULID
(`serverAfter_blobsNamed`). A ULID begins with the time at which it is drawn, so its number has more
digits than the name of a blob, and `copy`, which looks for the blob under that number, finds none
(`decimal_missing`).
-/

set_option autoImplicit false

namespace Yeetbox.Storage

open Library

/-- The upper 48 bits of a ULID are the milliseconds from 1970 to when it is drawn; there were
`2 ^ 40` of them in November 2004. -/
def Env.Dated (env : Env) : Prop := ∀ call, 2 ^ 40 * 2 ^ 80 ≤ (env.newUlid call).toNat

/-- An environment that numbers the ULIDs of one moment, and is as `Env.numbered` otherwise. -/
def Env.stamped (normalization : Normalization) : Env :=
  { Env.numbered normalization with
    newUlid := fun call => .ofNat 128 (2 ^ 127 + call % 2 ^ 80) }

theorem Env.stamped_dated (normalization : Normalization) :
    (Env.stamped normalization).Dated := by
  intro call
  have random : call % 2 ^ 80 < 2 ^ 80 := Nat.mod_lt _ (by decide)
  rw [Env.stamped, BitVec.toNat_ofNat, Nat.mod_eq_of_lt (by omega)]
  omega

/-- Every file in the blob directory is the blob of a ULID. -/
def BlobsNamed (world : World) : Prop :=
  ∀ path content : Bytes, world.blobs[path]? = some content → ∃ ulid, path = blobPath ulid

variable {env : Env}

theorem BlobsNamed.served {server : Server} (named : BlobsNamed server.world)
    (drawn : RowsDrawn env server.world) (req : Request) :
    BlobsNamed (serve env server req).world := by
  intro path content found
  by_cases touches : Touches env server.world (serve env server req).world req path
  · rcases drawn.touches touches with ⟨ulid, _, same⟩ | ⟨call, _, _, same⟩ | ⟨_, call, _, _, same⟩
    · exact ⟨ulid, same⟩
    · exact ⟨_, same⟩
    · exact ⟨_, same⟩
  · rw [serve_blob_kept touches] at found
    exact named path content found

/-- **Every file in the blob directory of a reachable state is the blob of a ULID.** -/
theorem serverAfter_blobsNamed (env : Env) (requests : List Request) :
    BlobsNamed (serverAfter env requests).world := by
  have kept : ∀ server req, RowsDrawn env server.world ∧ BlobsNamed server.world →
      RowsDrawn env (serve env server req).world ∧ BlobsNamed (serve env server req).world := by
    rintro server req ⟨drawn, named⟩
    exact ⟨drawn.served req, named.served drawn req⟩
  refine (runAll_invariant kept requests ⟨.empty, ?_⟩).2
  intro path content found
  exact absurd found (World.empty_blob path content)

/-- **An object of a reachable state is a folder, or a file that an upload or a copy created.** -/
theorem serverAfter_kinds (env : Env) (requests : List Request) {key : Bytes}
    {record : FsRecordValue}
    (there : RecordAt (serverAfter env requests).world.db.fs key record) :
    record.type = objTypeFolder ∨ FileKind env record := by
  have kept : ∀ server req,
      (∀ key record, RecordAt server.world.db.fs key record →
        record.type = objTypeFolder ∨ FileKind env record) →
      ∀ key record, RecordAt (serve env server req).world.db.fs key record →
        record.type = objTypeFolder ∨ FileKind env record := by
    intro server req kinds key record there
    rcases (serve_commits server req).record_cases there with ⟨before, earlier⟩ | ⟨kind, _⟩
    · exact kinds before record earlier
    · exact kind
  refine runAll_invariant kept requests ?_ key record there
  intro key record there
  exact absurd there not_recordAt_empty

/-- **The blob of a copied file is not found under its number.** -/
theorem decimal_missing (dated : env.Dated) {world : World} (named : BlobsNamed world) (call : ℕ) :
    world.blobs[inBlobs (utf8 (decimalFileName (env.newUlid call)))]? = none := by
  rcases found : world.blobs[inBlobs (utf8 (decimalFileName (env.newUlid call)))]? with _ | content
  · rfl
  · obtain ⟨ulid, same⟩ := named _ content found
    have large : 10 ^ 26 ≤ (env.newUlid call).toNat := (by decide : 10 ^ 26 ≤ 2 ^ 40 * 2 ^ 80).trans
      (dated call)
    exact absurd same (decimal_ne_blobPath large ulid)

end Yeetbox.Storage
