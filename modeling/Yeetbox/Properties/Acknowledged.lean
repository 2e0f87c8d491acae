import Yeetbox.Storage.Entries

/-!
# What is stored when a request is acknowledged

An upload in a single message, a fragment of one and an append add their data to a blob by one call
of `write`, which may transfer only a beginning of it. None of them looks at the count that the call
returns, and none flushes: what the call counts is taken to be in the file. So a request that
returns `Ok` has stored its data exactly when the call transferred all of it (`acknowledged_iff`).
-/

set_option autoImplicit false

namespace Yeetbox.Storage

open Library

/-- A call of `write` transfers the whole buffer. -/
def WritesAll (env : Env) (call : ℕ) (data : Bytes) : Prop :=
  env.write call data.length = data.length

instance (env : Env) (call : ℕ) (data : Bytes) : Decidable (WritesAll env call data) :=
  inferInstanceAs (Decidable (_ = _))

/-- The ULID that is drawn next is fresh: no blob has its name. -/
def NextUlidFresh (env : Env) (world : World) : Prop :=
  world.blobs[blobPath (env.newUlid world.calls)]? = none

instance (env : Env) (world : World) : Decidable (NextUlidFresh env world) :=
  inferInstanceAs (Decidable (_ = _))

/-- The file that a request adds has a version whose blob is the data, and whose recorded length is
the size of the blob. -/
def StoredWhole (before later : World) (data : Bytes) : Prop :=
  ∃ key record row version, before.db.fs[key]? = none ∧ RecordAt later.db.fs key record ∧
    later.db.ver[rowKey record.id record.latestVersion]? = some row ∧
    versionValueFromBytes row = some version ∧
    later.blobs[inBlobs (row.drop versionValueSize)]? = some data ∧
    version.length.toNat = data.length

/-- The blob of the token that a fragment returns became longer by the data. -/
def FragmentStored (before later : World) (result : UploadResult) (data : Bytes) : Prop :=
  ∃ ulid, result.continuation = Ulid.toBytes ulid ∧
    later.blobs[blobPath ulid]? = some (before.blobs[blobPath ulid]?.getD [] ++ data)

/-- The blob of the head version of the path became longer by the data. -/
def AppendStored (normalization : Normalization) (before later : World) (arg : AppendArg) : Prop :=
  ∃ target key record path content, arg.target = some target ∧
    keyOfPath normalization before.db.fs target.path = some key ∧
    HeadRow before.db key record path ∧ before.blobs[path]? = some content ∧
    later.blobs[path]? = some (content ++ arg.data.bytes)

variable {env : Env} {world : World}

/-- A write transfers all of the data exactly when what it transfers is the data. -/
theorem take_write_eq_self_iff {call : ℕ} {data : Bytes} :
    data.take (env.write call data.length) = data ↔ WritesAll env call data := by
  have atMost := env.write_le call data.length
  rw [List.take_eq_self_iff, WritesAll]
  omega

/-- A new file with the blob of a ULID and a recorded length of some data has stored the data
exactly when the blob is the data. -/
theorem newFile_storedWhole_iff {db : Db} {key : Bytes} {name : Name} {record : FsRecordValue}
    {version : VersionRecordValue} {ulid : Ulid} {moved : World} {content data : Bytes}
    (free : world.db.fs[key]? = none) (first : record.latestVersion = 1) (same : db = world.db)
    (blob : moved.blobs[blobPath ulid]? = some content)
    (long : version.length.toNat = data.length) :
    StoredWhole world (moved.withDb (withNewFile db key name record version (blobPath ulid))) data ↔
      content = data := by
  subst same
  have row : (withNewFile world.db key name record version (blobPath ulid)).ver[rowKey record.id
      record.latestVersion]? = some (version.bytesOf ++ blobPath ulid) := by
    rw [first, withNewFile, Table.get_insert_self]
  constructor
  · rintro ⟨key', record', row', version', free', there, found, decoded, stored, _⟩
    cases recordAt_added free' there
    cases row.symm.trans found
    rw [drop_versionValue_append, inBlobs_blobPath, World.withDb_blobs, blob] at stored
    exact Option.some.inj stored
  · rintro rfl
    refine ⟨key, record, _, version, free, recordAt_insert_iff.mpr (.inl ⟨rfl, rfl⟩), row,
      versionValueFromBytes_append _ _, ?_, long⟩
    rw [drop_versionValue_append, inBlobs_blobPath, World.withDb_blobs, blob]

/-- An upload in a single message that returns `Ok` has stored its data exactly when it was written
in one transfer. -/
theorem storedWhole_iff {arg : UploadArg} {result : UploadResult} (fresh : NextUlidFresh env world)
    (single : arg.continuation = []) (complete : arg.incomplete = false)
    (ok : ((upload env arg).run world).result = .ok result) :
    StoredWhole world ((upload env arg).run world).state arg.data.bytes ↔
      WritesAll env (world.calls + 1) arg.data.bytes := by
  have done := upload_ok ok
  generalize ((upload env arg).run world).state = later at done
  cases done with
  | fragment _ _ _ incomplete =>
      rw [complete] at incomplete
      cases incomplete
  | committed target lastName ulid drawn parentId saved moved stops _ _ token _ walked free save =>
      cases token with
      | continued _ presented =>
          exact absurd (presented.symm.trans single) (Ulid.toBytes_ne_nil ulid)
      | fresh _ =>
          cases save with
          | renamed _ _ continued _ _ => exact absurd single continued
          | single _ =>
              have blob : (extendIn world.blobs (blobPath (env.newUlid world.calls))
                  (receivedData env (world.advance 1) arg))[blobPath
                    (env.newUlid world.calls)]? =
                      some (receivedData env (world.advance 1) arg) := by
                rw [get_extendIn, if_pos rfl, fresh, Option.getD_none, List.nil_append]
              have long : (newFileVersion env arg (withReceived env (world.advance 1) arg
                  (env.newUlid world.calls)).calls).length.toNat = arg.data.bytes.length := by
                rw [newFileVersion, if_pos single, UInt64.toNat_ofNat_of_lt']
                exact arg.data.bound.trans_lt (by decide)
              rw [← take_write_eq_self_iff]
              exact newFile_storedWhole_iff free rfl rfl blob long

/-- A fragment that returns `Ok` has stored its data exactly when it was written in one
transfer. -/
theorem fragmentStored_iff {arg : UploadArg} {result : UploadResult}
    (incomplete : arg.incomplete = true)
    (ok : ((upload env arg).run world).result = .ok result) :
    FragmentStored world ((upload env arg).run world).state result arg.data.bytes ↔
      WritesAll env (if arg.continuation = [] then world.calls + 1 else world.calls)
        arg.data.bytes := by
  have done := upload_ok ok
  generalize ((upload env arg).run world).state = later at done
  cases done with
  | committed target lastName ulid drawn parentId saved moved stops _ _ _ complete =>
      rw [complete] at incomplete
      cases incomplete
  | fragment ulid drawn token _ =>
      have calls : drawn.calls =
          if arg.continuation = [] then world.calls + 1 else world.calls := by
        cases token with
        | fresh new => rw [if_pos new, World.advance_calls]
        | continued _ presented => rw [if_neg (presented ▸ Ulid.toBytes_ne_nil ulid)]
      have blob : (withReceived env drawn arg ulid).blobs[blobPath ulid]? =
          some (world.blobs[blobPath ulid]?.getD [] ++ receivedData env drawn arg) := by
        rw [withReceived, World.withBlobs_blobs, get_extendIn, if_pos rfl, token.blobs]
      rw [← calls, ← take_write_eq_self_iff]
      constructor
      · rintro ⟨other, same, stored⟩
        cases Ulid.toBytes_injective same
        rw [blob, Option.some_inj, List.append_cancel_left_eq] at stored
        exact stored
      · intro all
        exact ⟨ulid, rfl, by rw [blob, receivedData, all]⟩

/-- An append that returns `Ok` has stored its data exactly when it was written in one transfer. -/
theorem appendStored_iff {arg : AppendArg} (ok : ((append env arg).run world).result = .ok ()) :
    AppendStored env.toNormalization world ((append env arg).run world).state arg ↔
      WritesAll env world.calls arg.data.bytes := by
  have cases := append_cases env world arg
  generalize (append env arg).run world = outcome at cases ok
  cases cases with
  | refused err => cases ok
  | appended target key record path content later targeted resolved head there result =>
      have blob : (later.advance 1).blobs[path]? = some (content ++
          arg.data.bytes.take (env.write world.calls arg.data.bytes.length)) := by
        rw [World.advance_blobs, result, withAppended, World.withBlobs_blobs, get_extendIn,
          if_pos rfl, there, Option.getD_some]
      rw [← take_write_eq_self_iff]
      constructor
      · rintro ⟨target', key', record', path', content', targeted', resolved', head', there',
          stored⟩
        cases targeted.symm.trans targeted'
        cases resolved.symm.trans resolved'
        cases head.there.unique head'.there
        obtain ⟨row, found, _, rfl⟩ := head.row
        obtain ⟨row', found', _, rfl⟩ := head'.row
        cases found.symm.trans found'
        cases there.symm.trans there'
        rw [blob, Option.some_inj, List.append_cancel_left_eq] at stored
        exact stored
      · intro all
        exact ⟨target, key, record, path, content, targeted, resolved, head, there,
          by rw [blob, all]⟩

/-- **Acknowledged data is stored exactly when it was written in one transfer**: after an upload in
a single message, after a fragment and after an append. -/
theorem acknowledged_iff (env : Env) (world : World) :
    (∀ arg result, NextUlidFresh env world → arg.continuation = [] → arg.incomplete = false →
      ((upload env arg).run world).result = .ok result →
        (StoredWhole world ((upload env arg).run world).state arg.data.bytes ↔
          WritesAll env (world.calls + 1) arg.data.bytes)) ∧
    (∀ arg result, arg.incomplete = true → ((upload env arg).run world).result = .ok result →
      (FragmentStored world ((upload env arg).run world).state result arg.data.bytes ↔
        WritesAll env (if arg.continuation = [] then world.calls + 1 else world.calls)
          arg.data.bytes)) ∧
    ∀ arg, ((append env arg).run world).result = .ok () →
      (AppendStored env.toNormalization world ((append env arg).run world).state arg ↔
        WritesAll env world.calls arg.data.bytes) :=
  ⟨fun _ _ fresh single complete ok => storedWhole_iff fresh single complete ok,
    fun _ _ incomplete ok => fragmentStored_iff incomplete ok, fun _ ok => appendStored_iff ok⟩

/-! ## Writes of one byte -/

/-- An environment in which a write transfers one byte. -/
def Env.bytewise : Env where
  __ := Env.numbered .unchanged
  write _ size := min size 1
  write_le _ size := Nat.min_le_left size 1
  write_pos _ _ positive := Nat.lt_min.mpr ⟨positive, Nat.one_pos⟩

/-- The upload of two bytes in a single message. -/
def uploadTwoBytes : UploadArg := { target := some ⟨[['a']]⟩, data := { bytes := [67, 68] } }

/-- A fragment of two bytes. -/
def twoByteFragment : UploadArg where
  target := some ⟨[['b']]⟩
  data := { bytes := [67, 69] }
  incomplete := true

/-- One byte appended to the file. -/
def appendByte : AppendArg := { target := some ⟨[['a']], none⟩, data := { bytes := [70] } }

/-- The server after the upload. -/
def bytewiseServer : Server := serverAfter .bytewise [.upload uploadTwoBytes]

/-- **An upload of two bytes returns `Ok` and has stored one**, and records the length 2. -/
theorem upload_lost_byte :
    ((upload .bytewise uploadTwoBytes).run .empty).result = .ok {} ∧
      bytewiseServer.world.blobs[blobPath 0]? = some [67] ∧
      bytewiseServer.world.db.ver[rowKey 1 1]? =
        some ((newFileVersion .bytewise uploadTwoBytes 2).bytesOf ++ blobPath 0) ∧
      (newFileVersion .bytewise uploadTwoBytes 2).length = 2 ∧
      ¬ StoredWhole .empty ((upload .bytewise uploadTwoBytes).run .empty).state [67, 68] := by
  have ok : ((upload .bytewise uploadTwoBytes).run .empty).result = .ok {} := by decide
  refine ⟨ok, by decide, by decide, rfl, fun stored => ?_⟩
  exact absurd ((storedWhole_iff (by decide) rfl rfl ok).mp stored) (by decide)

theorem bytewise_acknowledged :
    ¬ StoredWhole .empty ((upload .bytewise uploadTwoBytes).run .empty).state [67, 68] ∧
      ¬ FragmentStored .empty ((upload .bytewise twoByteFragment).run .empty).state
        { continuation := Ulid.toBytes 0 } [67, 69] ∧
      AppendStored .unchanged bytewiseServer.world
        ((append .bytewise appendByte).run bytewiseServer.world).state appendByte := by
  obtain ⟨single, -, -⟩ := acknowledged_iff .bytewise .empty
  obtain ⟨-, fragment, -⟩ := acknowledged_iff .bytewise .empty
  obtain ⟨-, -, appended⟩ := acknowledged_iff .bytewise bytewiseServer.world
  refine ⟨fun stored => ?_, fun stored => ?_, ?_⟩
  · exact absurd ((single uploadTwoBytes {} (by decide) rfl rfl (by decide)).mp stored) (by decide)
  · exact absurd ((fragment twoByteFragment _ rfl (by decide)).mp stored) (by decide)
  · exact (appended appendByte (by decide)).mpr (by decide)

end Yeetbox.Storage
