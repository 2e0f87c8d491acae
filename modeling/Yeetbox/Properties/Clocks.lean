import Yeetbox.Storage.Frame
import Yeetbox.Storage.Name

/-!
# Recorded times

The times in the records come from the system clock. `Time64::now` keeps the seconds of a reading
and the remainder of its nanoseconds by a million, which starts again with every millisecond. Two
readings are recorded in their order exactly when they are of different seconds or their remainders
are in order, and so are the times of the records (`recorded_times_follow_iff`).
-/

set_option autoImplicit false

namespace Yeetbox.Storage

open Library

/-! ## Two readings -/

/-- A later reading is of a later second, or its nanoseconds within the millisecond are not
fewer. -/
def ClockReading.KeepsUp (first second : ClockReading) : Prop :=
  first.secs < second.secs ∨ first.subsecNanos % 1000000 ≤ second.subsecNanos % 1000000

instance (first second : ClockReading) : Decidable (first.KeepsUp second) :=
  inferInstanceAs (Decidable (_ ∨ _))

/-- **Two readings are recorded in their order exactly when the second keeps up.** -/
theorem now_le_iff {first second : ClockReading} (firstBound : first.secs.toNat < 2 ^ 44)
    (secondBound : second.secs.toNat < 2 ^ 44) (ordered : first.asNanos ≤ second.asNanos) :
    (Time64.now first).word ≤ (Time64.now second).word ↔ first.KeepsUp second := by
  have firstSmall : first.subsecNanos % 1000000 < 2 ^ 20 := by omega
  have secondSmall : second.subsecNanos % 1000000 < 2 ^ 20 := by omega
  have firstSubsec := first.subsec
  have secondSubsec := second.subsec
  rw [ClockReading.asNanos, ClockReading.asNanos] at ordered
  rw [ClockReading.KeepsUp, UInt64.le_iff_toNat_le, UInt64.lt_iff_toNat_lt,
    Time64.now_word firstBound, Time64.now_word secondBound, ← Nat.not_lt,
    mul_add_lt_iff secondSmall firstSmall]
  omega

/-- A clock that does not go back, and whose seconds have 44 bits. -/
structure Env.ClockRuns (env : Env) : Prop where
  bounded : ∀ call, (env.clock call).secs.toNat < 2 ^ 44
  ordered : ∀ {call later}, call ≤ later → (env.clock call).asNanos ≤ (env.clock later).asNanos

/-! ## The times of records -/

/-- The number of the call that reads the time at which the entry of a request is created. -/
def Request.createCall (world : World) : Request → ℕ
  | .upload arg => world.calls + if arg.continuation = [] then 2 else 1
  | _ => world.calls + 1

/-- The number of the call that reads the time at which it is modified. -/
def Request.modifyCall (world : World) : Request → ℕ
  | .upload arg => Request.createCall world (.upload arg) + 1
  | req => req.createCall world

/-- A request creates an entry, whose record has the times of the request. -/
structure RecordsTimes (env : Env) (server : Server) (req : Request) (key : Bytes)
    (record : FsRecordValue) : Prop where
  creates : (∃ arg, req = .upload arg) ∨ ∃ arg, req = .copy arg
  free : server.world.db.fs[key]? = none
  there : RecordAt (serve env server req).world.db.fs key record

variable {env : Env} {server : Server} {req : Request} {key : Bytes} {record : FsRecordValue}

/-- The calls from which a record has its times are made while the request is handled. -/
structure TimesFrom (env : Env) (world later : World) (req : Request) (record : FsRecordValue) :
    Prop where
  created : record.createTime = .now (env.clock (req.createCall world))
  modified : record.modifyTime = .now (env.clock (req.modifyCall world))
  late : req.modifyCall world < later.calls

theorem upload_times {world : World} {arg : UploadArg} (free : world.db.fs[key]? = none)
    (there : RecordAt ((upload env arg).run world).state.db.fs key record) :
    TimesFrom env world ((upload env arg).run world).state (.upload arg) record := by
  rcases upload_db_or_done env world arg with same | ⟨result, done⟩
  · rw [same] at there
    exact absurd free there.not_free
  generalize ((upload env arg).run world).state = later at done there
  cases done with
  | fragment ulid drawn token incomplete =>
      rw [show (withReceived env drawn arg ulid).db = world.db from token.db] at there
      exact absurd free there.not_free
  | committed target lastName ulid drawn parentId saved moved stops targeted named token complete
      walked _ save =>
      have start : (withReceived env drawn arg ulid).calls =
          Request.createCall world (.upload arg) := by
        cases token with
        | fresh new =>
            rw [Request.createCall, if_pos new]
            rfl
        | continued _ presented =>
            have notNew : arg.continuation ≠ [] := presented ▸ Ulid.toBytes_ne_nil ulid
            rw [Request.createCall, if_neg notNew]
            rfl
      have ends : (withReceived env drawn arg ulid).calls + 4 ≤ moved.calls := by
        cases save with
        | single => exact Nat.le_refl _
        | renamed _ _ _ _ moves =>
            rw [moves]
            exact Nat.le_succ _
      rw [World.withDb_db, withNewFile] at there
      have new := recordAt_added free there
      refine ⟨?_, ?_, ?_⟩
      · rw [new, ← start]
        rfl
      · rw [new, Request.modifyCall, ← start]
        rfl
      · rw [World.withDb_calls, Request.modifyCall, ← start]
        omega

theorem CopyCases.times {world : World} {arg : CopyArg} {outcome : Outcome World Status Unit}
    (cases : CopyCases env world arg outcome) (free : world.db.fs[key]? = none)
    (there : RecordAt outcome.state.db.fs key record) :
    TimesFrom env world outcome.state (.copy arg) record := by
  cases cases with
  | refused err => exact absurd free there.not_free
  | stopped err copied stops count blob =>
      rw [World.advance_db, blob.db] at there
      exact absurd free there.not_free
  | created destParentId destFileName copied later stops named walked _ blob result =>
      rw [result, World.withDb_db, withCopy] at there
      have new := recordAt_added free there
      have start : copied.calls = world.calls + 1 := blob.calls
      refine ⟨?_, ?_, ?_⟩
      · rw [new, copiedRecord, start]
        rfl
      · rw [new, copiedRecord, start]
        rfl
      · rw [result, World.withDb_calls, World.advance_calls, start]
        exact Nat.lt_succ_self _

theorem RecordsTimes.times (records : RecordsTimes env server req key record) :
    TimesFrom env server.world (serve env server req).world req record := by
  rcases records.creates with ⟨arg, rfl⟩ | ⟨arg, rfl⟩
  · exact upload_times records.free records.there
  · exact (copy_cases env server.world arg).times records.free records.there

theorem Request.createCall_le (world : World) (req : Request) :
    req.createCall world ≤ req.modifyCall world := by
  cases req with
  | upload arg => exact Nat.le_succ _
  | _ => exact Nat.le_refl _

theorem Request.le_createCall (world : World) (req : Request) :
    world.calls ≤ req.createCall world := by
  cases req with
  | upload arg => exact Nat.le_add_right _ _
  | _ => exact Nat.le_add_right _ _

/-- The calls of a request come before those of every request after it. -/
theorem RecordsTimes.before (records : RecordsTimes env server req key record)
    (between : List Request) (other : Request) :
    req.modifyCall server.world <
      other.createCall (runAll (serve env) (serve env server req) between).world :=
  calc req.modifyCall server.world
      < (serve env server req).world.calls := records.times.late
    _ ≤ (runAll (serve env) (serve env server req) between).world.calls :=
        le_runAll (@serve_calls_le env) _ between
    _ ≤ _ := other.le_createCall _

/-- The times of a record are in order exactly when the clock keeps up between their calls. -/
theorem RecordsTimes.own_iff (records : RecordsTimes env server req key record)
    (runs : env.ClockRuns) : record.createTime.word ≤ record.modifyTime.word ↔
      (env.clock (req.createCall server.world)).KeepsUp
        (env.clock (req.modifyCall server.world)) := by
  rw [records.times.created, records.times.modified]
  exact now_le_iff (runs.bounded _) (runs.bounded _) (runs.ordered (req.createCall_le _))

/-- The times of two records are in the order of their requests exactly when the clock keeps up
between their calls. -/
theorem RecordsTimes.ordered_iff {between : List Request} {other : Request} {key' : Bytes}
    {record' : FsRecordValue} {later : Server}
    (records : RecordsTimes env server req key record)
    (reached : later = runAll (serve env) (serve env server req) between)
    (records' : RecordsTimes env later other key' record') (runs : env.ClockRuns) :
    (record.createTime.word ≤ record'.createTime.word ↔
      (env.clock (req.createCall server.world)).KeepsUp
        (env.clock (other.createCall later.world))) ∧
    (record.modifyTime.word ≤ record'.modifyTime.word ↔
      (env.clock (req.modifyCall server.world)).KeepsUp
        (env.clock (other.modifyCall later.world))) := by
  have before : req.modifyCall server.world < other.createCall later.world :=
    reached ▸ records.before between other
  have creates := req.createCall_le server.world
  have modifies := other.createCall_le later.world
  rw [records.times.created, records.times.modified, records'.times.created,
    records'.times.modified]
  exact ⟨now_le_iff (runs.bounded _) (runs.bounded _) (runs.ordered (by omega)),
    now_le_iff (runs.bounded _) (runs.bounded _) (runs.ordered (by omega))⟩

/-- **Times are recorded in their order exactly when the clock keeps up**: two readings, the two
times of a record, and the times of two records in a run. -/
theorem recorded_times_follow_iff (env : Env) :
    (∀ first second : ClockReading, first.secs.toNat < 2 ^ 44 → second.secs.toNat < 2 ^ 44 →
      first.asNanos ≤ second.asNanos →
        ((Time64.now first).word ≤ (Time64.now second).word ↔ first.KeepsUp second)) ∧
    (env.ClockRuns → ∀ (earlier : List Request) (req : Request) (key : Bytes)
      (record : FsRecordValue), RecordsTimes env (serverAfter env earlier) req key record →
        (record.createTime.word ≤ record.modifyTime.word ↔
          (env.clock (req.createCall (serverAfter env earlier).world)).KeepsUp
            (env.clock (req.modifyCall (serverAfter env earlier).world))) ∧
        ∀ (between : List Request) (other : Request) (key' : Bytes) (record' : FsRecordValue),
          RecordsTimes env (serverAfter env (earlier ++ req :: between)) other key' record' →
            (record.createTime.word ≤ record'.createTime.word ↔
              (env.clock (req.createCall (serverAfter env earlier).world)).KeepsUp
                (env.clock (other.createCall
                  (serverAfter env (earlier ++ req :: between)).world))) ∧
            (record.modifyTime.word ≤ record'.modifyTime.word ↔
              (env.clock (req.modifyCall (serverAfter env earlier).world)).KeepsUp
                (env.clock (other.modifyCall
                  (serverAfter env (earlier ++ req :: between)).world)))) := by
  refine ⟨fun first second firstBound secondBound ordered =>
    now_le_iff firstBound secondBound ordered, ?_⟩
  intro runs earlier req key record records
  refine ⟨records.own_iff runs, fun between other key' record' records' => ?_⟩
  exact records.ordered_iff (serverAfter_append env earlier (req :: between)) records' runs

/-! ## A clock that is read every 400 microseconds -/

/-- An environment whose clock is read every 400 microseconds, until the second is over. -/
def Env.ticking : Env where
  __ := Env.numbered .unchanged
  clock call :=
    { secs := 1, subsecNanos := min (call * 400000) 999999999, subsec := by omega }

theorem Env.ticking_clockRuns : Env.ticking.ClockRuns where
  bounded _ := (by decide : (1 : UInt64).toNat < 2 ^ 44)
  ordered {call later} le := by
    have nanos : min (call * 400000) 999999999 ≤ min (later * 400000) 999999999 := by omega
    exact Nat.add_le_add_left nanos _

/-- The upload of a file with a name of one letter. -/
def uploadTimed (letter : Char) : Request :=
  .upload { target := some ⟨[[letter]]⟩, data := { bytes := [61] } }

/-- The record of the first upload. -/
def timedRecord : FsRecordValue := newFileRecord .ticking {} 0 2

/-- The record of the second. -/
def laterRecord : FsRecordValue :=
  newFileRecord .ticking (serverAfter .ticking [uploadTimed 'a']).world.db 6 8

theorem timedRecord_recorded : RecordsTimes .ticking (serverAfter .ticking [])
    (uploadTimed 'a') (makeKey .unchanged 0 ['a']) timedRecord :=
  ⟨.inl ⟨_, rfl⟩, by decide, recordAt_iff.mpr (by decide)⟩

theorem laterRecord_recorded : RecordsTimes .ticking
    (serverAfter .ticking ([] ++ uploadTimed 'a' :: [])) (uploadTimed 'b')
    (makeKey .unchanged 0 ['b']) laterRecord :=
  ⟨.inl ⟨_, rfl⟩, by decide, recordAt_iff.mpr (by decide)⟩

/-- **A file is recorded as modified before it was created**, while the clock does not go back. -/
theorem modified_before_created : Env.ticking.ClockRuns ∧
    RecordsTimes .ticking (serverAfter .ticking []) (uploadTimed 'a')
      (makeKey .unchanged 0 ['a']) timedRecord ∧
    ¬ timedRecord.createTime.word ≤ timedRecord.modifyTime.word :=
  ⟨Env.ticking_clockRuns, timedRecord_recorded, by decide⟩

/-- A millisecond later the readings are recorded in the other order; the creation times of the two
files are in theirs. -/
theorem recorded_times_ticking :
    ¬ (Time64.now ⟨1, 999999, by decide⟩).word ≤ (Time64.now ⟨1, 1000000, by decide⟩).word ∧
    ¬ timedRecord.createTime.word ≤ timedRecord.modifyTime.word ∧
    (timedRecord.createTime.word ≤ laterRecord.createTime.word ↔
      (Env.ticking.clock 2).KeepsUp (Env.ticking.clock 8)) :=
  have runs := (recorded_times_follow_iff .ticking).2 Env.ticking_clockRuns [] (uploadTimed 'a') _ _
    timedRecord_recorded
  ⟨fun ordered => absurd (((recorded_times_follow_iff .ticking).1 _ _ (by decide) (by decide)
      (by decide)).mp ordered) (by decide),
    fun ordered => absurd (runs.1.mp ordered) (by decide),
    (runs.2 [] (uploadTimed 'b') _ _ laterRecord_recorded).1⟩

end Yeetbox.Storage
