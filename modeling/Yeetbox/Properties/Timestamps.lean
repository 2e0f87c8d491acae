import Yeetbox.Storage.Time64

/-!
# Timestamps of the protocol

A protobuf timestamp is converted to a `Time64` and back. The nanoseconds of a timestamp need 30
bits, and a `Time64` keeps 20 for them: what does not fit is mixed into the seconds. A timestamp is
kept exactly when its nanoseconds are below `2 ^ 20`, and timestamps whose nanoseconds are keep
their order (`timestamps_kept_iff`).
-/

set_option autoImplicit false

namespace Yeetbox.Storage

open Library

namespace Timestamp

/-- The timestamps from the Unix epoch on whose seconds have 44 bits. -/
structure InRange (value : Timestamp) : Prop where
  seconds : 0 ≤ value.seconds.toInt ∧ value.seconds.toInt < 2 ^ 44
  nanos : 0 ≤ value.nanos.toInt ∧ value.nanos.toInt ≤ 999999999

/-- One timestamp is before another. -/
def Before (first second : Timestamp) : Prop :=
  first.seconds.toInt < second.seconds.toInt ∨
    first.seconds.toInt = second.seconds.toInt ∧ first.nanos.toInt < second.nanos.toInt

/-- A timestamp comes back from the conversion to `Time64` as it was. -/
def Kept (value : Timestamp) : Prop := (Time64.ofTimestamp value).toTimestamp = value

/-- The nanoseconds fit the bits that a `Time64` keeps for them. -/
def Fits (value : Timestamp) : Prop := value.nanos.toInt < 2 ^ 20

instance (value : Timestamp) : Decidable value.Fits := inferInstanceAs (Decidable (_ < _))

variable {value first second : Timestamp}

/-- The word of a timestamp in range is its two numbers, packed. -/
theorem InRange.word (range : value.InRange) : (Time64.ofTimestamp value).word.toNat =
    pack 20 value.seconds.toInt.toNat value.nanos.toInt.toNat := by
  obtain ⟨nonneg, bound⟩ := range.seconds
  have seconds : value.seconds.toUInt64.toNat = value.seconds.toInt.toNat :=
    Int64.toNat_toUInt64_of_le (Int64.le_iff_toInt_le.mpr nonneg)
  rw [Time64.ofTimestamp, Time64.fromParts_word (by omega) range.nanos.1, seconds]

/-- **A timestamp in range is kept exactly when its nanoseconds fit.** -/
theorem InRange.kept_iff (range : value.InRange) : value.Kept ↔ value.Fits := by
  have secondsNonneg := range.seconds.1
  have nanosNonneg := range.nanos.1
  have parts : value.Kept ↔
      (Time64.ofTimestamp value).word.toNat / 2 ^ 20 = value.seconds.toInt.toNat ∧
        (Time64.ofTimestamp value).word.toNat % 2 ^ 20 = value.nanos.toInt.toNat := by
    have seconds := (Time64.ofTimestamp value).toTimestamp_seconds
    have nanos := (Time64.ofTimestamp value).toTimestamp_nanos
    rw [Kept]
    constructor
    · intro kept
      rw [kept] at seconds nanos
      omega
    · rintro ⟨sameSeconds, sameNanos⟩
      rw [sameSeconds, Int.toNat_of_nonneg secondsNonneg] at seconds
      rw [sameNanos, Int.toNat_of_nonneg nanosNonneg] at nanos
      generalize (Time64.ofTimestamp value).toTimestamp = back at seconds nanos
      obtain ⟨backSeconds, backNanos⟩ := back
      obtain ⟨ownSeconds, ownNanos⟩ := value
      rw [Timestamp.mk.injEq]
      exact ⟨Int64.toInt_inj.mp seconds, Int32.toInt_inj.mp nanos⟩
  rw [parts, range.word, pack_kept_iff, Fits]
  omega

/-- The upper part of the word of a timestamp: its seconds, and the bits of its nanoseconds that
do not fit. -/
def carried (value : Timestamp) : ℕ :=
  value.seconds.toInt.toNat ||| value.nanos.toInt.toNat / 2 ^ 20

/-- Words are ordered by their upper parts first, and for equal ones by the nanoseconds that fit. -/
theorem InRange.word_lt_iff (firstRange : first.InRange) (secondRange : second.InRange) :
    (Time64.ofTimestamp first).word < (Time64.ofTimestamp second).word ↔
      first.carried < second.carried ∨ first.carried = second.carried ∧
        first.nanos.toInt.toNat % 2 ^ 20 < second.nanos.toInt.toNat % 2 ^ 20 := by
  rw [UInt64.lt_iff_toNat_lt, firstRange.word, secondRange.word]
  exact pack_lt_pack_iff

/-- Timestamps whose nanoseconds fit are ordered as their words. -/
theorem Before.word_lt (before : first.Before second) (firstRange : first.InRange)
    (secondRange : second.InRange) (firstFits : first.Fits) (secondFits : second.Fits) :
    (Time64.ofTimestamp first).word < (Time64.ofTimestamp second).word := by
  have firstNonneg := firstRange.nanos.1
  have secondNonneg := secondRange.nanos.1
  have secondsNonneg := firstRange.seconds.1
  rw [UInt64.lt_iff_toNat_lt, firstRange.word, secondRange.word]
  rw [Fits] at firstFits secondFits
  refine (pack_lt_pack_iff_of_lt (by omega) (by omega)).mpr ?_
  rcases before with earlier | ⟨sameSeconds, earlier⟩
  · exact .inl (by omega)
  · exact .inr ⟨congrArg Int.toNat sameSeconds, by omega⟩

/-- Two timestamps come back as they were, and their order is that of their words. -/
structure Converts (first second : Timestamp) : Prop where
  kept : first.Kept ∧ second.Kept
  ordered : first.Before second →
    (Time64.ofTimestamp first).word < (Time64.ofTimestamp second).word

/-- **Two timestamps in range convert without loss exactly when their nanoseconds fit.** In general
the order of their words is that of their carried seconds and of the nanoseconds that fit. -/
theorem timestamps_kept_iff (firstRange : first.InRange) (secondRange : second.InRange) :
    (first.Converts second ↔ first.Fits ∧ second.Fits) ∧
    ((Time64.ofTimestamp first).word < (Time64.ofTimestamp second).word ↔
      first.carried < second.carried ∨ first.carried = second.carried ∧
        first.nanos.toInt.toNat % 2 ^ 20 < second.nanos.toInt.toNat % 2 ^ 20) := by
  refine ⟨?_, firstRange.word_lt_iff secondRange⟩
  constructor
  · rintro ⟨⟨firstKept, secondKept⟩, -⟩
    exact ⟨firstRange.kept_iff.mp firstKept, secondRange.kept_iff.mp secondKept⟩
  · rintro ⟨firstFits, secondFits⟩
    exact ⟨⟨firstRange.kept_iff.mpr firstFits, secondRange.kept_iff.mpr secondFits⟩,
      fun before => before.word_lt firstRange secondRange firstFits secondFits⟩

/-- The last nanosecond of the second before one. -/
def lateFirst : Timestamp := ⟨0, 999999999⟩

/-- One second after the epoch. -/
def oneSecond : Timestamp := ⟨1, 0⟩

theorem lateFirst_inRange : lateFirst.InRange := ⟨by decide, by decide⟩

theorem oneSecond_inRange : oneSecond.InRange := ⟨by decide, by decide⟩

/-- The last nanosecond of a second comes back as another time, and is put after the second that
follows it. -/
theorem timestamp_not_kept : lateFirst.InRange ∧ oneSecond.InRange ∧ lateFirst.Before oneSecond ∧
    ¬ lateFirst.Kept ∧
    ¬ (Time64.ofTimestamp lateFirst).word < (Time64.ofTimestamp oneSecond).word := by
  refine ⟨lateFirst_inRange, oneSecond_inRange, .inl (by decide), ?_, by decide⟩
  rw [lateFirst_inRange.kept_iff]
  decide

/-- Two times of one second, a microsecond apart. -/
theorem microsecond_kept : Converts ⟨5, 1000⟩ ⟨5, 2000⟩ :=
  (timestamps_kept_iff ⟨by decide, by decide⟩ ⟨by decide, by decide⟩).1.mpr
    ⟨by decide, by decide⟩

end Timestamp

end Yeetbox.Storage
