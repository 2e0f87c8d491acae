import Yeetbox.Library.Packed

/-!
# Packed timestamps

A `Time64` holds a time in one 64-bit word: the seconds since the Unix epoch in the upper
44 bits and a sub-second count in the lower 20. Zero means that the time is not known.
-/

set_option autoImplicit false

namespace Yeetbox.Storage

open Library

/-- A packed timestamp. -/
structure Time64 where
  word : UInt64
  deriving DecidableEq, Repr

/-- `google.protobuf.Timestamp`. -/
structure Timestamp where
  seconds : Int64
  nanos : Int32
  deriving DecidableEq

/-- A reading of the system clock: the `Duration` since the Unix epoch. -/
structure ClockReading where
  secs : UInt64
  subsecNanos : ℕ
  subsec : subsecNanos < 1000000000

namespace ClockReading

/-- `Duration::as_nanos`. -/
def asNanos (reading : ClockReading) : ℕ := reading.secs.toNat * 1000000000 + reading.subsecNanos

end ClockReading

namespace Time64

def secMask : UInt64 := 0xFFFFFFFFFFF00000

def nanosecMask : UInt64 := 0x00000000000FFFFF

/-- `TIME64_UNKNOWN_TIME`. -/
def unknownTime : Time64 := ⟨0⟩

def isUnknown (time : Time64) : Bool := time == unknownTime

def known (time : Time64) : Option Time64 := if time.isUnknown then none else some time

/-- The two parts are combined by shift and or; `ns as u64` extends the sign. -/
def fromParts (secs : UInt64) (ns : Int32) : Time64 :=
  ⟨((0 ||| secs) <<< 20) ||| ns.toInt64.toUInt64⟩

/-- The clock reading as the storage records it. -/
def now (reading : ClockReading) : Time64 :=
  fromParts reading.secs (Int32.ofNat (reading.asNanos % 1000000))

def ofTimestamp (value : Timestamp) : Time64 := fromParts value.seconds.toUInt64 value.nanos

def toTimestamp (time : Time64) : Timestamp where
  seconds := ((time.word &&& secMask) >>> 20).toInt64
  nanos := (time.word &&& nanosecMask).toUInt32.toInt32

/-! ## The parts of a time -/

/-- The word holds the two parts as they are when neither reaches beyond its range. -/
theorem fromParts_word {secs : UInt64} {ns : Int32} (secsBound : secs.toNat < 2 ^ 44)
    (nonneg : 0 ≤ ns.toInt) :
    (fromParts secs ns).word.toNat = pack 20 secs.toNat ns.toInt.toNat := by
  have nanos : ns.toInt64.toUInt64.toNat = ns.toInt.toNat := by
    have nonneg64 : (0 : Int64) ≤ ns.toInt64 := by
      rw [Int64.le_iff_toInt_le, Int32.toInt_toInt64]
      exact nonneg
    rw [Int64.toNat_toUInt64_of_le nonneg64, Int64.toNatClampNeg, Int32.toInt_toInt64]
  have shifted : secs.toNat <<< 20 < 2 ^ 64 := by
    rw [Nat.shiftLeft_eq]
    omega
  rw [fromParts, UInt64.toNat_or, UInt64.toNat_shiftLeft, nanos, UInt64.zero_or]
  change secs.toNat <<< 20 % 2 ^ 64 ||| ns.toInt.toNat = _
  rw [Nat.mod_eq_of_lt shifted, pack]

/-- The seconds are read from the upper part. -/
theorem toTimestamp_seconds (time : Time64) :
    time.toTimestamp.seconds.toInt = (time.word.toNat / 2 ^ 20 : ℕ) := by
  have upper : ((time.word &&& secMask) >>> 20).toNat = time.word.toNat / 2 ^ 20 := by
    have small : time.word.toNat / 2 ^ 20 < 2 ^ 44 := by
      have bound := time.word.toNat_lt
      omega
    rw [UInt64.toNat_shiftRight, UInt64.toNat_and]
    change (time.word.toNat &&& (2 ^ 44 - 1) <<< 20) >>> 20 = _
    rw [Nat.shiftRight_and_distrib, Nat.shiftLeft_shiftRight, Nat.and_two_pow_sub_one_eq_mod,
      Nat.shiftRight_eq_div_pow, Nat.mod_eq_of_lt small]
  have small : ((time.word &&& secMask) >>> 20).toBitVec.toNat = time.word.toNat / 2 ^ 20 := upper
  have fits : 2 * ((time.word &&& secMask) >>> 20).toBitVec.toNat < 2 ^ 64 := by
    have bound := time.word.toNat_lt
    omega
  exact (BitVec.toInt_eq_toNat_of_lt fits).trans (congrArg Nat.cast small)

/-- The nanoseconds are read from the lower part. -/
theorem toTimestamp_nanos (time : Time64) :
    time.toTimestamp.nanos.toInt = (time.word.toNat % 2 ^ 20 : ℕ) := by
  have lower : (time.word &&& nanosecMask).toUInt32.toBitVec.toNat =
      time.word.toNat % 2 ^ 20 := by
    change (time.word &&& nanosecMask).toUInt32.toNat = _
    rw [UInt64.toNat_toUInt32, UInt64.toNat_and]
    change (time.word.toNat &&& (2 ^ 20 - 1)) % 2 ^ 32 = _
    rw [Nat.and_two_pow_sub_one_eq_mod]
    omega
  have fits : 2 * (time.word &&& nanosecMask).toUInt32.toBitVec.toNat < 2 ^ 32 := by
    have bound := Nat.mod_lt time.word.toNat (Nat.two_pow_pos 20)
    omega
  exact (BitVec.toInt_eq_toNat_of_lt fits).trans (congrArg Nat.cast lower)

/-- The word of a clock reading. -/
theorem now_word {reading : ClockReading} (bound : reading.secs.toNat < 2 ^ 44) :
    (now reading).word.toNat =
      reading.secs.toNat * 2 ^ 20 + reading.subsecNanos % 1000000 := by
  have total : reading.asNanos % 1000000 = reading.subsecNanos % 1000000 := by
    rw [ClockReading.asNanos]
    omega
  have small : reading.subsecNanos % 1000000 < 2 ^ 20 := by omega
  have nanos : (Int32.ofNat (reading.asNanos % 1000000)).toInt =
      (reading.subsecNanos % 1000000 : ℕ) := by
    rw [total, Int32.toInt_ofNat_of_lt (by omega)]
  rw [now, fromParts_word bound (by omega), nanos, Int.toNat_natCast, pack_of_lt small]

end Time64

end Yeetbox.Storage
