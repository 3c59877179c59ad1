import Mathlib.Data.Nat.Bitwise
import Mathlib.Tactic.Linarith

/-! The time of an archive entry in two words of sixteen bits, as it is packed and unpacked. -/

set_option autoImplicit false

namespace Updater.Package

/-- The fields of `struct tm` that are packed. -/
structure Tm where
  year : Nat
  mon : Nat
  mday : Nat
  hour : Nat
  min : Nat
  sec : Nat
  deriving DecidableEq, Repr

def minYear : Nat := 80

def startYear : Nat := 1900

def tmYearBits : Nat := 9

def tmMonBits : Nat := 5

def tmMinBits : Nat := 5

def tmHourBits : Nat := 11

/-- A conversion to `uint16_t`. -/
def toWord (value : Nat) : Nat :=
  value % 2 ^ 16

/-- The time that `ExtraTimeAndDate` breaks down: an even number of seconds. -/
def evenTime (when_ : Nat) : Nat :=
  (when_ + 1) / 2 * 2

/-- The words of a local time, the date first. -/
def packTm (nowTime : Tm) : Nat × Nat :=
  let year := if nowTime.year < minYear then minYear else nowTime.year
  let date := toWord (toWord (year - minYear) <<< tmYearBits)
  let date := date ||| toWord (toWord (nowTime.mon + 1) <<< tmMonBits)
  let date := date ||| toWord nowTime.mday
  let time := toWord (toWord nowTime.hour <<< tmHourBits)
  let time := time ||| toWord (toWord nowTime.min <<< tmMinBits)
  let time := time ||| toWord (toWord nowTime.sec >>> 1)
  (date, time)

/-- `ExtraTimeAndDate`, with `localtime_r`. -/
def extraTimeAndDate (localtimeR : Nat → Tm) (when_ : Nat) : Nat × Nat :=
  packTm (localtimeR (evenTime when_))

/-- The fields that `CombineTimeAndDate` hands to `mktime`. -/
def combineTimeAndDate (modifiedTime modifiedDate : Nat) : Tm where
  year := ((modifiedDate >>> tmYearBits) &&& 0x7f) + startYear
  mon := (modifiedDate >>> tmMonBits) &&& 0xf
  mday := modifiedDate &&& 0x1f
  hour := (modifiedTime >>> tmHourBits) &&& 0x1f
  min := (modifiedTime >>> tmMinBits) &&& 0x2f
  sec := (modifiedTime <<< 1) &&& 0x1f

/-- A local time from 1980 to 2107 with even seconds. -/
structure DosTime extends Tm where
  firstYear : minYear ≤ year
  lastYear : year ≤ 207
  mon_lt : mon < 12
  firstDay : 1 ≤ mday
  lastDay : mday ≤ 31
  hour_lt : hour < 24
  min_lt : min < 60
  sec_le : sec ≤ 60
  even : sec % 2 = 0

section Fields

/-- Two fields of a word beside each other. -/
theorem shiftLeft_or {high low bits : Nat} (fits : low < 2 ^ bits) :
    high <<< bits ||| low = 2 ^ bits * high + low := by
  rw [Nat.shiftLeft_eq, Nat.mul_comm, Nat.two_pow_add_eq_or_of_lt fits]

theorem toWord_of_lt {value : Nat} (fits : value < 2 ^ 16) : toWord value = value :=
  Nat.mod_eq_of_lt fits

theorem toWord_shiftLeft {value bits : Nat} (fits : value * 2 ^ bits < 2 ^ 16) :
    toWord (toWord value <<< bits) = value <<< bits := by
  have small : value < 2 ^ 16 :=
    Nat.lt_of_le_of_lt (Nat.le_mul_of_pos_right value (Nat.two_pow_pos bits)) fits
  rw [toWord_of_lt small, Nat.shiftLeft_eq, toWord_of_lt fits]

variable (time : DosTime)

theorem packTm_date : (packTm time.toTm).1 =
    512 * (time.year - minYear) + (32 * (time.mon + 1) + time.mday) := by
  have lastYear := time.lastYear
  have mon := time.mon_lt
  have lastDay := time.lastDay
  have year : time.year - minYear < 128 := by
    rw [minYear]
    omega
  have day : time.mday < 2 ^ tmMonBits := Nat.lt_succ_of_le lastDay
  have month : 2 ^ tmMonBits * (time.mon + 1) + time.mday < 2 ^ tmYearBits := by
    rw [tmMonBits, tmYearBits]
    omega
  have clamp : (if time.year < minYear then minYear else time.year) = time.year :=
    if_neg (Nat.not_lt_of_le time.firstYear)
  rw [packTm]
  dsimp only
  rw [clamp, toWord_shiftLeft (by rw [tmYearBits]; omega),
    toWord_shiftLeft (by rw [tmMonBits]; omega), toWord_of_lt (by omega), Nat.or_assoc,
    shiftLeft_or day, shiftLeft_or month]
  rfl

theorem packTm_time : (packTm time.toTm).2 =
    2048 * time.hour + (32 * time.min + time.sec / 2) := by
  have hour := time.hour_lt
  have min := time.min_lt
  have sec := time.sec_le
  have half : toWord time.sec >>> 1 = time.sec / 2 := by
    rw [toWord_of_lt (by omega), Nat.shiftRight_eq_div_pow]
  have second : time.sec / 2 < 2 ^ tmMinBits := by
    rw [tmMinBits]
    omega
  have minute : 2 ^ tmMinBits * time.min + time.sec / 2 < 2 ^ tmHourBits := by
    rw [tmMinBits, tmHourBits]
    omega
  rw [packTm]
  dsimp only
  rw [toWord_shiftLeft (by rw [tmHourBits]; omega), toWord_shiftLeft (by rw [tmMinBits]; omega),
    half, toWord_of_lt (by omega), Nat.or_assoc, shiftLeft_or second, shiftLeft_or minute]
  rfl

theorem and_ones (value bits : Nat) : value &&& (2 ^ bits - 1) = value % 2 ^ bits :=
  Nat.and_two_pow_sub_one_eq_mod value bits

/-- What is unpacked: the year from another century on, the month one further, and the minutes and
seconds without a bit. -/
theorem combine_packTm : combineTimeAndDate (packTm time.toTm).2 (packTm time.toTm).1 =
    { year := time.year - minYear + startYear
      mon := time.mon + 1
      mday := time.mday
      hour := time.hour
      min := time.min &&& 0x2f
      sec := time.sec &&& 0x1f } := by
  have lastYear := time.lastYear
  have mon := time.mon_lt
  have lastDay := time.lastDay
  have hour := time.hour_lt
  have min := time.min_lt
  have sec := time.sec_le
  have even := time.even
  have minutes : ∀ value : Nat, value &&& 0x2f = value % 64 &&& 0x2f := by
    intro value
    have ones : value &&& 0x3f = value % 64 := and_ones value 6
    rw [← ones, Nat.and_assoc]
    rfl
  rw [combineTimeAndDate, packTm_date, packTm_time, tmYearBits, tmMonBits, tmHourBits, tmMinBits,
    minutes, minutes time.min, minYear]
  simp only [Nat.shiftRight_eq_div_pow, Nat.shiftLeft_eq, Tm.mk.injEq]
  have seven : ∀ value : Nat, value &&& 0x7f = value % 128 := fun value => and_ones value 7
  have four : ∀ value : Nat, value &&& 0xf = value % 16 := fun value => and_ones value 4
  have five : ∀ value : Nat, value &&& 0x1f = value % 32 := fun value => and_ones value 5
  rw [seven, four, five, five, five, five]
  refine ⟨?_, ?_, ?_, ?_, ?_, ?_⟩
  · omega
  · omega
  · omega
  · omega
  · congr 1
    omega
  · omega

end Fields

/-- Unpacking never gives the local time that was packed: at the least the month is another one. -/
theorem dosTime_never_roundTrips (localtimeR : Nat → DosTime) (when_ : Nat) :
    combineTimeAndDate (extraTimeAndDate (fun time => (localtimeR time).toTm) when_).2
        (extraTimeAndDate (fun time => (localtimeR time).toTm) when_).1 ≠
      (localtimeR (evenTime when_)).toTm := by
  rw [extraTimeAndDate, combine_packTm]
  intro same
  have months := congrArg Tm.mon same
  exact Nat.succ_ne_self _ months

theorem firstDay_least : 1 ≤ 1 := Nat.le_refl 1

/-- The thirty-first minute of 1 January 2000. -/
def millennium : DosTime where
  year := 100
  mon := 0
  mday := 1
  hour := 0
  min := 31
  sec := 34
  firstYear := by decide
  lastYear := by decide
  mon_lt := by decide
  firstDay := firstDay_least
  lastDay := by decide
  hour_lt := by decide
  min_lt := by decide
  sec_le := by decide
  even := by decide

/-- It becomes the fifteenth minute of 1 February 3820. -/
theorem millennium_lost :
    combineTimeAndDate (extraTimeAndDate (fun _ => millennium.toTm) 0).2
        (extraTimeAndDate (fun _ => millennium.toTm) 0).1 =
      { year := 1920, mon := 1, mday := 1, hour := 0, min := 15, sec := 2 } ∧
    millennium.toTm = { year := 100, mon := 0, mday := 1, hour := 0, min := 31, sec := 34 } := by
  decide

end Updater.Package
