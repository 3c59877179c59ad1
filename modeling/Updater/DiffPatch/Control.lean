import Mathlib.Data.List.GetD
import Updater.Base.Bytes

/-! What both sides of a block patch share: the control triples, their numbers
in sign-magnitude form, and the bzip2 streams that hold them. -/

set_option autoImplicit false

namespace Updater.DiffPatch

open Updater.Base

/-- `BSDIFF40`. -/
def bsdiffMagic : Bytes := [66, 83, 68, 73, 70, 70, 52, 48]

def bufferMask : UInt8 := 0x80

structure ControlData where
  diffLength : Int
  extraLength : Int
  offsetIncrement : Int
  deriving DecidableEq, Repr

/-- The magnitude least significant byte first, the sign in the top bit. -/
def writeLE64 (value : Int) : Bytes :=
  let low := leBytes 7 value.natAbs
  let top := UInt8.ofNat (value.natAbs / 256 ^ 7 % 256)
  low ++ [if value < 0 then top ||| 0x80 else top]

def readLE64 (buffer : Bytes) : Int :=
  let y : Int := (buffer.getD 7 0 &&& 0x7f).toNat
  let y := y * 256 + (buffer.getD 6 0).toNat
  let y := y * 256 + (buffer.getD 5 0).toNat
  let y := y * 256 + (buffer.getD 4 0).toNat
  let y := y * 256 + (buffer.getD 3 0).toNat
  let y := y * 256 + (buffer.getD 2 0).toNat
  let y := y * 256 + (buffer.getD 1 0).toNat
  let y := y * 256 + (buffer.getD 0 0).toNat
  if buffer.getD 7 0 &&& bufferMask ≠ 0 then -y else y

@[simp] theorem length_writeLE64 (value : Int) : (writeLE64 value).length = 8 := by
  simp [writeLE64]

theorem toNat_and_low (byte : UInt8) : (byte &&& 0x7f).toNat = byte.toNat % 128 := by
  rw [UInt8.toNat_and]
  exact Nat.and_two_pow_sub_one_eq_mod byte.toNat 7

private theorem sign_table : ∀ low : Fin 128,
    UInt8.ofNat low.val &&& bufferMask = 0 ∧
      (UInt8.ofNat low.val ||| 0x80) &&& bufferMask ≠ 0 ∧
      ((UInt8.ofNat low.val ||| 0x80) &&& 0x7f).toNat = low.val ∧
      (UInt8.ofNat low.val &&& 0x7f).toNat = low.val := by
  decide

theorem readLE64_bounds (buffer : Bytes) :
    -(2 ^ 63) < readLE64 buffer ∧ readLE64 buffer < 2 ^ 63 := by
  have b0 := (buffer.getD 0 0).toNat_lt
  have b1 := (buffer.getD 1 0).toNat_lt
  have b2 := (buffer.getD 2 0).toNat_lt
  have b3 := (buffer.getD 3 0).toNat_lt
  have b4 := (buffer.getD 4 0).toNat_lt
  have b5 := (buffer.getD 5 0).toNat_lt
  have b6 := (buffer.getD 6 0).toNat_lt
  have b7 : (buffer.getD 7 0 &&& 0x7f).toNat < 128 := by
    rw [toNat_and_low]
    exact Nat.mod_lt _ (by decide)
  simp only [readLE64]
  split <;> omega

theorem readLE64_writeLE64 {value : Int} (small : value.natAbs < 2 ^ 63) :
    readLE64 (writeLE64 value) = value := by
  have topSmall : value.natAbs / 256 ^ 7 < 128 := by omega
  obtain ⟨plain, marked, markedLow, plainLow⟩ := sign_table ⟨_, topSmall⟩
  have top : value.natAbs / 256 ^ 7 % 256 = value.natAbs / 256 ^ 7 := Nat.mod_eq_of_lt (by omega)
  simp only [readLE64, writeLE64, leBytes, top]
  by_cases negative : value < 0
  · simp only [negative, if_true, List.cons_append, List.nil_append, List.getD_cons_succ,
      List.getD_cons_zero, markedLow, marked, ne_eq, not_false_eq_true]
    simp only [UInt8.toNat_ofNat']
    omega
  · simp only [negative, if_false, List.cons_append, List.nil_append, List.getD_cons_succ,
      List.getD_cons_zero, plainLow, plain, ne_eq, not_true_eq_false]
    simp only [UInt8.toNat_ofNat']
    omega

theorem readLE64_append {buffer : Bytes} (eight : buffer.length = 8) (rest : Bytes) :
    readLE64 (buffer ++ rest) = readLE64 buffer := by
  have entry (index : Nat) (inside : index < 8) :
      (buffer ++ rest).getD index 0 = buffer.getD index 0 :=
    List.getD_append buffer rest 0 index (by rw [eight]; exact inside)
  simp only [readLE64, entry 0 (by decide), entry 1 (by decide), entry 2 (by decide),
    entry 3 (by decide), entry 4 (by decide), entry 5 (by decide), entry 6 (by decide),
    entry 7 (by decide)]

end Updater.DiffPatch
