import Updater.Base.CrcRegister
import Updater.PtableParse.Gpt

/-! `Ptable::CalculateCrc32` against the CRC-32 of the reflected polynomial. -/

set_option autoImplicit false

namespace Updater.PtableParse

open Updater.Base Updater.Base.CrcRegister

section Bits

variable (data : UInt32) {i k : Nat}

theorem toBitVec_shiftRight (inside : i < 32) :
    (data >>> i.toUInt32).toBitVec = data.toBitVec >>> i := by
  have amount : (i.toUInt32.toBitVec % 32).toNat = i := by
    change i % 2 ^ 32 % 32 = i
    omega
  rw [UInt32.toBitVec_shiftRight, BitVec.ushiftRight_eq', amount]

theorem shiftRight_and_one_iff (inside : i < 32) :
    (data >>> i.toUInt32) &&& 1 = 1 ↔ data.toBitVec.getLsbD i = true := by
  rw [Crc32.and_one_eq_one_iff, toBitVec_shiftRight data inside, BitVec.getLsbD_ushiftRight,
    Nat.add_zero]

theorem and_one_eq_and_one_iff (left right : UInt32) :
    left &&& 1 = right &&& 1 ↔ left.toBitVec.getLsbD 0 = right.toBitVec.getLsbD 0 := by
  rw [← UInt32.toBitVec_inj, UInt32.toBitVec_and, UInt32.toBitVec_and]
  change left.toBitVec &&& 1#32 = right.toBitVec &&& 1#32 ↔ _
  rw [BitVec.and_one_eq_setWidth_ofBool_getLsbD, BitVec.and_one_eq_setWidth_ofBool_getLsbD]
  cases left.toBitVec.getLsbD 0 with
  | false => cases right.toBitVec.getLsbD 0 <;> decide
  | true => cases right.toBitVec.getLsbD 0 <;> decide

theorem getLsbD_one_shiftLeft (inside : i < 32) (within : k < 32) :
    ((1 : UInt32) <<< i.toUInt32).toBitVec.getLsbD k = decide (k = i) := by
  have amount : (i.toUInt32.toBitVec % 32).toNat = i := by
    change i % 2 ^ 32 % 32 = i
    omega
  rw [UInt32.toBitVec_shiftLeft, BitVec.shiftLeft_eq', amount]
  change ((1#32) <<< i).getLsbD k = _
  rw [BitVec.getLsbD_shiftLeft, BitVec.getLsbD_one]
  by_cases same : k = i
  · simp [same, inside]
  · simp only [same, within, decide_true, Bool.true_and, decide_false, Bool.and_eq_false_iff,
      Bool.not_eq_false', decide_eq_true_eq, decide_eq_false_iff_not]
    omega

end Bits

section Reflect

variable {length : Nat} {data : UInt32}

/-- The loop of `Reflect` has moved the bits that it has come to. -/
theorem getLsbD_reflectLoop (short : length ≤ 32) {count k : Nat} (part : count ≤ length)
    (within : k < 32) :
    ((List.range count).foldl
      (fun ref i =>
        if (data >>> i.toUInt32) &&& 1 = 1 then ref ||| (1 <<< (length - 1 - i).toUInt32) else ref)
      0).toBitVec.getLsbD k =
      (decide (k < length ∧ length - 1 - k < count) && data.toBitVec.getLsbD (length - 1 - k)) := by
  induction count with
  | zero =>
      change (0#32).getLsbD k = _
      rw [BitVec.getLsbD_zero, decide_eq_false (by omega), Bool.false_and]
  | succ count hypothesis =>
      have before := hypothesis (by omega)
      rw [List.range_succ, List.foldl_append, List.foldl_cons, List.foldl_nil]
      by_cases here : k = length - 1 - count
      · have place : length - 1 - k = count := by omega
        rw [place] at before ⊢
        rw [decide_eq_false (by omega), Bool.false_and] at before
        rw [decide_eq_true (by omega), Bool.true_and]
        split
        case _ set =>
          rw [UInt32.toBitVec_or, BitVec.getLsbD_or, before, getLsbD_one_shiftLeft (by omega) within,
            (shiftRight_and_one_iff data (by omega)).mp set, decide_eq_true here, Bool.false_or]
        case _ clear =>
          rw [before]
          rw [shiftRight_and_one_iff data (by omega), Bool.not_eq_true] at clear
          exact clear.symm
      · have elsewhere : decide (k < length ∧ length - 1 - k < count + 1) =
            decide (k < length ∧ length - 1 - k < count) :=
          decide_eq_decide.mpr (by omega)
        rw [elsewhere, ← before]
        split
        · rw [UInt32.toBitVec_or, BitVec.getLsbD_or, getLsbD_one_shiftLeft (by omega) within,
            decide_eq_false here, Bool.or_false]
        · rfl

theorem getLsbD_reflect (short : length ≤ 32) {k : Nat} (inside : k < length) :
    (reflect length data).toBitVec.getLsbD k = data.toBitVec.getLsbD (length - 1 - k) := by
  rw [reflect, getLsbD_reflectLoop short (Nat.le_refl length) (by omega), decide_eq_true (by omega),
    Bool.true_and]

theorem toBitVec_reflect_word (data : UInt32) :
    (reflect 32 data).toBitVec = data.toBitVec.reverse := by
  apply BitVec.eq_of_getLsbD_eq
  intro i inside
  rw [getLsbD_reflect (Nat.le_refl 32) inside, BitVec.getLsbD_reverse, BitVec.getMsbD_eq_getLsbD,
    decide_eq_true inside, Bool.true_and]

end Reflect

/-- A round of the inner loop shifts in the bit that is on top of the reflected byte. -/
theorem toBitVec_crcBit (dataByte regs : UInt32) {j : Nat} (inside : j < 8) :
    (crcBit dataByte regs j).toBitVec =
      shiftUp 0x04C11DB7 regs.toBitVec (dataByte.toBitVec.getLsbD (7 - j)) := by
  have top : (regs >>> 31).toBitVec.getLsbD 0 = regs.toBitVec.msb := by
    rw [BitVec.msb_eq_getLsbD_last]
    exact (congrArg (fun word : BitVec 32 => word.getLsbD 0)
      (toBitVec_shiftRight regs (i := 31) (by decide))).trans (BitVec.getLsbD_ushiftRight _ _ _)
  have bit : (dataByte >>> (7 - j).toUInt32).toBitVec.getLsbD 0 =
      dataByte.toBitVec.getLsbD (7 - j) := by
    rw [toBitVec_shiftRight dataByte (by omega), BitVec.getLsbD_ushiftRight, Nat.add_zero]
  have same := and_one_eq_and_one_iff (regs >>> 31) (dataByte >>> (7 - j).toUInt32)
  rw [top, bit] at same
  rw [crcBit, shiftUp]
  by_cases equal : regs.toBitVec.msb = dataByte.toBitVec.getLsbD (7 - j)
  · rw [if_pos (same.mpr equal), if_pos equal]
    rfl
  · rw [if_neg fun agree => equal (same.mp agree), if_neg equal]
    rfl

theorem toBitVec_crcByte (regs : UInt32) (byte : UInt8) :
    (crcByte regs byte).toBitVec =
      (lowBits 8 byte.toUInt32.toBitVec).foldl (shiftUp 0x04C11DB7) regs.toBitVec := by
  have rounds : ∀ count ≤ 8,
      ((List.range count).foldl (crcBit (reflect 8 byte.toUInt32)) regs).toBitVec =
        (lowBits count byte.toUInt32.toBitVec).foldl (shiftUp 0x04C11DB7) regs.toBitVec := by
    intro count part
    induction count with
    | zero => rfl
    | succ count hypothesis =>
        have place : 8 - 1 - (7 - count) = count := by omega
        rw [lowBits, List.range_succ, List.foldl_append, List.map_append, List.foldl_append,
          List.foldl_cons, List.foldl_nil, toBitVec_crcBit _ _ (by omega), hypothesis (by omega),
          getLsbD_reflect (by decide) (by omega), place]
        rfl
  exact rounds 8 (Nat.le_refl 8)

theorem reverse_polynomial : (0x04C11DB7 : BitVec 32).reverse = 0xEDB88320 := by
  decide +kernel

/-- The two registers mirror each other from byte to byte. -/
theorem reverse_foldl_crcByte (buffer : Bytes) (regs : UInt32) :
    (buffer.foldl crcByte regs).toBitVec.reverse =
      (buffer.foldl Crc32.step (reflect 32 regs)).toBitVec := by
  induction buffer generalizing regs with
  | nil => exact (toBitVec_reflect_word regs).symm
  | cons byte buffer hypothesis =>
      have next : reflect 32 (crcByte regs byte) = Crc32.step (reflect 32 regs) byte := by
        rw [← UInt32.toBitVec_inj, toBitVec_reflect_word, toBitVec_crcByte, reverse_foldl_shiftUp,
          Crc32.toBitVec_step, toBitVec_reflect_word, reverse_polynomial]
      rw [List.foldl_cons, List.foldl_cons, hypothesis, next]

/-- The checksum of a partition table is CRC-32 with the reflected polynomial. -/
theorem calculateCrc32_eq_ieee {buffer : Bytes} (nonempty : buffer ≠ []) :
    calculateCrc32 buffer = (Crc32.ieee.ofBytes buffer).toNat := by
  have start : reflect 32 0xFFFFFFFF = 0xFFFFFFFF := by decide +kernel
  have mirrored : reflect 32 (buffer.foldl crcByte 0xFFFFFFFF) =
      buffer.foldl Crc32.step 0xFFFFFFFF := by
    rw [← UInt32.toBitVec_inj, toBitVec_reflect_word, reverse_foldl_crcByte, start]
  rw [calculateCrc32, if_neg nonempty, mirrored]
  rfl

theorem calculateCrc32_digits :
    calculateCrc32 (ascii "123456789") = (Crc32.ieee.ofBytes (ascii "123456789")).toNat :=
  calculateCrc32_eq_ieee (by decide)

end Updater.PtableParse
