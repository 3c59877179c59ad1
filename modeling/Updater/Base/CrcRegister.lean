import Updater.Base.Crc32

/-! Shift registers that divide a stream of bits by a polynomial: the register that is shifted
towards its most significant bit, and its mirror image. -/

set_option autoImplicit false

namespace Updater.Base.CrcRegister

variable {width : Nat} {polynomial regs : BitVec width}

/-- A bit into the register that is shifted towards its most significant bit. -/
def shiftUp (polynomial regs : BitVec width) (bit : Bool) : BitVec width :=
  if regs.msb = bit then regs <<< 1 else (regs <<< 1) ^^^ polynomial

/-- A bit into the register that is shifted towards its least significant bit. -/
def shiftDown (polynomial regs : BitVec width) (bit : Bool) : BitVec width :=
  if regs.getLsbD 0 = bit then regs >>> 1 else (regs >>> 1) ^^^ polynomial

/-- The low bits, the least significant one first. -/
def lowBits (count : Nat) (value : BitVec width) : List Bool :=
  (List.range count).map value.getLsbD

theorem reverse_shiftLeft (regs : BitVec width) : (regs <<< 1).reverse = regs.reverse >>> 1 := by
  apply BitVec.eq_of_getLsbD_eq
  intro i inside
  rw [BitVec.getLsbD_reverse, BitVec.getMsbD_shiftLeft, BitVec.getLsbD_ushiftRight,
    BitVec.getLsbD_reverse, Nat.add_comm]

theorem reverse_xor (left right : BitVec width) :
    (left ^^^ right).reverse = left.reverse ^^^ right.reverse := by
  apply BitVec.eq_of_getLsbD_eq
  intro i inside
  rw [BitVec.getLsbD_xor, BitVec.getLsbD_reverse, BitVec.getLsbD_reverse, BitVec.getLsbD_reverse,
    BitVec.getMsbD_xor]

theorem reverse_shiftUp (polynomial regs : BitVec width) (bit : Bool) :
    (shiftUp polynomial regs bit).reverse = shiftDown polynomial.reverse regs.reverse bit := by
  rw [shiftUp, shiftDown, BitVec.getLsbD_reverse, ← BitVec.msb]
  by_cases same : regs.msb = bit
  · rw [if_pos same, if_pos same, reverse_shiftLeft]
  · rw [if_neg same, if_neg same, reverse_xor, reverse_shiftLeft]

/-- The registers stay mirror images of each other over every stream of bits. -/
theorem reverse_foldl_shiftUp (polynomial : BitVec width) (bits : List Bool) (regs : BitVec width) :
    (bits.foldl (shiftUp polynomial) regs).reverse =
      bits.foldl (shiftDown polynomial.reverse) regs.reverse := by
  induction bits generalizing regs with
  | nil => rfl
  | cons bit bits hypothesis =>
      rw [List.foldl_cons, List.foldl_cons, hypothesis, reverse_shiftUp]

theorem xor_swap (left middle right : BitVec width) :
    left ^^^ middle ^^^ right = left ^^^ right ^^^ middle := by
  rw [BitVec.xor_assoc, BitVec.xor_comm middle, ← BitVec.xor_assoc]

/-- What is added to the register before a shift goes on behind its lowest bit. -/
theorem shiftDown_xor (polynomial regs ahead : BitVec width) :
    shiftDown polynomial (regs ^^^ ahead) false =
      shiftDown polynomial regs (ahead.getLsbD 0) ^^^ (ahead >>> 1) := by
  rw [shiftDown, shiftDown, BitVec.getLsbD_xor, BitVec.ushiftRight_xor_distrib]
  cases regs.getLsbD 0 with
  | false =>
      cases ahead.getLsbD 0 with
      | false => rfl
      | true => exact xor_swap _ _ _
  | true =>
      cases ahead.getLsbD 0 with
      | false => exact xor_swap _ _ _
      | true => rfl

/-- A word that is added at once is shifted in bit by bit. -/
theorem repeat_shiftDown (polynomial regs word : BitVec width) (count : Nat) :
    Nat.repeat (shiftDown polynomial · false) count (regs ^^^ word) =
      (lowBits count word).foldl (shiftDown polynomial) regs ^^^ (word >>> count) := by
  induction count with
  | zero => rw [BitVec.ushiftRight_zero]; rfl
  | succ count hypothesis =>
      rw [Nat.repeat, hypothesis, shiftDown_xor, lowBits, lowBits, List.range_succ, List.map_append,
        List.foldl_append, BitVec.getLsbD_ushiftRight, BitVec.shiftRight_add]
      rfl

end Updater.Base.CrcRegister

namespace Updater.Base.Crc32

open CrcRegister

theorem and_one_eq_one_iff (word : UInt32) : word &&& 1 = 1 ↔ word.toBitVec.getLsbD 0 = true := by
  rw [← UInt32.toBitVec_inj, UInt32.toBitVec_and]
  change word.toBitVec &&& 1#32 = 1#32 ↔ _
  rw [BitVec.and_one_eq_setWidth_ofBool_getLsbD]
  cases word.toBitVec.getLsbD 0 with
  | false => decide
  | true => decide

theorem toBitVec_shift (crc : UInt32) :
    (shift crc).toBitVec = shiftDown 0xEDB88320 crc.toBitVec false := by
  rw [shift, shiftDown]
  by_cases odd : crc &&& 1 = 1
  · rw [if_pos odd, if_neg (by rw [(and_one_eq_one_iff crc).mp odd]; decide)]
    rfl
  · rw [if_neg odd, if_pos (by rwa [and_one_eq_one_iff, Bool.not_eq_true] at odd)]
    rfl

theorem toBitVec_repeat_shift (count : Nat) (crc : UInt32) :
    (Nat.repeat shift count crc).toBitVec =
      Nat.repeat (shiftDown 0xEDB88320 · false) count crc.toBitVec := by
  induction count with
  | zero => rfl
  | succ count hypothesis => rw [Nat.repeat, toBitVec_shift, hypothesis, Nat.repeat]

theorem toBitVec_step (crc : UInt32) (byte : UInt8) :
    (step crc byte).toBitVec =
      (lowBits 8 byte.toUInt32.toBitVec).foldl (shiftDown 0xEDB88320) crc.toBitVec := by
  have gone : byte.toUInt32.toBitVec >>> 8 = 0#32 := by
    apply BitVec.eq_of_toNat_eq
    rw [BitVec.toNat_ushiftRight, Nat.shiftRight_eq_div_pow]
    exact Nat.div_eq_of_lt byte.toNat_lt
  rw [step, toBitVec_repeat_shift, UInt32.toBitVec_xor, repeat_shiftDown, gone, BitVec.xor_zero]

end Updater.Base.Crc32
