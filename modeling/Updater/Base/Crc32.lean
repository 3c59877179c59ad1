import Updater.Base.Bytes

/-! CRC-32 as a checksum that is carried on from piece to piece. -/

set_option autoImplicit false

namespace Updater.Base

/-- A checksum of 32 bits that carries on from the one of the bytes before. -/
structure Crc32 where
  update : UInt32 → Bytes → UInt32
  update_nil : ∀ crc, update crc [] = crc
  update_append : ∀ crc front back, update crc (front ++ back) = update (update crc front) back

namespace Crc32

/-- The checksum of a whole file. -/
def ofBytes (crc32 : Crc32) (bytes : Bytes) : UInt32 :=
  crc32.update 0 bytes

/-- A bit of the division by the reflected polynomial. -/
def shift (crc : UInt32) : UInt32 :=
  if crc &&& 1 = 1 then (crc >>> 1) ^^^ 0xEDB88320 else crc >>> 1

def step (crc : UInt32) (byte : UInt8) : UInt32 :=
  Nat.repeat shift 8 (crc ^^^ byte.toUInt32)

/-- CRC-32 as zip files carry it. -/
def ieee : Crc32 where
  update crc bytes := (bytes.foldl step (crc ^^^ 0xFFFFFFFF)) ^^^ 0xFFFFFFFF
  update_nil crc := by
    simp only [List.foldl_nil, UInt32.xor_assoc, UInt32.xor_self, UInt32.xor_zero]
  update_append crc front back := by
    simp only [List.foldl_append, UInt32.xor_assoc, UInt32.xor_self, UInt32.xor_zero]

example : ieee.ofBytes [0x31, 0x32, 0x33, 0x34, 0x35, 0x36, 0x37, 0x38, 0x39] = 0xCBF43926 := by
  decide +kernel

end Crc32

end Updater.Base
