import Updater.Base.Bytes

/-! What both sides of an image patch share: the block types, the fields of a
block's header, and the block patch and the compression library as parameters. -/

set_option autoImplicit false

namespace Updater.DiffPatch

open Updater.Base

/-- `PKGDIFF0`. -/
def pkgdiffMagic : Bytes := [80, 75, 71, 68, 73, 70, 70, 48]

def patchNormalMinHeaderLen : Nat := 24

def patchDeflateMinHeaderLen : Nat := 60

def patchLz4MinHeaderLen : Nat := 64

inductive BlockType where
  | normal
  | deflate
  | raw
  | lz4
  deriving DecidableEq, Repr

/-- The number a block type has in a patch. -/
def BlockType.code : BlockType → Nat
  | .normal => 0
  | .deflate => 2
  | .raw => 3
  | .lz4 => 4

def BlockType.ofCode : Nat → Option BlockType
  | 0 => some .normal
  | 2 => some .deflate
  | 3 => some .raw
  | 4 => some .lz4
  | _ => none

@[simp] theorem BlockType.ofCode_code (type : BlockType) : ofCode type.code = some type := by
  cases type <;> rfl

theorem BlockType.code_lt (type : BlockType) : type.code < 5 := by
  cases type <;> decide

/-- `ReadLE<int32_t>`. -/
def toInt32 (value : Nat) : Int :=
  (value : Int).bmod (2 ^ 32)

def leInt32 (value : Int) : Bytes :=
  leBytes 4 (value % 2 ^ 32).toNat

/-- An `int32_t`. -/
def IsInt32 (value : Int) : Prop :=
  -(2 ^ 31) ≤ value ∧ value < 2 ^ 31

@[simp] theorem length_leInt32 (value : Int) : (leInt32 value).length = 4 := by
  simp [leInt32]

theorem leValue_leInt32 (value : Int) : leValue (leInt32 value) = (value % 2 ^ 32).toNat := by
  have width : 256 ^ 4 = 2 ^ 32 := by norm_num
  apply leValue_leBytes_of_lt
  rw [width]
  omega

theorem toInt32_mod {value : Int} (fits : IsInt32 value) :
    toInt32 (value % 2 ^ 32).toNat = value := by
  obtain ⟨low, high⟩ := fits
  unfold toInt32
  rw [Int.bmod]
  split <;> omega

theorem toInt32_leInt32 {value : Int} (fits : IsInt32 value) :
    toInt32 (leValue (leInt32 value)) = value := by
  rw [leValue_leInt32, toInt32_mod fits]

/-- `BlocksDiff::MakePatch` of a new and an old block, and what
`UpdateApplyPatch::ApplyBlockPatch` hands to the writer for an old block and a
patch that starts at an offset of a file. -/
structure BlockPatch where
  make : Bytes → Bytes → Option Bytes
  apply : Bytes → Bytes → Nat → Option Bytes

/-- The block patch of this pair gives the new block back from any file it is in. -/
def BlockPatch.ExactAt (blockPatch : BlockPatch) (new old : Bytes) : Prop :=
  ∀ patch, blockPatch.make new old = some patch → ∀ before after : Bytes,
    (before ++ patch ++ after).length < 2 ^ 63 →
      blockPatch.apply old (before ++ patch ++ after) before.length = some new

/-- The compression fields of a `ZipFileInfo`. -/
structure ZipConfig where
  level : Int
  method : Int
  windowBits : Int
  memLevel : Int
  strategy : Int
  deriving DecidableEq, Repr

/-- The compression fields of an `Lz4FileInfo`. -/
structure Lz4Config where
  compressionLevel : Int
  method : Int
  blockIndependence : Int
  contentChecksumFlag : Int
  blockSizeID : Int
  autoFlush : Int
  deriving DecidableEq, Repr

inductive PackConfig where
  | zip (config : ZipConfig)
  | lz4 (config : Lz4Config)
  deriving DecidableEq, Repr

/-- The compression library: what a buffer of the given unpacked size decompresses
to, what data written to an adapter and flushed becomes, and its checksum. -/
structure Codec where
  decompress : PackConfig → Bytes → Nat → Option Bytes
  compress : PackConfig → Bytes → Option Bytes
  crc32 : Bytes → Nat

/-- Bytes of a buffer, where they are inside it. -/
def readRange (buffer : Bytes) (start length : Nat) : Option Bytes :=
  if start + length ≤ buffer.length then some (slice buffer start length) else none

theorem readRange_some {buffer data : Bytes} {start length : Nat}
    (read : readRange buffer start length = some data) :
    start + length ≤ buffer.length ∧ data = slice buffer start length := by
  unfold readRange at read
  split at read
  · rename_i inside
    cases read
    exact ⟨inside, rfl⟩
  · cases read

end Updater.DiffPatch
