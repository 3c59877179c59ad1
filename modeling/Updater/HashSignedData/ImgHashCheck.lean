import Mathlib.Data.List.DropRight
import Mathlib.Logic.Function.Basic
import Updater.Base.Bytes

/-! The table of image hashes of a package: how it is read from its bytes, and looked up. Where an
`Option` is `none` the program panics. -/

set_option autoImplicit false

namespace Updater.HashSignedData

open Updater.Base

def tlvSize : Nat := 6

def hashInfoSize : Nat := 16

def imgNameSize : Nat := 32

/-- The types of an address. -/
inductive AddrType where
  | u32
  | u64
  deriving DecidableEq, Repr

/-- `size_of::<T>()`. -/
def AddrType.size : AddrType → Nat
  | .u32 => 4
  | .u64 => 8

section Rust

/-- `buffer[from_..to_]`. -/
def sliceOf (buffer : Bytes) (from_ to_ : Nat) : Option Bytes :=
  if from_ ≤ to_ ∧ to_ ≤ buffer.length then some (slice buffer from_ (to_ - from_)) else none

/-- A sum of `usize`. -/
def addUsize (left right : Nat) : Option Nat :=
  if left + right < 2 ^ 64 then some (left + right) else none

/-- `from_le_bytes(buffer.try_into().unwrap())`. -/
def fromLeBytes (width : Nat) (buffer : Bytes) : Option Nat :=
  if buffer.length = width then some (leValue buffer) else none

/-- A text as `String` has it. -/
def ValidUtf8 (bytes : Bytes) : Prop :=
  bytes.toByteArray.IsValidUTF8

instance (bytes : Bytes) : Decidable (ValidUtf8 bytes) :=
  inferInstanceAs (Decidable bytes.toByteArray.IsValidUTF8)

/-- `String::from_utf8(bytes).unwrap()`. -/
def fromUtf8 (bytes : Bytes) : Option Bytes :=
  if ValidUtf8 bytes then some bytes else none

/-- `trim_end_matches('\0')`. -/
def trimEnd (text : Bytes) : Bytes :=
  text.rdropWhile fun byte => byte = 0

/-- A `HashMap` by what `get` finds in it. -/
abbrev HashMap (Key Value : Type) : Type := Key → Option Value

def HashMap.empty {Key Value : Type} : HashMap Key Value := fun _ => none

def HashMap.insert {Key Value : Type} [DecidableEq Key] (map : HashMap Key Value) (key : Key)
    (value : Value) : HashMap Key Value :=
  Function.update map key (some value)

end Rust

structure HashInfo where
  tlvType : Nat := 0
  tlvLen : Nat := 0
  algorithm : Nat := 0
  algoSize : Nat := 0
  componentCount : Nat := 0
  blockSize : Nat := 0
  deriving DecidableEq, Repr

structure HashHeader where
  imageName : Bytes := []
  hashNum : Nat := 0
  imgSize : Nat := 0
  deriving DecidableEq, Repr

structure HashData where
  addrStar : Nat := 0
  addrEnd : Nat := 0
  hashData : Bytes := []
  deriving DecidableEq, Repr

/-- `HashInfo::read_from_le_bytes`. -/
def HashInfo.readFromLeBytes (info : HashInfo) (buffer : Bytes) : Option (Bool × HashInfo) :=
  if buffer.length < hashInfoSize then some (false, info)
  else do
    let tlvType ← fromLeBytes 2 (← sliceOf buffer 0 2)
    let tlvLen ← fromLeBytes 4 (← sliceOf buffer 2 6)
    let algorithm ← fromLeBytes 2 (← sliceOf buffer 6 8)
    let algoSize ← fromLeBytes 2 (← sliceOf buffer 8 10)
    let componentCount ← fromLeBytes 2 (← sliceOf buffer 10 12)
    let blockSize ← fromLeBytes 4 (← sliceOf buffer 12 16)
    some (true, { tlvType, tlvLen, algorithm, algoSize, componentCount, blockSize })

/-- `HashHeader::read_from_le_bytes`. -/
def HashHeader.readFromLeBytes (type : AddrType) (header : HashHeader) (buffer : Bytes) :
    Option (Bool × HashHeader) :=
  if buffer.length < tlvSize then some (false, header)
  else do
    let imageName ← fromUtf8 (← sliceOf buffer 0 32)
    let hashNum ← fromLeBytes 2 (← sliceOf buffer 32 34)
    let imgSize ← fromLeBytes type.size (← sliceOf buffer 34 buffer.length)
    some (true, { imageName := trimEnd imageName, hashNum, imgSize })

/-- `HashData::read_from_le_bytes`. -/
def HashData.readFromLeBytes (type : AddrType) (data : HashData) (buffer : Bytes) :
    Option (Bool × HashData) :=
  if buffer.length < tlvSize then some (false, data)
  else do
    let addrStar ← fromLeBytes type.size (← sliceOf buffer 0 type.size)
    let addrEnd ← fromLeBytes type.size (← sliceOf buffer type.size (2 * type.size))
    let hashData ← sliceOf buffer (2 * type.size) buffer.length
    some (true, { addrStar, addrEnd, hashData })

/-- The hashes of an image, by the beginning and the end of their ranges. -/
abbrev RangeHashes : Type := HashMap (Nat × Nat) Bytes

/-- The images by their names. -/
abbrev ImgHashData : Type := HashMap Bytes RangeHashes

namespace ImgHashData

/-- The text of an error. -/
def tooSmall (line length : Nat) : String :=
  toString line ++ " buffer is too small. " ++ toString length

/-- `hash_header_size`. -/
def hashHeaderSize (type : AddrType) : Nat :=
  imgNameSize + 2 + type.size

/-- The `for` loop over the ranges of an image. -/
def readRanges (type : AddrType) (buffer : Bytes) (algoSize : Nat) :
    Nat → Nat → RangeHashes → Option (Nat × RangeHashes)
  | 0, offset, singleData => some (offset, singleData)
  | left + 1, offset, singleData => do
      let end_ ← addUsize (← addUsize offset (2 * type.size)) algoSize
      let (_, hashData) ← HashData.readFromLeBytes type {} (← sliceOf buffer offset end_)
      let offset ← addUsize offset (2 * type.size + algoSize)
      readRanges type buffer algoSize left offset
        (singleData.insert (hashData.addrStar, hashData.addrEnd) hashData.hashData)

/-- The body of the `while` loop: the offset of the next image, and what is inserted. -/
def readImage (type : AddrType) (buffer : Bytes) (algoSize offset : Nat) :
    Option (Nat × Bytes × RangeHashes) := do
  let end_ ← addUsize (hashHeaderSize type) offset
  let (_, hashHeader) ← HashHeader.readFromLeBytes type {} (← sliceOf buffer offset end_)
  let offset ← addUsize offset (hashHeaderSize type)
  let (offset, singleData) ←
    readRanges type buffer algoSize hashHeader.hashNum offset HashMap.empty
  some (offset, hashHeader.imageName, singleData)

section Slices

variable {buffer : Bytes}

theorem sliceOf_eq {from_ to_ : Nat} (ordered : from_ ≤ to_) (inside : to_ ≤ buffer.length) :
    sliceOf buffer from_ to_ = some (slice buffer from_ (to_ - from_)) :=
  if_pos ⟨ordered, inside⟩

theorem sliceOf_of_lt {from_ to_ : Nat} (outside : buffer.length < to_) :
    sliceOf buffer from_ to_ = none :=
  if_neg fun inside => absurd inside.2 (Nat.not_le_of_lt outside)

theorem addUsize_eq {left right : Nat} (fits : left + right < 2 ^ 64) :
    addUsize left right = some (left + right) :=
  if_pos fits

theorem fromLeBytes_slice {width start : Nat} (inside : start + width ≤ buffer.length) :
    fromLeBytes width (slice buffer start width) = some (leValue (slice buffer start width)) :=
  if_pos (length_slice inside)

end Slices

section Records

variable (type : AddrType) (buffer : Bytes) (algoSize offset : Nat)

/-- The bytes of a range with its hash. -/
def recordSize : Nat :=
  2 * type.size + algoSize

/-- The range whose record is at an offset, and its hash. -/
def rangeAt : (Nat × Nat) × Bytes :=
  ((leValue (slice buffer offset type.size), leValue (slice buffer (offset + type.size) type.size)),
    slice buffer (offset + 2 * type.size) algoSize)

/-- A number of ranges, one behind another. -/
def rangesAt : Nat → Nat → List ((Nat × Nat) × Bytes)
  | 0, _ => []
  | count + 1, offset =>
      rangeAt type buffer algoSize offset :: rangesAt count (offset + recordSize type algoSize)

/-- The number of ranges of the image at an offset. -/
def hashNumAt : Nat :=
  leValue (slice buffer (offset + imgNameSize) 2)

/-- Where the image at an offset ends. -/
def imageEnd : Nat :=
  offset + hashHeaderSize type + hashNumAt buffer offset * recordSize type algoSize

/-- All of an image is in the buffer, and its name is a text. -/
structure WholeImage : Prop where
  header : offset + hashHeaderSize type ≤ buffer.length
  name : ValidUtf8 (slice buffer offset imgNameSize)
  ranges : imageEnd type buffer algoSize offset ≤ buffer.length

end Records

def insertAll {Key Value : Type} [DecidableEq Key] (map : HashMap Key Value)
    (pairs : List (Key × Value)) : HashMap Key Value :=
  pairs.foldl (fun map pair => map.insert pair.1 pair.2) map

section Read

variable {type : AddrType} {buffer : Bytes} {algoSize offset : Nat}

theorem size_pos (type : AddrType) : 4 ≤ type.size := by
  cases type with
  | u32 => decide
  | u64 => decide

theorem readRange_eq (inside : offset + recordSize type algoSize ≤ buffer.length) :
    HashData.readFromLeBytes type {} (slice buffer offset (recordSize type algoSize)) =
      some (true,
        { addrStar := (rangeAt type buffer algoSize offset).1.1
          addrEnd := (rangeAt type buffer algoSize offset).1.2
          hashData := (rangeAt type buffer algoSize offset).2 }) := by
  have record : recordSize type algoSize = 2 * type.size + algoSize := rfl
  rw [record] at inside ⊢
  have length := length_slice inside
  have least := size_pos type
  have enough : ¬(slice buffer offset (2 * type.size + algoSize)).length < tlvSize := by
    rw [length, tlvSize]
    omega
  rw [HashData.readFromLeBytes, if_neg enough, length,
    sliceOf_eq (Nat.zero_le _) (by omega), sliceOf_eq (by omega) (by omega),
    sliceOf_eq (by omega) (by omega)]
  dsimp only [Option.bind_eq_bind, Option.bind_some]
  rw [Nat.sub_zero, slice_slice (by omega), slice_slice (by omega), slice_slice (by omega),
    Nat.add_zero, show 2 * type.size - type.size = type.size by omega,
    Nat.add_sub_cancel_left, fromLeBytes_slice (by omega), fromLeBytes_slice (by omega)]
  rfl

theorem readRange_eq_none {singleData : RangeHashes} {left : Nat}
    (outside : buffer.length < offset + recordSize type algoSize) :
    readRanges type buffer algoSize (left + 1) offset singleData = none := by
  rw [recordSize] at outside
  rw [readRanges, addUsize]
  split
  · rw [Option.bind_eq_bind, Option.bind_some, addUsize]
    split
    · rw [Option.bind_eq_bind, Option.bind_some, sliceOf_of_lt (by omega)]
      rfl
    · rfl
  · rfl

theorem readHeader_eq (inside : offset + hashHeaderSize type ≤ buffer.length) :
    HashHeader.readFromLeBytes type {} (slice buffer offset (hashHeaderSize type)) =
      (fromUtf8 (slice buffer offset imgNameSize)).map fun imageName =>
        (true,
          { imageName := trimEnd imageName
            hashNum := hashNumAt buffer offset
            imgSize := leValue (slice buffer (offset + 34) type.size) }) := by
  have size : hashHeaderSize type = 34 + type.size := rfl
  rw [size] at inside ⊢
  have length := length_slice inside
  have enough : ¬(slice buffer offset (34 + type.size)).length < tlvSize := by
    rw [length, tlvSize]
    omega
  rw [HashHeader.readFromLeBytes, if_neg enough, length, sliceOf_eq (by decide) (by omega),
    sliceOf_eq (by decide) (by omega), sliceOf_eq (by omega) (by omega)]
  dsimp only [Option.bind_eq_bind, Option.bind_some]
  rw [slice_slice (by omega), slice_slice (by omega), slice_slice (by omega),
    Nat.add_sub_cancel_left, fromLeBytes_slice (by omega), fromLeBytes_slice (by omega)]
  dsimp only [Option.bind_some]
  rw [hashNumAt, imgNameSize, Nat.add_zero, Nat.sub_zero]
  cases fromUtf8 (slice buffer offset 32) with
  | none => rfl
  | some imageName => rfl

variable (fits : buffer.length < 2 ^ 63)

include fits

/-- The ranges are read as far as they are in the buffer. -/
theorem readRanges_eq {left : Nat} {singleData : RangeHashes} :
    (offset + left * recordSize type algoSize ≤ buffer.length →
      readRanges type buffer algoSize left offset singleData =
        some (offset + left * recordSize type algoSize,
          insertAll singleData (rangesAt type buffer algoSize left offset))) ∧
    (buffer.length < offset + left * recordSize type algoSize → offset ≤ buffer.length →
      readRanges type buffer algoSize left offset singleData = none) := by
  induction left generalizing offset singleData with
  | zero =>
      rw [Nat.zero_mul, Nat.add_zero]
      exact ⟨fun _ => rfl, fun outside inside => absurd inside (Nat.not_le_of_lt outside)⟩
  | succ left ih =>
      have total : offset + (left + 1) * recordSize type algoSize =
          offset + recordSize type algoSize + left * recordSize type algoSize := by
        rw [Nat.succ_mul]
        omega
      rw [total]
      rcases Nat.lt_or_ge buffer.length (offset + recordSize type algoSize) with outside | inside
      · refine ⟨fun all => absurd all (by omega), fun _ _ => readRange_eq_none outside⟩
      · have next : readRanges type buffer algoSize (left + 1) offset singleData =
            readRanges type buffer algoSize left (offset + recordSize type algoSize)
              (singleData.insert (rangeAt type buffer algoSize offset).1
                (rangeAt type buffer algoSize offset).2) := by
          have here : offset + recordSize type algoSize - offset = recordSize type algoSize :=
            Nat.add_sub_cancel_left _ _
          have fits' : offset + (2 * type.size + algoSize) < 2 ^ 64 := by
            rw [recordSize] at inside
            omega
          have end_ : addUsize (offset + 2 * type.size) algoSize =
              some (offset + recordSize type algoSize) := by
            rw [addUsize_eq (by omega), recordSize, Nat.add_assoc]
          rw [readRanges, addUsize_eq (by omega), Option.bind_eq_bind, Option.bind_some, end_,
            Option.bind_eq_bind, Option.bind_some, sliceOf_eq (Nat.le_add_right _ _) inside,
            Option.bind_eq_bind, Option.bind_some, here, readRange_eq inside, addUsize_eq fits']
          rfl
        obtain ⟨read, panics⟩ := @ih (offset + recordSize type algoSize)
          (singleData.insert (rangeAt type buffer algoSize offset).1
            (rangeAt type buffer algoSize offset).2)
        rw [next]
        exact ⟨read, fun outside _ => panics outside inside⟩

/-- Inside the loop, before the ranges. -/
theorem readImage_header (inside : offset + hashHeaderSize type ≤ buffer.length) :
    readImage type buffer algoSize offset =
      (fromUtf8 (slice buffer offset imgNameSize)).bind fun imageName =>
        (readRanges type buffer algoSize (hashNumAt buffer offset) (offset + hashHeaderSize type)
          HashMap.empty).map fun ranges => (ranges.1, trimEnd imageName, ranges.2) := by
  have here : hashHeaderSize type + offset - offset = hashHeaderSize type := Nat.add_sub_cancel _ _
  rw [readImage, addUsize_eq (by omega), Option.bind_eq_bind, Option.bind_some,
    sliceOf_eq (Nat.le_add_left _ _) (by omega), Option.bind_eq_bind, Option.bind_some, here,
    readHeader_eq inside]
  cases fromUtf8 (slice buffer offset imgNameSize) with
  | none => rfl
  | some imageName =>
      dsimp only [Option.map_some, Option.bind_eq_bind, Option.bind_some]
      rw [addUsize_eq (by omega)]
      dsimp only [Option.bind_some]
      cases readRanges type buffer algoSize (hashNumAt buffer offset)
          (offset + hashHeaderSize type) HashMap.empty with
      | none => rfl
      | some ranges => rfl

theorem readImage_eq (whole : WholeImage type buffer algoSize offset) :
    readImage type buffer algoSize offset =
      some (imageEnd type buffer algoSize offset, trimEnd (slice buffer offset imgNameSize),
        insertAll HashMap.empty (rangesAt type buffer algoSize (hashNumAt buffer offset)
          (offset + hashHeaderSize type))) := by
  rw [readImage_header fits whole.header, fromUtf8, if_pos whole.name,
    (readRanges_eq fits).1 whole.ranges]
  rfl

/-- What is not whole is no failure but a panic. -/
theorem readImage_eq_none (torn : ¬WholeImage type buffer algoSize offset) :
    readImage type buffer algoSize offset = none := by
  by_cases header : offset + hashHeaderSize type ≤ buffer.length
  · rw [readImage_header fits header, fromUtf8]
    split
    · rename_i name
      have ranges : buffer.length < imageEnd type buffer algoSize offset :=
        Nat.lt_of_not_le fun all => torn ⟨header, name, all⟩
      rw [(readRanges_eq fits).2 ranges header]
      rfl
    · rfl
  · rw [readImage, addUsize]
    split
    · rw [Option.bind_eq_bind, Option.bind_some, sliceOf_of_lt (by omega)]
      rfl
    · rfl

end Read

section Further

variable {type : AddrType} {buffer : Bytes} {algoSize offset next : Nat}

theorem eq_of_addUsize {left right sum : Nat} (added : addUsize left right = some sum) :
    sum = left + right := by
  rw [addUsize] at added
  split at added
  · exact (Option.some.inj added).symm
  · exact nomatch added

theorem le_of_readRanges {left : Nat} {singleData ranges : RangeHashes}
    (read : readRanges type buffer algoSize left offset singleData = some (next, ranges)) :
    offset ≤ next := by
  induction left generalizing offset singleData with
  | zero => exact Nat.le_of_eq (congrArg Prod.fst (Option.some.inj read))
  | succ left ih =>
      rw [readRanges] at read
      simp only [Option.bind_eq_bind, Option.bind_eq_some_iff] at read
      obtain ⟨_, _, _, _, _, _, _, _, later, added, rest⟩ := read
      have on_ := ih rest
      rw [eq_of_addUsize added] at on_
      exact Nat.le_trans (Nat.le_add_right _ _) on_

/-- The image behind another one begins further on. -/
theorem lt_of_readImage {image : Bytes × RangeHashes}
    (read : readImage type buffer algoSize offset = some (next, image)) : offset < next := by
  rw [readImage] at read
  simp only [Option.bind_eq_bind, Option.bind_eq_some_iff] at read
  obtain ⟨_, _, _, _, ⟨_, hashHeader⟩, _, later, added, ⟨last, ranges⟩, found, same⟩ := read
  have on_ := le_of_readRanges found
  rw [eq_of_addUsize added] at on_
  have end_ : last = next := congrArg Prod.fst (Option.some.inj same)
  have least : 0 < hashHeaderSize type := Nat.lt_of_lt_of_le (by decide) (Nat.le_add_right 34 _)
  omega

end Further

/-- The `while` loop. -/
def readImages (type : AddrType) (buffer : Bytes) (algoSize hashDataLen offset : Nat)
    (hashDataMap : ImgHashData) : Option ImgHashData :=
  if _inside : offset < hashDataLen then
    match _read : readImage type buffer algoSize offset with
    | none => none
    | some (next, imageName, singleData) =>
        readImages type buffer algoSize hashDataLen next (hashDataMap.insert imageName singleData)
  else some hashDataMap
termination_by hashDataLen - offset
decreasing_by
  have further := lt_of_readImage _read
  omega

/-- `load_img_hash_data`. -/
def loadImgHashData (type : AddrType) (buffer : Bytes) : Option (Except String ImgHashData) :=
  if buffer.length < hashInfoSize then some (.error (tooSmall 173 buffer.length))
  else do
    let (_, hashInfo) ← HashInfo.readFromLeBytes {} (← sliceOf buffer 0 hashInfoSize)
    let offset := hashInfoSize + 2
    if buffer.length < offset + 4 then some (.error (tooSmall 179 buffer.length))
    else do
      let hashDataLen ← fromLeBytes 4 (← sliceOf buffer offset (4 + offset))
      let offset := offset + 4
      if buffer.length < hashDataLen then some (.error (tooSmall 185 buffer.length))
      else do
        let data ← readImages type buffer hashInfo.algoSize hashDataLen offset HashMap.empty
        some (.ok data)

/-- The loop of `check_img_hash` over two hashes of one length. -/
def sameHash : Bytes → Bytes → Bool
  | [], _ => true
  | _, [] => true
  | byte :: hashData, value :: hashValue =>
      if byte ≠ value then false else sameHash hashData hashValue

/-- `check_img_hash`. -/
def checkImgHash (data : ImgHashData) (imgName : Bytes) (start end_ : Nat) (hashValue : Bytes) :
    Bool :=
  match data imgName with
  | none => false
  | some imgHashMap =>
      match imgHashMap (start, end_) with
      | none => false
      | some hashData =>
          if hashData.length ≠ hashValue.length then false else sameHash hashData hashValue

end ImgHashData

/-- `LoadImgHashData` and `LoadImgHashDataNew`: a null pointer gives one, and a failure too. -/
def loadImgHashDataPtr (type : AddrType) (hashData : Option Bytes) : Option (Option ImgHashData) :=
  match hashData with
  | none => some none
  | some buffer =>
      match ImgHashData.loadImgHashData type buffer with
      | none => none
      | some (.ok data) => some (some data)
      | some (.error _) => some none

namespace ImgHashData

/-- The length of a hash, as the hash info has it. -/
def algoSizeAt (buffer : Bytes) : Nat :=
  leValue (slice buffer 8 2)

/-- The length of the records, as their header has it. -/
def hashDataLenAt (buffer : Bytes) : Nat :=
  leValue (slice buffer 18 4)

/-- A buffer that is refused for its length. -/
def TooShort (buffer : Bytes) : Prop :=
  buffer.length < 22 ∨ buffer.length < hashDataLenAt buffer

section Load

variable {type : AddrType} {buffer : Bytes}

theorem readInfo_eq (long : 16 ≤ buffer.length) :
    HashInfo.readFromLeBytes {} (slice buffer 0 16) =
      some (true,
        { tlvType := leValue (slice buffer 0 2)
          tlvLen := leValue (slice buffer 2 4)
          algorithm := leValue (slice buffer 6 2)
          algoSize := algoSizeAt buffer
          componentCount := leValue (slice buffer 10 2)
          blockSize := leValue (slice buffer 12 4) }) := by
  have length : (slice buffer 0 16).length = 16 := length_slice (by omega)
  have enough : ¬(slice buffer 0 16).length < hashInfoSize := by
    rw [length, hashInfoSize]
    decide
  rw [HashInfo.readFromLeBytes, if_neg enough, sliceOf_eq (by decide) (by omega),
    sliceOf_eq (by decide) (by omega), sliceOf_eq (by decide) (by omega),
    sliceOf_eq (by decide) (by omega), sliceOf_eq (by decide) (by omega),
    sliceOf_eq (by decide) (by omega)]
  dsimp only [Option.bind_eq_bind, Option.bind_some]
  rw [slice_slice (by decide), slice_slice (by decide), slice_slice (by decide),
    slice_slice (by decide), slice_slice (by decide), slice_slice (by decide),
    fromLeBytes_slice (by omega), fromLeBytes_slice (by omega), fromLeBytes_slice (by omega),
    fromLeBytes_slice (by omega), fromLeBytes_slice (by omega), fromLeBytes_slice (by omega)]
  rfl

/-- What the checks of lengths say, and the loop behind them. -/
theorem load_eq : loadImgHashData type buffer =
    if buffer.length < 16 then some (.error (tooSmall 173 buffer.length))
    else if buffer.length < 22 then some (.error (tooSmall 179 buffer.length))
    else if buffer.length < hashDataLenAt buffer then some (.error (tooSmall 185 buffer.length))
    else (readImages type buffer (algoSizeAt buffer) (hashDataLenAt buffer) 22 HashMap.empty).map
      Except.ok := by
  rw [loadImgHashData, hashInfoSize]
  split
  · rfl
  · rename_i info
    rw [sliceOf_eq (Nat.zero_le _) (Nat.le_of_not_lt info), Option.bind_eq_bind, Option.bind_some,
      Nat.sub_zero, readInfo_eq (Nat.le_of_not_lt info), Option.bind_eq_bind, Option.bind_some]
    dsimp only
    split
    · rfl
    · rename_i header
      have field : sliceOf buffer (16 + 2) (4 + (16 + 2)) = some (slice buffer 18 4) :=
        sliceOf_eq (by decide) (by omega)
      have length : fromLeBytes 4 (slice buffer 18 4) = some (hashDataLenAt buffer) :=
        fromLeBytes_slice (by omega)
      rw [field, Option.bind_eq_bind, Option.bind_some, length, Option.bind_eq_bind,
        Option.bind_some]
      split
      · rfl
      · cases readImages type buffer (algoSizeAt buffer) (hashDataLenAt buffer) 22
            HashMap.empty with
        | none => rfl
        | some data => rfl

theorem load_of_tooShort (short : TooShort buffer) :
    ∃ error, loadImgHashData type buffer = some (.error error) := by
  rw [load_eq]
  split
  · exact ⟨_, rfl⟩
  · split
    · exact ⟨_, rfl⟩
    · rename_i header
      rw [if_pos (short.resolve_left header)]
      exact ⟨_, rfl⟩

theorem load_of_long (long : ¬TooShort buffer) :
    loadImgHashData type buffer =
      (readImages type buffer (algoSizeAt buffer) (hashDataLenAt buffer) 22 HashMap.empty).map
        Except.ok := by
  obtain ⟨header, records⟩ := not_or.mp long
  rw [load_eq, if_neg (fun info => header (Nat.lt_trans info (by decide))), if_neg header,
    if_neg records]

end Load

end ImgHashData

end Updater.HashSignedData
