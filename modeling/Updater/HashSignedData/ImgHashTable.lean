import Updater.HashSignedData.ImgHashCheck

/-! Tables of image hashes: their bytes, and that all of a table is found in what is read. -/

set_option autoImplicit false

namespace Updater.HashSignedData

open Updater.Base

/-- A range of an image with its hash. -/
structure HashRange (type : AddrType) (algoSize : Nat) where
  start : Nat
  end_ : Nat
  hash : Bytes
  start_lt : start < 256 ^ type.size
  end_lt : end_ < 256 ^ type.size
  length : hash.length = algoSize

variable {type : AddrType} {algoSize : Nat}

namespace HashRange

def addr (range : HashRange type algoSize) : Nat × Nat :=
  (range.start, range.end_)

def encode (range : HashRange type algoSize) : Bytes :=
  leBytes type.size range.start ++ (leBytes type.size range.end_ ++ range.hash)

end HashRange

/-- An image with a name that fits, and ranges that differ. -/
structure Image (type : AddrType) (algoSize : Nat) where
  name : Bytes
  imgSize : Nat
  ranges : List (HashRange type algoSize)
  name_ne_nil : name ≠ []
  name_le : name.length ≤ imgNameSize
  name_clean : 0 ∉ name
  name_utf8 : ValidUtf8 name
  imgSize_lt : imgSize < 256 ^ type.size
  ranges_lt : ranges.length < 2 ^ 16
  ranges_distinct : (ranges.map HashRange.addr).Nodup

namespace Image

variable (image : Image type algoSize)

/-- The name in its field. -/
def paddedName : Bytes :=
  image.name ++ List.replicate (imgNameSize - image.name.length) 0

def records : Bytes :=
  image.ranges.flatMap HashRange.encode

def encode : Bytes :=
  image.paddedName ++ (leBytes 2 image.ranges.length ++ (leBytes type.size image.imgSize ++
    image.records))

end Image

/-- A table of images with different names, the records of which have a length of 32 bits. -/
structure ImgTable (type : AddrType) where
  tlvType : Nat
  tlvLen : Nat
  algorithm : Nat
  algoSize : Nat
  componentCount : Nat
  blockSize : Nat
  dataType : Nat
  images : List (Image type algoSize)
  algoSize_lt : algoSize < 2 ^ 16
  names_distinct : (images.map Image.name).Nodup
  records_lt : (images.flatMap Image.encode).length < 2 ^ 32

namespace ImgTable

variable (table : ImgTable type)

def records : Bytes :=
  table.images.flatMap Image.encode

def encodeInfo : Bytes :=
  leBytes 2 table.tlvType ++ (leBytes 4 table.tlvLen ++ (leBytes 2 table.algorithm ++
    (leBytes 2 table.algoSize ++ (leBytes 2 table.componentCount ++ leBytes 4 table.blockSize))))

def encode : Bytes :=
  table.encodeInfo ++ (leBytes 2 table.dataType ++ (leBytes 4 table.records.length ++ table.records))

/-- The table has an image with a range and its hash. -/
def Has (name : Bytes) (start end_ : Nat) (hash : Bytes) : Prop :=
  ∃ image ∈ table.images, image.name = name ∧
    ∃ range ∈ image.ranges, range.start = start ∧ range.end_ = end_ ∧ range.hash = hash

end ImgTable

/-- Bytes are in a buffer at an offset. -/
structure HasAt (buffer : Bytes) (offset : Nat) (bytes : Bytes) : Prop where
  inside : offset + bytes.length ≤ buffer.length
  same : slice buffer offset bytes.length = bytes

namespace HasAt

variable {buffer first second : Bytes} {offset : Nat}

theorem append (has : HasAt buffer offset (first ++ second)) :
    HasAt buffer offset first ∧ HasAt buffer (offset + first.length) second := by
  have inside := has.inside
  have same := has.same
  rw [List.length_append] at inside same
  rw [← slice_append_slice] at same
  obtain ⟨left, right⟩ := List.append_inj same (length_slice (by omega))
  exact ⟨⟨by omega, left⟩, ⟨by omega, right⟩⟩

theorem value {width value : Nat} (has : HasAt buffer offset (leBytes width value))
    (fits : value < 256 ^ width) : leValue (slice buffer offset width) = value := by
  have same := has.same
  rw [length_leBytes] at same
  rw [same, leValue_leBytes_of_lt fits]

end HasAt

namespace ImgHashData

section Names

theorem validUtf8_append {first second : Bytes} (left : ValidUtf8 first)
    (right : ValidUtf8 second) : ValidUtf8 (first ++ second) := by
  rw [ValidUtf8, List.toByteArray_append]
  exact ByteArray.IsValidUTF8.append left right

theorem validUtf8_zero : ValidUtf8 [0] :=
  @Char.isValidUTF8_toByteArray_utf8EncodeChar (Char.ofNat 0)

theorem validUtf8_replicate_zero (count : Nat) : ValidUtf8 (List.replicate count 0) := by
  induction count with
  | zero => exact ByteArray.isValidUTF8_empty
  | succ count ih =>
      rw [List.replicate_succ]
      exact validUtf8_append validUtf8_zero ih

theorem trimEnd_replicate_zero {name : Bytes} (clean : 0 ∉ name) (count : Nat) :
    trimEnd (name ++ List.replicate count 0) = name := by
  induction count with
  | zero =>
      rw [List.replicate_zero, List.append_nil, trimEnd]
      refine List.rdropWhile_eq_self_iff.mpr fun some zero => clean ?_
      rw [decide_eq_true_eq] at zero
      rw [← zero]
      exact List.getLast_mem some
  | succ count ih =>
      rw [List.replicate_succ', ← List.append_assoc, trimEnd,
        List.rdropWhile_concat_pos _ _ 0 (by decide)]
      exact ih

theorem length_paddedName (image : Image type algoSize) : image.paddedName.length = imgNameSize := by
  rw [Image.paddedName, List.length_append, List.length_replicate,
    Nat.add_sub_cancel' image.name_le]

end Names

section Image

variable {buffer : Bytes} {offset : Nat}

theorem length_range (range : HashRange type algoSize) :
    range.encode.length = recordSize type algoSize := by
  rw [HashRange.encode, List.length_append, List.length_append, length_leBytes, length_leBytes,
    range.length, recordSize]
  omega

/-- The record of a range is read as the range. -/
theorem rangeAt_of_hasAt {range : HashRange type algoSize} (has : HasAt buffer offset range.encode) :
    rangeAt type buffer algoSize offset = (range.addr, range.hash) := by
  obtain ⟨start, rest⟩ := has.append
  obtain ⟨end_, hash⟩ := rest.append
  rw [length_leBytes] at end_ hash
  rw [length_leBytes] at hash
  have bytes := hash.same
  rw [range.length, Nat.add_assoc, ← Nat.two_mul] at bytes
  rw [rangeAt, start.value range.start_lt, end_.value range.end_lt, bytes]
  rfl

theorem length_records (ranges : List (HashRange type algoSize)) :
    (ranges.flatMap HashRange.encode).length = ranges.length * recordSize type algoSize := by
  induction ranges with
  | nil => exact (Nat.zero_mul _).symm
  | cons range ranges ih =>
      rw [List.flatMap_cons, List.length_append, ih, length_range, List.length_cons, Nat.succ_mul,
        Nat.add_comm]

/-- The records of the ranges are read as the ranges. -/
theorem rangesAt_of_hasAt {ranges : List (HashRange type algoSize)}
    (has : HasAt buffer offset (ranges.flatMap HashRange.encode)) :
    rangesAt type buffer algoSize ranges.length offset =
      ranges.map fun range => (range.addr, range.hash) := by
  induction ranges generalizing offset with
  | nil => rfl
  | cons range ranges ih =>
      rw [List.flatMap_cons] at has
      obtain ⟨first, rest⟩ := has.append
      rw [length_range] at rest
      rw [List.length_cons, rangesAt, rangeAt_of_hasAt first, ih rest, List.map_cons]

theorem length_image (image : Image type algoSize) : image.encode.length =
    hashHeaderSize type + image.ranges.length * recordSize type algoSize := by
  rw [Image.encode, List.length_append, List.length_append, List.length_append, length_leBytes,
    length_leBytes, length_paddedName, Image.records, length_records, hashHeaderSize]
  omega

/-- The bytes of an image are read as the image. -/
theorem readImage_of_hasAt {image : Image type algoSize} (fits : buffer.length < 2 ^ 63)
    (has : HasAt buffer offset image.encode) :
    readImage type buffer algoSize offset = some (offset + image.encode.length, image.name,
      insertAll HashMap.empty (image.ranges.map fun range => (range.addr, range.hash))) := by
  have inside := has.inside
  obtain ⟨name, rest⟩ := has.append
  obtain ⟨count, rest⟩ := rest.append
  obtain ⟨-, records⟩ := rest.append
  rw [length_paddedName] at count records
  rw [length_leBytes, length_leBytes] at records
  have field := name.same
  rw [length_paddedName] at field
  have hashNum : hashNumAt buffer offset = image.ranges.length :=
    count.value image.ranges_lt
  have end_ : imageEnd type buffer algoSize offset = offset + image.encode.length := by
    rw [imageEnd, hashNum, length_image, Nat.add_assoc]
  have whole : WholeImage type buffer algoSize offset := by
    refine ⟨?_, ?_, ?_⟩
    · rw [length_image] at inside
      omega
    · rw [field]
      exact validUtf8_append image.name_utf8 (validUtf8_replicate_zero _)
    · rw [end_]
      exact inside
  have at_ : offset + imgNameSize + 2 + type.size = offset + hashHeaderSize type := by
    rw [hashHeaderSize]
    omega
  rw [at_] at records
  rw [readImage_eq fits whole, end_, hashNum, field, Image.paddedName,
    trimEnd_replicate_zero image.name_clean, rangesAt_of_hasAt records]

end Image

section Lookup

variable {Key Value : Type} [DecidableEq Key]

/-- With keys that differ, what is found is what was inserted, or was there. -/
theorem insertAll_eq_some_iff {map : HashMap Key Value} {pairs : List (Key × Value)} {key : Key}
    {value : Value} (distinct : (pairs.map Prod.fst).Nodup) :
    insertAll map pairs key = some value ↔
      (key, value) ∈ pairs ∨ (key ∉ pairs.map Prod.fst ∧ map key = some value) := by
  induction pairs generalizing map with
  | nil => exact ⟨fun found => .inr ⟨List.not_mem_nil, found⟩, fun found =>
      (found.resolve_left List.not_mem_nil).2⟩
  | cons pair pairs ih =>
      obtain ⟨new, distinct⟩ := List.nodup_cons.mp distinct
      have step : insertAll map (pair :: pairs) = insertAll (map.insert pair.1 pair.2) pairs := rfl
      rw [step, ih distinct, List.mem_cons, List.map_cons, List.mem_cons, not_or, HashMap.insert]
      by_cases same : key = pair.1
      · subst same
        rw [Function.update_self, Option.some.injEq]
        constructor
        · rintro (found | ⟨-, rfl⟩)
          · exact .inl (.inr found)
          · exact .inl (.inl rfl)
        · rintro ((here | there) | ⟨⟨differs, -⟩, -⟩)
          · exact .inr ⟨new, (congrArg Prod.snd here).symm⟩
          · exact .inl there
          · exact absurd rfl differs
      · rw [Function.update_of_ne same]
        constructor
        · rintro (found | ⟨none, found⟩)
          · exact .inl (.inr found)
          · exact .inr ⟨⟨same, none⟩, found⟩
        · rintro ((here | there) | ⟨⟨-, none⟩, found⟩)
          · exact absurd (congrArg Prod.fst here) same
          · exact .inl there
          · exact .inr ⟨none, found⟩

end Lookup

/-- What is inserted for the images of a table. -/
def imagePairs (images : List (Image type algoSize)) : List (Bytes × RangeHashes) :=
  images.map fun image =>
    (image.name,
      insertAll HashMap.empty (image.ranges.map fun range => (range.addr, range.hash)))

/-- The loop reads all images up to the end of their records: a record is longer than all that is
in front of the first one, so it begins before an offset that is as large as all their lengths. -/
theorem readImages_of_hasAt {buffer : Bytes} {offset hashDataLen : Nat} {hashDataMap : ImgHashData}
    {images : List (Image type algoSize)} (fits : buffer.length < 2 ^ 63)
    (has : HasAt buffer offset (images.flatMap Image.encode))
    (end_ : offset + (images.flatMap Image.encode).length = 22 + hashDataLen) :
    readImages type buffer algoSize hashDataLen offset hashDataMap =
      some (insertAll hashDataMap (imagePairs images)) := by
  induction images generalizing offset hashDataMap with
  | nil =>
      have past : offset = 22 + hashDataLen := end_
      rw [readImages, dif_neg (by omega)]
      rfl
  | cons image images ih =>
      rw [List.flatMap_cons] at has
      obtain ⟨first, rest⟩ := has.append
      have length := length_image image
      rw [hashHeaderSize, imgNameSize] at length
      rw [List.flatMap_cons, List.length_append] at end_
      rw [readImages, dif_pos (by omega)]
      split
      · rename_i read
        rw [readImage_of_hasAt fits first] at read
        exact nomatch read
      · rename_i next name single read
        rw [readImage_of_hasAt fits first] at read
        obtain ⟨rfl, rfl, rfl⟩ := read
        exact ih rest (by omega)

section Load

variable (table : ImgTable type)

theorem length_encodeInfo : table.encodeInfo.length = 16 := by
  rw [ImgTable.encodeInfo]
  simp only [List.length_append, length_leBytes]

/-- Where the parts of a table are. -/
theorem hasAt_encode :
    HasAt table.encode 8 (leBytes 2 table.algoSize) ∧
      HasAt table.encode 18 (leBytes 4 table.records.length) ∧
      HasAt table.encode 22 table.records := by
  have whole : HasAt table.encode 0 table.encode :=
    ⟨Nat.le_of_eq (Nat.zero_add _), slice_full table.encode⟩
  rw [ImgTable.encode] at whole
  obtain ⟨info, behind⟩ := whole.append
  obtain ⟨-, info⟩ := info.append
  obtain ⟨-, info⟩ := info.append
  obtain ⟨-, info⟩ := info.append
  obtain ⟨algoSize, -⟩ := info.append
  obtain ⟨-, behind⟩ := behind.append
  obtain ⟨length, records⟩ := behind.append
  simp only [length_leBytes, length_encodeInfo, Nat.zero_add] at algoSize length records
  exact ⟨algoSize, length, records⟩

/-- The names of what is inserted differ. -/
theorem imagePairs_distinct : ((imagePairs table.images).map Prod.fst).Nodup := by
  have names : (imagePairs table.images).map Prod.fst = table.images.map Image.name := by
    rw [imagePairs, List.map_map]
    rfl
  rw [names]
  exact table.names_distinct

theorem load_encode :
    loadImgHashData type table.encode =
      some (.ok (insertAll HashMap.empty (imagePairs table.images))) := by
  obtain ⟨algoSize, length, records⟩ := hasAt_encode table
  have info : algoSizeAt table.encode = table.algoSize := algoSize.value table.algoSize_lt
  have limit : hashDataLenAt table.encode = table.records.length :=
    length.value table.records_lt
  have long : ¬TooShort table.encode := by
    have inside := records.inside
    rw [TooShort, limit]
    omega
  have fits : table.encode.length < 2 ^ 63 := by
    have limited := table.records_lt
    have length := length_encodeInfo table
    rw [ImgTable.encode]
    simp only [List.length_append, length_leBytes, length, ImgTable.records]
    omega
  have read : readImages type table.encode table.algoSize table.records.length 22 HashMap.empty =
      some (insertAll HashMap.empty (imagePairs table.images)) := readImages_of_hasAt fits records rfl
  rw [load_of_long long, info, limit, read]
  rfl

/-- The hashes of a range are the same when they are of one length and the loop finds no
difference. -/
theorem sameHash_iff {hashData hashValue : Bytes} (length : hashData.length = hashValue.length) :
    sameHash hashData hashValue = true ↔ hashData = hashValue := by
  induction hashData generalizing hashValue with
  | nil => exact ⟨fun _ => (List.length_eq_zero_iff.mp length.symm).symm, fun _ => rfl⟩
  | cons byte hashData ih =>
      cases hashValue with
      | nil => exact nomatch length
      | cons value hashValue =>
          rw [sameHash, List.cons.injEq, ← ih (Nat.succ.inj length)]
          split
          · rename_i differ
            exact ⟨nofun, fun both => absurd both.1 differ⟩
          · rename_i same
            exact ⟨fun rest => ⟨not_not.mp same, rest⟩, fun both => both.2⟩

theorem checkImgHash_iff {data : ImgHashData} {name hash : Bytes} {start end_ : Nat} :
    checkImgHash data name start end_ hash = true ↔
      ∃ ranges, data name = some ranges ∧ ranges (start, end_) = some hash := by
  rw [checkImgHash]
  constructor
  · intro accepted
    split at accepted
    · exact nomatch accepted
    · rename_i ranges found
      split at accepted
      · exact nomatch accepted
      · rename_i hashData read
        split at accepted
        · exact nomatch accepted
        · rename_i length
          rw [← (sameHash_iff (not_not.mp length)).mp accepted]
          exact ⟨ranges, found, read⟩
  · rintro ⟨ranges, found, read⟩
    rw [found]
    dsimp only
    rw [read]
    dsimp only
    rw [if_neg (not_not.mpr rfl)]
    exact (sameHash_iff rfl).mpr rfl

/-- What is looked up in a table that was read is what the table has. -/
theorem checkImgHash_encode {name hash : Bytes} {start end_ : Nat} :
    checkImgHash (insertAll HashMap.empty (imagePairs table.images)) name start end_ hash = true ↔
      table.Has name start end_ hash := by
  have images : ∀ ranges : RangeHashes,
      insertAll HashMap.empty (imagePairs table.images) name = some ranges ↔
        (name, ranges) ∈ imagePairs table.images := by
    intro ranges
    rw [insertAll_eq_some_iff (imagePairs_distinct table)]
    exact ⟨fun found => found.resolve_right fun other => (nomatch other.2), .inl⟩
  have ranges : ∀ image : Image type table.algoSize,
      insertAll HashMap.empty (image.ranges.map fun range => (range.addr, range.hash))
          (start, end_) = some hash ↔
        ∃ range ∈ image.ranges, range.start = start ∧ range.end_ = end_ ∧ range.hash = hash := by
    intro image
    have distinct : ((image.ranges.map fun range => (range.addr, range.hash)).map Prod.fst).Nodup := by
      rw [List.map_map]
      exact image.ranges_distinct
    rw [insertAll_eq_some_iff distinct, List.mem_map]
    constructor
    · rintro (⟨range, member, same⟩ | ⟨-, none⟩)
      · obtain ⟨⟨rfl, rfl⟩, rfl⟩ := same
        exact ⟨range, member, rfl, rfl, rfl⟩
      · exact nomatch none
    · rintro ⟨range, member, rfl, rfl, rfl⟩
      exact .inl ⟨range, member, rfl⟩
  rw [checkImgHash_iff]
  constructor
  · rintro ⟨single, found, read⟩
    obtain ⟨image, member, same⟩ := List.mem_map.mp ((images single).mp found)
    obtain ⟨rfl, rfl⟩ := same
    exact ⟨image, member, rfl, (ranges image).mp read⟩
  · rintro ⟨image, member, rfl, range⟩
    exact ⟨_, (images _).mpr (List.mem_map.mpr ⟨image, member, rfl⟩), (ranges image).mpr range⟩

/-- Reading the bytes of a table succeeds, every image is found in it with all its ranges, and a
hash is confirmed exactly when the table has it for the image and the range. -/
theorem load_exact :
    ∃ data, loadImgHashData type table.encode = some (.ok data) ∧
      (∀ image ∈ table.images, ∃ ranges, data image.name = some ranges ∧
        ∀ range ∈ image.ranges, ranges range.addr = some range.hash) ∧
      ∀ name start end_ hash,
        checkImgHash data name start end_ hash = true ↔ table.Has name start end_ hash := by
  refine ⟨_, load_encode table, ?_, fun _ _ _ _ => checkImgHash_encode table⟩
  intro image member
  refine ⟨_, (insertAll_eq_some_iff (imagePairs_distinct table)).mpr
    (.inl (List.mem_map.mpr ⟨image, member, rfl⟩)), ?_⟩
  intro range inside
  refine (insertAll_eq_some_iff ?_).mpr (.inl (List.mem_map.mpr ⟨range, inside, rfl⟩))
  rw [List.map_map]
  exact image.ranges_distinct

end Load

end ImgHashData

end Updater.HashSignedData
