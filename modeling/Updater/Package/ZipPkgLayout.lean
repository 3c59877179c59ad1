import Updater.Package.UpgradePkgCoverage
import Updater.Package.ZipPkgFile

/-! What `ZipPkgFile::LoadPackage` gives, read off the file: buffers and the memory behind
them play no part where all records lie inside the file. -/

set_option autoImplicit false

namespace Updater.Package

open Updater.Base

/-- The bytes of a record at an offset of the file. -/
def fileField (file : Bytes) (pos start count : Nat) : Bytes :=
  slice file (pos + start) count

/-- The method and the length of the local header of an entry. -/
def localHeaderAt (file : Bytes) (entry : ZipEntry) : Option (Nat × Nat) :=
  let data := fileField file entry.headerOffset
  let nameSize := leValue (data 26 2)
  let currLen := localFileHeaderLen + nameSize + leValue (data 28 2)
  if leValue (data 0 4) ≠ localHeaderSignature then none
  else if entry.headerOffset ≥ 2 ^ 64 - 1 - currLen then none
  else if entry.identity ≠ data localFileHeaderLen (fileNameLength nameSize) then none
  else if leValue (data 6 2) &&& gpbddFlagMask = gpbddFlagMask then
    let desc := fileField file ((entry.headerOffset + currLen + entry.packedSize) % 2 ^ 64)
    if leValue (desc 0 4) ≠ dataDescSignature then none
    else if entry.crc32 ≠ leValue (desc 4 4) then none
    else some (leValue (data 8 2), currLen)
  else if entry.crc32 ≠ leValue (data 14 4) then none
  else some (leValue (data 8 2), currLen)

/-- The entry at an offset of the directory, and its length. -/
def entryAt (file : Bytes) (pos : Nat) : Option (ZipEntry × Nat) :=
  if pos ≥ 2 ^ 64 - 1 - zipBuffLen then none
  else do
    let (entry, decodeLen) ← decodeCentralDirEntry (fileField file pos) zipBuffLen pos
    let (method, headerLen) ← localHeaderAt file entry
    pure ({ entry with method, dataOffset := entry.headerOffset + headerLen }, decodeLen)

/-- So many entries from an offset of the directory on. -/
def entriesAt (file : Bytes) : Nat → Nat → Option (List ZipEntry)
  | 0, _ => some []
  | count + 1, pos => do
      let (entry, decodeLen) ← entryAt file pos
      let entries ← entriesAt file count (pos + decodeLen)
      pure (entry :: entries)

/-- The record of an entry as it stands in the directory. -/
def centralAt (file : Bytes) (pos : Nat) : ZipEntry :=
  let data := fileField file pos
  let nameSize := leValue (data 28 2)
  doDecodeCentralDirEntry data (data centralDirEntryLen (fileNameLength nameSize)) nameSize
    (leValue (data 30 2))

/-- The record of an entry, its local header and its data descriptor lie in front of the
limit. A name that is followed by an extra field leaves it room in the buffer. -/
structure EntryWithin (file : Bytes) (limit pos : Nat) : Prop where
  record : pos + centralDirLen (fileField file pos) ≤ limit
  extra : leValue (fileField file pos 30 2) ≠ 0 →
    leValue (fileField file pos 28 2) < maxFileName ∧
      pos + (leValue (fileField file pos 28 2) + centralDirEntryLen + (bigSizeHeader + 8)) ≤ limit
  header : ∀ {offset : Nat}, (centralAt file pos).headerOffset = offset →
    offset + (localFileHeaderLen + leValue (fileField file offset 26 2) +
      leValue (fileField file offset 28 2)) ≤ limit
  descriptor : ∀ {offset : Nat}, (centralAt file pos).headerOffset = offset →
    leValue (fileField file offset 6 2) &&& gpbddFlagMask = gpbddFlagMask →
    (offset + (localFileHeaderLen + leValue (fileField file offset 26 2) +
      leValue (fileField file offset 28 2)) + (centralAt file pos).packedSize) % 2 ^ 64 +
        dataDescriptorLen ≤ limit

def EntriesWithin (file : Bytes) (limit : Nat) : Nat → Nat → Prop
  | 0, _ => True
  | count + 1, pos => EntryWithin file limit pos ∧
      EntriesWithin file limit count (pos + centralDirLen (fileField file pos))

section

variable {data data' : Nat → Nat → Bytes} {bound : Nat}

/-- Two places have the same bytes up to a bound. -/
def AgreeUpTo (bound : Nat) (data data' : Nat → Nat → Bytes) : Prop :=
  ∀ start count, start + count ≤ bound → data start count = data' start count

theorem fileNameLength_le (nameSize : Nat) :
    fileNameLength nameSize ≤ nameSize ∧ fileNameLength nameSize < maxFileName := by
  have positive : 0 < maxFileName := by decide
  rw [fileNameLength]
  split
  · omega
  · omega

theorem doDecodeCentralDirEntry_congr (agree : AgreeUpTo bound data data') (identity : Bytes)
    {nameSize extraSize : Nat} (fixed : centralDirEntryLen ≤ bound)
    (extra : extraSize ≠ 0 → nameSize + centralDirEntryLen + (bigSizeHeader + 8) ≤ bound) :
    doDecodeCentralDirEntry data identity nameSize extraSize =
      doDecodeCentralDirEntry data' identity nameSize extraSize := by
  have size : centralDirEntryLen = 46 := rfl
  have big : bigSizeHeader = 20 := rfl
  have method := agree 10 2 (by omega)
  have time := agree 12 2 (by omega)
  have date := agree 14 2 (by omega)
  have crc := agree 16 4 (by omega)
  have packedSize := agree 20 4 (by omega)
  have unpackedSize := agree 24 4 (by omega)
  have headerOffset := agree 42 4 (by omega)
  by_cases none : extraSize = 0
  · simp only [doDecodeCentralDirEntry, none, true_or, if_true, method, time, date, crc, packedSize,
      unpackedSize, headerOffset]
  · have room := extra none
    have id := agree (nameSize + centralDirEntryLen) 2 (by omega)
    have first := agree (nameSize + centralDirEntryLen + 4) 8 (by omega)
    have second := agree (nameSize + centralDirEntryLen + 12) 8 (by omega)
    have third := agree (nameSize + centralDirEntryLen + bigSizeHeader) 8 (by omega)
    simp only [doDecodeCentralDirEntry, method, time, date, crc, packedSize, unpackedSize,
      headerOffset, id, first, second, third]

theorem centralDirLen_congr (agree : AgreeUpTo bound data data') (fixed : centralDirEntryLen ≤ bound) :
    centralDirLen data = centralDirLen data' := by
  have size : centralDirEntryLen = 46 := rfl
  rw [centralDirLen, centralDirLen, agree 28 2 (by omega), agree 30 2 (by omega),
    agree 32 2 (by omega)]

/-- What an entry of the directory is decoded from. -/
theorem decodeCentralDirEntry_congr {readLen readLen' pos : Nat} (agree : AgreeUpTo bound data data')
    (fixed : centralDirEntryLen + fileNameLength (leValue (data 28 2)) ≤ bound)
    (extra : leValue (data 30 2) ≠ 0 →
      leValue (data 28 2) + centralDirEntryLen + (bigSizeHeader + 8) ≤ bound)
    (read : centralDirEntryLen + fileNameLength (leValue (data 28 2)) ≤ readLen)
    (read' : centralDirEntryLen + fileNameLength (leValue (data 28 2)) ≤ readLen') :
    decodeCentralDirEntry data readLen pos = decodeCentralDirEntry data' readLen' pos := by
  have size : centralDirEntryLen = 46 := rfl
  have nameSize := agree 28 2 (by omega)
  have extraSize := agree 30 2 (by omega)
  have signature := agree 0 4 (by omega)
  have name := agree centralDirEntryLen _ fixed
  have length := centralDirLen_congr agree (by omega)
  have decoded (identity : Bytes) := doDecodeCentralDirEntry_congr agree identity (by omega) extra
  simp only [decodeCentralDirEntry, decoded, signature, name, ← length]
  rw [← nameSize, ← extraSize, if_neg (by omega), if_neg (by omega : ¬ readLen' < _)]
  rw [if_neg (by omega : ¬ readLen < _), if_neg (by omega : ¬ readLen' < _)]

theorem decodeCentralDirEntry_some {readLen pos decodeLen : Nat} {entry : ZipEntry}
    (decoded : decodeCentralDirEntry data readLen pos = some (entry, decodeLen)) :
    decodeLen = centralDirLen data ∧
      entry = doDecodeCentralDirEntry data
        (data centralDirEntryLen (fileNameLength (leValue (data 28 2)))) (leValue (data 28 2))
        (leValue (data 30 2)) := by
  simp only [decodeCentralDirEntry] at decoded
  split at decoded
  · cases decoded
  split at decoded
  · cases decoded
  split at decoded
  · cases decoded
  split at decoded
  · cases decoded
  · cases decoded
    exact ⟨rfl, rfl⟩

end

theorem entryAt_length {file : Bytes} {pos decodeLen : Nat} {entry : ZipEntry}
    (found : entryAt file pos = some (entry, decodeLen)) :
    decodeLen = centralDirLen (fileField file pos) := by
  rw [entryAt] at found
  split at found
  · cases found
  · simp only [Option.bind_eq_bind] at found
    obtain ⟨⟨central, length⟩, decoded, found⟩ := Option.bind_eq_some_iff.mp found
    obtain ⟨_, -, found⟩ := Option.bind_eq_some_iff.mp found
    cases found
    exact (decodeCentralDirEntry_some decoded).1

theorem centralDirLen_ge (data : Nat → Nat → Bytes) :
    centralDirEntryLen + leValue (data 28 2) ≤ centralDirLen data := by
  rw [centralDirLen]
  omega

namespace ZipInput

variable {input : ZipInput}

theorem memory_inside {buffer : Bytes} {start count : Nat} (inside : start + count ≤ buffer.length) :
    input.memory buffer start count = slice buffer start count := by
  have same : input.memory buffer start count =
      (UpgradeInput.mk input.file input.heap false fun _ _ => false).memory buffer start count := rfl
  rw [same, UpgradeInput.memory_inside inside]

theorem readFront_file {buffer : Bytes} {start count : Nat} (room : count ≤ buffer.length)
    (inside : start + count ≤ input.file.length) (positive : 0 < count) :
    ∃ next, readFront input.file buffer start count = some next ∧ next.length = buffer.length ∧
      AgreeUpTo count (input.memory next) (fileField input.file start) := by
  have length := length_slice inside
  have found : fileRead input.file start count = some (slice input.file start count) := by
    rw [fileRead, if_neg]
    rintro (behind | empty)
    · omega
    · rw [empty, List.length_nil] at length
      omega
  have nextLength : (slice input.file start count ++
      buffer.drop (slice input.file start count).length).length = buffer.length := by
    rw [List.length_append, List.length_drop, length]
    omega
  refine ⟨_, ?_, nextLength, ?_⟩
  · rw [readFront, found, Option.map_some]
  · intro first size within
    rw [memory_inside (by omega), slice_append_left _ (by omega), slice_slice within]
    rfl

/-- A read into all of the buffer leaves the bytes of the file in front. -/
theorem readAll_file {buffer : Bytes} {start : Nat} (size : buffer.length = zipBuffLen)
    (before : start < input.file.length) :
    ∃ next, input.readAll buffer start = some (next, min zipBuffLen (input.file.length - start)) ∧
      next.length = zipBuffLen ∧
      AgreeUpTo (min zipBuffLen (input.file.length - start)) (input.memory next)
        (fileField input.file start) := by
  have length : (slice input.file start zipBuffLen).length =
      min zipBuffLen (input.file.length - start) := by
    rw [slice, List.length_take, List.length_drop]
  have positive : 0 < zipBuffLen := by decide
  have found : fileRead input.file start zipBuffLen = some (slice input.file start zipBuffLen) := by
    rw [fileRead, if_neg]
    rintro (behind | empty)
    · omega
    · rw [empty, List.length_nil] at length
      omega
  have nextLength : (slice input.file start zipBuffLen ++
      buffer.drop (slice input.file start zipBuffLen).length).length = zipBuffLen := by
    rw [List.length_append, List.length_drop, size, length]
    omega
  refine ⟨_, ?_, nextLength, ?_⟩
  · rw [readAll, readInto, size, found, Option.map_some, Option.map_some, length]
  · intro first count inside
    rw [memory_inside (by omega), slice_append_left _ (by omega), slice_slice (by omega)]
    rfl

/-- `DecodeLocalFileHeader` of a local header inside the file. -/
theorem decodeLocalFileHeader_file {buffer : Bytes} {entry : ZipEntry} {limit : Nat}
    (size : buffer.length = zipBuffLen) (limited : limit ≤ input.file.length)
    (header : entry.headerOffset + (localFileHeaderLen +
      leValue (fileField input.file entry.headerOffset 26 2) +
      leValue (fileField input.file entry.headerOffset 28 2)) ≤ limit)
    (descriptor : leValue (fileField input.file entry.headerOffset 6 2) &&& gpbddFlagMask =
        gpbddFlagMask →
      (entry.headerOffset + (localFileHeaderLen +
        leValue (fileField input.file entry.headerOffset 26 2) +
        leValue (fileField input.file entry.headerOffset 28 2)) + entry.packedSize) % 2 ^ 64 +
          dataDescriptorLen ≤ limit) :
    ∃ buffer', buffer'.length = zipBuffLen ∧
      input.decodeLocalFileHeader entry buffer entry.headerOffset =
        (localHeaderAt input.file entry).map fun found => (found.1, found.2, buffer') := by
  have headerLen : localFileHeaderLen = 30 := rfl
  have descLen : dataDescriptorLen = 16 := rfl
  have room : zipBuffLen = 368 := rfl
  have most : maxFileName = 256 := rfl
  obtain ⟨next, read, nextSize, agree⟩ := @readAll_file input buffer entry.headerOffset size (by omega)
  have kept := fileNameLength_le (leValue (fileField input.file entry.headerOffset 26 2))
  have signature := agree 0 4 (by omega)
  have flags := agree 6 2 (by omega)
  have method := agree 8 2 (by omega)
  have crc := agree 14 4 (by omega)
  have nameSize := agree 26 2 (by omega)
  have extraSize := agree 28 2 (by omega)
  have name := agree localFileHeaderLen
    (fileNameLength (leValue (fileField input.file entry.headerOffset 26 2))) (by omega)
  simp only [decodeLocalFileHeader, read, Option.bind_eq_bind, Option.bind_some, signature, nameSize,
    extraSize, name, method]
  rw [if_neg (by omega)]
  simp only [localHeaderAt]
  split
  · exact ⟨next, nextSize, rfl⟩
  split
  · exact ⟨next, nextSize, rfl⟩
  rw [if_neg (by omega)]
  split
  · exact ⟨next, nextSize, rfl⟩
  simp only [decodeLocalFileHeaderCheck, flags, crc]
  split
  · rename_i described
    have inside := descriptor described
    obtain ⟨last, descRead, lastSize, descAgree⟩ := @readAll_file input next
      ((entry.headerOffset + (localFileHeaderLen +
        leValue (fileField input.file entry.headerOffset 26 2) +
        leValue (fileField input.file entry.headerOffset 28 2)) + entry.packedSize) % 2 ^ 64)
      nextSize (by omega)
    have descSignature := descAgree 0 4 (by omega)
    have descCrc := descAgree 4 4 (by omega)
    simp only [descRead, Option.bind_eq_bind, Option.bind_some, descSignature, descCrc]
    rw [if_neg (by omega)]
    split
    · exact ⟨next, nextSize, rfl⟩
    split
    · exact ⟨next, nextSize, rfl⟩
    · exact ⟨last, lastSize, rfl⟩
  · split
    · exact ⟨next, nextSize, rfl⟩
    · exact ⟨next, nextSize, rfl⟩

/-- `DecodeHeader` of an entry inside the file. -/
theorem decodeHeader_file {buffer : Bytes} {limit pos : Nat} (size : buffer.length = zipBuffLen)
    (limited : limit ≤ input.file.length) (within : EntryWithin input.file limit pos) :
    ∃ buffer', buffer'.length = zipBuffLen ∧ input.decodeHeader buffer pos =
      (entryAt input.file pos).map fun found => (found.1, found.2, buffer') := by
  have recordLen : centralDirEntryLen = 46 := rfl
  have room : zipBuffLen = 368 := rfl
  have most : maxFileName = 256 := rfl
  have big : bigSizeHeader = 20 := rfl
  have record := within.record
  have named := centralDirLen_ge (fileField input.file pos)
  have kept := fileNameLength_le (leValue (fileField input.file pos 28 2))
  obtain ⟨next, read, nextSize, agree⟩ := @readAll_file input buffer pos size (by omega)
  have same (readLen : Nat) (enough : centralDirEntryLen +
      fileNameLength (leValue (fileField input.file pos 28 2)) ≤ readLen) :
      decodeCentralDirEntry (input.memory next) readLen pos =
        decodeCentralDirEntry (fileField input.file pos) zipBuffLen pos := by
    have nameSize := agree 28 2 (by omega)
    have extraSize := agree 30 2 (by omega)
    apply decodeCentralDirEntry_congr agree
    · rw [nameSize]
      omega
    · rw [nameSize, extraSize]
      intro extended
      have extra := within.extra extended
      omega
    · rw [nameSize]
      exact enough
    · rw [nameSize]
      omega
  rw [decodeHeader, entryAt, size]
  split
  · exact ⟨next, nextSize, rfl⟩
  · simp only [read, Option.bind_eq_bind, Option.bind_some, same _ (show _ ≤
      min zipBuffLen (input.file.length - pos) by omega)]
    cases decoded : decodeCentralDirEntry (fileField input.file pos) zipBuffLen pos with
    | none => exact ⟨next, nextSize, rfl⟩
    | some found =>
        obtain ⟨entry, decodeLen⟩ := found
        obtain ⟨-, central⟩ := decodeCentralDirEntry_some decoded
        change entry = centralAt input.file pos at central
        have offset := congrArg ZipEntry.headerOffset central
        obtain ⟨last, lastSize, header⟩ := decodeLocalFileHeader_file nextSize limited
          (within.header offset.symm) (fun described => by
            rw [central]
            exact within.descriptor rfl (by rw [← central]; exact described))
        refine ⟨last, lastSize, ?_⟩
        simp only [Option.bind_some, header]
        cases localHeaderAt input.file entry with
        | none => rfl
        | some found => rfl

/-- Run lemma: `ParseFileEntries` of entries inside the file. -/
theorem parseFileEntries_file {buffer : Bytes} {limit count pos : Nat}
    (size : buffer.length = zipBuffLen) (limited : limit ≤ input.file.length)
    (within : EntriesWithin input.file limit count pos) :
    input.parseFileEntries count pos buffer = entriesAt input.file count pos := by
  induction count generalizing pos buffer with
  | zero => rfl
  | succ count ih =>
      obtain ⟨first, rest⟩ := within
      obtain ⟨next, nextSize, decoded⟩ := decodeHeader_file size limited first
      have record := first.record
      have named := centralDirLen_ge (fileField input.file pos)
      have positive : 0 < centralDirEntryLen := by decide
      rw [parseFileEntries, if_neg (by omega), decoded, entriesAt]
      cases found : entryAt input.file pos with
      | none => rfl
      | some pair =>
          obtain ⟨entry, decodeLen⟩ := pair
          simp only [Option.map_some, Option.bind_eq_bind, Option.bind_some, entryAt_length found,
            ih nextSize rest]

theorem length_readAll {buffer next : Bytes} {start readLen : Nat}
    (read : input.readAll buffer start = some (next, readLen)) : next.length = buffer.length := by
  obtain ⟨found, reads, pair⟩ := Option.map_eq_some_iff.mp read
  cases pair
  exact (readInto_some reads).1

theorem length_decodeLocalFileHeader {entry : ZipEntry} {buffer last : Bytes}
    {currentPos method headerLen : Nat}
    (decoded : input.decodeLocalFileHeader entry buffer currentPos = some (method, headerLen, last)) :
    last.length = buffer.length := by
  simp only [decodeLocalFileHeader, Option.bind_eq_bind] at decoded
  obtain ⟨⟨next, readLen⟩, read, decoded⟩ := Option.bind_eq_some_iff.mp decoded
  rw [← length_readAll read]
  split at decoded
  · cases decoded
  split at decoded
  · cases decoded
  split at decoded
  · cases decoded
  split at decoded
  · cases decoded
  split at decoded
  · cases decoded
  obtain ⟨final, checked, decoded⟩ := Option.bind_eq_some_iff.mp decoded
  cases decoded
  simp only [decodeLocalFileHeaderCheck, Option.bind_eq_bind] at checked
  split at checked
  · obtain ⟨⟨desc, descLen⟩, descRead, checked⟩ := Option.bind_eq_some_iff.mp checked
    rw [← length_readAll descRead]
    split at checked
    · cases checked
    split at checked
    · cases checked
    split at checked
    · cases checked
    · cases checked
      rfl
  · split at checked
    · cases checked
    · cases checked
      rfl

end ZipInput

end Updater.Package
