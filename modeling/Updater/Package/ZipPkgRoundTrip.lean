import Mathlib.Data.List.Forall2
import Updater.Package.UpgradePkgWritten
import Updater.Package.ZipPkgLayout
import Updater.Package.ZipPkgPack

/-! Zip packages that are written and loaded again: which of them come back. -/

set_option autoImplicit false

namespace Updater.Package

open Updater.Base

theorem fileField_behind {file front back : Bytes} {pos : Nat} (split : file = front ++ back)
    (at_ : pos = front.length) (start count : Nat) :
    fileField file pos start count = slice back start count := by
  rw [fileField, split, at_, slice_append_right]

theorem slice_behind_leBytes {width value start size : Nat} {back : Bytes} (behind : width ≤ start) :
    slice (leBytes width value ++ back) start size = slice back (start - width) size := by
  have length := length_leBytes width value
  rw [slice_behind (by omega), length]

theorem slice_front_leBytes (width value : Nat) (back : Bytes) :
    slice (leBytes width value ++ back) 0 width = leBytes width value :=
  slice_front (length_leBytes width value).symm

theorem slice_leBytes (width value : Nat) : slice (leBytes width value) 0 width = leBytes width value := by
  have front := slice_front_leBytes width value []
  rw [List.append_nil] at front
  exact front

/-- The fields of a record as it was written. -/
structure RecordFields (entry : ZipAdded) (data : Nat → Nat → Bytes) : Prop where
  signature : leValue (data 0 4) = centralSignature
  method : leValue (data 10 2) = entry.info.compressionMethod % 2 ^ 16
  modifiedTime : leValue (data 12 2) = entry.info.modifiedTime % 2 ^ 16
  modifiedDate : leValue (data 14 2) = entry.info.modifiedDate % 2 ^ 16
  crc32 : leValue (data 16 4) = entry.packed.crc.toNat
  packedSize : leValue (data 20 4) = entry.packed.data.length % 2 ^ 32
  unpackedSize : leValue (data 24 4) = entry.info.initSize % 2 ^ 32
  nameSize : leValue (data 28 2) = entry.info.centralName.length
  extraSize : leValue (data 30 2) = 0
  commentSize : leValue (data 32 2) = 0
  headerOffset : leValue (data 42 4) = entry.headerOffset % 2 ^ 32
  name : data centralDirEntryLen (fileNameLength entry.info.centralName.length) =
    entry.info.centralName.take (fileNameLength entry.info.centralName.length)

theorem record_fields {file front rest : Bytes} {entry : ZipAdded} {pos : Nat}
    (split : file = front ++ (entry.record ++ rest)) (at_ : pos = front.length) :
    RecordFields entry (fileField file pos) := by
  have field := fileField_behind split at_
  have length := entry.length_record
  have nameLength := entry.info.length_centralName
  have size : centralDirEntryLen = 46 := rfl
  have most : maxFileName = 256 := rfl
  have kept := fileNameLength_le entry.info.centralName.length
  have inside {start count : Nat} (within : start + count ≤ entry.record.length) :
      fileField file pos start count = slice entry.record start count :=
    (field start count).trans (slice_append_left rest within)
  have crc : entry.packed.crc.toNat % 256 ^ 4 = entry.packed.crc.toNat :=
    Nat.mod_eq_of_lt entry.packed.crc.toNat_lt
  constructor
  case name =>
    rw [inside (by omega), ZipAdded.record, ZipFileInfo.encodeCentralDirEntry]
    simp (disch := omega) only [slice_behind_leBytes, Nat.reduceSub, size]
    rw [slice, List.drop_zero]
  all_goals
    rw [inside (by omega), ZipAdded.record, ZipFileInfo.encodeCentralDirEntry]
    simp (disch := omega) only [slice_behind_leBytes, slice_front_leBytes, Nat.reduceSub,
      Nat.sub_self, leValue_leBytes]
  · rfl
  · rfl
  · rfl
  · rfl
  · exact crc
  · rfl
  · rfl
  · exact Nat.mod_eq_of_lt (by omega)
  · rfl
  · rfl
  · rfl

/-- Those of a local header. -/
structure LocalFields (entry : ZipAdded) (data : Nat → Nat → Bytes) : Prop where
  signature : leValue (data 0 4) = localHeaderSignature
  flags : leValue (data 6 2) = if entry.info.hasDataDesc then gpbddFlagMask else 0
  method : leValue (data 8 2) = entry.info.compressionMethod % 2 ^ 16
  crc32 : leValue (data 14 4) = if entry.info.hasDataDesc then 0 else entry.packed.crc.toNat
  nameSize : leValue (data 26 2) = entry.info.localName.length
  extraSize : leValue (data 28 2) = 0
  name : data localFileHeaderLen entry.info.localName.length = entry.info.localName

theorem ZipFileInfo.length_localName (info : ZipFileInfo) :
    info.localName.length ≤ maxFileName + localFileHeaderLen + zipPkgAlignmentDef := by
  rw [localName, convertStringToBuffer]
  split
  · exact Nat.zero_le _
  · rename_i fits
    exact Nat.not_lt.mp fits

theorem local_fields {file front rest : Bytes} {entry : ZipAdded} {pos : Nat}
    (split : file = front ++ (entry.header ++ rest)) (at_ : pos = front.length) :
    LocalFields entry (fileField file pos) := by
  have field := fileField_behind split at_
  have length := entry.length_header
  have nameLength := entry.info.length_localName
  have size : localFileHeaderLen = 30 := rfl
  have most : maxFileName = 256 := rfl
  have one : zipPkgAlignmentDef = 1 := rfl
  have inside {start count : Nat} (within : start + count ≤ entry.header.length) :
      fileField file pos start count = slice entry.header start count :=
    (field start count).trans (slice_append_left rest within)
  have crc : entry.packed.crc.toNat % 256 ^ 4 = entry.packed.crc.toNat :=
    Nat.mod_eq_of_lt entry.packed.crc.toNat_lt
  constructor
  case name =>
    rw [inside (by omega), ZipAdded.header, ZipFileInfo.encodeLocalFileHeader]
    simp only [List.append_assoc]
    simp (disch := omega) only [slice_behind_leBytes, Nat.reduceSub, size]
    exact slice_full _
  all_goals
    rw [inside (by omega), ZipAdded.header, ZipFileInfo.encodeLocalFileHeader]
    simp only [List.append_assoc]
    simp (disch := omega) only [slice_behind_leBytes, slice_front_leBytes, Nat.reduceSub,
      Nat.sub_self, leValue_leBytes]
  · rfl
  · split <;> rfl
  · rfl
  · split
    · rfl
    · exact crc
  · exact Nat.mod_eq_of_lt (by omega)
  · rfl

/-- Those of a data descriptor. -/
theorem descriptor_fields {file front rest : Bytes} {info : ZipFileInfo} {packed : ZipPacked}
    {pos : Nat} (split : file = front ++ (info.encodeDataDescriptor packed ++ rest))
    (at_ : pos = front.length) :
    leValue (fileField file pos 0 4) = dataDescSignature ∧
      leValue (fileField file pos 4 4) = packed.crc.toNat := by
  have field := fileField_behind split at_
  have crc : packed.crc.toNat % 256 ^ 4 = packed.crc.toNat := Nat.mod_eq_of_lt packed.crc.toNat_lt
  rw [field, field, ZipFileInfo.encodeDataDescriptor]
  simp only [List.append_assoc]
  simp (disch := omega) only [slice_behind_leBytes, slice_front_leBytes, Nat.sub_self,
    leValue_leBytes]
  exact ⟨rfl, crc⟩

/-- An entry is loaded as it was added. -/
structure ZipRestored (file : Bytes) (entry : ZipAdded) (loaded : ZipEntry) : Prop where
  identity : loaded.identity = entry.info.identity
  packedSize : loaded.packedSize = entry.packed.data.length
  unpackedSize : loaded.unpackedSize = entry.info.initSize
  crc32 : loaded.crc32 = entry.packed.crc.toNat
  dataOffset : loaded.dataOffset = entry.dataOffset
  data : slice file loaded.dataOffset loaded.packedSize = entry.packed.data

/-- The package is loaded with all its entries as they were added. -/
def ZipRoundTrips (entries : List ZipAdded) (package : Bytes) : Prop :=
  ∀ heap, ∃ loaded, (ZipInput.mk package heap).loadPackage = some loaded ∧
    List.Forall₂ (ZipRestored package) entries loaded

/-- An entry whose name and sizes fit their fields. -/
structure ZipAdded.Faithful (entry : ZipAdded) : Prop where
  named : entry.info.identity.length < maxFileName
  packedFits : entry.packed.data.length < 2 ^ 32
  unpackedFits : entry.info.initSize < 2 ^ 32

namespace ZipAdded.Faithful

variable {entry : ZipAdded}

theorem localName (faithful : entry.Faithful) : entry.info.localName = entry.info.identity := by
  have named := faithful.named
  rw [ZipFileInfo.localName, ZipFileInfo.convertStringToBuffer, if_neg (by omega)]

theorem centralName (faithful : entry.Faithful) : entry.info.centralName = entry.info.identity := by
  have named := faithful.named
  rw [ZipFileInfo.centralName, ZipFileInfo.convertStringToBuffer, if_neg (by omega)]

theorem kept (faithful : entry.Faithful) :
    fileNameLength entry.info.identity.length = entry.info.identity.length :=
  if_neg (Nat.not_le.mpr faithful.named)

end ZipAdded.Faithful

/-- What the record of an entry is decoded to. -/
def recordOf (entry : ZipAdded) : ZipEntry where
  identity := entry.info.centralName.take (fileNameLength entry.info.centralName.length)
  method := entry.info.compressionMethod % 2 ^ 16
  modifiedTime := entry.info.modifiedTime % 2 ^ 16
  modifiedDate := entry.info.modifiedDate % 2 ^ 16
  crc32 := entry.packed.crc.toNat
  packedSize := entry.packed.data.length % 2 ^ 32
  unpackedSize := entry.info.initSize % 2 ^ 32
  headerOffset := entry.headerOffset % 2 ^ 32
  dataOffset := 0

section

variable {entry : ZipAdded} {data : Nat → Nat → Bytes}

theorem RecordFields.central (fields : RecordFields entry data) :
    doDecodeCentralDirEntry data (data centralDirEntryLen
      (fileNameLength (leValue (data 28 2)))) (leValue (data 28 2)) (leValue (data 30 2)) =
        recordOf entry := by
  rw [doDecodeCentralDirEntry, if_pos (Or.inl fields.extraSize), fields.method, fields.modifiedTime,
    fields.modifiedDate, fields.crc32, fields.packedSize, fields.unpackedSize, fields.headerOffset,
    fields.nameSize, fields.name]
  rfl

theorem RecordFields.length (fields : RecordFields entry data) :
    centralDirLen data = entry.record.length := by
  rw [centralDirLen, fields.nameSize, fields.extraSize, fields.commentSize, entry.length_record]
  rfl

/-- The record is decoded if enough of it was read. -/
theorem RecordFields.decode (fields : RecordFields entry data) {readLen pos : Nat}
    (read : centralDirEntryLen + fileNameLength entry.info.centralName.length ≤ readLen)
    (small : pos + entry.record.length < 2 ^ 64 - 1) :
    decodeCentralDirEntry data readLen pos = some (recordOf entry, entry.record.length) := by
  rw [decodeCentralDirEntry]
  dsimp only
  rw [fields.central, fields.length, fields.nameSize, if_neg (by omega),
    if_neg (fun other => other fields.signature), if_neg (by omega), if_neg (by omega)]

end

section

variable {file before after front rest : Bytes} {entry : ZipAdded}

theorem recordOf_faithful (faithful : entry.Faithful) (at_ : entry.headerOffset = before.length)
    (small : before.length < 2 ^ 32) :
    (recordOf entry).headerOffset = before.length ∧
      (recordOf entry).packedSize = entry.packed.data.length ∧
      (recordOf entry).unpackedSize = entry.info.initSize ∧
      (recordOf entry).identity = entry.info.identity := by
  refine ⟨?_, Nat.mod_eq_of_lt faithful.packedFits, Nat.mod_eq_of_lt faithful.unpackedFits, ?_⟩
  · exact (Nat.mod_eq_of_lt (by omega)).trans at_
  · change entry.info.centralName.take (fileNameLength entry.info.centralName.length) = _
    rw [faithful.centralName, faithful.kept, List.take_length]

/-- What is found behind the header of an entry. -/
theorem descriptor_written (split : file = before ++ (entry.bytes ++ after))
    (described : entry.info.hasDataDesc = true) :
    leValue (fileField file (before.length + (localFileHeaderLen + entry.info.localName.length) +
        entry.packed.data.length) 0 4) = dataDescSignature ∧
      leValue (fileField file (before.length + (localFileHeaderLen + entry.info.localName.length) +
        entry.packed.data.length) 4 4) = entry.packed.crc.toNat := by
  have back : file = (before ++ (entry.header ++ entry.packed.data)) ++
      (entry.info.encodeDataDescriptor entry.packed ++ after) := by
    rw [split, ZipAdded.bytes, ZipAdded.descriptor, if_pos described]
    simp only [List.append_assoc]
  apply descriptor_fields back
  rw [List.length_append, List.length_append, entry.length_header, Nat.add_assoc]

theorem localHeaderAt_written (faithful : entry.Faithful)
    (split : file = before ++ (entry.bytes ++ after)) (at_ : entry.headerOffset = before.length)
    (small : before.length < 2 ^ 32) :
    localHeaderAt file (recordOf entry) = some (entry.info.compressionMethod % 2 ^ 16,
      localFileHeaderLen + entry.info.localName.length) := by
  obtain ⟨offset, packedSize, -, identity⟩ := recordOf_faithful faithful at_ small
  have headed : file = before ++ (entry.header ++ ((entry.packed.data ++ entry.descriptor) ++ after)) := by
    rw [split, ZipAdded.bytes, List.append_assoc]
  have fields := local_fields headed rfl
  have named := faithful.named
  have most : maxFileName = 256 := rfl
  have size : localFileHeaderLen = 30 := rfl
  have packedFits := faithful.packedFits
  have crc : (recordOf entry).crc32 = entry.packed.crc.toNat := rfl
  rw [localHeaderAt, offset, packedSize, identity, crc]
  dsimp only
  rw [fields.signature, fields.nameSize, fields.extraSize, fields.flags, fields.method, fields.crc32,
    faithful.localName, faithful.kept]
  have name := fields.name
  rw [faithful.localName] at name
  rw [if_neg (fun other => other rfl), if_neg (by omega), name, if_neg (fun other => other rfl),
    Nat.add_zero]
  by_cases described : entry.info.hasDataDesc = true
  · have place : (before.length + (localFileHeaderLen + entry.info.identity.length) +
        entry.packed.data.length) % 2 ^ 64 =
        before.length + (localFileHeaderLen + entry.info.localName.length) +
          entry.packed.data.length := by
      rw [faithful.localName]
      exact Nat.mod_eq_of_lt (by omega)
    obtain ⟨signature, descCrc⟩ := descriptor_written split described
    have flagged : gpbddFlagMask &&& gpbddFlagMask = gpbddFlagMask := by decide
    rw [if_pos described, if_pos flagged, place, signature, descCrc, if_neg (fun other => other rfl),
      if_neg (fun other => other rfl)]
  · rw [if_neg described, if_neg (by decide), if_neg described, if_neg (fun other => other rfl)]

/-- An entry is decoded as it was written. -/
theorem entryAt_written {pos : Nat} (faithful : entry.Faithful)
    (body : file = before ++ (entry.bytes ++ after)) (at_ : entry.headerOffset = before.length)
    (directory : file = front ++ (entry.record ++ rest)) (pos_ : pos = front.length)
    (small : before.length < 2 ^ 32) (total : file.length < 2 ^ 63) :
    EntryWithin file file.length pos ∧ ∃ loaded, entryAt file pos =
      some (loaded, entry.record.length) ∧ ZipRestored file entry loaded := by
  have fields := record_fields directory pos_
  obtain ⟨offset, packedSize, unpackedSize, identity⟩ := recordOf_faithful faithful at_ small
  have headed : file = before ++ (entry.header ++ ((entry.packed.data ++ entry.descriptor) ++ after)) := by
    rw [body, ZipAdded.bytes, List.append_assoc]
  have local_ := local_fields headed rfl
  have named := faithful.named
  have most : maxFileName = 256 := rfl
  have size : centralDirEntryLen = 46 := rfl
  have room : zipBuffLen = 368 := rfl
  have recordLength := entry.length_record
  have frontLength := congrArg List.length directory
  have bodyLength := congrArg List.length headed
  simp only [List.length_append] at frontLength bodyLength
  have central : centralAt file pos = recordOf entry := fields.central
  have headerLength := entry.length_header
  have packedFits := faithful.packedFits
  constructor
  · constructor
    · rw [fields.length]
      omega
    · rw [fields.extraSize]
      exact fun extended => absurd rfl extended
    · intro start placed
      rw [central, offset] at placed
      subst placed
      rw [local_.nameSize, local_.extraSize]
      omega
    · intro start placed described
      rw [central, offset] at placed
      subst placed
      rw [local_.flags] at described
      split at described
      · rename_i desc
        have descLength : entry.descriptor.length = dataDescriptorLen := by
          rw [ZipAdded.descriptor, if_pos desc, ZipFileInfo.length_encodeDataDescriptor]
        rw [central, packedSize, local_.nameSize, local_.extraSize, Nat.mod_eq_of_lt (by omega)]
        omega
      · exact absurd described (by decide)
  · refine ⟨{ recordOf entry with
        dataOffset := (recordOf entry).headerOffset +
          (localFileHeaderLen + entry.info.localName.length) },
      ?_, identity, packedSize, unpackedSize, rfl, ?_, ?_⟩
    · rw [entryAt, if_neg (by omega), fields.decode (by rw [faithful.centralName, faithful.kept]; omega)
        (by omega)]
      simp only [Option.bind_eq_bind, Option.bind_some,
        localHeaderAt_written faithful body at_ small]
      rfl
    · change (recordOf entry).headerOffset + _ = _
      rw [offset, ZipAdded.dataOffset, at_]
    · change slice file ((recordOf entry).headerOffset + _) (recordOf entry).packedSize = _
      have split : file = (before ++ entry.header) ++ (entry.packed.data ++
          (entry.descriptor ++ after)) := by
        rw [headed]
        simp only [List.append_assoc]
      rw [offset, packedSize, split]
      apply slice_field _ rfl
      rw [List.length_append, headerLength]

end

/-- Run lemma: so are all of them. -/
theorem entriesAt_written {entries : List ZipAdded} {file before after front rest : Bytes} {pos : Nat}
    (faithful : ∀ entry ∈ entries, entry.Faithful) (body : file = before ++ (zipBody entries ++ after))
    (headers : HeadersFrom before.length entries)
    (directory : file = front ++ (zipDirectory entries ++ rest)) (pos_ : pos = front.length)
    (small : before.length + (zipBody entries).length < 2 ^ 32) (total : file.length < 2 ^ 63) :
    EntriesWithin file file.length entries.length pos ∧
      ∃ loaded, entriesAt file entries.length pos = some loaded ∧
        List.Forall₂ (ZipRestored file) entries loaded := by
  induction entries generalizing before front pos with
  | nil => exact ⟨trivial, [], rfl, .nil⟩
  | cons entry entries ih =>
      obtain ⟨at_, later⟩ := headers
      rw [zipBody_cons] at body small
      rw [zipDirectory_cons] at directory
      rw [List.append_assoc] at body directory
      rw [List.length_append] at small
      obtain ⟨within, loaded, decoded, restored⟩ :=
        entryAt_written (faithful entry List.mem_cons_self) body at_ directory pos_ (by omega) total
      obtain ⟨withinRest, loadedRest, decodedRest, restoredRest⟩ :=
        @ih (before ++ entry.bytes) (front ++ entry.record) (pos + entry.record.length)
          (fun other member => faithful other (List.mem_cons_of_mem _ member))
          (by rw [body, List.append_assoc]) (by rw [List.length_append]; exact later)
          (by rw [directory, List.append_assoc]) (by rw [pos_, List.length_append])
          (by rw [List.length_append]; omega)
      have length : centralDirLen (fileField file pos) = entry.record.length :=
        (record_fields directory pos_).length
      refine ⟨⟨within, ?_⟩, loaded :: loadedRest, ?_, .cons restored restoredRest⟩
      · rw [length]
        exact withinRest
      · rw [List.length_cons, entriesAt, decoded]
        simp only [Option.bind_eq_bind, Option.bind_some, decodedRest]
        rfl

theorem endDir_written {file front : Bytes} {count size offset pos : Nat}
    (split : file = front ++ encodeEndCentralDir count size offset) (pos_ : pos = front.length) :
    readEndDir (fileField file pos) = {
      signature := endCentralSignature
      numDisk := 0
      startDiskOfCentralDir := 0
      totalEntriesInThisDisk := count % 2 ^ 16
      totalEntries := count % 2 ^ 16
      sizeOfCentralDir := size % 2 ^ 32
      offset := offset % 2 ^ 32
      commentLen := 0 } := by
  have field := fileField_behind split pos_
  simp only [readEndDir, field, encodeEndCentralDir]
  simp (disch := omega) only [slice_behind_leBytes, slice_front_leBytes, slice_leBytes, Nat.reduceSub,
    Nat.sub_self, leValue_leBytes]
  rfl

/-- The directory begins where 32 bits can say so, and does not look like one of zip64. -/
structure ZipPlain (entries : List ZipAdded) : Prop where
  small : (zipBody entries).length < 2 ^ 32
  noLocator : (zipBody entries).length = uintMax →
    leValue (slice (zipDirectory entries)
      ((zipDirectory entries).length - zip64EndCentralDirLocatorLen) 4) ≠ 0x07064b50

section

variable {pack : ZipFileInfo → Option ZipPacked} {files : List ZipFileInfo}
  {entries : List ZipAdded} {package : Bytes}

theorem length_zipDirectory_ge (some : entries ≠ []) :
    centralDirEntryLen ≤ (zipDirectory entries).length := by
  cases entries with
  | nil => exact absurd rfl some
  | cons entry entries =>
      rw [zipDirectory_cons, List.length_append, entry.length_record]
      omega

theorem directoryStart_plain {input : ZipInput} {buffer : Bytes} {endDir : EndCentralDir}
    {endDirPos : Nat} (plain : endDir.offset = uintMax → zip64EndCentralDirLocatorLen ≤ endDirPos ∧
      zip64EndCentralDirLocatorLen ≤ buffer.length ∧ endDirPos ≤ input.file.length ∧
        leValue (fileField input.file (endDirPos - zip64EndCentralDirLocatorLen) 0 4) ≠ 0x07064b50) :
    input.directoryStart buffer endDir endDirPos = endDir.offset := by
  rw [ZipInput.directoryStart]
  split
  · rfl
  · rename_i zip64
    obtain ⟨most, -⟩ := not_or.mp zip64
    obtain ⟨behind, room, inside, other⟩ := plain (Decidable.not_not.mp most)
    have locatorLen : zip64EndCentralDirLocatorLen = 20 := rfl
    obtain ⟨next, read, -, agree⟩ := @ZipInput.readFront_file input buffer
      (endDirPos - zip64EndCentralDirLocatorLen) zip64EndCentralDirLocatorLen room (by omega)
      (by omega)
    simp only [read, agree 0 4 (by omega)]
    rw [if_pos other]

/-- `LoadPackage` gets to the entries, of which it reads as many as 16 bits count. -/
theorem loadPackage_zip (layout : ZipLayout pack files entries package) (plain : ZipPlain entries)
    (heap : Nat → UInt8) : (ZipInput.mk package heap).loadPackage =
      (ZipInput.mk package heap).parseFileEntries (entries.length % 2 ^ 16)
        (zipBody entries).length (List.replicate zipBuffLen 0) := by
  have split : package = (zipBody entries ++ zipDirectory entries) ++
      encodeEndCentralDir entries.length (zipDirectory entries).length (zipBody entries).length := by
    rw [layout.layout, List.append_assoc]
  have lengths := congrArg List.length split
  rw [List.length_append, List.length_append, length_encodeEndCentralDir] at lengths
  have directory := length_zipDirectory_ge layout.nonempty
  have size : centralDirEntryLen = 46 := rfl
  have endLen : endCentralDirLen = 22 := rfl
  have recordLen : zip64EndCentralDirRecordLen = 56 := rfl
  have locatorLen : zip64EndCentralDirLocatorLen = 20 := rfl
  have bufferLength : (List.replicate zip64EndCentralDirRecordLen (0 : UInt8)).length =
      zip64EndCentralDirRecordLen := List.length_replicate
  have pos : package.length - endCentralDirLen = (zipBody entries ++ zipDirectory entries).length := by
    rw [List.length_append]
    omega
  have fields := endDir_written split pos
  obtain ⟨buffer, read, length, agree⟩ := @ZipInput.readFront_file ⟨package, heap⟩
    (List.replicate zip64EndCentralDirRecordLen 0) (package.length - endCentralDirLen)
    endCentralDirLen (by omega) (by dsimp only; omega) (by omega)
  dsimp only at read agree
  have record : readEndDir ((ZipInput.mk package heap).memory buffer) =
      readEndDir (fileField package (package.length - endCentralDirLen)) := by
    simp only [readEndDir, agree 0 4 (by omega), agree 4 2 (by omega), agree 6 2 (by omega),
      agree 8 2 (by omega), agree 10 2 (by omega), agree 12 4 (by omega), agree 16 4 (by omega),
      agree 20 2 (by omega)]
  have magic : leValue ((ZipInput.mk package heap).memory buffer 0 4) = endCentralSignature :=
    congrArg EndCentralDir.signature (record.trans fields)
  have small := plain.small
  rw [Nat.mod_eq_of_lt small] at fields
  rw [fields] at record
  rw [ZipInput.loadPackage]
  dsimp only
  rw [if_neg (by omega), read]
  simp only [Option.bind_eq_bind, Option.bind_some]
  rw [if_neg (fun other => other magic), ZipInput.loadDirectory, record]
  have fits : ((zipBody entries).length + (zipDirectory entries).length % 2 ^ 32 + endCentralDirLen) %
      2 ^ 32 ≤ package.length := by
    have least := Nat.mod_le ((zipBody entries).length + (zipDirectory entries).length % 2 ^ 32 +
      endCentralDirLen) (2 ^ 32)
    have whole := Nat.mod_le (zipDirectory entries).length (2 ^ 32)
    omega
  have accepted : (ZipInput.mk package heap).endDirAccepted {
      signature := endCentralSignature
      numDisk := 0
      startDiskOfCentralDir := 0
      totalEntriesInThisDisk := entries.length % 2 ^ 16
      totalEntries := entries.length % 2 ^ 16
      sizeOfCentralDir := (zipDirectory entries).length % 2 ^ 32
      offset := (zipBody entries).length
      commentLen := 0 } = true := by
    simp only [ZipInput.endDirAccepted, Bool.and_eq_true, decide_eq_true_eq]
    refine ⟨⟨⟨⟨⟨trivial, trivial⟩, trivial⟩, ?_⟩, trivial⟩, fits⟩
    omega
  dsimp only
  rw [if_pos accepted, directoryStart_plain]
  intro most
  have room : zip64EndCentralDirLocatorLen ≤ package.length - endCentralDirLen := by omega
  refine ⟨room, by omega, by dsimp only; omega, ?_⟩
  have place : package.length - endCentralDirLen - zip64EndCentralDirLocatorLen =
      (zipBody entries).length + ((zipDirectory entries).length - zip64EndCentralDirLocatorLen) := by
    omega
  rw [fileField, Nat.add_zero, place, layout.layout, slice_append_right,
    slice_append_left _ (by omega)]
  exact plain.noLocator most

/-- What the directory says of an entry, however its local header is found. -/
structure Listed (entry : ZipAdded) (loaded : ZipEntry) : Prop where
  identity : loaded.identity = (recordOf entry).identity
  packedSize : loaded.packedSize = (recordOf entry).packedSize
  unpackedSize : loaded.unpackedSize = (recordOf entry).unpackedSize

theorem Listed.faithful {entry : ZipAdded} {loaded : ZipEntry} {file : Bytes}
    (listed : Listed entry loaded) (restored : ZipRestored file entry loaded) : entry.Faithful := by
  have named := listed.identity.symm.trans restored.identity
  have packedSize := listed.packedSize.symm.trans restored.packedSize
  have unpackedSize := listed.unpackedSize.symm.trans restored.unpackedSize
  change entry.info.centralName.take (fileNameLength entry.info.centralName.length) = _ at named
  change _ % 2 ^ 32 = _ at packedSize
  change _ % 2 ^ 32 = _ at unpackedSize
  constructor
  · rw [← named, List.length_take]
    have kept := (fileNameLength_le entry.info.centralName.length).2
    omega
  · omega
  · omega

/-- `DecodeHeader` where the directory has the record of an entry. -/
theorem decodeHeader_listed {input : ZipInput} {buffer buffer' front rest : Bytes}
    {entry : ZipAdded} {loaded : ZipEntry} {decodeLen : Nat} (size : buffer.length = zipBuffLen)
    (directory : input.file = front ++ (entry.record ++ rest)) (small : input.file.length < 2 ^ 63)
    (decoded : input.decodeHeader buffer front.length = some (loaded, decodeLen, buffer')) :
    Listed entry loaded ∧ decodeLen = entry.record.length ∧ buffer'.length = zipBuffLen := by
  have fields := record_fields directory rfl
  have recordLength := entry.length_record
  have nameLength := entry.info.length_centralName
  have kept := fileNameLength_le entry.info.centralName.length
  have lengths := congrArg List.length directory
  rw [List.length_append, List.length_append] at lengths
  have most : maxFileName = 256 := rfl
  have recordLen : centralDirEntryLen = 46 := rfl
  have room : zipBuffLen = 368 := rfl
  obtain ⟨next, read, nextSize, agree⟩ := @ZipInput.readAll_file input buffer front.length size
    (by omega)
  have nameSize := agree 28 2 (by omega)
  have extraSize := agree 30 2 (by omega)
  have central : decodeCentralDirEntry (input.memory next)
      (min zipBuffLen (input.file.length - front.length)) front.length =
        some (recordOf entry, entry.record.length) := by
    have decodes := fields.decode (show centralDirEntryLen +
      fileNameLength entry.info.centralName.length ≤ zipBuffLen by omega)
      (show front.length + entry.record.length < 2 ^ 64 - 1 by omega)
    rw [← decodes]
    apply decodeCentralDirEntry_congr agree
    · rw [nameSize, fields.nameSize]
      omega
    · rw [extraSize, fields.extraSize]
      exact fun extended => absurd rfl extended
    · rw [nameSize, fields.nameSize]
      omega
    · rw [nameSize, fields.nameSize]
      omega
  rw [ZipInput.decodeHeader] at decoded
  split at decoded
  · cases decoded
  · simp only [read, Option.bind_eq_bind, Option.bind_some, central] at decoded
    obtain ⟨⟨method, headerLen, last⟩, header, decoded⟩ := Option.bind_eq_some_iff.mp decoded
    cases decoded
    exact ⟨⟨rfl, rfl, rfl⟩, rfl, (ZipInput.length_decodeLocalFileHeader header).trans nextSize⟩

/-- Run lemma: what is loaded is what the directory lists. -/
theorem parseFileEntries_listed {input : ZipInput} {entries : List ZipAdded} {buffer front rest : Bytes}
    {loaded : List ZipEntry} {count : Nat} (size : buffer.length = zipBuffLen)
    (directory : input.file = front ++ (zipDirectory entries ++ rest))
    (small : input.file.length < 2 ^ 63) (few : count ≤ entries.length)
    (parsed : input.parseFileEntries count front.length buffer = some loaded) :
    List.Forall₂ Listed (entries.take count) loaded := by
  induction count generalizing entries buffer front loaded with
  | zero =>
      cases parsed
      rw [List.take_zero]
      exact .nil
  | succ count ih =>
      cases entries with
      | nil => exact absurd few (Nat.not_succ_le_zero count)
      | cons entry entries =>
          rw [zipDirectory_cons, List.append_assoc] at directory
          rw [ZipInput.parseFileEntries] at parsed
          split at parsed
          · cases parsed
          · simp only [Option.bind_eq_bind] at parsed
            obtain ⟨⟨first, decodeLen, next⟩, decoded, parsed⟩ := Option.bind_eq_some_iff.mp parsed
            obtain ⟨others, later, parsed⟩ := Option.bind_eq_some_iff.mp parsed
            cases parsed
            obtain ⟨listed, length, nextSize⟩ := decodeHeader_listed size directory small decoded
            rw [List.take_succ_cons]
            refine .cons listed (@ih entries next (front ++ entry.record) others nextSize ?_
              (Nat.le_of_succ_le_succ few) ?_)
            · rw [directory, List.append_assoc]
            · rw [List.length_append, ← length]
              exact later

theorem ZipLayout.length_package (layout : ZipLayout pack files entries package)
    (plain : ZipPlain entries) : package.length < 2 ^ 63 := by
  have directory := length_zipDirectory_le entries
  have small := plain.small
  have endLen : endCentralDirLen = 22 := rfl
  rw [layout.layout, List.length_append, List.length_append, length_encodeEndCentralDir]
  omega

theorem ZipLayout.length_files (layout : ZipLayout pack files entries package) :
    entries.length = files.length := by
  rw [← layout.named, List.length_map]

/-- The packages that come back: names of less than 256 bytes, sizes of 32 bits and a count
of 16 bits. -/
structure ZipFits (pack : ZipFileInfo → Option ZipPacked) (files : List ZipFileInfo) : Prop where
  named : ∀ file ∈ files, file.identity.length < maxFileName
  packedFits : ∀ file ∈ files, ∀ packed ∈ pack file, packed.data.length < 2 ^ 32
  unpackedFits : ∀ file ∈ files, file.initSize < 2 ^ 32
  counted : files.length < 2 ^ 16

theorem ZipFits.roundTrips (fits : ZipFits pack files)
    (layout : ZipLayout pack files entries package) (plain : ZipPlain entries) :
    ZipRoundTrips entries package := by
  intro heap
  have counted := fits.counted
  rw [← layout.length_files] at counted
  have faithful : ∀ entry ∈ entries, entry.Faithful := by
    intro entry member
    have inside : entry.info ∈ files := by
      rw [← layout.named]
      exact List.mem_map_of_mem member
    exact ⟨fits.named _ inside, fits.packedFits _ inside _ (layout.packed entry member),
      fits.unpackedFits _ inside⟩
  obtain ⟨within, loaded, decoded, restored⟩ := @entriesAt_written entries package []
    (zipDirectory entries ++ encodeEndCentralDir entries.length (zipDirectory entries).length
      (zipBody entries).length) (zipBody entries)
    (encodeEndCentralDir entries.length (zipDirectory entries).length (zipBody entries).length)
    (zipBody entries).length faithful layout.layout layout.headers layout.layout rfl
    (by rw [List.length_nil, Nat.zero_add]; exact plain.small) (layout.length_package plain)
  refine ⟨loaded, ?_, restored⟩
  rw [loadPackage_zip layout plain, Nat.mod_eq_of_lt counted,
    ZipInput.parseFileEntries_file List.length_replicate (Nat.le_refl _) within]
  exact decoded

theorem ZipRoundTrips.fits (trips : ZipRoundTrips entries package)
    (layout : ZipLayout pack files entries package) (plain : ZipPlain entries) :
    ZipFits pack files := by
  obtain ⟨loaded, loads, restored⟩ := trips fun _ => 0
  rw [loadPackage_zip layout plain] at loads
  have listed := @parseFileEntries_listed ⟨package, fun _ => 0⟩ entries _ (zipBody entries) _ loaded _
    List.length_replicate layout.layout (layout.length_package plain) (Nat.mod_le _ _) loads
  have counted : entries.length % 2 ^ 16 = entries.length := by
    have read := listed.length_eq
    rw [← restored.length_eq, List.length_take_of_le (Nat.mod_le _ _)] at read
    exact read
  rw [counted, List.take_length] at listed
  have faithful : ∀ entry ∈ entries, entry.Faithful := by
    intro entry member
    obtain ⟨index, inside, rfl⟩ := List.getElem_of_mem member
    have length := listed.length_eq
    exact (listed.get inside (by omega)).faithful (restored.get inside (by omega))
  have each {file : ZipFileInfo} (member : file ∈ files) :
      ∃ entry ∈ entries, entry.info = file := by
    rw [← layout.named] at member
    obtain ⟨entry, inside, same⟩ := List.mem_map.mp member
    exact ⟨entry, inside, same⟩
  constructor
  · intro file member
    obtain ⟨entry, inside, rfl⟩ := each member
    exact (faithful entry inside).named
  · intro file member packed made
    obtain ⟨entry, inside, rfl⟩ := each member
    have same := layout.packed entry inside
    rw [Option.mem_def.mp made] at same
    cases same
    exact (faithful entry inside).packedFits
  · intro file member
    obtain ⟨entry, inside, rfl⟩ := each member
    exact (faithful entry inside).unpackedFits
  · rw [← layout.length_files]
    omega

/-- A package whose directory begins below 4 GiB comes back exactly if its names, sizes and
count fit; if it begins behind, the loader looks for it elsewhere. -/
theorem zipPackage_roundTrips {st : ZipPackState}
    (created : createZipPackage pack files = some (st, package)) :
    (ZipPlain st.entries ∧ ZipFits pack files → ZipRoundTrips st.entries package) ∧
      (ZipRoundTrips st.entries package → ZipPlain st.entries → ZipFits pack files) := by
  constructor
  · rintro ⟨plain, fits⟩
    exact fits.roundTrips (createZipPackage_layout created plain.small) plain
  · intro trips plain
    exact trips.fits (createZipPackage_layout created plain.small) plain

end

/-- A deflated entry of the name and another that is stored. -/
def zipFiles (identity : Bytes) : List ZipFileInfo :=
  [{ identity, method := -1, unpackedSize := 0, modifiedDate := 33, modifiedTime := 0,
      stream := [1, 2, 3] },
    { identity := ascii "b", method := 0, unpackedSize := 0, modifiedDate := 33,
      modifiedTime := 0, stream := [4] }]

/-- A compression that keeps the contents. -/
def keepContents (info : ZipFileInfo) : Option ZipPacked :=
  some { data := info.stream, crc := 7 }

theorem zipFiles_plain {identity package : Bytes} {st : ZipPackState} {length : Nat}
    (created : createZipPackage keepContents (zipFiles identity) = some (st, package))
    (measured : (createZipPackage keepContents (zipFiles identity)).map
      (fun made => (zipBody made.1.entries).length) = some length) (small : length < uintMax) :
    ZipPlain st.entries := by
  rw [created] at measured
  have same := Option.some.inj measured
  dsimp only at same
  have most : uintMax = 2 ^ 32 - 1 := rfl
  constructor
  · omega
  · intro other
    omega

theorem zipFiles_roundTrip :
    ∃ st package, createZipPackage keepContents (zipFiles (ascii "a")) = some (st, package) ∧
      ZipRoundTrips st.entries package := by
  have measured : (createZipPackage keepContents (zipFiles (ascii "a"))).map
      (fun made => (zipBody made.1.entries).length) = some 82 := by
    decide +kernel
  obtain ⟨⟨st, package⟩, created, -⟩ := Option.map_eq_some_iff.mp measured
  refine ⟨st, package, created, (zipPackage_roundTrips created).1
    ⟨zipFiles_plain created measured (by decide), ?_, ?_, ?_, by decide⟩⟩
  · decide +kernel
  · intro file member packed made
    cases made
    revert file
    decide +kernel
  · decide +kernel

/-- A name of 256 bytes is cut to 255. -/
theorem longName_cut :
    ¬ ∀ (pack : ZipFileInfo → Option ZipPacked) (files : List ZipFileInfo) (st : ZipPackState)
      (package : Bytes), createZipPackage pack files = some (st, package) →
      ZipRoundTrips st.entries package := by
  intro comesBack
  have measured : (createZipPackage keepContents (zipFiles (List.replicate 256 97))).map
      (fun made => (zipBody made.1.entries).length) = some 337 := by
    decide +kernel
  obtain ⟨⟨st, package⟩, created, -⟩ := Option.map_eq_some_iff.mp measured
  have plain := zipFiles_plain created measured (by decide)
  have fits := (comesBack _ _ _ _ created).fits (createZipPackage_layout created plain.small) plain
  have named := fits.named _ List.mem_cons_self
  revert named
  decide +kernel

end Updater.Package
