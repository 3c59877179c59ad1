import Updater.Package.UpgradePkgPack
import Updater.Package.ZipPkgFile

/-! `ZipPkgFile::AddEntry` and `SavePackage`: how a zip package is written. -/

set_option autoImplicit false

namespace Updater.Package

open Updater.Base

def zDeflated : Int := 8

/-- `ZIP_PKG_ALIGNMENT_DEF`. -/
def zipPkgAlignmentDef : Nat := 1

/-- `ZipFileInfo` of an entry, its date and time as `ExtraTimeAndDate` gives them, and the
contents of its stream. -/
structure ZipFileInfo where
  identity : Bytes
  method : Int
  unpackedSize : Nat
  modifiedDate : Nat
  modifiedTime : Nat
  stream : Bytes

/-- What a compression writes, and the CRC that it reports. -/
structure ZipPacked where
  data : Bytes
  crc : UInt32

/-- An entry of a package in the making. -/
structure ZipAdded where
  info : ZipFileInfo
  packed : ZipPacked
  headerOffset : Nat

namespace ZipFileInfo

variable (info : ZipFileInfo)

/-- The size that `Init` takes; zero stands for the whole stream. -/
def initSize : Nat :=
  if info.unpackedSize = 0 then info.stream.length else info.unpackedSize

/-- The method that `Init` leaves; it gives up on an entry without contents. -/
def initMethod : Int :=
  if info.initSize = 0 then zDeflated
  else if info.method = -1 then zDeflated
  else info.method

def hasDataDesc : Bool :=
  info.initMethod ≠ zDeflated

/-- `ConvertStringToBuffer` with the capacity of a buffer; its error is not looked at. -/
def convertStringToBuffer (capacity : Nat) : Bytes :=
  if capacity < info.identity.length then [] else info.identity

/-- The name in the local header; the capacity is that of the whole buffer. -/
def localName : Bytes :=
  info.convertStringToBuffer (maxFileName + localFileHeaderLen + zipPkgAlignmentDef)

/-- The name in the directory. -/
def centralName : Bytes :=
  info.convertStringToBuffer (centralDirEntryLen + maxFileName)

/-- `static_cast<uint16_t>` of the method. -/
def compressionMethod : Nat :=
  (info.initMethod % 2 ^ 16).toNat

/-- `EncodeLocalFileHeader`. -/
def encodeLocalFileHeader (packed : ZipPacked) : Bytes :=
  let described (value : Nat) := if info.hasDataDesc then 0 else value
  leBytes 4 localHeaderSignature ++ (leBytes 2 0 ++
    (leBytes 2 (if info.hasDataDesc then gpbddFlagMask else 0) ++
      (leBytes 2 info.compressionMethod ++ (leBytes 2 info.modifiedTime ++
        (leBytes 2 info.modifiedDate ++ (leBytes 4 (described packed.crc.toNat) ++
          (leBytes 4 (described packed.data.length) ++ (leBytes 4 (described info.initSize) ++
            (leBytes 2 info.localName.length ++ leBytes 2 0)))))))))

/-- `EncodeDataDescriptor`. -/
def encodeDataDescriptor (packed : ZipPacked) : Bytes :=
  leBytes 4 dataDescSignature ++ (leBytes 4 packed.crc.toNat ++
    (leBytes 4 packed.data.length ++ leBytes 4 info.initSize))

/-- What `EncodeCentralDirEntry` writes. -/
def encodeCentralDirEntry (packed : ZipPacked) (headerOffset : Nat) : Bytes :=
  leBytes 4 centralSignature ++ (leBytes 2 0 ++ (leBytes 2 0 ++
    (leBytes 2 (if info.initMethod = zDeflated then gpbddFlagMask else 0) ++
      (leBytes 2 info.compressionMethod ++ (leBytes 2 info.modifiedTime ++
        (leBytes 2 info.modifiedDate ++ (leBytes 4 packed.crc.toNat ++
          (leBytes 4 packed.data.length ++ (leBytes 4 info.initSize ++
            (leBytes 2 info.centralName.length ++ (leBytes 2 0 ++ (leBytes 2 0 ++ (leBytes 2 0 ++
              (leBytes 2 0 ++ (leBytes 4 0 ++ (leBytes 4 headerOffset ++
                info.centralName))))))))))))))))

end ZipFileInfo

structure ZipPackState where
  file : Bytes := []
  currentOffset : Nat := 0
  entries : List ZipAdded := []

/-- `PackStream`: the data first, then the header in front of it, and the descriptor. -/
def packStream (pack : ZipFileInfo → Option ZipPacked) (file : Bytes) (info : ZipFileInfo)
    (startOffset : Nat) : Option (ZipPacked × Bytes × Nat) := do
  let header := localFileHeaderLen + info.localName.length
  let packed ← pack info
  let file ← streamWrite file (startOffset + header) packed.data
  let file ← streamWrite file startOffset (info.encodeLocalFileHeader packed ++ info.localName)
  if info.hasDataDesc then do
    let file ← streamWrite file (startOffset + header + packed.data.length)
      (info.encodeDataDescriptor packed)
    pure (packed, file, header + dataDescriptorLen + packed.data.length)
  else pure (packed, file, header + packed.data.length)

/-- `ZipPkgFile::AddEntry`. -/
def zipAddEntry (pack : ZipFileInfo → Option ZipPacked) (st : ZipPackState) (info : ZipFileInfo) :
    Option ZipPackState := do
  let (packed, file, encodeLen) ← packStream pack st.file info st.currentOffset
  pure {
    file
    currentOffset := st.currentOffset + encodeLen
    entries := st.entries ++ [{ info, packed, headerOffset := st.currentOffset }] }

/-- The loop of `SavePackage`; it goes on after a failed write. -/
def writeDirectory : List ZipAdded → Bytes → Nat → Bytes × Nat
  | [], file, offset => (file, offset)
  | entry :: entries, file, offset =>
      let record := entry.info.encodeCentralDirEntry entry.packed entry.headerOffset
      match streamWrite file offset record with
      | none => writeDirectory entries file offset
      | some file => writeDirectory entries file (offset + record.length)

/-- The record at the end of the directory. -/
def encodeEndCentralDir (count size offset : Nat) : Bytes :=
  leBytes 4 endCentralSignature ++ (leBytes 2 0 ++ (leBytes 2 0 ++ (leBytes 2 count ++
    (leBytes 2 count ++ (leBytes 4 size ++ (leBytes 4 offset ++ leBytes 2 0))))))

/-- `ZipPkgFile::SavePackage`, which needs an entry to have been added. -/
def zipSavePackage (st : ZipPackState) : Option Bytes :=
  if st.entries = [] then none
  else
    let (file, offset) := writeDirectory st.entries st.file st.currentOffset
    streamWrite file offset (encodeEndCentralDir st.entries.length (offset - st.currentOffset)
      st.currentOffset)

/-- All calls that make a package of some entries. -/
def createZipPackage (pack : ZipFileInfo → Option ZipPacked) (files : List ZipFileInfo) :
    Option (ZipPackState × Bytes) := do
  let st ← files.foldlM (zipAddEntry pack) {}
  let file ← zipSavePackage st
  pure (st, file)

namespace ZipAdded

variable (entry : ZipAdded)

/-- The local header with its name. -/
def header : Bytes :=
  entry.info.encodeLocalFileHeader entry.packed ++ entry.info.localName

def descriptor : Bytes :=
  if entry.info.hasDataDesc then entry.info.encodeDataDescriptor entry.packed else []

/-- All that is written of the entry in front of the directory. -/
def bytes : Bytes :=
  entry.header ++ (entry.packed.data ++ entry.descriptor)

/-- The record of the entry in the directory. -/
def record : Bytes :=
  entry.info.encodeCentralDirEntry entry.packed entry.headerOffset

/-- Where the data of the entry begins. -/
def dataOffset : Nat :=
  entry.headerOffset + (localFileHeaderLen + entry.info.localName.length)

end ZipAdded

theorem ZipFileInfo.length_encodeLocalFileHeader (info : ZipFileInfo) (packed : ZipPacked) :
    (info.encodeLocalFileHeader packed).length = localFileHeaderLen := by
  simp only [encodeLocalFileHeader, List.length_append, length_leBytes]
  rfl

theorem ZipFileInfo.length_encodeDataDescriptor (info : ZipFileInfo) (packed : ZipPacked) :
    (info.encodeDataDescriptor packed).length = dataDescriptorLen := by
  simp only [encodeDataDescriptor, List.length_append, length_leBytes]
  rfl

theorem ZipFileInfo.length_encodeCentralDirEntry (info : ZipFileInfo) (packed : ZipPacked)
    (headerOffset : Nat) : (info.encodeCentralDirEntry packed headerOffset).length =
      centralDirEntryLen + info.centralName.length := by
  simp only [encodeCentralDirEntry, List.length_append, length_leBytes, ← Nat.add_assoc,
    Nat.reduceAdd]
  rfl

theorem ZipAdded.length_header (entry : ZipAdded) :
    entry.header.length = localFileHeaderLen + entry.info.localName.length := by
  rw [header, List.length_append, ZipFileInfo.length_encodeLocalFileHeader]

/-- The local parts of the entries, one after another. -/
def zipBody (entries : List ZipAdded) : Bytes :=
  (entries.map ZipAdded.bytes).flatten

theorem zipBody_append (entries : List ZipAdded) (entry : ZipAdded) :
    zipBody (entries ++ [entry]) = zipBody entries ++ entry.bytes := by
  rw [zipBody, List.map_append, List.flatten_append]
  exact congrArg _ (List.append_nil entry.bytes)

/-- Every entry knows where its header begins. -/
def HeadersFrom : Nat → List ZipAdded → Prop
  | _, [] => True
  | offset, entry :: entries =>
      entry.headerOffset = offset ∧ HeadersFrom (offset + entry.bytes.length) entries

theorem HeadersFrom.append {offset : Nat} {entries : List ZipAdded} {entry : ZipAdded}
    (headers : HeadersFrom offset entries)
    (last : entry.headerOffset = offset + (zipBody entries).length) :
    HeadersFrom offset (entries ++ [entry]) := by
  induction entries generalizing offset with
  | nil => exact ⟨last, trivial⟩
  | cons first entries ih =>
      obtain ⟨here, rest⟩ := headers
      refine ⟨here, ih rest ?_⟩
      rw [last, zipBody, List.map_cons, List.flatten_cons, List.length_append, Nat.add_assoc]
      rfl

/-- The file between two calls of `AddEntry`. -/
structure ZipPacking (pack : ZipFileInfo → Option ZipPacked) (st : ZipPackState) : Prop where
  body : st.file = zipBody st.entries
  current : st.currentOffset = st.file.length
  headers : HeadersFrom 0 st.entries
  packed : ∀ entry ∈ st.entries, pack entry.info = some entry.packed

section

variable {pack : ZipFileInfo → Option ZipPacked} {st st' : ZipPackState} {info : ZipFileInfo}

/-- What `PackStream` writes behind the file. -/
theorem packStream_writes {file file' : Bytes} {packed : ZipPacked} {encodeLen : Nat}
    (packs : packStream pack file info file.length = some (packed, file', encodeLen)) :
    let entry : ZipAdded := { info, packed, headerOffset := file.length }
    pack info = some packed ∧ file' = file ++ entry.bytes ∧ encodeLen = entry.bytes.length := by
  intro entry
  simp only [packStream, Option.bind_eq_bind] at packs
  obtain ⟨made, compressed, packs⟩ := Option.bind_eq_some_iff.mp packs
  obtain ⟨first, dataWritten, packs⟩ := Option.bind_eq_some_iff.mp packs
  obtain ⟨second, headerWritten, packs⟩ := Option.bind_eq_some_iff.mp packs
  obtain ⟨-, rfl⟩ := streamWrite_some dataWritten
  obtain ⟨-, rfl⟩ := streamWrite_some headerWritten
  have headerLength : (info.encodeLocalFileHeader made ++ info.localName).length =
      localFileHeaderLen + info.localName.length := by
    rw [List.length_append, ZipFileInfo.length_encodeLocalFileHeader]
  have some : info.encodeLocalFileHeader made ++ info.localName ≠ [] := by
    intro none
    rw [none, List.length_nil] at headerLength
    have positive : 0 < localFileHeaderLen := by decide
    omega
  have written := @fileWrite_gap file (info.encodeLocalFileHeader made ++ info.localName)
    made.data some
  rw [headerLength] at written
  rw [written] at packs
  split at packs
  · rename_i described
    obtain ⟨third, descWritten, packs⟩ := Option.bind_eq_some_iff.mp packs
    cases packs
    obtain ⟨-, rfl⟩ := streamWrite_some descWritten
    have shape : entry.bytes = (info.encodeLocalFileHeader packed ++ info.localName) ++
        (packed.data ++ info.encodeDataDescriptor packed) := by
      rw [ZipAdded.bytes, ZipAdded.descriptor, if_pos described]
      rfl
    have place : file.length + (localFileHeaderLen + info.localName.length) + packed.data.length =
        (file ++ ((info.encodeLocalFileHeader packed ++ info.localName) ++ packed.data)).length := by
      rw [List.length_append, List.length_append, headerLength, Nat.add_assoc]
    refine ⟨compressed, ?_, ?_⟩
    · rw [place, fileWrite_end, shape]
      simp only [List.append_assoc]
    · simp only [shape, List.length_append, ZipFileInfo.length_encodeLocalFileHeader,
        ZipFileInfo.length_encodeDataDescriptor]
      omega
  · rename_i plain
    cases packs
    have shape : entry.bytes = (info.encodeLocalFileHeader packed ++ info.localName) ++
        packed.data := by
      rw [ZipAdded.bytes, ZipAdded.descriptor, if_neg plain, List.append_nil]
      rfl
    refine ⟨compressed, ?_, ?_⟩
    · rw [shape]
    · rw [shape, List.length_append, headerLength]

theorem ZipPacking.start (pack : ZipFileInfo → Option ZipPacked) : ZipPacking pack {} where
  body := rfl
  current := rfl
  headers := trivial
  packed := nofun

/-- Step lemma: `AddEntry` puts an entry behind the others. -/
theorem ZipPacking.addEntry (packing : ZipPacking pack st)
    (added : zipAddEntry pack st info = some st') :
    ZipPacking pack st' ∧ st'.entries.map ZipAdded.info = st.entries.map ZipAdded.info ++ [info] := by
  simp only [zipAddEntry, Option.bind_eq_bind] at added
  obtain ⟨⟨packed, file, encodeLen⟩, packs, added⟩ := Option.bind_eq_some_iff.mp added
  cases added
  rw [packing.current] at packs
  obtain ⟨compressed, written, length⟩ := packStream_writes packs
  refine ⟨⟨?_, ?_, ?_, ?_⟩, ?_⟩
  · dsimp only
    rw [zipBody_append, packing.current, written, packing.body]
  · dsimp only
    rw [written, length, packing.current, List.length_append]
  · apply packing.headers.append
    rw [Nat.zero_add, ← packing.body, packing.current]
  · intro entry member
    rcases List.mem_append.mp member with earlier | last
    · exact packing.packed entry earlier
    · rw [List.mem_singleton.mp last]
      exact compressed
  · rw [List.map_append]
    rfl

/-- Run lemma: so do all calls. -/
theorem ZipPacking.addEntries {files : List ZipFileInfo} (packing : ZipPacking pack st)
    (added : files.foldlM (zipAddEntry pack) st = some st') :
    ZipPacking pack st' ∧ st'.entries.map ZipAdded.info = st.entries.map ZipAdded.info ++ files := by
  induction files generalizing st with
  | nil =>
      cases added
      exact ⟨packing, (List.append_nil _).symm⟩
  | cons file files ih =>
      rw [List.foldlM_cons] at added
      obtain ⟨next, one, rest⟩ := Option.bind_eq_some_iff.mp added
      obtain ⟨grown, named⟩ := packing.addEntry one
      obtain ⟨all, names⟩ := ih grown rest
      refine ⟨all, ?_⟩
      rw [names, named, List.append_assoc]
      rfl

/-- The directory. -/
def zipDirectory (entries : List ZipAdded) : Bytes :=
  (entries.map ZipAdded.record).flatten

theorem zipDirectory_cons (entry : ZipAdded) (entries : List ZipAdded) :
    zipDirectory (entry :: entries) = entry.record ++ zipDirectory entries := by
  rw [zipDirectory, List.map_cons, List.flatten_cons]
  rfl

theorem zipBody_cons (entry : ZipAdded) (entries : List ZipAdded) :
    zipBody (entry :: entries) = entry.bytes ++ zipBody entries := by
  rw [zipBody, List.map_cons, List.flatten_cons]
  rfl

theorem ZipFileInfo.length_centralName (info : ZipFileInfo) :
    info.centralName.length ≤ centralDirEntryLen + maxFileName := by
  rw [centralName, convertStringToBuffer]
  split
  · exact Nat.zero_le _
  · rename_i fits
    exact Nat.not_lt.mp fits

theorem ZipAdded.length_record (entry : ZipAdded) :
    entry.record.length = centralDirEntryLen + entry.info.centralName.length := by
  rw [record, ZipFileInfo.length_encodeCentralDirEntry]

/-- A directory is at most some twelve times as long as what stands in front of it. -/
theorem length_zipDirectory_le (entries : List ZipAdded) :
    (zipDirectory entries).length ≤ 12 * (zipBody entries).length := by
  induction entries with
  | nil => exact Nat.le_refl 0
  | cons entry entries ih =>
      have name := entry.info.length_centralName
      have header := entry.length_header
      have central : centralDirEntryLen = 46 := rfl
      have most : maxFileName = 256 := rfl
      have size : localFileHeaderLen = 30 := rfl
      have front : entry.header.length ≤ entry.bytes.length := by
        rw [ZipAdded.bytes, List.length_append]
        exact Nat.le_add_right _ _
      rw [zipDirectory_cons, zipBody_cons, List.length_append, List.length_append,
        entry.length_record]
      omega

/-- All records are written if there is room for them. -/
theorem writeDirectory_all {entries : List ZipAdded} {file : Bytes}
    (room : file.length + (zipDirectory entries).length < 2 ^ 63) :
    writeDirectory entries file file.length =
      (file ++ zipDirectory entries, file.length + (zipDirectory entries).length) := by
  induction entries generalizing file with
  | nil =>
      rw [writeDirectory, zipDirectory, List.map_nil, List.flatten_nil, List.append_nil]
      rfl
  | cons entry entries ih =>
      rw [zipDirectory_cons, List.length_append] at room ⊢
      have written : streamWrite file file.length entry.record = some (file ++ entry.record) := by
        rw [streamWrite, if_pos (by omega), fileWrite_end]
      have rest := @ih (file ++ entry.record) (by
        rw [List.length_append]
        omega)
      rw [List.length_append] at rest
      change (match streamWrite file file.length entry.record with
        | none => writeDirectory entries file file.length
        | some file' => writeDirectory entries file' (file.length + entry.record.length)) = _
      rw [written]
      dsimp only
      rw [rest, List.append_assoc, Nat.add_assoc]

theorem length_encodeEndCentralDir (count size offset : Nat) :
    (encodeEndCentralDir count size offset).length = endCentralDirLen := by
  simp only [encodeEndCentralDir, List.length_append, length_leBytes]
  rfl

/-- What a package consists of. -/
structure ZipLayout (pack : ZipFileInfo → Option ZipPacked) (files : List ZipFileInfo)
    (entries : List ZipAdded) (package : Bytes) : Prop where
  named : entries.map ZipAdded.info = files
  nonempty : entries ≠ []
  headers : HeadersFrom 0 entries
  packed : ∀ entry ∈ entries, pack entry.info = some entry.packed
  layout : package = zipBody entries ++ (zipDirectory entries ++
    encodeEndCentralDir entries.length (zipDirectory entries).length (zipBody entries).length)

theorem createZipPackage_layout {files : List ZipFileInfo} {package : Bytes}
    (created : createZipPackage pack files = some (st, package))
    (small : (zipBody st.entries).length < 2 ^ 32) : ZipLayout pack files st.entries package := by
  simp only [createZipPackage, Option.bind_eq_bind] at created
  obtain ⟨all, added, created⟩ := Option.bind_eq_some_iff.mp created
  obtain ⟨file, saved, created⟩ := Option.bind_eq_some_iff.mp created
  cases created
  obtain ⟨packing, named⟩ := (ZipPacking.start pack).addEntries added
  rw [zipSavePackage] at saved
  split at saved
  · cases saved
  · rename_i some
    have most := length_zipDirectory_le st.entries
    have directory := @writeDirectory_all st.entries st.file (by
      rw [packing.body]
      omega)
    rw [packing.current, directory] at saved
    dsimp only at saved
    rw [Nat.add_sub_cancel_left, ← List.length_append] at saved
    obtain ⟨-, rfl⟩ := streamWrite_some saved
    refine ⟨named, some, packing.headers, packing.packed, ?_⟩
    rw [fileWrite_end, List.append_assoc, packing.body]

end

end Updater.Package
