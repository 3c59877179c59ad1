import Updater.Package.PkgVerifyUtil
import Updater.Package.ZipPkgLayout

/-! Two zip packages with the same signed bytes: what is loaded of them. -/

set_option autoImplicit false

namespace Updater.Package

open Updater.Base

/-- The record at the end of the directory as `ZipPkgParse` finds it: its offset, and its
bytes up to the length of the comment. -/
def zipEndRecord (file : Bytes) : Option (Nat × Bytes) :=
  (parsePkg file).map fun sign =>
    let zipEocdStart := file.length - (zipEocdFixedPartLen + sign.signCommentTotalLen)
    (zipEocdStart, slice file zipEocdStart zipEocdLenExcludeComment)

/-- So many bytes reach up to the length of the comment. -/
def CoversEndRecord (file : Bytes) (srcDataLen : Nat) : Prop :=
  ∃ sign, parsePkg file = some sign ∧ srcDataLen = file.length - sign.signCommentTotalLen - 2

/-- Where the directory begins, read off the file. -/
def directoryStartAt (file : Bytes) (offset endDirPos : Nat) : Nat :=
  if offset ≠ uintMax ∨ endDirPos < zip64EndCentralDirLocatorLen then offset
  else
    let locator := fileField file (endDirPos - zip64EndCentralDirLocatorLen)
    if leValue (locator 0 4) ≠ 0x07064b50 then offset
    else
      let currentPos := leValue (locator 8 8)
      if leValue (fileField file currentPos 0 4) = 0x06064b50 then
        leValue (fileField file currentPos 48 8)
      else currentPos

/-- The record at the offset does not reach behind itself, and all that it leads to lies in
front of the limit. -/
structure DirectoryWithin (file : Bytes) (limit endDirPos : Nat) : Prop where
  fits : let endDir := readEndDir (fileField file endDirPos)
    endDir.offset < endDirPos + endCentralDirLen ∧
      (endDir.offset + endDir.sizeOfCentralDir + endCentralDirLen) % 2 ^ 32 ≤
        endDirPos + endCentralDirLen
  record64 : let offset := (readEndDir (fileField file endDirPos)).offset
    let locator := fileField file (endDirPos - zip64EndCentralDirLocatorLen)
    offset = uintMax → zip64EndCentralDirLocatorLen ≤ endDirPos →
      leValue (locator 0 4) = 0x07064b50 →
        leValue (locator 8 8) + zip64EndCentralDirRecordLen ≤ limit
  entries : let endDir := readEndDir (fileField file endDirPos)
    EntriesWithin file limit endDir.totalEntries (directoryStartAt file endDir.offset endDirPos)

/-- All that the load of the package depends on is signed. -/
def DirectorySigned (file : Bytes) (srcDataLen : Nat) : Prop :=
  ∃ endDirPos record, zipEndRecord file = some (endDirPos, record) ∧
    DirectoryWithin file srcDataLen endDirPos

theorem leValue_inj {first second : Bytes} (length : first.length = second.length)
    (same : leValue first = leValue second) : first = second := by
  induction first generalizing second with
  | nil => exact (List.length_eq_zero_iff.mp length.symm).symm
  | cons byte first ih =>
      cases second with
      | nil => cases length
      | cons byte' second =>
          rw [leValue, leValue] at same
          have small := byte.toNat_lt
          have small' := byte'.toNat_lt
          have head : byte = byte' := UInt8.toNat_inj.mp (by omega)
          have tail := ih (Nat.succ.inj length) (by omega)
          rw [head, tail]

/-- What `ParsePkg` finds out. -/
theorem parsePkg_some {file : Bytes} {sign : PkgSignComment} (parsed : parsePkg file = some sign) :
    pkgFooterSize ≤ sign.signCommentAppendLen ∧
      sign.signCommentAppendLen ≤ sign.signCommentTotalLen ∧
      zipEocdFixedPartLen + sign.signCommentTotalLen < file.length ∧
      checkZipEocd (slice file (file.length - (zipEocdFixedPartLen + sign.signCommentTotalLen))
        (zipEocdFixedPartLen + sign.signCommentTotalLen)) sign.signCommentTotalLen = true := by
  obtain ⟨footer, footerRead, eocdRead⟩ := Option.bind_eq_some_iff.mp parsed
  have found : footer = sign ∧ zipEocdFixedPartLen + sign.signCommentTotalLen < file.length ∧
      checkZipEocd (slice file (file.length - (zipEocdFixedPartLen + sign.signCommentTotalLen))
        (zipEocdFixedPartLen + sign.signCommentTotalLen)) sign.signCommentTotalLen = true := by
    simp only [doParseZipPkg, Option.bind_eq_bind] at eocdRead
    split at eocdRead
    · cases eocdRead
    · rename_i large
      obtain ⟨eocd, read, checked⟩ := Option.bind_eq_some_iff.mp eocdRead
      obtain ⟨-, -, whole⟩ := readBuffer_some read
      rw [whole (by omega)] at checked
      split at checked
      · rename_i accepted
        cases checked
        exact ⟨rfl, Nat.not_le.mp large, accepted⟩
      · cases checked
  obtain ⟨rfl, large, checked⟩ := found
  rw [readFooterFromStream] at footerRead
  split at footerRead
  · cases footerRead
  · obtain ⟨bytes, -, footerParsed⟩ := Option.bind_eq_some_iff.mp footerRead
    simp only [parsePkgFooter] at footerParsed
    split at footerParsed
    · cases footerParsed
    split at footerParsed
    · cases footerParsed
    · rename_i lengths
      cases footerParsed
      simp only [not_or, Nat.not_lt] at lengths
      exact ⟨lengths.1, lengths.2.2, large, checked⟩

theorem zipEndRecord_some {file record : Bytes} {endDirPos : Nat}
    (found : zipEndRecord file = some (endDirPos, record)) :
    ∃ sign, parsePkg file = some sign ∧
      endDirPos = file.length - (zipEocdFixedPartLen + sign.signCommentTotalLen) ∧
      record = slice file endDirPos zipEocdLenExcludeComment := by
  obtain ⟨sign, parsed, pair⟩ := Option.map_eq_some_iff.mp found
  cases pair
  exact ⟨sign, parsed, rfl, rfl⟩

/-- Behind the record no other one begins. -/
theorem checkZipEocd_alone {eocd : Bytes} {total : Nat} (checked : checkZipEocd eocd total = true) :
    ∀ i, 4 ≤ i → i + 4 ≤ eocd.length → slice eocd i 4 ≠ zipEocdSignatureBytes := by
  intro i behind inside
  simp only [checkZipEocd, Bool.and_eq_true, List.all_eq_true, List.mem_range, Bool.or_eq_true,
    decide_eq_true_eq] at checked
  rcases checked.1.2 i (by omega) with front | other
  · omega
  · exact other

namespace ZipInput

variable {input : ZipInput}

/-- The loader takes the record that the verifier found: the last bytes of the file are no
other record, for it would lie in the comment. -/
theorem loadPackage_signed {sign : PkgSignComment} (parsed : parsePkg input.file = some sign) :
    ∃ buffer : Bytes, buffer.length = zip64EndCentralDirRecordLen ∧
      AgreeUpTo endCentralDirLen (input.memory buffer) (fileField input.file
        (input.file.length - (zipEocdFixedPartLen + sign.signCommentTotalLen))) ∧
      input.loadPackage = input.loadDirectory buffer
        (input.file.length - (zipEocdFixedPartLen + sign.signCommentTotalLen)) := by
  obtain ⟨append, appended, large, checked⟩ := parsePkg_some parsed
  have fixed : zipEocdFixedPartLen = 22 := rfl
  have footer : pkgFooterSize = 6 := rfl
  have endLen : endCentralDirLen = 22 := rfl
  have record64 : zip64EndCentralDirRecordLen = 56 := rfl
  have bufferLength : (List.replicate zip64EndCentralDirRecordLen (0 : UInt8)).length =
      zip64EndCentralDirRecordLen := List.length_replicate
  obtain ⟨last, lastRead, lastLength, lastAgree⟩ :=
    @readFront_file input (List.replicate zip64EndCentralDirRecordLen 0)
      (input.file.length - endCentralDirLen) endCentralDirLen (by omega) (by omega) (by omega)
  have other : leValue (input.memory last 0 4) ≠ endCentralSignature := by
    intro ends
    rw [lastAgree 0 4 (by omega), fileField, Nat.add_zero] at ends
    have bytes : slice input.file (input.file.length - endCentralDirLen) 4 =
        zipEocdSignatureBytes := by
      apply leValue_inj
      · rw [length_slice (by omega)]
        rfl
      · exact ends
    have whole := length_slice (show input.file.length -
      (zipEocdFixedPartLen + sign.signCommentTotalLen) + (zipEocdFixedPartLen +
        sign.signCommentTotalLen) ≤ input.file.length by omega)
    apply checkZipEocd_alone checked sign.signCommentTotalLen (by omega) (by omega)
    have place : input.file.length - (zipEocdFixedPartLen + sign.signCommentTotalLen) +
        sign.signCommentTotalLen = input.file.length - endCentralDirLen := by omega
    rw [slice_slice (by omega), place, bytes]
  have start : input.file.length - endCentralDirLen - sign.signCommentTotalLen =
      input.file.length - (zipEocdFixedPartLen + sign.signCommentTotalLen) := by omega
  obtain ⟨next, nextRead, nextLength, nextAgree⟩ := @readFront_file input last
    (input.file.length - (zipEocdFixedPartLen + sign.signCommentTotalLen)) endCentralDirLen
    (by omega) (by omega) (by omega)
  refine ⟨next, by omega, nextAgree, ?_⟩
  simp only [loadPackage, lastRead, Option.bind_eq_bind, Option.bind_some]
  rw [if_neg (by omega), if_pos other, parsed, Option.bind_some, start, nextRead, Option.bind_some]

theorem directoryStart_file {buffer : Bytes} {endDir : EndCentralDir} {limit endDirPos : Nat}
    (size : buffer.length = zip64EndCentralDirRecordLen) (limited : limit ≤ input.file.length)
    (inside : endDirPos ≤ input.file.length)
    (record64 : let locator := fileField input.file (endDirPos - zip64EndCentralDirLocatorLen)
      endDir.offset = uintMax → zip64EndCentralDirLocatorLen ≤ endDirPos →
        leValue (locator 0 4) = 0x07064b50 →
          leValue (locator 8 8) + zip64EndCentralDirRecordLen ≤ limit) :
    input.directoryStart buffer endDir endDirPos =
      directoryStartAt input.file endDir.offset endDirPos := by
  have recordLen : zip64EndCentralDirRecordLen = 56 := rfl
  have locatorLen : zip64EndCentralDirLocatorLen = 20 := rfl
  rw [directoryStart, directoryStartAt]
  split
  · rfl
  · rename_i zip64
    obtain ⟨most, behind⟩ := not_or.mp zip64
    obtain ⟨next, read, nextLength, agree⟩ := @readFront_file input buffer
      (endDirPos - zip64EndCentralDirLocatorLen) zip64EndCentralDirLocatorLen (by omega) (by omega)
      (by omega)
    simp only [read, agree 0 4 (by omega), agree 8 8 (by omega)]
    split
    · rfl
    · rename_i located
      have within := record64 (Decidable.not_not.mp most) (by omega) (Decidable.not_not.mp located)
      obtain ⟨record, recordRead, -, recordAgree⟩ := @readFront_file input next
        (leValue (fileField input.file (endDirPos - zip64EndCentralDirLocatorLen) 8 8))
        zip64EndCentralDirRecordLen (by omega) (by omega) (by omega)
      simp only [recordRead, recordAgree 0 4 (by omega), recordAgree 48 8 (by omega)]

end ZipInput

/-- What is asked of the record itself. -/
def EndCentralDir.accepted (endDir : EndCentralDir) : Bool :=
  endDir.numDisk = 0 && endDir.signature = endCentralSignature &&
    endDir.startDiskOfCentralDir = 0 && endDir.totalEntriesInThisDisk = endDir.totalEntries

/-- The entries that the record at the offset leads to. -/
def directoryAt (file : Bytes) (endDirPos : Nat) : Option (List ZipEntry) :=
  let endDir := readEndDir (fileField file endDirPos)
  if endDir.accepted then
    entriesAt file endDir.totalEntries (directoryStartAt file endDir.offset endDirPos)
  else none

theorem ZipInput.loadDirectory_file {input : ZipInput} {buffer : Bytes} {limit endDirPos : Nat}
    (size : buffer.length = zip64EndCentralDirRecordLen)
    (agree : AgreeUpTo endCentralDirLen (input.memory buffer) (fileField input.file endDirPos))
    (limited : limit ≤ input.file.length) (inside : endDirPos + endCentralDirLen ≤ input.file.length)
    (within : DirectoryWithin input.file limit endDirPos) :
    input.loadDirectory buffer endDirPos = directoryAt input.file endDirPos := by
  have endLen : endCentralDirLen = 22 := rfl
  have record : readEndDir (input.memory buffer) = readEndDir (fileField input.file endDirPos) := by
    simp only [readEndDir, agree 0 4 (by omega), agree 4 2 (by omega), agree 6 2 (by omega),
      agree 8 2 (by omega), agree 10 2 (by omega), agree 12 4 (by omega), agree 16 4 (by omega),
      agree 20 2 (by omega)]
  obtain ⟨fits, record64, entries⟩ := within
  dsimp only at fits record64 entries
  rw [loadDirectory, directoryAt, record]
  generalize readEndDir (fileField input.file endDirPos) = endDir at fits record64 entries
  have checks : input.endDirAccepted endDir = endDir.accepted := by
    rw [endDirAccepted, EndCentralDir.accepted, decide_eq_true (by omega : endDir.offset <
      input.file.length), decide_eq_true (by omega : (endDir.offset + endDir.sizeOfCentralDir +
        endCentralDirLen) % 2 ^ 32 ≤ input.file.length), Bool.and_true, Bool.and_true]
  rw [checks]
  split
  · rw [directoryStart_file size limited (by omega) record64]
    exact parseFileEntries_file List.length_replicate limited entries
  · rfl

section

variable {a b : Bytes} {limit : Nat}

theorem fileField_congr (same : a.take limit = b.take limit) {pos bound : Nat}
    (inside : pos + bound ≤ limit) : AgreeUpTo bound (fileField a pos) (fileField b pos) := by
  intro start count within
  have front (file : Bytes) :
      fileField file pos start count = slice (file.take limit) (pos + start) count := by
    have cut : file.take limit = slice file 0 limit := rfl
    rw [cut, slice_slice (by omega), Nat.zero_add]
    rfl
  rw [front a, front b, same]

theorem centralAt_congr (same : a.take limit = b.take limit) {pos : Nat}
    (within : EntryWithin a limit pos) :
    centralAt a pos = centralAt b pos ∧
      AgreeUpTo (limit - pos) (fileField a pos) (fileField b pos) ∧
      centralDirEntryLen + leValue (fileField a pos 28 2) + pos ≤ limit := by
  have size : centralDirEntryLen = 46 := rfl
  have record := within.record
  have named := centralDirLen_ge (fileField a pos)
  have kept := fileNameLength_le (leValue (fileField a pos 28 2))
  have agree := fileField_congr same (show pos + (limit - pos) ≤ limit by omega)
  refine ⟨?_, agree, by omega⟩
  rw [centralAt, centralAt, ← agree 28 2 (by omega), ← agree 30 2 (by omega),
    ← agree centralDirEntryLen _ (by omega)]
  apply doDecodeCentralDirEntry_congr agree _ (by omega)
  intro extended
  have extra := within.extra extended
  omega

theorem EntryWithin.congr (same : a.take limit = b.take limit) {pos : Nat}
    (within : EntryWithin a limit pos) : EntryWithin b limit pos := by
  have size : centralDirEntryLen = 46 := rfl
  have headerLen : localFileHeaderLen = 30 := rfl
  obtain ⟨central, agree, room⟩ := centralAt_congr same within
  have nameSize := agree 28 2 (by omega)
  have extraSize := agree 30 2 (by omega)
  have length := centralDirLen_congr agree (by omega)
  constructor
  · rw [← length]
    exact within.record
  · rw [← nameSize, ← extraSize]
    exact within.extra
  · intro offset placed
    rw [← central] at placed
    have header := within.header placed
    have local_ := fileField_congr same (show offset + localFileHeaderLen ≤ limit by omega)
    rw [← local_ 26 2 (by omega), ← local_ 28 2 (by omega)]
    exact header
  · intro offset placed
    rw [← central] at placed ⊢
    have header := within.header placed
    have local_ := fileField_congr same (show offset + localFileHeaderLen ≤ limit by omega)
    rw [← local_ 26 2 (by omega), ← local_ 28 2 (by omega), ← local_ 6 2 (by omega)]
    exact within.descriptor placed

theorem entryAt_congr (same : a.take limit = b.take limit) {pos : Nat}
    (within : EntryWithin a limit pos) : entryAt a pos = entryAt b pos := by
  have size : centralDirEntryLen = 46 := rfl
  have headerLen : localFileHeaderLen = 30 := rfl
  have descLen : dataDescriptorLen = 16 := rfl
  have room : zipBuffLen = 368 := rfl
  have most : maxFileName = 256 := rfl
  obtain ⟨central, agree, named⟩ := centralAt_congr same within
  have kept := fileNameLength_le (leValue (fileField a pos 28 2))
  have decoded : decodeCentralDirEntry (fileField a pos) zipBuffLen pos =
      decodeCentralDirEntry (fileField b pos) zipBuffLen pos := by
    apply decodeCentralDirEntry_congr agree (by omega) _ (by omega) (by omega)
    intro extended
    have extra := within.extra extended
    omega
  have headers : localHeaderAt a (centralAt a pos) = localHeaderAt b (centralAt a pos) := by
    have header := within.header rfl
    have descriptor := within.descriptor rfl
    generalize centralAt a pos = entry at header descriptor
    have local_ := fileField_congr same
      (show entry.headerOffset + (limit - entry.headerOffset) ≤ limit by omega)
    have name := fileNameLength_le (leValue (fileField a entry.headerOffset 26 2))
    simp only [localHeaderAt, ← local_ 0 4 (by omega), ← local_ 6 2 (by omega),
      ← local_ 8 2 (by omega), ← local_ 14 4 (by omega), ← local_ 26 2 (by omega),
      ← local_ 28 2 (by omega)]
    rw [← local_ localFileHeaderLen _ (by omega)]
    by_cases described : leValue (fileField a entry.headerOffset 6 2) &&& gpbddFlagMask =
        gpbddFlagMask
    · have inside := descriptor described
      have desc := fileField_congr same inside
      simp only [desc 0 4 (by omega), desc 4 4 (by omega)]
    · simp only [if_neg described]
  rw [entryAt, entryAt, ← decoded]
  split
  · rfl
  · cases found : decodeCentralDirEntry (fileField a pos) zipBuffLen pos with
    | none => rfl
    | some pair =>
        obtain ⟨entry, decodeLen⟩ := pair
        obtain ⟨-, whole⟩ := decodeCentralDirEntry_some found
        change entry = centralAt a pos at whole
        rw [whole]
        simp only [Option.bind_eq_bind, Option.bind_some, headers]

/-- Run lemma: the entries of the directory, and that they lie in front of the limit. -/
theorem entriesAt_congr (same : a.take limit = b.take limit) {count pos : Nat}
    (within : EntriesWithin a limit count pos) :
    EntriesWithin b limit count pos ∧ entriesAt a count pos = entriesAt b count pos := by
  induction count generalizing pos with
  | zero => exact ⟨trivial, rfl⟩
  | succ count ih =>
      obtain ⟨first, rest⟩ := within
      obtain ⟨-, agree, room⟩ := centralAt_congr same first
      have length := centralDirLen_congr agree (by omega)
      obtain ⟨later, tail⟩ := ih rest
      rw [length] at later tail
      refine ⟨⟨first.congr same, later⟩, ?_⟩
      rw [entriesAt, entriesAt, ← entryAt_congr same first]
      cases found : entryAt a pos with
      | none => rfl
      | some pair =>
          obtain ⟨entry, decodeLen⟩ := pair
          have decoded := entryAt_length found
          simp only [Option.bind_eq_bind, Option.bind_some, decoded, length, tail]

/-- The directory of two files that have the signed bytes and the record in common. -/
theorem directoryAt_congr (same : a.take limit = b.take limit) {endDirPos : Nat}
    (before : endDirPos ≤ limit)
    (record : AgreeUpTo zipEocdLenExcludeComment (fileField a endDirPos) (fileField b endDirPos))
    (within : DirectoryWithin a limit endDirPos) :
    DirectoryWithin b limit endDirPos ∧ directoryAt a endDirPos = directoryAt b endDirPos := by
  have fixed : zipEocdLenExcludeComment = 20 := rfl
  have locatorLen : zip64EndCentralDirLocatorLen = 20 := rfl
  have recordLen : zip64EndCentralDirRecordLen = 56 := rfl
  obtain ⟨fits, record64, entries⟩ := within
  have offset : (readEndDir (fileField a endDirPos)).offset =
      (readEndDir (fileField b endDirPos)).offset := congrArg leValue (record 16 4 (by omega))
  have size : (readEndDir (fileField a endDirPos)).sizeOfCentralDir =
      (readEndDir (fileField b endDirPos)).sizeOfCentralDir :=
    congrArg leValue (record 12 4 (by omega))
  have total : (readEndDir (fileField a endDirPos)).totalEntries =
      (readEndDir (fileField b endDirPos)).totalEntries := congrArg leValue (record 10 2 (by omega))
  have accepted : (readEndDir (fileField a endDirPos)).accepted =
      (readEndDir (fileField b endDirPos)).accepted := by
    simp only [EndCentralDir.accepted, readEndDir, record 0 4 (by omega), record 4 2 (by omega),
      record 6 2 (by omega), record 8 2 (by omega), record 10 2 (by omega)]
    rfl
  dsimp only at fits record64 entries
  rw [offset] at record64
  rw [offset, size] at fits
  rw [offset, total] at entries
  by_cases zip64 : (readEndDir (fileField b endDirPos)).offset ≠ uintMax ∨
      endDirPos < zip64EndCentralDirLocatorLen
  · have start (file : Bytes) : directoryStartAt file (readEndDir (fileField b endDirPos)).offset
        endDirPos = (readEndDir (fileField b endDirPos)).offset := by
      rw [directoryStartAt, if_pos zip64]
    rw [start] at entries
    obtain ⟨later, tail⟩ := entriesAt_congr same entries
    refine ⟨⟨fits, ?_, ?_⟩, ?_⟩
    · dsimp only
      intro most behind
      rcases zip64 with other | short
      · exact absurd most other
      · exact absurd behind (Nat.not_le.mpr short)
    · dsimp only
      rw [start]
      exact later
    · rw [directoryAt, directoryAt, accepted, offset, total, start, start, tail]
  · obtain ⟨most, behind⟩ := not_or.mp zip64
    have locator := fileField_congr same (show endDirPos - zip64EndCentralDirLocatorLen +
      zip64EndCentralDirLocatorLen ≤ limit by omega)
    have inside := record64 (Decidable.not_not.mp most) (by omega)
    have start : directoryStartAt a (readEndDir (fileField b endDirPos)).offset endDirPos =
        directoryStartAt b (readEndDir (fileField b endDirPos)).offset endDirPos := by
      rw [directoryStartAt, directoryStartAt, if_neg zip64, if_neg zip64]
      dsimp only
      rw [← locator 0 4 (by omega), ← locator 8 8 (by omega)]
      split
      · rfl
      · rename_i located
        have fields := fileField_congr same (inside (Decidable.not_not.mp located))
        rw [fields 0 4 (by omega), fields 48 8 (by omega)]
    rw [start] at entries
    obtain ⟨later, tail⟩ := entriesAt_congr same entries
    refine ⟨⟨fits, ?_, later⟩, ?_⟩
    · dsimp only
      intro _ _
      rw [← locator 0 4 (by omega), ← locator 8 8 (by omega)]
      exact inside
    · rw [directoryAt, directoryAt, accepted, offset, total, start, tail]

end

namespace PkgVerifyUtil

variable {Digest : Type} [DecidableEq Digest] {util : PkgVerifyUtil Digest}

/-- The bytes that were found signed are in front of the record's end, and it is in front of
theirs. -/
theorem verifyPackageSign_some {file : Bytes} {srcDataLen : Nat}
    (accepted : util.verifyPackageSign file = some srcDataLen) :
    ∃ sign, parsePkg file = some sign ∧
      (srcDataLen = file.length - sign.signCommentTotalLen - 2 ∨
        srcDataLen = file.length - sign.signCommentAppendLen - zipEocdFixedPartLen) := by
  simp only [verifyPackageSign, getSignature, Option.bind_eq_bind] at accepted
  obtain ⟨⟨signature, sign⟩, signed, accepted⟩ := Option.bind_eq_some_iff.mp accepted
  obtain ⟨hash, -, accepted⟩ := Option.bind_eq_some_iff.mp accepted
  obtain ⟨found, parsed, signed⟩ := Option.bind_eq_some_iff.mp signed
  have same : found = sign := by
    split at signed
    · cases signed
    · obtain ⟨_, -, signed⟩ := Option.bind_eq_some_iff.mp signed
      split at signed
      · cases signed
      · cases signed
        rfl
  subst same
  refine ⟨found, parsed, ?_⟩
  split at accepted
  · cases accepted
    exact .inl rfl
  · split at accepted
    · cases accepted
      exact .inr rfl
    · cases accepted

end PkgVerifyUtil

/-- Up to the length of the comment, the record at the end is signed in the first of the
checks; in the second it is not, and has to be the same. Then no byte behind the signed ones
has a part in what is loaded, if they are all that the directory leads to. -/
theorem signedBytes_determine {Digest : Type} [DecidableEq Digest] (util : PkgVerifyUtil Digest)
    {a b : Bytes} {srcDataLen : Nat} (acceptedA : util.verifyPackageSign a = some srcDataLen)
    (acceptedB : util.verifyPackageSign b = some srcDataLen)
    (same : a.take srcDataLen = b.take srcDataLen)
    (record : CoversEndRecord a srcDataLen ∧ CoversEndRecord b srcDataLen ∨
      zipEndRecord a = zipEndRecord b)
    (signed : DirectorySigned a srcDataLen) (heapA heapB : Nat → UInt8) :
    (ZipInput.mk a heapA).loadPackage = (ZipInput.mk b heapB).loadPackage := by
  obtain ⟨endDirPos, bytes, recordA, within⟩ := signed
  obtain ⟨signA, parsedA, startA, bytesA⟩ := zipEndRecord_some recordA
  obtain ⟨signB, parsedB, lengthB⟩ := PkgVerifyUtil.verifyPackageSign_some acceptedB
  obtain ⟨signA', parsedA', lengthA⟩ := PkgVerifyUtil.verifyPackageSign_some acceptedA
  cases parsedA.symm.trans parsedA'
  obtain ⟨appendA, appendedA, largeA, -⟩ := parsePkg_some parsedA
  obtain ⟨appendB, appendedB, largeB, -⟩ := parsePkg_some parsedB
  have fixed : zipEocdFixedPartLen = 22 := rfl
  have endLen : endCentralDirLen = 22 := rfl
  have noComment : zipEocdLenExcludeComment = 20 := rfl
  have footer : pkgFooterSize = 6 := rfl
  have common : endDirPos = b.length - (zipEocdFixedPartLen + signB.signCommentTotalLen) ∧
      AgreeUpTo zipEocdLenExcludeComment (fileField a endDirPos) (fileField b endDirPos) := by
    rcases record with ⟨⟨otherA, foundA, coversA⟩, otherB, foundB, coversB⟩ | equal
    · cases parsedA.symm.trans foundA
      cases parsedB.symm.trans foundB
      exact ⟨by omega, fileField_congr same (by omega)⟩
    · rw [recordA] at equal
      obtain ⟨otherB, foundB, startB, bytesB⟩ := zipEndRecord_some equal.symm
      cases parsedB.symm.trans foundB
      refine ⟨startB, ?_⟩
      intro start count inside
      have field (file : Bytes) : fileField file endDirPos start count =
          slice (slice file endDirPos zipEocdLenExcludeComment) start count :=
        (slice_slice inside).symm
      rw [field a, field b, ← bytesA, ← bytesB]
  obtain ⟨startB, recordAgrees⟩ := common
  obtain ⟨withinB, directory⟩ := directoryAt_congr same (by omega) recordAgrees within
  obtain ⟨bufferA, sizeA, agreeA, loadA⟩ := @ZipInput.loadPackage_signed ⟨a, heapA⟩ signA parsedA
  obtain ⟨bufferB, sizeB, agreeB, loadB⟩ := @ZipInput.loadPackage_signed ⟨b, heapB⟩ signB parsedB
  dsimp only at agreeA loadA agreeB loadB
  rw [← startA] at agreeA loadA
  rw [← startB] at agreeB loadB
  have readA := @ZipInput.loadDirectory_file ⟨a, heapA⟩ bufferA srcDataLen endDirPos sizeA agreeA
    (by dsimp only; omega) (by dsimp only; omega) within
  have readB := @ZipInput.loadDirectory_file ⟨b, heapB⟩ bufferB srcDataLen endDirPos sizeB agreeB
    (by dsimp only; omega) (by dsimp only; omega) withinB
  rw [loadA, loadB, readA, readB, directory]

/-- The local header of an empty entry with the name `a`. -/
def zipLocalA : Bytes :=
  leBytes 4 localHeaderSignature ++ List.replicate 22 0 ++ leBytes 2 1 ++ [0, 0, 0x61]

/-- Its record in the directory. -/
def zipCentralA : Bytes :=
  leBytes 4 centralSignature ++ List.replicate 24 0 ++ leBytes 2 1 ++ List.replicate 16 0 ++ [0x61]

def zipEndOf (totalEntries offset commentLen : Nat) : Bytes :=
  leBytes 4 endCentralSignature ++ [0, 0, 0, 0] ++ leBytes 2 totalEntries ++
    leBytes 2 totalEntries ++ leBytes 4 0 ++ leBytes 4 offset ++ leBytes 2 commentLen

/-- A package of that entry with so many of its entries listed, and a signature of one byte. -/
def signedZip (totalEntries : Nat) (signature : UInt8) : Bytes :=
  zipLocalA ++ zipCentralA ++ zipEndOf totalEntries 31 7 ++ [signature, 7, 0, 0xff, 0xff, 7, 0]

/-- A verifier for which any block signs these bytes; the digest is injective. -/
def signsBytes (bytes : Bytes) : PkgVerifyUtil Bytes where
  pkcs7verify := fun _ => some bytes
  calcSha256Digest := id
  isOldSigSupport := true

theorem signedZip_within : DirectorySigned (signedZip 1 1) 98 := by
  refine ⟨78, (zipEndOf 1 31 7).take 20, by decide +kernel, ⟨by decide +kernel, ?_, ?_⟩⟩
  · intro offset locator most
    revert most
    decide +kernel
  · refine ⟨⟨by decide +kernel, ?_, ?_, ?_⟩, trivial⟩
    · intro extended
      revert extended
      decide +kernel
    · intro offset placed
      rw [← placed]
      decide +kernel
    · intro offset placed
      rw [← placed]
      decide +kernel

/-- Two signatures of one package. -/
theorem signedZip_determined :
    (ZipInput.mk (signedZip 1 1) fun _ => 0).loadPackage =
      (ZipInput.mk (signedZip 1 2) fun _ => 0).loadPackage :=
  signedBytes_determine (signsBytes ((signedZip 1 1).take 98)) (by decide +kernel)
    (by decide +kernel) (by decide +kernel)
    (.inl ⟨⟨⟨7, 7⟩, by decide +kernel, by decide +kernel⟩,
      ⟨⟨7, 7⟩, by decide +kernel, by decide +kernel⟩⟩) signedZip_within _ _

/-- The record at the end is not signed: that of the second file lists no entry. -/
theorem unsignedRecord_decides :
    ¬ ∀ (Digest : Type) [DecidableEq Digest] (util : PkgVerifyUtil Digest) (a b : Bytes)
      (srcDataLen : Nat) (heapA heapB : Nat → UInt8), Function.Injective util.calcSha256Digest →
      util.verifyPackageSign a = some srcDataLen → util.verifyPackageSign b = some srcDataLen →
      a.take srcDataLen = b.take srcDataLen →
      (ZipInput.mk a heapA).loadPackage = (ZipInput.mk b heapB).loadPackage := by
  intro determined
  have same := determined Bytes (signsBytes (zipLocalA ++ zipCentralA)) (signedZip 1 1)
    (signedZip 0 1) 78 (fun _ => 0) (fun _ => 0) Function.injective_id (by decide +kernel)
    (by decide +kernel) (by decide +kernel)
  revert same
  decide +kernel

/-- A package whose directory lies in the comment. -/
def commentZip (directory : Bytes) : Bytes :=
  zipLocalA ++ zipEndOf 1 53 54 ++ directory ++ [1, 7, 0, 0xff, 0xff, 54, 0]

/-- Nor is it enough that the record is signed. -/
theorem unsignedDirectory_decides :
    ¬ ∀ (Digest : Type) [DecidableEq Digest] (util : PkgVerifyUtil Digest) (a b : Bytes)
      (srcDataLen : Nat) (heapA heapB : Nat → UInt8), Function.Injective util.calcSha256Digest →
      util.verifyPackageSign a = some srcDataLen → util.verifyPackageSign b = some srcDataLen →
      a.take srcDataLen = b.take srcDataLen →
      CoversEndRecord a srcDataLen → CoversEndRecord b srcDataLen →
      (ZipInput.mk a heapA).loadPackage = (ZipInput.mk b heapB).loadPackage := by
  intro determined
  have same := determined Bytes (signsBytes ((commentZip zipCentralA).take 51))
    (commentZip zipCentralA) (commentZip (List.replicate 47 0)) 51 (fun _ => 0) (fun _ => 0)
    Function.injective_id (by decide +kernel) (by decide +kernel) (by decide +kernel)
    ⟨⟨54, 7⟩, by decide +kernel, by decide +kernel⟩ ⟨⟨54, 7⟩, by decide +kernel, by decide +kernel⟩
  revert same
  decide +kernel

end Updater.Package
