import Updater.Base.Traced
import Updater.Package.ZipPkgLayout

/-! The reads of `DecodeCentralDirEntry` on the buffer, and what `ParseFileEntries`
consumes of the central directory. -/

set_option autoImplicit false

namespace Updater.Package

open Updater.Base

/-- What the decoding of the directory does: it reads fields of a buffer that holds
`readLen` bytes of the file, and gives the length of the entry at a position. -/
inductive DirectoryEvent where
  | read (start length readLen : Nat)
  | entry (pos decodeLen : Nat)
  deriving DecidableEq, Repr

namespace DirectoryEvent

/-- The field lies within the bytes that were read. -/
def Inside : DirectoryEvent → Prop
  | .read start length readLen => start + length ≤ readLen
  | .entry _ _ => True

instance : DecidablePred Inside := fun event => by
  cases event
  · exact inferInstanceAs (Decidable (_ ≤ _))
  · exact inferInstanceAs (Decidable True)

/-- The length is the one that the entry in the file has with all its fields. -/
def FullLength (file : Bytes) : DirectoryEvent → Prop
  | .read _ _ _ => True
  | .entry pos decodeLen => decodeLen = centralDirLen (fileField file pos)

@[simp] theorem inside_read {start length readLen : Nat} :
    (DirectoryEvent.read start length readLen).Inside ↔ start + length ≤ readLen := Iff.rfl

@[simp] theorem inside_entry {pos decodeLen : Nat} :
    (DirectoryEvent.entry pos decodeLen).Inside ↔ True := Iff.rfl

@[simp] theorem fullLength_read {file : Bytes} {start length readLen : Nat} :
    (DirectoryEvent.read start length readLen).FullLength file ↔ True := Iff.rfl

@[simp] theorem fullLength_entry {file : Bytes} {pos decodeLen : Nat} :
    (DirectoryEvent.entry pos decodeLen).FullLength file ↔
      decodeLen = centralDirLen (fileField file pos) := Iff.rfl

end DirectoryEvent

section

variable (data : Nat → Nat → Bytes) (readLen : Nat)

/-- `ReadLE16`, `ReadLE32` and `ReadLE64` at an offset of the buffer. -/
def readField (start length : Nat) : Traced DirectoryEvent Nat := do
  Traced.emit [.read start length readLen]
  pure (leValue (data start length))

/-- `doDecodeCentralDirEntry` with its reads, in their order. -/
def doDecodeCentralDirEntryReads (identity : Bytes) (nameSize extraSize : Nat) :
    Traced DirectoryEvent ZipEntry := do
  let method ← readField data readLen 10 2
  let modifiedTime ← readField data readLen 12 2
  let modifiedDate ← readField data readLen 14 2
  let crc32 ← readField data readLen 16 4
  let packedSize ← readField data readLen 20 4
  let unpackedSize ← readField data readLen 24 4
  let headerOffset ← readField data readLen 42 4
  let entry : ZipEntry := {
    identity, method, modifiedTime, modifiedDate, crc32, packedSize, unpackedSize, headerOffset
    dataOffset := 0 }
  let extraData := nameSize + centralDirEntryLen
  if extraSize = 0 then pure entry
  else do
    let headerId ← readField data readLen extraData 2
    if headerId ≠ 1 then pure entry
    else do
      let first ← readField data readLen (extraData + 4) 8
      let second ← readField data readLen (extraData + 12) 8
      if packedSize = uintMax ∨ unpackedSize = uintMax then do
        let offset ← if headerOffset = uintMax then
            readField data readLen (extraData + bigSizeHeader) 8
          else pure headerOffset
        pure { entry with
          unpackedSize := (if unpackedSize = uintMax then first else unpackedSize)
          packedSize := (if packedSize = uintMax then second else packedSize)
          headerOffset := offset }
      else if headerOffset = uintMax then pure { entry with headerOffset := first }
      else pure entry

/-- `decodeCentralDirEntry` with its reads, in their order. -/
def decodeCentralDirEntryReads (currentPos : Nat) : Traced DirectoryEvent (ZipEntry × Nat) :=
  if readLen < centralDirEntryLen then Traced.reject
  else do
    let signature ← readField data readLen 0 4
    if signature ≠ centralSignature then Traced.reject
    else do
      let nameSize ← readField data readLen 28 2
      let extraSize ← readField data readLen 30 2
      let commentSize ← readField data readLen 32 2
      let currLen := centralDirEntryLen + nameSize + extraSize + commentSize
      if currentPos ≥ 2 ^ 64 - 1 - currLen then Traced.reject
      else if readLen < centralDirEntryLen + fileNameLength nameSize then Traced.reject
      else do
        Traced.emit [.read centralDirEntryLen (fileNameLength nameSize) readLen]
        let identity := data centralDirEntryLen (fileNameLength nameSize)
        let entry ← doDecodeCentralDirEntryReads data readLen identity nameSize extraSize
        Traced.emit [.entry currentPos currLen]
        pure (entry, currLen)

/-- The checks of `DecodeCentralDirEntry`. -/
structure RecordAccepted (currentPos : Nat) : Prop where
  fixed : centralDirEntryLen ≤ readLen
  signature : leValue (data 0 4) = centralSignature
  position : currentPos < 2 ^ 64 - 1 - centralDirLen data
  name : centralDirEntryLen + fileNameLength (leValue (data 28 2)) ≤ readLen

/-- As much of the extra field as is decoded was read: its id, for the one of zip64 two
sizes, and the offset where it stands in for the one of the entry. -/
def ExtraInside : Prop :=
  let extraData := leValue (data 28 2) + centralDirEntryLen
  leValue (data 30 2) ≠ 0 → extraData + 2 ≤ readLen ∧
    (leValue (data extraData 2) = 1 → extraData + bigSizeHeader ≤ readLen ∧
      (leValue (data 20 4) = uintMax ∨ leValue (data 24 4) = uintMax →
        leValue (data 42 4) = uintMax → extraData + bigSizeHeader + 8 ≤ readLen))

end

section

variable {data : Nat → Nat → Bytes} {readLen : Nat}

@[simp] theorem result_readField {start length : Nat} :
    (readField data readLen start length).result = some (leValue (data start length)) := rfl

theorem all_readField {Good : DirectoryEvent → Prop} {start length : Nat} :
    (readField data readLen start length).All Good ↔ Good (.read start length readLen) := by
  simp [readField]

/-- The reads do not change what is decoded. -/
theorem result_doDecodeCentralDirEntryReads (identity : Bytes) (nameSize extraSize : Nat) :
    (doDecodeCentralDirEntryReads data readLen identity nameSize extraSize).result =
      some (doDecodeCentralDirEntry data identity nameSize extraSize) := by
  simp only [doDecodeCentralDirEntryReads, Traced.result_bind, result_readField, Option.bind_some]
  by_cases none : extraSize = 0
  · simp only [doDecodeCentralDirEntry, none, if_true, true_or, Traced.result_pure]
  · rw [if_neg none]
    simp only [doDecodeCentralDirEntry, none, false_or, Traced.result_bind, result_readField,
      Option.bind_some]
    split
    · rfl
    · simp only [Traced.result_bind, result_readField, Option.bind_some]
      split
      · split
        · rfl
        · rfl
      · split
        · rfl
        · rfl

theorem result_decodeCentralDirEntryReads (currentPos : Nat) :
    (decodeCentralDirEntryReads data readLen currentPos).result =
      decodeCentralDirEntry data readLen currentPos := by
  rw [decodeCentralDirEntryReads, decodeCentralDirEntry]
  split
  · rfl
  simp only [Traced.result_bind, result_readField, Option.bind_some]
  split
  · rfl
  simp only [Traced.result_bind, result_readField, Option.bind_some]
  have sum : centralDirEntryLen + leValue (data 28 2) + leValue (data 30 2) + leValue (data 32 2) =
      centralDirLen data := rfl
  rw [sum]
  by_cases wraps : currentPos ≥ 2 ^ 64 - 1 - centralDirLen data
  · rw [if_pos wraps, if_pos wraps]
    rfl
  rw [if_neg wraps, if_neg wraps]
  by_cases short : readLen < centralDirEntryLen + fileNameLength (leValue (data 28 2))
  · rw [if_pos short, if_pos short]
    rfl
  · rw [if_neg short, if_neg short]
    simp only [Traced.result_bind, Traced.result_emit, Option.bind_some,
      result_doDecodeCentralDirEntryReads, Traced.result_pure]

theorem decodeCentralDirEntry_isSome_iff {currentPos : Nat} :
    (decodeCentralDirEntry data readLen currentPos).isSome = true ↔
      RecordAccepted data readLen currentPos := by
  rw [decodeCentralDirEntry]
  constructor
  · intro accepted
    split at accepted
    · cases accepted
    split at accepted
    · cases accepted
    split at accepted
    · cases accepted
    split at accepted
    · cases accepted
    · rename_i fixed signature position name
      exact ⟨by omega, not_not.mp signature, by omega, by omega⟩
  · rintro ⟨fixed, signature, position, name⟩
    rw [if_neg (by omega), if_neg (not_not.mpr signature), if_neg (by omega), if_neg (by omega)]
    rfl

/-- The fields of fixed place are inside; those of the extra field may not be. -/
theorem doDecodeCentralDirEntryReads_inside_iff (identity : Bytes)
    (fixed : centralDirEntryLen ≤ readLen) :
    (doDecodeCentralDirEntryReads data readLen identity (leValue (data 28 2))
      (leValue (data 30 2))).All DirectoryEvent.Inside ↔ ExtraInside data readLen := by
  have size : centralDirEntryLen = 46 := rfl
  have big : bigSizeHeader = 20 := rfl
  have fields : (10 + 2 ≤ readLen ∧ 12 + 2 ≤ readLen ∧ 14 + 2 ≤ readLen ∧ 16 + 4 ≤ readLen ∧
      20 + 4 ≤ readLen ∧ 24 + 4 ≤ readLen ∧ 42 + 4 ≤ readLen) := by omega
  obtain ⟨method, time, date, crc, packedSize, unpackedSize, headerOffset⟩ := fields
  simp only [doDecodeCentralDirEntryReads, Traced.all_bind, Traced.all_ite, Traced.all_pure,
    all_readField, result_readField, Option.some.injEq, forall_eq', DirectoryEvent.inside_read,
    method, time, date, crc, packedSize, unpackedSize, headerOffset, ExtraInside, implies_true,
    and_true, true_and, not_not, ne_eq, big]
  -- the first size of zip64 ends before the second
  have second (extraData : Nat) (rest : Prop) :
      (extraData + 4 + 8 ≤ readLen ∧ extraData + 12 + 8 ≤ readLen ∧ rest) ↔
        extraData + 20 ≤ readLen ∧ rest := by
    rw [← and_assoc]
    exact and_congr_left fun _ => by omega
  simp only [second]

/-- `DecodeCentralDirEntry` reads inside the bytes of the buffer, but for the extra field of
an entry that passes the checks. -/
theorem decodeCentralDirEntryReads_inside_iff (currentPos : Nat) :
    (decodeCentralDirEntryReads data readLen currentPos).All DirectoryEvent.Inside ↔
      (RecordAccepted data readLen currentPos → ExtraInside data readLen) := by
  have size : centralDirEntryLen = 46 := rfl
  have sum : centralDirEntryLen + leValue (data 28 2) + leValue (data 30 2) + leValue (data 32 2) =
      centralDirLen data := rfl
  rw [decodeCentralDirEntryReads]
  by_cases short : readLen < centralDirEntryLen
  · rw [if_pos short]
    have refused : ¬ RecordAccepted data readLen currentPos := by
      intro accepted
      have fixed := accepted.fixed
      omega
    simp only [Traced.all_reject, refused, false_imp_iff]
  have fields : 0 + 4 ≤ readLen ∧ 28 + 2 ≤ readLen ∧ 30 + 2 ≤ readLen ∧ 32 + 2 ≤ readLen := by
    omega
  obtain ⟨signature, nameSize, extraSize, commentSize⟩ := fields
  rw [if_neg short]
  simp only [Traced.all_bind, Traced.all_ite, Traced.all_pure, Traced.all_reject, Traced.all_emit,
    all_readField, result_readField, Option.some.injEq, forall_eq', DirectoryEvent.inside_read,
    signature, nameSize, extraSize, commentSize, implies_true, and_true, true_and, not_not, ne_eq,
    sum, doDecodeCentralDirEntryReads_inside_iff _ (Nat.le_of_not_lt short), Traced.result_emit,
    List.mem_singleton, forall_eq, DirectoryEvent.inside_entry]
  constructor
  · rintro inside ⟨-, signed, position, name⟩
    exact (inside signed (by omega) (by omega)).2 () trivial
  · intro inside signed position name
    exact ⟨by omega, fun _ _ => inside ⟨by omega, signed, by omega, by omega⟩⟩

/-- The length that comes back is that of the bytes in the buffer. -/
theorem decodeCentralDirEntryReads_fullLength {file : Bytes} {currentPos : Nat}
    (same : centralDirEntryLen ≤ readLen →
      centralDirLen data = centralDirLen (fileField file currentPos)) :
    (decodeCentralDirEntryReads data readLen currentPos).All (DirectoryEvent.FullLength file) := by
  have sum : centralDirEntryLen + leValue (data 28 2) + leValue (data 30 2) + leValue (data 32 2) =
      centralDirLen data := rfl
  have fields (identity : Bytes) (nameSize extraSize : Nat) :
      (doDecodeCentralDirEntryReads data readLen identity nameSize extraSize).All
        (DirectoryEvent.FullLength file) := by
    simp only [doDecodeCentralDirEntryReads, Traced.all_bind, Traced.all_ite, Traced.all_pure,
      all_readField, DirectoryEvent.fullLength_read, implies_true, and_true]
  simp only [decodeCentralDirEntryReads, Traced.all_bind, Traced.all_ite, Traced.all_pure,
    Traced.all_reject, Traced.all_emit, all_readField, result_readField, Option.some.injEq,
    forall_eq', DirectoryEvent.fullLength_read, implies_true, and_true, true_and, sum, fields,
    List.mem_singleton, forall_eq, DirectoryEvent.fullLength_entry]
  intro enough _ _ _
  exact fun _ _ _ _ => same (Nat.le_of_not_lt enough)

/-- What is inside the bytes read decides what is decoded. -/
theorem doDecodeCentralDirEntry_inside {data' : Nat → Nat → Bytes} (identity : Bytes)
    (agree : AgreeUpTo readLen data data') (fixed : centralDirEntryLen ≤ readLen)
    (inside : ExtraInside data readLen) :
    doDecodeCentralDirEntry data identity (leValue (data 28 2)) (leValue (data 30 2)) =
      doDecodeCentralDirEntry data' identity (leValue (data' 28 2)) (leValue (data' 30 2)) := by
  have size : centralDirEntryLen = 46 := rfl
  have big : bigSizeHeader = 20 := rfl
  have nameSize := agree 28 2 (by omega)
  have extraSize := agree 30 2 (by omega)
  simp only [doDecodeCentralDirEntry, ← nameSize, ← extraSize, ← agree 10 2 (by omega),
    ← agree 12 2 (by omega), ← agree 14 2 (by omega), ← agree 16 4 (by omega),
    ← agree 20 4 (by omega), ← agree 24 4 (by omega), ← agree 42 4 (by omega)]
  by_cases none : leValue (data 30 2) = 0
  · simp only [none, true_or, if_true]
  obtain ⟨idInside, zip64⟩ := inside none
  rw [← agree _ 2 idInside]
  by_cases id : leValue (data (leValue (data 28 2) + centralDirEntryLen) 2) = 1
  · obtain ⟨sizesInside, offsetInside⟩ := zip64 id
    simp only [none, id, ← agree (leValue (data 28 2) + centralDirEntryLen + 4) 8 (by omega),
      ← agree (leValue (data 28 2) + centralDirEntryLen + 12) 8 (by omega)]
    by_cases sizes : leValue (data 20 4) = uintMax ∨ leValue (data 24 4) = uintMax
    · by_cases offset : leValue (data 42 4) = uintMax
      · rw [← agree _ 8 (offsetInside sizes offset)]
      · simp only [offset, if_false]
    · simp only [sizes, if_false]
  · simp only [none, id, ne_eq, not_false_eq_true, or_true, if_true]

theorem RecordAccepted.congr {data' : Nat → Nat → Bytes} {currentPos : Nat}
    (agree : AgreeUpTo readLen data data') (accepted : RecordAccepted data readLen currentPos) :
    RecordAccepted data' readLen currentPos := by
  have size : centralDirEntryLen = 46 := rfl
  have fixed := accepted.fixed
  constructor
  · exact fixed
  · rw [← agree 0 4 (by omega)]
    exact accepted.signature
  · rw [← centralDirLen_congr agree fixed]
    exact accepted.position
  · rw [← agree 28 2 (by omega)]
    exact accepted.name

theorem ExtraInside.congr {data' : Nat → Nat → Bytes} (agree : AgreeUpTo readLen data data')
    (fixed : centralDirEntryLen ≤ readLen) (inside : ExtraInside data readLen) :
    ExtraInside data' readLen := by
  have size : centralDirEntryLen = 46 := rfl
  rw [ExtraInside, ← agree 28 2 (by omega), ← agree 30 2 (by omega), ← agree 20 4 (by omega),
    ← agree 24 4 (by omega), ← agree 42 4 (by omega)]
  intro extended
  obtain ⟨idInside, zip64⟩ := inside extended
  rw [← agree _ 2 idInside]
  exact ⟨idInside, zip64⟩

theorem AgreeUpTo.symm {data' : Nat → Nat → Bytes} (agree : AgreeUpTo readLen data data') :
    AgreeUpTo readLen data' data :=
  fun start count within => (agree start count within).symm

end

/-- How many bytes of the file a read into the buffer of `ParseFileEntries` gives. -/
def bytesAt (file : Bytes) (pos : Nat) : Nat :=
  min zipBuffLen (file.length - pos)

/-- The record at a position passes the checks of the directory. -/
structure RecordAt (file : Bytes) (pos : Nat) : Prop where
  position : pos < 2 ^ 64 - 1 - zipBuffLen
  accepted : RecordAccepted (fileField file pos) (bytesAt file pos) pos

/-- The length of a local header with its name and extra field. -/
def localHeaderSize (file : Bytes) (offset : Nat) : Nat :=
  localFileHeaderLen + leValue (fileField file offset 26 2) + leValue (fileField file offset 28 2)

/-- The data descriptor behind an entry repeats its checksum. -/
structure DescriptorAccepted (file : Bytes) (entry : ZipEntry) (pos : Nat) : Prop where
  fixed : dataDescriptorLen ≤ bytesAt file pos
  signature : leValue (fileField file pos 0 4) = dataDescSignature
  crc : leValue (fileField file pos 4 4) = entry.crc32

/-- The local header of an entry agrees with its record. -/
structure HeaderAccepted (file : Bytes) (entry : ZipEntry) : Prop where
  fixed : localFileHeaderLen ≤ bytesAt file entry.headerOffset
  signature : leValue (fileField file entry.headerOffset 0 4) = localHeaderSignature
  position : entry.headerOffset < 2 ^ 64 - 1 - localHeaderSize file entry.headerOffset
  named : localFileHeaderLen + fileNameLength (leValue (fileField file entry.headerOffset 26 2)) ≤
    bytesAt file entry.headerOffset
  name : fileField file entry.headerOffset localFileHeaderLen
    (fileNameLength (leValue (fileField file entry.headerOffset 26 2))) = entry.identity
  described : leValue (fileField file entry.headerOffset 6 2) &&& gpbddFlagMask = gpbddFlagMask →
    DescriptorAccepted file entry
      ((entry.headerOffset + localHeaderSize file entry.headerOffset + entry.packedSize) % 2 ^ 64)
  plain : leValue (fileField file entry.headerOffset 6 2) &&& gpbddFlagMask ≠ gpbddFlagMask →
    leValue (fileField file entry.headerOffset 14 4) = entry.crc32

/-- Of each record that follows on accepted entries, the extra field was read as far as it
is decoded. -/
def ExtrasInside (file : Bytes) : Nat → Nat → Prop
  | 0, _ => True
  | count + 1, pos => RecordAt file pos →
      ExtraInside (fileField file pos) (bytesAt file pos) ∧
        (HeaderAccepted file (centralAt file pos) →
          ExtrasInside file count (pos + centralDirLen (fileField file pos)))

/-- So many entries that follow on each other are accepted. -/
def DirectoryAccepted (file : Bytes) : Nat → Nat → Prop
  | 0, _ => True
  | count + 1, pos => RecordAt file pos ∧ HeaderAccepted file (centralAt file pos) ∧
      DirectoryAccepted file count (pos + centralDirLen (fileField file pos))

/-- Where so many entries end. -/
def directoryEnd (file : Bytes) : Nat → Nat → Nat
  | 0, pos => pos
  | count + 1, pos => directoryEnd file count (pos + centralDirLen (fileField file pos))

namespace ZipInput

variable (input : ZipInput)

/-- `decodeHeader` with the reads of the central directory. -/
def decodeHeaderReads (buffer : Bytes) (headerOffset : Nat) :
    Traced DirectoryEvent (ZipEntry × Nat × Bytes) :=
  if headerOffset ≥ 2 ^ 64 - 1 - buffer.length then Traced.reject
  else do
    let (buffer, readLen) ← Traced.ofOption (input.readAll buffer headerOffset)
    let (entry, decodeLen) ←
      decodeCentralDirEntryReads (input.memory buffer) readLen headerOffset
    let (method, headerLen, buffer) ←
      Traced.ofOption (input.decodeLocalFileHeader entry buffer entry.headerOffset)
    pure ({ entry with method, dataOffset := entry.headerOffset + headerLen }, decodeLen, buffer)

/-- `parseFileEntries` with its reads; gives the position behind the last entry as well. -/
def parseFileEntriesReads : Nat → Nat → Bytes → Traced DirectoryEvent (List ZipEntry × Nat)
  | 0, currentPos, _ => pure ([], currentPos)
  | count + 1, currentPos, buffer =>
      if input.file.length ≤ currentPos then Traced.reject
      else do
        let (entry, decodeLen, buffer) ← input.decodeHeaderReads buffer currentPos
        let (entries, stop) ← parseFileEntriesReads count (currentPos + decodeLen) buffer
        pure (entry :: entries, stop)

/-- `ParseFileEntries` with a buffer of its own. -/
def parseDirectory (endDir : EndCentralDir) (currentPos : Nat) :
    Traced DirectoryEvent (List ZipEntry × Nat) :=
  input.parseFileEntriesReads endDir.totalEntries currentPos (List.replicate zipBuffLen 0)

/-- All reads are inside the bytes read, each length is that of the whole entry, and a run
that succeeds has gone over the entries that the record declares, one behind the other. -/
structure DirectoryKept (endDir : EndCentralDir) (pos : Nat) : Prop where
  inside : (input.parseDirectory endDir pos).All DirectoryEvent.Inside
  lengths : (input.parseDirectory endDir pos).All (DirectoryEvent.FullLength input.file)
  consumed : ∀ entries stop, (input.parseDirectory endDir pos).result = some (entries, stop) →
    entries.length = endDir.totalEntries ∧ stop = directoryEnd input.file endDir.totalEntries pos

/-- A run that succeeds ends where the declared size of the directory says. -/
def EndsAtSize (endDir : EndCentralDir) (pos : Nat) : Prop :=
  ∀ entries stop, (input.parseDirectory endDir pos).result = some (entries, stop) →
    stop = pos + endDir.sizeOfCentralDir

variable {input}

theorem result_decodeHeaderReads (buffer : Bytes) (headerOffset : Nat) :
    (input.decodeHeaderReads buffer headerOffset).result =
      input.decodeHeader buffer headerOffset := by
  rw [decodeHeaderReads, decodeHeader]
  split
  · rfl
  · simp only [Traced.result_bind, Traced.result_ofOption, Traced.result_pure,
      result_decodeCentralDirEntryReads]
    rfl

/-- The reads do not change what is parsed. -/
theorem result_parseFileEntriesReads (count currentPos : Nat) (buffer : Bytes) :
    (input.parseFileEntriesReads count currentPos buffer).result.map Prod.fst =
      input.parseFileEntries count currentPos buffer := by
  induction count generalizing currentPos buffer with
  | zero => rfl
  | succ count ih =>
      rw [parseFileEntriesReads, parseFileEntries]
      split
      · rfl
      · simp only [Traced.result_bind, result_decodeHeaderReads, Traced.result_pure]
        cases input.decodeHeader buffer currentPos with
        | none => rfl
        | some decoded =>
            obtain ⟨entry, decodeLen, last⟩ := decoded
            simp only [Option.bind_some, Option.bind_eq_bind, ← ih]
            cases (input.parseFileEntriesReads count (currentPos + decodeLen) last).result with
            | none => rfl
            | some rest => rfl

theorem readAll_behind {buffer : Bytes} {pos : Nat} (behind : input.file.length ≤ pos) :
    input.readAll buffer pos = none := by
  have empty : slice input.file pos buffer.length = [] := by
    rw [slice, List.drop_eq_nil_of_le behind, List.take_nil]
  rw [readAll, readInto, fileRead, if_pos (Or.inr empty)]
  rfl

/-- A read into the buffer leaves the bytes of the file, as many as there are. -/
theorem readAll_bytesAt {buffer next : Bytes} {pos readLen : Nat}
    (size : buffer.length = zipBuffLen) (read : input.readAll buffer pos = some (next, readLen)) :
    next.length = zipBuffLen ∧ readLen = bytesAt input.file pos ∧
      AgreeUpTo readLen (input.memory next) (fileField input.file pos) := by
  by_cases before : pos < input.file.length
  · obtain ⟨next', read', nextSize, agree⟩ := @readAll_file input _ _ size before
    rw [read] at read'
    cases read'
    exact ⟨nextSize, rfl, agree⟩
  · rw [readAll_behind (by omega)] at read
    cases read

theorem bytesAt_eq_zero {buffer : Bytes} {pos : Nat} (size : buffer.length = zipBuffLen)
    (read : input.readAll buffer pos = none) : bytesAt input.file pos = 0 := by
  by_cases before : pos < input.file.length
  · obtain ⟨next, read', -⟩ := @readAll_file input _ _ size before
    rw [read] at read'
    cases read'
  · rw [bytesAt, Nat.sub_eq_zero_of_le (by omega), Nat.min_zero]

/-- `DecodeLocalFileHeaderCheck` behind a local header, whose bytes the buffer holds. -/
theorem decodeLocalFileHeaderCheck_isSome_iff {buffer : Bytes} {entry : ZipEntry} {pos : Nat}
    (size : buffer.length = zipBuffLen)
    (agree : AgreeUpTo localFileHeaderLen (input.memory buffer)
      (fileField input.file entry.headerOffset)) :
    (input.decodeLocalFileHeaderCheck entry buffer pos).isSome = true ↔
      (leValue (fileField input.file entry.headerOffset 6 2) &&& gpbddFlagMask = gpbddFlagMask →
        DescriptorAccepted input.file entry ((pos + entry.packedSize) % 2 ^ 64)) ∧
      (leValue (fileField input.file entry.headerOffset 6 2) &&& gpbddFlagMask ≠ gpbddFlagMask →
        leValue (fileField input.file entry.headerOffset 14 4) = entry.crc32) := by
  have headerLen : localFileHeaderLen = 30 := rfl
  have descLen : dataDescriptorLen = 16 := rfl
  simp only [decodeLocalFileHeaderCheck, agree 6 2 (by omega), agree 14 4 (by omega)]
  by_cases described :
      leValue (fileField input.file entry.headerOffset 6 2) &&& gpbddFlagMask = gpbddFlagMask
  · simp only [described, if_true, ne_eq, not_true_eq_false, forall_const, false_imp_iff, and_true,
      Option.bind_eq_bind]
    cases read : input.readAll buffer ((pos + entry.packedSize) % 2 ^ 64) with
    | none =>
        have empty := bytesAt_eq_zero size read
        constructor
        · intro accepted
          cases accepted
        · intro accepted
          have fixed := accepted.fixed
          omega
    | some desc =>
        obtain ⟨next, readLen⟩ := desc
        obtain ⟨-, rfl, descAgree⟩ := readAll_bytesAt size read
        simp only [Option.bind_some]
        constructor
        · intro accepted
          split at accepted
          · cases accepted
          rename_i fixed
          split at accepted
          · cases accepted
          rename_i signature
          split at accepted
          · cases accepted
          rename_i crc
          rw [descAgree 0 4 (by omega)] at signature
          rw [descAgree 4 4 (by omega)] at crc
          exact ⟨by omega, not_not.mp signature, (not_not.mp crc).symm⟩
        · rintro ⟨fixed, signature, crc⟩
          rw [if_neg (by omega), if_neg, if_neg]
          · rfl
          · rw [descAgree 4 4 (by omega), crc]
            exact not_not.mpr rfl
          · rw [descAgree 0 4 (by omega)]
            exact not_not.mpr signature
  · simp only [described, if_false, false_imp_iff, ne_eq, not_false_eq_true, forall_const, true_and]
    constructor
    · intro accepted
      split at accepted
      · cases accepted
      · rename_i crc
        exact (not_not.mp crc).symm
    · intro crc
      rw [if_neg (not_not.mpr crc.symm)]
      rfl

/-- `DecodeLocalFileHeader` accepts by the bytes of the file alone. -/
theorem decodeLocalFileHeader_isSome_iff {buffer : Bytes} {entry : ZipEntry}
    (size : buffer.length = zipBuffLen) :
    (input.decodeLocalFileHeader entry buffer entry.headerOffset).isSome = true ↔
      HeaderAccepted input.file entry := by
  have headerLen : localFileHeaderLen = 30 := rfl
  simp only [decodeLocalFileHeader, Option.bind_eq_bind]
  cases read : input.readAll buffer entry.headerOffset with
  | none =>
      have empty := bytesAt_eq_zero size read
      constructor
      · intro accepted
        cases accepted
      · intro accepted
        have fixed := accepted.fixed
        omega
  | some header =>
      obtain ⟨next, readLen⟩ := header
      obtain ⟨nextSize, rfl, agree⟩ := readAll_bytesAt size read
      simp only [Option.bind_some]
      by_cases fixed : bytesAt input.file entry.headerOffset < localFileHeaderLen
      · rw [if_pos fixed]
        constructor
        · intro accepted
          cases accepted
        · intro accepted
          have enough := accepted.fixed
          omega
      have fields : AgreeUpTo localFileHeaderLen (input.memory next)
          (fileField input.file entry.headerOffset) :=
        fun start count within => agree start count (by omega)
      have checked : (input.decodeLocalFileHeaderCheck entry next
          (entry.headerOffset + localHeaderSize input.file entry.headerOffset)).isSome = true ↔ _ :=
        decodeLocalFileHeaderCheck_isSome_iff nextSize fields
      have sum : localFileHeaderLen + leValue (fileField input.file entry.headerOffset 26 2) +
          leValue (fileField input.file entry.headerOffset 28 2) =
          localHeaderSize input.file entry.headerOffset := rfl
      rw [if_neg fixed, agree 0 4 (by omega), agree 26 2 (by omega), agree 28 2 (by omega),
        agree 8 2 (by omega), sum]
      constructor
      · intro accepted
        split at accepted
        · cases accepted
        rename_i signature
        split at accepted
        · cases accepted
        rename_i position
        split at accepted
        · cases accepted
        rename_i named
        split at accepted
        · cases accepted
        rename_i name
        rw [agree localFileHeaderLen _ (by omega)] at name
        rw [Option.isSome_bind, Option.any_eq_true] at accepted
        obtain ⟨last, passed, -⟩ := accepted
        obtain ⟨described, plain⟩ := checked.mp (Option.isSome_of_mem passed)
        exact ⟨by omega, not_not.mp signature, by omega, by omega, (not_not.mp name).symm,
          described, plain⟩
      · rintro ⟨-, signature, position, named, name, described, plain⟩
        obtain ⟨last, passed⟩ := Option.isSome_iff_exists.mp (checked.mpr ⟨described, plain⟩)
        rw [if_neg (not_not.mpr signature), if_neg (by omega), if_neg (by omega), if_neg, passed]
        · rfl
        · rw [agree localFileHeaderLen _ named, name]
          exact not_not.mpr rfl

/-- Step lemma: the reads of `DecodeHeader` on the central directory. -/
theorem decodeHeaderReads_inside_iff {buffer : Bytes} {pos : Nat}
    (size : buffer.length = zipBuffLen) :
    (input.decodeHeaderReads buffer pos).All DirectoryEvent.Inside ↔
      (RecordAt input.file pos →
        ExtraInside (fileField input.file pos) (bytesAt input.file pos)) := by
  have recordLen : centralDirEntryLen = 46 := rfl
  rw [decodeHeaderReads, size]
  by_cases wraps : pos ≥ 2 ^ 64 - 1 - zipBuffLen
  · rw [if_pos wraps]
    have refused : ¬ RecordAt input.file pos := fun record => by
      have position := record.position
      omega
    simp only [Traced.all_reject, refused, false_imp_iff]
  rw [if_neg wraps]
  cases read : input.readAll buffer pos with
  | none =>
      have empty := bytesAt_eq_zero size read
      have refused : ¬ RecordAt input.file pos := fun record => by
        have fixed := record.accepted.fixed
        omega
      simp only [Traced.all_bind, Traced.all_ofOption, Traced.result_ofOption, reduceCtorEq,
        false_imp_iff, implies_true, and_true, refused]
  | some found =>
      obtain ⟨next, readLen⟩ := found
      obtain ⟨-, rfl, agree⟩ := readAll_bytesAt size read
      simp only [Traced.all_bind, Traced.all_ofOption, Traced.all_pure, Traced.result_ofOption,
        Option.some.injEq, forall_eq', implies_true, and_true, true_and,
        decodeCentralDirEntryReads_inside_iff]
      constructor
      · intro inside record
        exact (inside (record.accepted.congr agree.symm)).congr agree record.accepted.fixed
      · intro inside accepted
        exact (inside ⟨by omega, accepted.congr agree⟩).congr agree.symm accepted.fixed

/-- Step lemma: the length that `DecodeHeader` gives. -/
theorem decodeHeaderReads_fullLength {buffer : Bytes} {pos : Nat}
    (size : buffer.length = zipBuffLen) :
    (input.decodeHeaderReads buffer pos).All (DirectoryEvent.FullLength input.file) := by
  rw [decodeHeaderReads]
  split
  · exact Traced.all_reject
  cases read : input.readAll buffer pos with
  | none =>
      simp only [Traced.all_bind, Traced.all_ofOption, Traced.result_ofOption, reduceCtorEq,
        false_imp_iff, implies_true, and_true]
  | some found =>
      obtain ⟨next, readLen⟩ := found
      obtain ⟨-, rfl, agree⟩ := readAll_bytesAt size read
      simp only [Traced.all_bind, Traced.all_ofOption, Traced.all_pure, Traced.result_ofOption,
        Option.some.injEq, forall_eq', implies_true, and_true, true_and]
      exact decodeCentralDirEntryReads_fullLength (centralDirLen_congr agree)

/-- What `DecodeHeader` leaves for the next entry. -/
theorem decodeHeader_some {buffer last : Bytes} {pos decodeLen : Nat} {entry : ZipEntry}
    (size : buffer.length = zipBuffLen)
    (decoded : input.decodeHeader buffer pos = some (entry, decodeLen, last)) :
    decodeLen = centralDirLen (fileField input.file pos) ∧ last.length = zipBuffLen := by
  rw [decodeHeader] at decoded
  split at decoded
  · cases decoded
  simp only [Option.bind_eq_bind] at decoded
  obtain ⟨⟨next, readLen⟩, read, decoded⟩ := Option.bind_eq_some_iff.mp decoded
  obtain ⟨⟨record, recordLen⟩, central, decoded⟩ := Option.bind_eq_some_iff.mp decoded
  obtain ⟨⟨method, headerLen, final⟩, header, decoded⟩ := Option.bind_eq_some_iff.mp decoded
  cases decoded
  obtain ⟨nextSize, rfl, agree⟩ := readAll_bytesAt size read
  have fixed := (decodeCentralDirEntry_isSome_iff.mp (Option.isSome_of_mem central)).fixed
  rw [(decodeCentralDirEntry_some central).1, centralDirLen_congr agree fixed,
    length_decodeLocalFileHeader header, nextSize]
  exact ⟨rfl, rfl⟩

/-- Step lemma: where all reads are inside, the bytes of the file decide. -/
theorem decodeHeader_isSome_iff {buffer : Bytes} {pos : Nat} (size : buffer.length = zipBuffLen)
    (inside : RecordAt input.file pos →
      ExtraInside (fileField input.file pos) (bytesAt input.file pos)) :
    (input.decodeHeader buffer pos).isSome = true ↔
      RecordAt input.file pos ∧ HeaderAccepted input.file (centralAt input.file pos) := by
  have recordLen : centralDirEntryLen = 46 := rfl
  rw [decodeHeader, size]
  by_cases wraps : pos ≥ 2 ^ 64 - 1 - zipBuffLen
  · rw [if_pos wraps]
    constructor
    · intro accepted
      cases accepted
    · rintro ⟨record, -⟩
      have position := record.position
      omega
  rw [if_neg wraps]
  cases read : input.readAll buffer pos with
  | none =>
      have empty := bytesAt_eq_zero size read
      constructor
      · intro accepted
        cases accepted
      · rintro ⟨record, -⟩
        have fixed := record.accepted.fixed
        omega
  | some found =>
      obtain ⟨next, readLen⟩ := found
      obtain ⟨nextSize, rfl, agree⟩ := readAll_bytesAt size read
      simp only [Option.bind_eq_bind, Option.bind_some]
      cases central : decodeCentralDirEntry (input.memory next) (bytesAt input.file pos) pos with
      | none =>
          constructor
          · intro accepted
            cases accepted
          · rintro ⟨record, -⟩
            have found := decodeCentralDirEntry_isSome_iff.mpr (record.accepted.congr agree.symm)
            rw [central] at found
            cases found
      | some pair =>
          obtain ⟨entry, decodeLen⟩ := pair
          have accepted := decodeCentralDirEntry_isSome_iff.mp (Option.isSome_of_mem central)
          have record : RecordAt input.file pos := ⟨by omega, accepted.congr agree⟩
          have same : entry = centralAt input.file pos := by
            rw [(decodeCentralDirEntry_some central).2, doDecodeCentralDirEntry_inside _ agree
              accepted.fixed ((inside record).congr agree.symm accepted.fixed),
              agree 28 2 (by have fixed := accepted.fixed; omega), agree _ _ record.accepted.name]
            rfl
          simp only [Option.bind_some, ← same, record, true_and,
            ← decodeLocalFileHeader_isSome_iff nextSize]
          cases input.decodeLocalFileHeader entry next entry.headerOffset with
          | none => exact Iff.rfl
          | some header => exact Iff.rfl

theorem not_recordAt_behind {pos : Nat} (behind : input.file.length ≤ pos) :
    ¬ RecordAt input.file pos := by
  intro record
  have recordLen : centralDirEntryLen = 46 := rfl
  have fixed := record.accepted.fixed
  rw [bytesAt, Nat.sub_eq_zero_of_le behind, Nat.min_zero] at fixed
  omega

/-- Run lemma: the reads of the whole loop. -/
theorem parseFileEntriesReads_inside_iff {count pos : Nat} {buffer : Bytes}
    (size : buffer.length = zipBuffLen) :
    (input.parseFileEntriesReads count pos buffer).All DirectoryEvent.Inside ↔
      ExtrasInside input.file count pos := by
  induction count generalizing pos buffer with
  | zero => exact iff_of_true (Traced.all_pure _) trivial
  | succ count ih =>
      rw [parseFileEntriesReads, ExtrasInside]
      by_cases behind : input.file.length ≤ pos
      · rw [if_pos behind]
        exact iff_of_true Traced.all_reject
          fun record => absurd record (not_recordAt_behind behind)
      rw [if_neg behind]
      simp only [Traced.all_bind, Traced.all_pure, decodeHeaderReads_inside_iff size,
        result_decodeHeaderReads, implies_true, and_true]
      constructor
      · rintro ⟨first, rest⟩ record
        refine ⟨first record, fun header => ?_⟩
        obtain ⟨⟨entry, decodeLen, last⟩, decoded⟩ := Option.isSome_iff_exists.mp
          ((decodeHeader_isSome_iff size first).mpr ⟨record, header⟩)
        obtain ⟨rfl, lastSize⟩ := decodeHeader_some size decoded
        exact (ih lastSize).mp (rest _ decoded)
      · intro inside
        refine ⟨fun record => (inside record).1, ?_⟩
        rintro ⟨entry, decodeLen, last⟩ decoded
        obtain ⟨record, header⟩ := (decodeHeader_isSome_iff size fun record =>
          (inside record).1).mp (Option.isSome_of_mem decoded)
        obtain ⟨rfl, lastSize⟩ := decodeHeader_some size decoded
        exact (ih lastSize).mpr ((inside record).2 header)

/-- Run lemma: the lengths of the whole loop. -/
theorem parseFileEntriesReads_fullLength {count pos : Nat} {buffer : Bytes}
    (size : buffer.length = zipBuffLen) :
    (input.parseFileEntriesReads count pos buffer).All (DirectoryEvent.FullLength input.file) := by
  induction count generalizing pos buffer with
  | zero => exact Traced.all_pure _
  | succ count ih =>
      rw [parseFileEntriesReads]
      split
      · exact Traced.all_reject
      simp only [Traced.all_bind, Traced.all_pure, decodeHeaderReads_fullLength size,
        result_decodeHeaderReads, implies_true, and_true, true_and]
      rintro ⟨entry, decodeLen, last⟩ decoded
      exact ih (decodeHeader_some size decoded).2

/-- Run lemma: a loop that succeeds takes every entry, each behind the one before it. -/
theorem parseFileEntriesReads_some {count pos stop : Nat} {buffer : Bytes}
    {entries : List ZipEntry} (size : buffer.length = zipBuffLen)
    (parsed : (input.parseFileEntriesReads count pos buffer).result = some (entries, stop)) :
    entries.length = count ∧ stop = directoryEnd input.file count pos := by
  induction count generalizing pos buffer entries with
  | zero =>
      cases parsed
      exact ⟨rfl, rfl⟩
  | succ count ih =>
      rw [parseFileEntriesReads] at parsed
      split at parsed
      · cases parsed
      simp only [Traced.result_bind, result_decodeHeaderReads, Traced.result_pure] at parsed
      obtain ⟨⟨entry, decodeLen, last⟩, decoded, parsed⟩ := Option.bind_eq_some_iff.mp parsed
      obtain ⟨⟨rest, restStop⟩, restParsed, parsed⟩ := Option.bind_eq_some_iff.mp parsed
      cases parsed
      obtain ⟨rfl, lastSize⟩ := decodeHeader_some size decoded
      obtain ⟨restLength, restEnd⟩ := ih lastSize restParsed
      rw [List.length_cons, restLength, restEnd]
      exact ⟨rfl, rfl⟩

/-- Run lemma: where all reads are inside, the loop succeeds for an accepted directory. -/
theorem parseFileEntriesReads_isSome_iff {count pos : Nat} {buffer : Bytes}
    (size : buffer.length = zipBuffLen) (inside : ExtrasInside input.file count pos) :
    (input.parseFileEntriesReads count pos buffer).result.isSome = true ↔
      DirectoryAccepted input.file count pos := by
  induction count generalizing pos buffer with
  | zero => exact iff_of_true rfl trivial
  | succ count ih =>
      have decided := decodeHeader_isSome_iff size fun record => (inside record).1
      rw [parseFileEntriesReads, DirectoryAccepted, ← and_assoc, ← decided]
      by_cases behind : input.file.length ≤ pos
      · rw [if_pos behind, decided]
        refine iff_of_false (fun accepted => by cases accepted) ?_
        rintro ⟨⟨record, -⟩, -⟩
        exact not_recordAt_behind behind record
      rw [if_neg behind]
      simp only [Traced.result_bind, result_decodeHeaderReads, Traced.result_pure]
      cases decoded : input.decodeHeader buffer pos with
      | none =>
          simp only [Option.bind_none, Option.isSome_none, Bool.false_eq_true, false_and]
      | some found =>
          obtain ⟨entry, decodeLen, last⟩ := found
          obtain ⟨rfl, lastSize⟩ := decodeHeader_some size decoded
          rw [decoded] at decided
          obtain ⟨record, header⟩ := decided.mp rfl
          simp only [Option.bind_some, Option.isSome_some, true_and,
            ← ih lastSize ((inside record).2 header)]
          cases (input.parseFileEntriesReads count _ last).result with
          | none => exact Iff.rfl
          | some rest => exact Iff.rfl

/-- The reads stay inside, and the loop takes the declared entries with their whole lengths
or fails, if and only if each extra field was read as far as it is decoded; it then ends
where the size of the directory says if and only if the lengths of its entries add up. -/
theorem parseDirectory_kept_iff (input : ZipInput) (endDir : EndCentralDir) (pos : Nat) :
    (input.DirectoryKept endDir pos ↔ ExtrasInside input.file endDir.totalEntries pos) ∧
      (input.DirectoryKept endDir pos ∧ input.EndsAtSize endDir pos ↔
        ExtrasInside input.file endDir.totalEntries pos ∧
          (DirectoryAccepted input.file endDir.totalEntries pos →
            directoryEnd input.file endDir.totalEntries pos = pos + endDir.sizeOfCentralDir)) := by
  have size : (List.replicate zipBuffLen (0 : UInt8)).length = zipBuffLen := List.length_replicate
  have kept : input.DirectoryKept endDir pos ↔
      ExtrasInside input.file endDir.totalEntries pos := by
    constructor
    · intro kept
      exact (parseFileEntriesReads_inside_iff size).mp kept.inside
    · intro inside
      exact {
        inside := (parseFileEntriesReads_inside_iff size).mpr inside
        lengths := parseFileEntriesReads_fullLength size
        consumed := fun entries stop parsed => parseFileEntriesReads_some size parsed }
  refine ⟨kept, ?_⟩
  rw [kept]
  refine and_congr_right fun inside => ?_
  have decided := parseFileEntriesReads_isSome_iff size inside
  constructor
  · intro ends accepted
    obtain ⟨⟨entries, stop⟩, parsed⟩ := Option.isSome_iff_exists.mp (decided.mpr accepted)
    rw [← (parseFileEntriesReads_some size parsed).2]
    exact ends entries stop parsed
  · intro adds entries stop parsed
    rw [(parseFileEntriesReads_some size parsed).2]
    exact adds (decided.mp (Option.isSome_of_mem parsed))

end ZipInput

/-- A directory of one entry, whose name ends behind the buffer and has an extra field. -/
def longNameZip : Bytes :=
  leBytes 4 centralSignature ++ List.replicate 24 0 ++ leBytes 2 400 ++ leBytes 2 1 ++
    List.replicate 14 0 ++ List.replicate 400 97 ++ [0] ++
    leBytes 4 endCentralSignature ++ List.replicate 4 0 ++ leBytes 2 1 ++ leBytes 2 1 ++
    leBytes 4 447 ++ leBytes 4 0 ++ leBytes 2 0

set_option maxRecDepth 20000 in
/-- The id of its extra field is read 78 bytes behind what was read of the file. -/
theorem longNameZip_outside :
    ZipInput.endDirAccepted ⟨longNameZip, fun _ => 0⟩ (readEndDir (fileField longNameZip 447)) =
        true ∧
      ¬ ZipInput.DirectoryKept ⟨longNameZip, fun _ => 0⟩
        (readEndDir (fileField longNameZip 447)) 0 := by
  refine ⟨by decide +kernel, fun kept => ?_⟩
  have outside : ¬ DirectoryEvent.Inside (.read 446 2 368) := by decide
  exact outside (kept.inside _ (by decide +kernel))

end Updater.Package
