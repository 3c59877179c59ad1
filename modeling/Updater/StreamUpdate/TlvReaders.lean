import Updater.Base.Memory
import Updater.Base.Traced

/-! The readers of the records of a stream package. They stop where more data is needed, and
leave a trace of what they read. -/

set_option autoImplicit false

namespace Updater.StreamUpdate

open Updater.Base

/-- What a reader does with a buffer of `len` bytes: it reads bytes, or computes `len - offset`. -/
inductive Access where
  | read (len start length : Nat)
  | subtract (len offset : Nat)
  deriving DecidableEq, Repr

/-- The bytes are in the buffer, and the difference does not underflow. -/
def Access.Inside : Access → Prop
  | .read len start length => start + length ≤ len
  | .subtract len offset => offset ≤ len

instance : DecidablePred Access.Inside := fun access => by
  cases access <;> exact Nat.decLe _ _

abbrev Reader : Type → Type := Traced Access

/-- How many values a `uint32_t` has. -/
def uint32Count : Nat := 2 ^ 32

/-- `len - offset`, of `uint32_t`. -/
def remaining (len offset : Nat) : Nat :=
  if offset ≤ len then len - offset else len + uint32Count - offset

/-- `offset + size`, of `uint32_t`. -/
def advance (offset size : Nat) : Nat :=
  if offset + size < uint32Count then offset + size else offset + size - uint32Count

def binUpdateHeadTip : Nat := 0x01

def binUpdateDataTip : Nat := 0x12

def binUpdateHashTip : Nat := 0x16

/-- `ConvertBufferToString`: the printable characters at the start. -/
def convertBufferToString (buffer : Bytes) : Bytes :=
  buffer.takeWhile fun byte => decide (32 ≤ byte) && decide (byte < 127)

section Readers

variable (data : Memory) (len : Nat)

/-- `ReadLE16` and its like. -/
def readLE (width start : Nat) : Reader Nat := do
  Traced.emit [.read len start width]
  pure (leValue (data.read start width))

def readValue (start length : Nat) : Reader Bytes := do
  Traced.emit [.read len start length]
  pure (data.read start length)

/-- The comparison of `len - offset` with a size, which asks for new data. -/
def require (offset size : Nat) : Reader Unit := do
  Traced.emit [.subtract len offset]
  if remaining len offset < size then Traced.reject else pure ()

/-- The type and the length of a TLV, whose length takes `width` bytes: `PkgTlvHH` or `PkgTlvHI`. -/
def readHeader (width offset : Nat) : Reader (Nat × Nat) := do
  require len offset (2 + width)
  let type ← readLE data len 2 offset
  let length ← readLE data len width (offset + 2)
  pure (type, length)

/-- A TLV that was read: its value, where that starts, and the offset behind it. -/
structure Field where
  header : Bytes
  value : Bytes
  start : Nat
  next : Nat

/-- What a TLV adds to the digest. -/
def Field.digest (field : Field) : Bytes :=
  field.header ++ field.value

/-- A TLV whose value is read without a check, behind its header. -/
def readUnchecked (width offset length : Nat) : Reader Field := do
  let header ← readValue data len offset (2 + width)
  let start := advance offset (2 + width)
  let value ← readValue data len start length
  pure { header, value, start, next := advance start length }

/-- The value of a TLV, which has to be there. -/
def readChecked (width offset length : Nat) : Reader Field := do
  require len (advance offset (2 + width)) length
  readUnchecked data len width offset length

def readField (width offset : Nat) : Reader Field := do
  let (_, length) ← readHeader data len width offset
  readChecked data len width offset length

/-- `ReadPartitionData`. -/
def readPartitionData (offset : Nat) : Reader Bytes := do
  let field ← readField data len 2 offset
  pure (convertBufferToString field.value)

/-- `ProcessPartition`: the offset behind the name, or nothing when another partition or the
hashes begin. -/
def processPartition (curPartition : Bytes) (offset : Nat) : Reader (Option Nat) := do
  let (type, length) ← readHeader data len 2 offset
  if type = binUpdateHashTip then pure none
  else
    let field ← readChecked data len 2 offset length
    if convertBufferToString field.value = curPartition then pure (some field.next) else pure none

/-- `ProcessCmdLine`: the command line, and the offset behind it. -/
def processCmdLine (offset : Nat) : Reader (Bytes × Nat) := do
  let field ← readField data len 2 offset
  pure (convertBufferToString field.value, field.next)

/-- `ProcessInstallData`. -/
def processInstallData (offset : Nat) : Reader (Bytes × Nat) := do
  let field ← readField data len 4 offset
  pure (field.value, field.next)

/-- A command of a data record. -/
structure Install where
  cmdLine : Bytes
  data : Bytes
  next : Nat

/-- The readers of `ChunkInstallDoWrite`. -/
def readInstall (curPartition : Bytes) (offset : Nat) : Reader (Option Install) := do
  match ← processPartition data len curPartition offset with
  | none => pure none
  | some offset =>
      let (cmdLine, offset) ← processCmdLine data len offset
      let (content, next) ← processInstallData data len offset
      pure (some { cmdLine, data := content, next })

/-- `ProcessPartitionNum`. -/
def processPartitionNum (offset : Nat) : Reader (Nat × Field) := do
  let field ← readField data len 2 offset
  let patitionNum ← readLE data len 2 field.start
  pure (patitionNum, field)

/-- `ReadHash`. -/
def readHash (offset : Nat) : Reader (Bytes × Field) := do
  let field ← readField data len 2 offset
  pure (convertBufferToString field.value, field)

/-- `ReadDataLength`. -/
def readDataLength (offset : Nat) : Reader (Nat × Field) := do
  let field ← readField data len 2 offset
  let dataLen ← readLE data len 8 field.start
  pure (dataLen, field)

/-- The entry of a partition in `PartitionHashInfo`. -/
structure PartitionHash where
  patition : Bytes
  hash : Bytes
  dataLen : Nat

/-- What the hashes of partitions say, the bytes to be signed, and the offset behind them. -/
structure HashInfos where
  hashInfos : List PartitionHash
  digest : Bytes
  next : Nat

/-- `ProcessPartitionData`, which does not check that the name of a partition is there. -/
def processPartitionData : Nat → Nat → Reader HashInfos
  | 0, offset => pure { hashInfos := [], digest := [], next := offset }
  | count + 1, offset => do
      let (_, length) ← readHeader data len 2 offset
      let name ← readUnchecked data len 2 offset length
      let (hash, hashField) ← readHash data len name.next
      let (dataLen, lengthField) ← readDataLength data len hashField.next
      let later ← processPartitionData count lengthField.next
      pure {
        hashInfos :=
          { patition := convertBufferToString name.value, hash, dataLen } :: later.hashInfos
        digest := name.digest ++ hashField.digest ++ lengthField.digest ++ later.digest
        next := later.next }

/-- `ProcessSignature`. -/
def processSignature (offset : Nat) : Reader (Bytes × Nat) := do
  let field ← readField data len 4 offset
  pure (field.value, field.next)

/-- The hash record. -/
structure HashSection where
  hashInfos : List PartitionHash
  digest : Bytes
  signData : Bytes
  next : Nat

/-- The readers of `UpdateBinHash`. -/
def readHashSection (offset : Nat) : Reader HashSection := do
  let (patitionNum, field) ← processPartitionNum data len offset
  let infos ← processPartitionData data len patitionNum field.next
  let (signData, next) ← processSignature data len infos.next
  pure { hashInfos := infos.hashInfos, digest := field.digest ++ infos.digest, signData, next }

end Readers

section Fields

variable (data : Memory) {len : Nat}

/-- The offset behind a TLV, by the length in its header. -/
def fieldEnd (width offset : Nat) : Nat :=
  offset + (2 + width) + leValue (data.read (offset + 2) width)

/-- The TLV at an offset. -/
def fieldAt (width offset : Nat) : Field where
  header := data.read offset (2 + width)
  value := data.read (offset + (2 + width)) (leValue (data.read (offset + 2) width))
  start := offset + (2 + width)
  next := fieldEnd data width offset

variable {data} {width offset length size : Nat}

theorem remaining_of_le (inside : offset ≤ len) : remaining len offset = len - offset :=
  if_pos inside

theorem advance_of_le (small : len < uint32Count) (inside : offset + size ≤ len) :
    advance offset size = offset + size :=
  if_pos (Nat.lt_of_le_of_lt inside small)

theorem require_inside : (require len offset size).All Access.Inside ↔ offset ≤ len := by
  rw [require, Traced.all_bind, Traced.all_emit, List.forall_mem_singleton]
  constructor
  · exact fun inside => inside.1
  · intro inside
    refine ⟨inside, fun _ _ => ?_⟩
    split
    · exact Traced.all_reject
    · exact Traced.all_pure _

theorem require_result (inside : offset ≤ len) :
    (require len offset size).result = if offset + size ≤ len then some () else none := by
  rw [require, Traced.result_bind, Traced.result_emit, Option.bind_some, remaining_of_le inside]
  by_cases fits : offset + size ≤ len
  · rw [if_pos fits, if_neg (by omega)]
    rfl
  · rw [if_neg fits, if_pos (by omega)]
    rfl

theorem readHeader_result (inside : offset ≤ len) :
    (readHeader data len width offset).result =
      if offset + (2 + width) ≤ len then
        some (leValue (data.read offset 2), leValue (data.read (offset + 2) width))
      else none := by
  rw [readHeader, Traced.result_bind, require_result inside]
  split
  · rfl
  · rfl

theorem readHeader_inside (inside : offset ≤ len) :
    (readHeader data len width offset).All Access.Inside := by
  simp only [readHeader, readLE, Traced.all_bind, require_inside, Traced.all_emit,
    List.forall_mem_singleton, Traced.all_pure, Traced.result_emit, require_result inside,
    Access.Inside]
  refine ⟨inside, fun _ fits => ?_⟩
  have room : offset + (2 + width) ≤ len := by
    by_contra short
    rw [if_neg short] at fits
    cases fits
  refine ⟨⟨by omega, fun _ _ => trivial⟩, fun _ _ => ⟨⟨by omega, fun _ _ => trivial⟩, ?_⟩⟩
  exact fun _ _ => trivial

theorem readUnchecked_result (small : len < uint32Count) (inside : offset + (2 + width) ≤ len) :
    (readUnchecked data len width offset length).result = some {
      header := data.read offset (2 + width)
      value := data.read (offset + (2 + width)) length
      start := offset + (2 + width)
      next := advance (offset + (2 + width)) length } := by
  have start := advance_of_le small inside
  rw [readUnchecked, start]
  rfl

theorem readUnchecked_inside (small : len < uint32Count) (inside : offset + (2 + width) ≤ len) :
    (readUnchecked data len width offset length).All Access.Inside ↔
      offset + (2 + width) + length ≤ len := by
  have start := advance_of_le small inside
  rw [readUnchecked, start]
  simp only [readValue, Traced.all_bind, Traced.all_emit, List.forall_mem_singleton,
    Traced.all_pure, Traced.result_emit, Access.Inside]
  constructor
  · intro all
    exact (all.2 _ rfl).1.1
  · intro fits
    exact ⟨⟨inside, fun _ _ => trivial⟩, fun _ _ => ⟨⟨fits, fun _ _ => trivial⟩, fun _ _ => trivial⟩⟩

theorem readChecked_result (small : len < uint32Count) (inside : offset + (2 + width) ≤ len) :
    (readChecked data len width offset length).result =
      if offset + (2 + width) + length ≤ len then some {
        header := data.read offset (2 + width)
        value := data.read (offset + (2 + width)) length
        start := offset + (2 + width)
        next := offset + (2 + width) + length }
      else none := by
  rw [readChecked, Traced.result_bind, advance_of_le small inside, require_result inside]
  split
  case isTrue fits =>
    rw [Option.bind_some, readUnchecked_result small inside, advance_of_le small fits]
  case isFalse => rfl

theorem readChecked_inside (small : len < uint32Count) (inside : offset + (2 + width) ≤ len) :
    (readChecked data len width offset length).All Access.Inside := by
  rw [readChecked, Traced.all_bind, advance_of_le small inside, require_inside,
    require_result inside]
  refine ⟨inside, fun _ fits => (readUnchecked_inside small inside).mpr ?_⟩
  by_contra short
  rw [if_neg short] at fits
  cases fits

/-- A checked TLV is found if it fits into the buffer. -/
theorem readField_result (small : len < uint32Count) (inside : offset ≤ len) :
    (readField data len width offset).result =
      if fieldEnd data width offset ≤ len then some (fieldAt data width offset) else none := by
  rw [readField, Traced.result_bind, readHeader_result inside]
  split
  case isTrue room =>
    exact readChecked_result small room
  case isFalse short =>
    have cut : ¬ fieldEnd data width offset ≤ len :=
      fun fits => short (Nat.le_trans (Nat.le_add_right _ _) fits)
    rw [if_neg cut]
    rfl

theorem readField_inside (small : len < uint32Count) (inside : offset ≤ len) :
    (readField data len width offset).All Access.Inside := by
  rw [readField, Traced.all_bind, readHeader_result inside]
  refine ⟨readHeader_inside inside, fun _ found => ?_⟩
  split at found
  case isTrue room =>
    cases found
    exact readChecked_inside small room
  case isFalse => cases found

theorem readField_some {field : Field} (small : len < uint32Count) (inside : offset ≤ len)
    (found : (readField data len width offset).result = some field) :
    field = fieldAt data width offset ∧ field.next ≤ len := by
  rw [readField_result small inside] at found
  split at found
  case isTrue fits =>
    cases found
    exact ⟨rfl, fits⟩
  case isFalse => cases found

theorem le_fieldEnd : offset ≤ fieldEnd data width offset := by
  rw [fieldEnd, Nat.add_assoc]
  exact Nat.le_add_right _ _

theorem readPartitionData_inside (small : len < uint32Count) (inside : offset ≤ len) :
    (readPartitionData data len offset).All Access.Inside := by
  rw [readPartitionData, Traced.all_bind]
  exact ⟨readField_inside small inside, fun _ _ => Traced.all_pure _⟩

theorem readPartitionData_result (small : len < uint32Count) (inside : offset ≤ len) :
    (readPartitionData data len offset).result =
      if fieldEnd data 2 offset ≤ len then
        some (convertBufferToString (fieldAt data 2 offset).value)
      else none := by
  rw [readPartitionData, Traced.result_bind, readField_result small inside]
  split
  · rfl
  · rfl

theorem processPartition_inside {curPartition : Bytes} (small : len < uint32Count)
    (inside : offset ≤ len) :
    (processPartition data len curPartition offset).All Access.Inside := by
  rw [processPartition, Traced.all_bind, readHeader_result inside]
  refine ⟨readHeader_inside inside, fun found read => ?_⟩
  split at read
  case isTrue room =>
    cases read
    dsimp only
    split
    · exact Traced.all_pure _
    · rw [Traced.all_bind]
      refine ⟨readChecked_inside small room, fun _ _ => ?_⟩
      split
      · exact Traced.all_pure _
      · exact Traced.all_pure _
  case isFalse => cases read

theorem processPartition_some {curPartition : Bytes} {next : Nat} (small : len < uint32Count)
    (inside : offset ≤ len)
    (found : (processPartition data len curPartition offset).result = some (some next)) :
    next = fieldEnd data 2 offset ∧ next ≤ len := by
  rw [processPartition, Traced.result_bind, readHeader_result inside] at found
  split at found
  case isTrue room =>
    dsimp only [Option.bind_some] at found
    split at found
    · cases found
    · rw [Traced.result_bind, readChecked_result small room] at found
      split at found
      case isTrue fits =>
        dsimp only [Option.bind_some] at found
        split at found
        · cases found
          exact ⟨rfl, fits⟩
        · cases found
      case isFalse => cases found
  case isFalse => cases found

/-- A record whose partition was just read from it goes on. -/
theorem processPartition_same {curPartition : Bytes} (small : len < uint32Count)
    (inside : offset ≤ len) (type : leValue (data.read offset 2) ≠ binUpdateHashTip)
    (found : (readPartitionData data len offset).result = some curPartition) :
    (processPartition data len curPartition offset).result =
      some (some (fieldEnd data 2 offset)) := by
  rw [readPartitionData_result small inside] at found
  split at found
  case isTrue fits =>
    have room : offset + (2 + 2) ≤ len := Nat.le_trans (Nat.le_add_right _ _) fits
    cases found
    rw [processPartition, Traced.result_bind, readHeader_result inside, if_pos room]
    dsimp only [Option.bind_some]
    rw [if_neg type, Traced.result_bind, readChecked_result small room]
    have value : offset + (2 + 2) + leValue (data.read (offset + 2) 2) ≤ len := fits
    rw [if_pos value]
    dsimp only [Option.bind_some]
    exact congrArg Traced.result (if_pos rfl)
  case isFalse => cases found

theorem processCmdLine_inside (small : len < uint32Count) (inside : offset ≤ len) :
    (processCmdLine data len offset).All Access.Inside := by
  rw [processCmdLine, Traced.all_bind]
  exact ⟨readField_inside small inside, fun _ _ => Traced.all_pure _⟩

theorem processCmdLine_some {cmdLine : Bytes} {next : Nat} (small : len < uint32Count)
    (inside : offset ≤ len) (found : (processCmdLine data len offset).result = some (cmdLine, next)) :
    next = fieldEnd data 2 offset ∧ next ≤ len := by
  rw [processCmdLine, Traced.result_bind] at found
  obtain ⟨field, read, last⟩ := Option.bind_eq_some_iff.mp found
  obtain ⟨rfl, fits⟩ := readField_some small inside read
  cases last
  exact ⟨rfl, fits⟩

theorem processInstallData_inside (small : len < uint32Count) (inside : offset ≤ len) :
    (processInstallData data len offset).All Access.Inside := by
  rw [processInstallData, Traced.all_bind]
  exact ⟨readField_inside small inside, fun _ _ => Traced.all_pure _⟩

theorem processInstallData_some {content : Bytes} {next : Nat} (small : len < uint32Count)
    (inside : offset ≤ len)
    (found : (processInstallData data len offset).result = some (content, next)) :
    next = fieldEnd data 4 offset ∧ next ≤ len := by
  rw [processInstallData, Traced.result_bind] at found
  obtain ⟨field, read, last⟩ := Option.bind_eq_some_iff.mp found
  obtain ⟨rfl, fits⟩ := readField_some small inside read
  cases last
  exact ⟨rfl, fits⟩

theorem readInstall_inside {curPartition : Bytes} (small : len < uint32Count)
    (inside : offset ≤ len) : (readInstall data len curPartition offset).All Access.Inside := by
  rw [readInstall, Traced.all_bind]
  refine ⟨processPartition_inside small inside, fun found first => ?_⟩
  cases found with
  | none => exact Traced.all_pure _
  | some next =>
      obtain ⟨_, within⟩ := processPartition_some small inside first
      dsimp only
      rw [Traced.all_bind]
      refine ⟨processCmdLine_inside small within, fun ⟨cmdLine, behind⟩ second => ?_⟩
      obtain ⟨_, within⟩ := processCmdLine_some small within second
      dsimp only
      rw [Traced.all_bind]
      exact ⟨processInstallData_inside small within, fun _ _ => Traced.all_pure _⟩

/-- A command that was read ends in the buffer, behind its headers. -/
theorem readInstall_some {curPartition : Bytes} {install : Install} (small : len < uint32Count)
    (inside : offset ≤ len)
    (found : (readInstall data len curPartition offset).result = some (some install)) :
    offset < install.next ∧ install.next ≤ len := by
  rw [readInstall, Traced.result_bind] at found
  obtain ⟨name, first, found⟩ := Option.bind_eq_some_iff.mp found
  cases name with
  | none => cases found
  | some next =>
      obtain ⟨named, within⟩ := processPartition_some small inside first
      dsimp only at found
      rw [Traced.result_bind] at found
      obtain ⟨⟨cmdLine, behind⟩, second, found⟩ := Option.bind_eq_some_iff.mp found
      obtain ⟨commanded, within'⟩ := processCmdLine_some small within second
      dsimp only at found
      rw [Traced.result_bind] at found
      obtain ⟨⟨content, last⟩, third, found⟩ := Option.bind_eq_some_iff.mp found
      obtain ⟨filled, within''⟩ := processInstallData_some small within' third
      cases found
      refine ⟨?_, within''⟩
      have started : offset < next := by
        rw [named, fieldEnd]
        omega
      exact Nat.lt_of_lt_of_le started
        (Nat.le_trans (commanded ▸ le_fieldEnd) (filled ▸ le_fieldEnd))

/-- Nor does it end the partition. -/
theorem readInstall_same {curPartition : Bytes} (small : len < uint32Count) (inside : offset ≤ len)
    (type : leValue (data.read offset 2) ≠ binUpdateHashTip)
    (found : (readPartitionData data len offset).result = some curPartition) :
    (readInstall data len curPartition offset).result ≠ some none := by
  intro ended
  rw [readInstall, Traced.result_bind, processPartition_same small inside type found,
    Option.bind_some] at ended
  dsimp only at ended
  rw [Traced.result_bind] at ended
  obtain ⟨command, _, ended⟩ := Option.bind_eq_some_iff.mp ended
  rw [Traced.result_bind] at ended
  obtain ⟨content, _, ended⟩ := Option.bind_eq_some_iff.mp ended
  cases ended

theorem readHash_inside (small : len < uint32Count) (inside : offset ≤ len) :
    (readHash data len offset).All Access.Inside := by
  rw [readHash, Traced.all_bind]
  exact ⟨readField_inside small inside, fun _ _ => Traced.all_pure _⟩

theorem readHash_result (small : len < uint32Count) (inside : offset ≤ len) :
    (readHash data len offset).result =
      if fieldEnd data 2 offset ≤ len then
        some (convertBufferToString (fieldAt data 2 offset).value, fieldAt data 2 offset)
      else none := by
  rw [readHash, Traced.result_bind, readField_result small inside]
  split
  · rfl
  · rfl

/-- A number of some bytes is read from the value of a TLV, whatever its length. -/
theorem readNumber_inside {count : Nat} (small : len < uint32Count) (inside : offset ≤ len) :
    ((readField data len 2 offset >>= fun field => readLE data len count field.start >>=
        fun number => pure (number, field) : Reader (Nat × Field))).All Access.Inside ↔
      (fieldEnd data 2 offset ≤ len → offset + 4 + count ≤ len) := by
  rw [Traced.all_bind, readField_result small inside]
  constructor
  · intro all fits
    have read := all.2 _ (if_pos fits)
    rw [Traced.all_bind, readLE, Traced.all_bind, Traced.all_emit] at read
    exact read.1.1 _ List.mem_cons_self
  · intro room
    refine ⟨readField_inside small inside, fun field found => ?_⟩
    split at found
    case isTrue fits =>
      cases found
      rw [Traced.all_bind, readLE, Traced.all_bind, Traced.all_emit, List.forall_mem_singleton]
      exact ⟨⟨room fits, fun _ _ => Traced.all_pure _⟩, fun _ _ => Traced.all_pure _⟩
    case isFalse => cases found

theorem readNumber_result {count : Nat} (small : len < uint32Count) (inside : offset ≤ len) :
    ((readField data len 2 offset >>= fun field => readLE data len count field.start >>=
        fun number => pure (number, field) : Reader (Nat × Field))).result =
      if fieldEnd data 2 offset ≤ len then
        some (leValue (data.read (offset + 4) count), fieldAt data 2 offset)
      else none := by
  rw [Traced.result_bind, readField_result small inside]
  split
  · rfl
  · rfl

/-- The names of partitions are not cut by the end of the buffer, and of the lengths of data that
are there at least so many bytes. -/
def NamesFit (data : Memory) (len least : Nat) : Nat → Nat → Prop
  | 0, _ => True
  | count + 1, offset =>
      offset + 4 ≤ len →
        fieldEnd data 2 offset ≤ len ∧
          (fieldEnd data 2 (fieldEnd data 2 (fieldEnd data 2 offset)) ≤ len →
            fieldEnd data 2 (fieldEnd data 2 offset) + 4 + least ≤ len ∧
              NamesFit data len least count
                (fieldEnd data 2 (fieldEnd data 2 (fieldEnd data 2 offset))))

theorem readUnchecked_field (small : len < uint32Count) (fits : fieldEnd data width offset ≤ len) :
    (readUnchecked data len width offset (leValue (data.read (offset + 2) width))).result =
      some (fieldAt data width offset) := by
  have room : offset + (2 + width) ≤ len := Nat.le_trans (Nat.le_add_right _ _) fits
  rw [readUnchecked_result small room, advance_of_le small fits]
  rfl

/-- The steps of `ProcessPartitionData` for a partition whose name is there. -/
theorem processPartitionData_succ_inside {count : Nat} (small : len < uint32Count)
    (inside : offset ≤ len) :
    (processPartitionData data len (count + 1) offset).All Access.Inside ↔
      (offset + 4 ≤ len → fieldEnd data 2 offset ≤ len ∧
        (fieldEnd data 2 (fieldEnd data 2 (fieldEnd data 2 offset)) ≤ len →
          fieldEnd data 2 (fieldEnd data 2 offset) + 4 + 8 ≤ len ∧
            (processPartitionData data len count
              (fieldEnd data 2 (fieldEnd data 2 (fieldEnd data 2 offset)))).All Access.Inside)) := by
  rw [processPartitionData, Traced.all_bind, readHeader_result inside]
  constructor
  · intro all room
    have behind := all.2 _ (if_pos room)
    dsimp only at behind
    rw [Traced.all_bind, readUnchecked_inside small room] at behind
    obtain ⟨fits, rest⟩ := behind
    refine ⟨fits, fun whole => ?_⟩
    have hashed : fieldEnd data 2 (fieldEnd data 2 offset) ≤ len := Nat.le_trans le_fieldEnd whole
    have hash := rest _ (readUnchecked_field small fits)
    rw [Traced.all_bind] at hash
    have length := hash.2 _ ((readHash_result small fits).trans (if_pos hashed))
    dsimp only at length
    rw [Traced.all_bind, readDataLength] at length
    have counted := (readNumber_inside small hashed).mp length.1 whole
    have later := length.2 _ ((readNumber_result small hashed).trans (if_pos whole))
    dsimp only at later
    rw [Traced.all_bind] at later
    exact ⟨counted, later.1⟩
  · intro fit
    refine ⟨readHeader_inside inside, fun read found => ?_⟩
    split at found
    case isFalse => cases found
    case isTrue room =>
      cases found
      obtain ⟨fits, rest⟩ := fit room
      dsimp only
      rw [Traced.all_bind, readUnchecked_inside small room, readUnchecked_field small fits]
      refine ⟨fits, fun name found => ?_⟩
      cases found
      rw [Traced.all_bind]
      refine ⟨readHash_inside small fits, fun hash found => ?_⟩
      have read := (readHash_result small fits).symm.trans found
      split at read
      case isFalse => cases read
      case isTrue hashed =>
        cases read
        dsimp only
        rw [Traced.all_bind, readDataLength]
        refine ⟨(readNumber_inside small hashed).mpr fun whole => (rest whole).1,
          fun length found => ?_⟩
        have read := (readNumber_result small hashed).symm.trans found
        split at read
        case isFalse => cases read
        case isTrue whole =>
          cases read
          dsimp only
          rw [Traced.all_bind]
          exact ⟨(rest whole).2, fun _ _ => Traced.all_pure _⟩

theorem processPartitionData_inside {count : Nat} (small : len < uint32Count)
    (inside : offset ≤ len) :
    (processPartitionData data len count offset).All Access.Inside ↔
      NamesFit data len 8 count offset := by
  induction count generalizing offset with
  | zero => exact ⟨fun _ => trivial, fun _ => Traced.all_pure _⟩
  | succ count ih =>
      rw [processPartitionData_succ_inside small inside, NamesFit]
      constructor
      · intro fit room
        obtain ⟨fits, rest⟩ := fit room
        exact ⟨fits, fun whole => ⟨(rest whole).1, (ih whole).mp (rest whole).2⟩⟩
      · intro fit room
        obtain ⟨fits, rest⟩ := fit room
        exact ⟨fits, fun whole => ⟨(rest whole).1, (ih whole).mpr (rest whole).2⟩⟩

/-- Where no name is cut, what was read ends in the buffer. -/
theorem processPartitionData_some {count least : Nat} {infos : HashInfos}
    (small : len < uint32Count) (inside : offset ≤ len)
    (fit : NamesFit data len least count offset)
    (found : (processPartitionData data len count offset).result = some infos) :
    offset ≤ infos.next ∧ infos.next ≤ len := by
  induction count generalizing offset infos with
  | zero =>
      cases found
      exact ⟨Nat.le_refl _, inside⟩
  | succ count ih =>
      rw [processPartitionData, Traced.result_bind, readHeader_result inside] at found
      split at found
      case isFalse => cases found
      case isTrue room =>
        obtain ⟨fits, rest⟩ := fit room
        dsimp only [Option.bind_some] at found
        rw [Traced.result_bind, readUnchecked_field small fits, Option.bind_some,
          Traced.result_bind] at found
        obtain ⟨hash, first, found⟩ := Option.bind_eq_some_iff.mp found
        have hashRead := (readHash_result small fits).symm.trans first
        split at hashRead
        case isFalse => cases hashRead
        case isTrue hashed =>
          cases hashRead
          dsimp only at found
          rw [Traced.result_bind] at found
          obtain ⟨length, second, found⟩ := Option.bind_eq_some_iff.mp found
          have lengthRead := (readNumber_result small hashed).symm.trans second
          split at lengthRead
          case isFalse => cases lengthRead
          case isTrue whole =>
            cases lengthRead
            dsimp only at found
            rw [Traced.result_bind] at found
            obtain ⟨later, third, found⟩ := Option.bind_eq_some_iff.mp found
            obtain ⟨least, most⟩ := ih whole (rest whole).2 third
            cases found
            refine ⟨Nat.le_trans ?_ least, most⟩
            exact Nat.le_trans le_fieldEnd (Nat.le_trans le_fieldEnd le_fieldEnd)

/-- The number of partitions has at least so many bytes in the buffer, if its value is there, and
the names of the partitions fit. -/
def HashFits (data : Memory) (len least leastLength offset : Nat) : Prop :=
  fieldEnd data 2 offset ≤ len →
    offset + 4 + least ≤ len ∧
      NamesFit data len leastLength (leValue (data.read (offset + 4) 2)) (fieldEnd data 2 offset)

theorem processSignature_inside (small : len < uint32Count) (inside : offset ≤ len) :
    (processSignature data len offset).All Access.Inside := by
  rw [processSignature, Traced.all_bind]
  exact ⟨readField_inside small inside, fun _ _ => Traced.all_pure _⟩

theorem readHashSection_inside (small : len < uint32Count) (inside : offset ≤ len) :
    (readHashSection data len offset).All Access.Inside ↔ HashFits data len 2 8 offset := by
  rw [readHashSection, Traced.all_bind, processPartitionNum, readNumber_inside small inside,
    readNumber_result small inside]
  constructor
  · rintro ⟨counted, rest⟩ fits
    have names := rest _ (if_pos fits)
    dsimp only at names
    rw [Traced.all_bind] at names
    exact ⟨counted fits, (processPartitionData_inside small fits).mp names.1⟩
  · intro fit
    refine ⟨fun fits => (fit fits).1, fun number found => ?_⟩
    split at found
    case isFalse => cases found
    case isTrue fits =>
      cases found
      obtain ⟨_, names⟩ := fit fits
      dsimp only
      rw [Traced.all_bind]
      refine ⟨(processPartitionData_inside small fits).mpr names, fun infos found => ?_⟩
      obtain ⟨_, within⟩ := processPartitionData_some small fits names found
      rw [Traced.all_bind]
      exact ⟨processSignature_inside small within, fun _ _ => Traced.all_pure _⟩

/-- A hash record that was read, none of whose names is cut, ends in the buffer. -/
theorem readHashSection_some {least leastLength : Nat} {hashes : HashSection}
    (small : len < uint32Count) (inside : offset ≤ len)
    (fit : HashFits data len least leastLength offset)
    (found : (readHashSection data len offset).result = some hashes) :
    offset < hashes.next ∧ hashes.next ≤ len := by
  rw [readHashSection, Traced.result_bind, processPartitionNum, readNumber_result small inside]
    at found
  split at found
  case isFalse => cases found
  case isTrue fits =>
    obtain ⟨_, names⟩ := fit fits
    dsimp only [Option.bind_some] at found
    rw [Traced.result_bind] at found
    obtain ⟨infos, first, found⟩ := Option.bind_eq_some_iff.mp found
    obtain ⟨least', within⟩ := processPartitionData_some small fits names first
    rw [Traced.result_bind, processSignature, Traced.result_bind] at found
    obtain ⟨⟨signData, next⟩, second, found⟩ := Option.bind_eq_some_iff.mp found
    obtain ⟨field, read, last⟩ := Option.bind_eq_some_iff.mp second
    obtain ⟨rfl, within'⟩ := readField_some small within read
    cases last
    cases found
    refine ⟨?_, within'⟩
    have started : offset < fieldEnd data 2 offset := by
      rw [fieldEnd]
      omega
    exact Nat.lt_of_lt_of_le started (Nat.le_trans least' le_fieldEnd)

end Fields

end Updater.StreamUpdate
