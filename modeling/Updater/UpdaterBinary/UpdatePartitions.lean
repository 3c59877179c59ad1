import Updater.FsManager.PartitionChanges

/-! `UpdatePartitions`: reads a list of partitions from a JSON text of the package and makes
the disk's partitions those of the list. -/

set_option autoImplicit false

namespace Updater.UpdaterBinary

open Updater.Base
open Updater.FsManager

/-- A `cJSON` item as the parser makes it. -/
inductive Json where
  | null
  | bool (value : Bool)
  | number (valueint : Int)
  | string (valuestring : Bytes)
  | array (items : List Json)
  | object (members : List (Bytes × Json))

namespace Json

/-- `case_insensitive_strcmp` says that the names are equal. -/
def sameKey (left right : Bytes) : Bool :=
  let tolower := fun char : UInt8 => if 65 ≤ char ∧ char ≤ 90 then char + 32 else char
  left.map tolower = right.map tolower

/-- `cJSON_GetObjectItem`. -/
def getObjectItem (item : Json) (name : Bytes) : Option Json :=
  match item with
  | .object members => (members.find? fun member => sameKey member.1 name).map Prod.snd
  | _ => none

/-- The children that `cJSON_GetArraySize` and `cJSON_GetArrayItem` count. -/
def items : Json → List Json
  | .array items => items
  | .object members => members.map Prod.snd
  | _ => []

end Json

/-- `CheckValueInt`, and the value. -/
def checkValueInt : Option Json → Option Int
  | some (.number valueint) => some valueint
  | _ => none

/-- `CheckValueString`, and the text. -/
def checkValueString : Option Json → Option Bytes
  | some (.string valuestring) =>
      if cString valuestring = [] then none else some (cString valuestring)
  | _ => none

def minPartitionsNum : Nat := 2

def maxPartitionsNum : Nat := 20

def maxLogBufSize : Nat := 4096

def leastPartitionCount : Nat := 4

def uscriptSuccess : Int := 0

def uscriptInvalidParam : Int := 500

def uscriptAboart : Int := 507

def uscriptErrorExecute : Int := 508

def setPartitionInfo (thisPartition : Json) : Option Partition := do
  let start ← checkValueInt (thisPartition.getObjectItem (ascii "start"))
  let length ← checkValueInt (thisPartition.getObjectItem (ascii "length"))
  let partName ← checkValueString (thisPartition.getObjectItem (ascii "partName"))
  let fsType ← checkValueString (thisPartition.getObjectItem (ascii "fsType"))
  pure {
    start := sizeOfInt start
    length := sizeOfInt length
    partNum := 0
    devName := ascii "mmcblk0px"
    partName
    fsType
    changeType := .normalChange }

/-- The loop of `ParsePartitionInfo` from entry `i` on: it leaves the first bad entry and
what follows it out. -/
def parsePartitions (calloc : Nat → Bool) : Nat → List Json → Int × List Partition
  | _, [] => (1, [])
  | i, entry :: rest =>
      if calloc i = false then (0, [])
      else
        match setPartitionInfo entry with
        | none => (1, [])
        | some partition =>
            let (ret, newPartList) := parsePartitions calloc (i + 1) rest
            (ret, partition :: newPartList)

/-- What the instruction gets: its parameters, the package, the bytes behind the buffer of
the file, the JSON parser and the disk. -/
structure PartitionsInput where
  params : List (Option Bytes)
  fileInfo : Bytes → Bool
  extractFile : Bytes → Option Bytes
  stack : Bytes
  cJsonParse : Bytes → Option Json
  sysfs : Sysfs

/-- The commands to the kernel, and what the instruction returns. -/
structure PartitionsRun where
  commands : List BlkpgCommand
  ret : Int
  deriving DecidableEq, Repr

namespace PartitionsInput

variable (input : PartitionsInput)

def parsePartitionInfo (calloc : Nat → Bool) (partitionInfo : Bytes) : Int × List Partition :=
  match input.cJsonParse partitionInfo with
  | none => (-1, [])
  | some root =>
      match root.getObjectItem (ascii "Partition") with
      | none => (-1, [])
      | some partitions =>
          let number := partitions.items.length
          if number ≤ minPartitionsNum ∨ maxPartitionsNum ≤ number then (-1, [])
          else parsePartitions calloc 0 partitions.items

/-- The text in the buffer that the file is read into. -/
def partitionInfo (file : Bytes) : Bytes :=
  cString (file.take maxLogBufSize ++ input.stack)

def setNewPartition (calloc : Nat → Bool) (system : System) (filePath : Bytes) : PartitionsRun :=
  match input.extractFile filePath with
  | none => { commands := [], ret := uscriptErrorExecute }
  | some file =>
      if (file.take maxLogBufSize).length ≤ leastPartitionCount then
        { commands := [], ret := uscriptErrorExecute }
      else
        let (ret, newPartList) := input.parsePartitionInfo calloc (input.partitionInfo file)
        if ret = 0 then { commands := [], ret := uscriptAboart }
        else if newPartList = [] then { commands := [], ret := uscriptSuccess }
        else
          -- `DoNewPartitions`; its result is not looked at
          { commands := (system.doPartitions input.sysfs newPartList).events
            ret := uscriptSuccess }

def execute (calloc : Nat → Bool) (system : System) : PartitionsRun :=
  match input.params with
  | [some filePath] =>
      if input.fileInfo filePath then input.setNewPartition calloc system filePath
      else { commands := [], ret := uscriptErrorExecute }
  | _ => { commands := [], ret := uscriptInvalidParam }

/-- The file that the instruction gets to parse. -/
def Reads (file : Bytes) : Prop :=
  ∃ filePath, input.params = [some filePath] ∧ input.fileInfo filePath = true ∧
    input.extractFile filePath = some file ∧
    leastPartitionCount < (file.take maxLogBufSize).length

end PartitionsInput

/-- An entry with all its fields. -/
structure Complete (entry : Json) : Prop where
  start : ∃ value, entry.getObjectItem (ascii "start") = some (.number value)
  length : ∃ value, entry.getObjectItem (ascii "length") = some (.number value)
  partName : ∃ text, entry.getObjectItem (ascii "partName") = some (.string text) ∧
    cString text ≠ []
  fsType : ∃ text, entry.getObjectItem (ascii "fsType") = some (.string text) ∧
    cString text ≠ []

namespace PartitionsInput

/-- The input holds a list of partitions whose entries are all complete. -/
def WellFormed (input : PartitionsInput) (entries : List Json) : Prop :=
  ∃ filePath file root partitions, input.params = [some filePath] ∧
    input.extractFile filePath = some file ∧
    input.cJsonParse (input.partitionInfo file) = some root ∧
    root.getObjectItem (ascii "Partition") = some partitions ∧ partitions.items = entries ∧
    ∀ entry ∈ entries, Complete entry

end PartitionsInput

/-- No entry has the name of the partition. -/
def Absent (entries : List Json) (part : Partition) : Prop :=
  ∀ entry ∈ entries, ∀ newp ∈ setPartitionInfo entry, ¬ SameName part newp

/-- An entry of its name gives the partition another place. -/
def Changed (entries : List Json) (part : Partition) : Prop :=
  ∃ entry ∈ entries, ∃ newp ∈ setPartitionInfo entry,
    SameName part newp ∧ (part.start ≠ newp.start ∨ part.length ≠ newp.length)

/-- A bad list fails and changes nothing, and a good one removes only what it changes or
does not name, whatever the system answers. -/
structure AllOrNothing (input : PartitionsInput) : Prop where
  malformed : (¬ ∃ entries, input.WellFormed entries) → ∀ calloc system,
    (input.execute calloc system).ret ≠ uscriptSuccess ∧
      (input.execute calloc system).commands = []
  wellFormed : ∀ entries, input.WellFormed entries → ∀ calloc system,
    ∀ part ∈ probeAllPartitions input.sysfs,
      BlkpgCommand.del part.partNum ∈ (input.execute calloc system).commands →
        Absent entries part ∨ Changed entries part

/-- A partition that an earlier one on the disk shares its name with is not kept by the list. -/
def NamesakesChange (input : PartitionsInput) (entries : List Json) : Prop :=
  ∀ part ∈ probeAllPartitions input.sysfs,
    HasEarlierNamesake (probeAllPartitions input.sysfs) part →
      part.partName = updaterPartname ∨ part.partName = userdataPartname ∨
        Absent entries part ∨ Changed entries part

section

variable {input : PartitionsInput} {entries : List Json} {calloc : Nat → Bool} {system : System}

theorem checkValueInt_eq_some {item : Option Json} {value : Int} :
    checkValueInt item = some value ↔ item = some (.number value) := by
  cases item with
  | none => exact ⟨nofun, nofun⟩
  | some json => cases json <;> simp [checkValueInt]

theorem checkValueString_isSome {item : Option Json} :
    (∃ text, checkValueString item = some text) ↔
      ∃ text, item = some (.string text) ∧ cString text ≠ [] := by
  cases item with
  | none => exact ⟨nofun, nofun⟩
  | some json =>
      cases json with
      | string text =>
          rw [checkValueString]
          by_cases empty : cString text = []
          · rw [if_pos empty]
            constructor
            · exact nofun
            · rintro ⟨other, same, filled⟩
              cases same
              exact absurd empty filled
          · rw [if_neg empty]
            exact ⟨fun _ => ⟨text, rfl, empty⟩, fun _ => ⟨_, rfl⟩⟩
      | _ =>
          constructor
          · exact nofun
          · rintro ⟨text, same, -⟩
            cases same

/-- `SetPartitionInfo` takes an entry exactly if that is complete. -/
theorem setPartitionInfo_isSome (entry : Json) :
    (∃ partition, setPartitionInfo entry = some partition) ↔ Complete entry := by
  constructor
  · rintro ⟨partition, set⟩
    simp only [setPartitionInfo, Option.bind_eq_bind, Option.bind_eq_some_iff] at set
    obtain ⟨start, startRead, length, lengthRead, partName, nameRead, fsType, typeRead, -⟩ := set
    exact {
      start := ⟨start, checkValueInt_eq_some.mp startRead⟩
      length := ⟨length, checkValueInt_eq_some.mp lengthRead⟩
      partName := checkValueString_isSome.mp ⟨partName, nameRead⟩
      fsType := checkValueString_isSome.mp ⟨fsType, typeRead⟩ }
  · intro complete
    obtain ⟨start, startRead⟩ := complete.start
    obtain ⟨length, lengthRead⟩ := complete.length
    obtain ⟨partName, nameRead⟩ := checkValueString_isSome.mpr complete.partName
    obtain ⟨fsType, typeRead⟩ := checkValueString_isSome.mpr complete.fsType
    have startValue := checkValueInt_eq_some.mpr startRead
    have lengthValue := checkValueInt_eq_some.mpr lengthRead
    rw [setPartitionInfo, startValue, lengthValue, nameRead, typeRead]
    exact ⟨_, rfl⟩

theorem parsePartitions_allocated (i : Nat) (entries : List Json) :
    (parsePartitions (fun _ => true) i entries).1 = 1 := by
  induction entries generalizing i with
  | nil => rfl
  | cons entry entries ih =>
      rw [parsePartitions, if_neg Bool.noConfusion]
      cases setPartitionInfo entry with
      | none => rfl
      | some partition => exact ih (i + 1)

/-- Complete entries are all parsed, unless memory runs out. -/
theorem parsePartitions_complete (calloc : Nat → Bool) (i : Nat)
    (complete : ∀ entry ∈ entries, Complete entry) :
    (parsePartitions calloc i entries).1 = 0 ∨
      (parsePartitions calloc i entries).2 = entries.filterMap setPartitionInfo := by
  induction entries generalizing i with
  | nil => exact Or.inr rfl
  | cons entry entries ih =>
      rw [parsePartitions]
      split
      · exact Or.inl rfl
      · obtain ⟨partition, set⟩ := (setPartitionInfo_isSome entry).mpr
          (complete entry List.mem_cons_self)
        rw [set, List.filterMap_cons_some set]
        rcases ih (i + 1) (fun other member => complete other (List.mem_cons_of_mem _ member)) with
          exhausted | parsed
        · exact Or.inl exhausted
        · exact Or.inr (congrArg (partition :: ·) parsed)

namespace PartitionsInput

theorem execute_of_reads {file : Bytes} (reads : input.Reads file) (calloc : Nat → Bool)
    (system : System) :
    input.execute calloc system =
      let (ret, newPartList) := input.parsePartitionInfo calloc (input.partitionInfo file)
      if ret = 0 then { commands := [], ret := uscriptAboart }
      else if newPartList = [] then { commands := [], ret := uscriptSuccess }
      else
        { commands := (system.doPartitions input.sysfs newPartList).events
          ret := uscriptSuccess } := by
  obtain ⟨filePath, params, known, extracted, long⟩ := reads
  rw [execute, params]
  dsimp only
  rw [if_pos known, setNewPartition, extracted]
  dsimp only
  rw [if_neg (Nat.not_le.mpr long)]

theorem execute_of_not_reads (unread : ¬ ∃ file, input.Reads file) (calloc : Nat → Bool)
    (system : System) :
    (input.execute calloc system).ret ≠ uscriptSuccess ∧
      (input.execute calloc system).commands = [] := by
  have failed : uscriptErrorExecute ≠ uscriptSuccess := by decide
  rw [execute]
  split
  · rename_i filePath params
    split
    · rename_i known
      rw [setNewPartition]
      cases extracted : input.extractFile filePath with
      | none => exact ⟨failed, rfl⟩
      | some file =>
          dsimp only
          split
          · exact ⟨failed, rfl⟩
          · rename_i long
            exact absurd ⟨file, filePath, params, known, extracted, Nat.not_le.mp long⟩ unread
    · exact ⟨failed, rfl⟩
  · exact ⟨by decide, rfl⟩

/-- With memory for its entries, a list that is read never fails. -/
theorem execute_succeeds {file : Bytes} (reads : input.Reads file) (system : System) :
    (input.execute (fun _ => true) system).ret = uscriptSuccess := by
  have parsed : (input.parsePartitionInfo (fun _ => true) (input.partitionInfo file)).1 ≠ 0 := by
    rw [parsePartitionInfo]
    cases input.cJsonParse (input.partitionInfo file) with
    | none => exact Int.noConfusion
    | some root =>
        dsimp only
        cases root.getObjectItem (ascii "Partition") with
        | none => exact Int.noConfusion
        | some partitions =>
            dsimp only
            split
            · exact Int.noConfusion
            · rw [parsePartitions_allocated]
              exact Int.one_ne_zero
  rw [execute_of_reads reads]
  dsimp only
  rw [if_neg parsed]
  split <;> rfl

/-- How a well-formed input is parsed. -/
theorem parsePartitionInfo_wellFormed {file : Bytes} (reads : input.Reads file)
    (wellFormed : input.WellFormed entries) (calloc : Nat → Bool) :
    input.parsePartitionInfo calloc (input.partitionInfo file) =
        (if entries.length ≤ minPartitionsNum ∨ maxPartitionsNum ≤ entries.length then (-1, [])
          else parsePartitions calloc 0 entries) ∧
      ∀ entry ∈ entries, Complete entry := by
  obtain ⟨filePath, params, -, extracted, -⟩ := reads
  obtain ⟨filePath', file', root, partitions, params', extracted', read, list, rfl, complete⟩ :=
    wellFormed
  have samePath : filePath = filePath' := by
    rw [params] at params'
    exact Option.some.inj (List.cons.inj params').1
  subst samePath
  have sameFile : file = file' := Option.some.inj (extracted.symm.trans extracted')
  subst sameFile
  refine ⟨?_, complete⟩
  rw [parsePartitionInfo, read]
  dsimp only
  rw [list]

/-- With memory for its entries, a well-formed list of a possible length is carried out. -/
theorem commands_allocated {file : Bytes} (reads : input.Reads file)
    (wellFormed : input.WellFormed entries) (more : minPartitionsNum < entries.length)
    (less : entries.length < maxPartitionsNum) (system : System) :
    entries.filterMap setPartitionInfo ≠ [] ∧
      (input.execute (fun _ => true) system).commands =
        (system.doPartitions input.sysfs (entries.filterMap setPartitionInfo)).events := by
  obtain ⟨parsed, complete⟩ := parsePartitionInfo_wellFormed reads wellFormed fun _ => true
  have inside : ¬ (entries.length ≤ minPartitionsNum ∨ maxPartitionsNum ≤ entries.length) := by
    omega
  have allocated := parsePartitions_allocated 0 entries
  have list : (parsePartitions (fun _ => true) 0 entries).2 =
      entries.filterMap setPartitionInfo := by
    rcases parsePartitions_complete (fun _ => true) 0 complete with exhausted | list
    · rw [allocated] at exhausted
      cases exhausted
    · exact list
  have some : entries.filterMap setPartitionInfo ≠ [] := by
    cases entries with
    | nil => cases more
    | cons entry rest =>
        obtain ⟨partition, set⟩ := (setPartitionInfo_isSome entry).mpr
          (complete entry List.mem_cons_self)
        rw [List.filterMap_cons_some set]
        exact List.cons_ne_nil _ _
  refine ⟨some, ?_⟩
  rw [execute_of_reads reads, parsed, if_neg inside]
  dsimp only
  rw [allocated, list, if_neg Int.one_ne_zero, if_neg some]

/-- Commands for a well-formed list come from all of its entries. -/
theorem commands_wellFormed {file : Bytes} (reads : input.Reads file)
    (wellFormed : input.WellFormed entries)
    (issued : (input.execute calloc system).commands ≠ []) :
    minPartitionsNum < entries.length ∧ entries.length < maxPartitionsNum ∧
      (input.execute calloc system).commands =
        (system.doPartitions input.sysfs (entries.filterMap setPartitionInfo)).events := by
  obtain ⟨parsed, complete⟩ := parsePartitionInfo_wellFormed reads wellFormed calloc
  rw [execute_of_reads reads, parsed] at issued ⊢
  by_cases outside : entries.length ≤ minPartitionsNum ∨ maxPartitionsNum ≤ entries.length
  · rw [if_pos outside] at issued
    exact absurd rfl issued
  · obtain ⟨more, less⟩ := not_or.mp outside
    refine ⟨Nat.not_le.mp more, Nat.not_le.mp less, ?_⟩
    rw [if_neg outside] at issued ⊢
    dsimp only at issued ⊢
    split at issued
    · exact absurd rfl issued
    · rename_i succeeded
      split at issued
      · exact absurd rfl issued
      · rename_i filled
        rcases parsePartitions_complete calloc 0 complete with exhausted | list
        · exact absurd exhausted succeeded
        · rw [if_neg succeeded, if_neg filled, list]

theorem wellFormed_unique {others : List Json} (left : input.WellFormed entries)
    (right : input.WellFormed others) : entries = others := by
  obtain ⟨filePath, file, root, partitions, params, extracted, read, list, rfl, -⟩ := left
  obtain ⟨filePath', file', root', partitions', params', extracted', read', list', rfl, -⟩ := right
  have samePath : filePath = filePath' := by
    rw [params] at params'
    exact Option.some.inj (List.cons.inj params').1
  subst samePath
  have sameFile : file = file' := Option.some.inj (extracted.symm.trans extracted')
  subst sameFile
  have sameRoot : root = root' := Option.some.inj (read.symm.trans read')
  subst sameRoot
  rw [Option.some.inj (list.symm.trans list')]

end PartitionsInput

/-- An unchanged mark is the only one that a listed and kept partition gets. -/
theorem absent_or_changed {part : Partition}
    (marked : finalChange part (entries.filterMap setPartitionInfo) ≠ .notChange) :
    Absent entries part ∨ Changed entries part := by
  by_cases listed : ∃ newp ∈ entries.filterMap setPartitionInfo, SameName part newp
  · right
    by_contra unchanged
    apply marked
    apply finalChange_notChange listed
    intro newp member named
    obtain ⟨entry, among, set⟩ := List.mem_filterMap.mp member
    rw [changeOf, if_neg, if_neg]
    · intro length
      exact unchanged ⟨entry, among, newp, set, named, Or.inr length⟩
    · intro start
      exact unchanged ⟨entry, among, newp, set, named, Or.inl start⟩
  · left
    intro entry among newp set named
    exact listed ⟨newp, List.mem_filterMap.mpr ⟨entry, among, set⟩, named⟩

end

/-- A list whose second entry has a start only, for a disk of two partitions that the first
and the third entry keep. -/
def cutListEntries : List Json :=
  let entry (start : Int) (name : String) : Json := .object [(ascii "start", .number start),
    (ascii "length", .number 64), (ascii "partName", .string (ascii name)),
    (ascii "fsType", .string (ascii "ext4"))]
  [entry 64 "mmcblk0p1", .object [(ascii "start", .number 1)], entry 128 "mmcblk0p2"]

def cutList : Json :=
  .object [(ascii "Partition", .array cutListEntries)]

def cutListText : Bytes :=
  ascii "\x7b\"Partition\":[\x7b\"start\":64,\"length\":64,\"partName\":\"mmcblk0p1\"," ++
  ascii "\"fsType\":\"ext4\"\x7d,\x7b\"start\":1\x7d,\x7b\"start\":128,\"length\":64," ++
  ascii "\"partName\":\"mmcblk0p2\",\"fsType\":\"ext4\"\x7d]\x7d"

def cutListInput : PartitionsInput where
  params := [some (ascii "partitions.json")]
  fileInfo := fun _ => true
  extractFile := fun _ => some cutListText
  stack := [0]
  cJsonParse := fun text => if text = cutListText then some cutList else none
  sysfs := fun partn file =>
    match file with
    | .start => if partn ≤ 2 then some (ascii (toString (partn * 64)) ++ [10]) else none
    | .size => some (ascii "64" ++ [10])
    | .uevent => none

end Updater.UpdaterBinary
