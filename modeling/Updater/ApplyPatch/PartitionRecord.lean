import Mathlib.Data.List.Induction
import Mathlib.Logic.Function.Basic
import Updater.Base.Bytes

/-! `PartitionRecord`: the record of finished partitions in the misc partition,
an offset cell and eight slots that are appended to and scanned from the front. -/

set_option autoImplicit false

namespace Updater.ApplyPatch

open Updater.Base

def maxPartitionNum : Nat := 8

def partitionNameLen : Nat := 125

def partitionRecordInfoLen : Nat := 126

def partitionUpdaterRecordSize : Nat := 1024

def partitionRecordOffsetSize : Nat := 16

def partitionUpdaterRecordMsgSize : Nat := partitionUpdaterRecordSize - partitionRecordOffsetSize

structure PartitionRecordInfo where
  partitionName : Bytes
  updated : Bool
  deriving DecidableEq, Repr

/-- The slot as written: `strncpy_s` into a zeroed name field, then the status. -/
def PartitionRecordInfo.bytes (info : PartitionRecordInfo) : Bytes :=
  let name := (cString info.partitionName).take (partitionNameLen - 1)
  name ++ List.replicate (partitionNameLen - name.length) 0 ++ [if info.updated then 1 else 0]

theorem PartitionRecordInfo.length_bytes (info : PartitionRecordInfo) :
    info.bytes.length = partitionRecordInfoLen := by
  simp only [bytes, partitionNameLen, partitionRecordInfoLen, List.length_append,
    List.length_take, List.length_replicate, List.length_singleton]
  omega

theorem PartitionRecordInfo.getElem?_status (info : PartitionRecordInfo) :
    info.bytes[partitionNameLen]? = some (if info.updated then 1 else 0) := by
  have front : ((cString info.partitionName).take (partitionNameLen - 1) ++
      List.replicate (partitionNameLen -
        ((cString info.partitionName).take (partitionNameLen - 1)).length) 0).length =
      partitionNameLen := by
    simp only [partitionNameLen, List.length_append, List.length_take, List.length_replicate]
    omega
  rw [bytes, List.getElem?_append_right (Nat.le_of_eq front), front, Nat.sub_self]
  rfl

/-- The region of the misc partition that belongs to this record: the offset
cell, always at a slot boundary, and the bytes of the slots. -/
structure MiscRegion where
  offset : Nat
  record : Bytes
  aligned : partitionRecordInfoLen ∣ offset
  sized : record.length = partitionUpdaterRecordMsgSize

theorem MiscRegion.aligned_next (misc : MiscRegion) :
    partitionRecordInfoLen ∣ misc.offset + partitionRecordInfoLen :=
  (Nat.dvd_add_right misc.aligned).mpr (Nat.dvd_refl _)

/-- The loop over the slots; a stale slot may hold any bytes. -/
def findRecord (partitionName : Bytes) : Nat → Bytes → Bool
  | 0, _ => false
  | slots + 1, buffer =>
      if cString buffer = cString partitionName then decide (buffer.getD partitionNameLen 0 ≠ 0)
      else findRecord partitionName slots (buffer.drop partitionRecordInfoLen)

def isPartitionUpdated (partitionName : Bytes) (misc : MiscRegion) : Bool :=
  findRecord partitionName maxPartitionNum misc.record

theorem MiscRegion.room {misc : MiscRegion}
    (fits : misc.offset + partitionRecordInfoLen < partitionUpdaterRecordSize) :
    misc.offset + partitionRecordInfoLen ≤ partitionUpdaterRecordMsgSize := by
  obtain ⟨count, offset⟩ := misc.aligned
  simp only [partitionRecordInfoLen, partitionUpdaterRecordSize, partitionUpdaterRecordMsgSize,
    partitionRecordOffsetSize] at *
  omega

def recordPartitionSetInfo (info : PartitionRecordInfo) (misc : MiscRegion)
    (fits : misc.offset + partitionRecordInfoLen < partitionUpdaterRecordSize) : MiscRegion where
  offset := misc.offset + partitionRecordInfoLen
  record := writeAt misc.record misc.offset info.bytes
  aligned := misc.aligned_next
  sized := by
    rw [length_writeAt, misc.sized]
    rw [info.length_bytes, misc.sized]
    exact MiscRegion.room fits

def recordPartitionUpdateStatus (partitionName : Bytes) (updated : Bool) (misc : MiscRegion) :
    Bool × MiscRegion :=
  if fits : misc.offset + partitionRecordInfoLen < partitionUpdaterRecordSize then
    (true, recordPartitionSetInfo { partitionName, updated } misc fits)
  else (false, misc)

def clearRecordPartitionOffset (misc : MiscRegion) : Bool × MiscRegion :=
  (true, { misc with offset := 0, aligned := Nat.dvd_zero _ })

inductive RecordCall where
  | record (partitionName : Bytes) (updated : Bool)
  | clear
  deriving DecidableEq, Repr

/-- A history on the region: the records accepted since the last clear, and the
region as that clear left it. -/
structure RecordHistory where
  misc : MiscRegion
  accepted : List PartitionRecordInfo
  cleared : MiscRegion

def RecordHistory.start (misc : MiscRegion) : RecordHistory where
  misc
  accepted := []
  cleared := misc

def RecordHistory.step (history : RecordHistory) : RecordCall → RecordHistory
  | .record partitionName updated =>
      let (ok, misc) := recordPartitionUpdateStatus partitionName updated history.misc
      { history with
        misc
        accepted :=
          if ok then history.accepted ++ [{ partitionName, updated }] else history.accepted }
  | .clear => .start (clearRecordPartitionOffset history.misc).2

def RecordHistory.run (misc : MiscRegion) (calls : List RecordCall) : RecordHistory :=
  calls.foldl RecordHistory.step (.start misc)

/-- The map the record stands for: every name's most recent status. -/
def statusMap (records : List PartitionRecordInfo) : Bytes → Option Bool :=
  records.foldl (fun status info => Function.update status info.partitionName (some info.updated))
    fun _ => none

/-- Names are compared as C strings. -/
def PartitionRecordInfo.Names (partitionName : Bytes) (info : PartitionRecordInfo) : Prop :=
  cString info.partitionName = cString partitionName

instance (partitionName : Bytes) : DecidablePred (PartitionRecordInfo.Names partitionName) :=
  fun _ => inferInstanceAs (Decidable (_ = _))

/-- What the scan sees in `count` slots, whatever wrote them. -/
def storedSlots : Nat → Bytes → List PartitionRecordInfo
  | 0, _ => []
  | count + 1, buffer =>
      { partitionName := cString buffer
        updated := decide (buffer.getD partitionNameLen 0 ≠ 0) } ::
        storedSlots count (buffer.drop partitionRecordInfoLen)

/-- Slots of an earlier update that the records since the last clear have not overwritten. -/
def RecordHistory.leftover (history : RecordHistory) : List PartitionRecordInfo :=
  storedSlots (maxPartitionNum - history.accepted.length)
    (history.cleared.record.drop (history.accepted.length * partitionRecordInfoLen))

theorem findRecord_storedSlots (partitionName : Bytes) (count : Nat) (buffer : Bytes) :
    findRecord partitionName count buffer =
      (((storedSlots count buffer).find? (PartitionRecordInfo.Names partitionName)).map
        PartitionRecordInfo.updated).getD false := by
  induction count generalizing buffer with
  | zero => rfl
  | succ count ih =>
      rw [findRecord, storedSlots, List.find?_cons]
      simp only [PartitionRecordInfo.Names, cString_cString]
      split
      · rename_i same
        simp [same]
      · rename_i different
        simp only [different, decide_false]
        exact ih _

theorem PartitionRecordInfo.bytes_append {info : PartitionRecordInfo}
    (short : info.partitionName.length < partitionNameLen) (rest : Bytes) :
    ∃ padding, info.bytes ++ rest = cString info.partitionName ++ 0 :: padding := by
  have bound := length_cString_le info.partitionName
  have whole : (cString info.partitionName).take (partitionNameLen - 1) =
      cString info.partitionName := List.take_of_length_le (by omega)
  have zeros : partitionNameLen - (cString info.partitionName).length =
      partitionNameLen - (cString info.partitionName).length - 1 + 1 := by omega
  refine ⟨List.replicate (partitionNameLen - (cString info.partitionName).length - 1) 0 ++
    ([if info.updated then 1 else 0] ++ rest), ?_⟩
  simp only [bytes, whole]
  rw [zeros, List.replicate_succ]
  simp

theorem storedSlots_bytes {info : PartitionRecordInfo}
    (short : info.partitionName.length < partitionNameLen) (count : Nat) (rest : Bytes) :
    storedSlots (count + 1) (info.bytes ++ rest) =
      { info with partitionName := cString info.partitionName } :: storedSlots count rest := by
  have sized := info.length_bytes
  have name : cString (info.bytes ++ rest) = cString info.partitionName := by
    obtain ⟨padding, shape⟩ := PartitionRecordInfo.bytes_append short rest
    rw [shape, cString_append_zero (zero_notMem_cString _)]
  have status : decide ((info.bytes ++ rest).getD partitionNameLen 0 ≠ 0) = info.updated := by
    have inside : partitionNameLen < info.bytes.length := by rw [sized]; decide
    rw [List.getD_eq_getElem?_getD, List.getElem?_append_left inside, info.getElem?_status]
    cases info.updated <;> rfl
  have behind : (info.bytes ++ rest).drop partitionRecordInfoLen = rest := by
    rw [← sized, List.drop_left]
  rw [storedSlots, name, status, behind]

theorem storedSlots_flatMap {infos : List PartitionRecordInfo}
    (short : ∀ info ∈ infos, info.partitionName.length < partitionNameLen) (count : Nat)
    (rest : Bytes) :
    storedSlots (infos.length + count) (infos.flatMap PartitionRecordInfo.bytes ++ rest) =
      infos.map (fun info => { info with partitionName := cString info.partitionName }) ++
        storedSlots count rest := by
  induction infos with
  | nil => simp
  | cons info infos ih =>
      have tail := ih fun other member => short other (by simp [member])
      rw [List.length_cons, Nat.add_right_comm, List.flatMap_cons, List.append_assoc,
        storedSlots_bytes (short info (by simp)), tail]
      rfl

/-- What the scan sees in the slot in front of a buffer. -/
def slotAt (buffer : Bytes) : PartitionRecordInfo where
  partitionName := cString buffer
  updated := decide (buffer.getD partitionNameLen 0 ≠ 0)

theorem mem_storedSlots {slot : PartitionRecordInfo} {count : Nat} {buffer : Bytes} :
    slot ∈ storedSlots count buffer ↔
      ∃ index < count, slot = slotAt (buffer.drop (index * partitionRecordInfoLen)) := by
  induction count generalizing buffer with
  | zero => simp [storedSlots]
  | succ count ih =>
      rw [storedSlots, List.mem_cons, ih]
      constructor
      · rintro (first | ⟨index, inside, found⟩)
        · exact ⟨0, Nat.succ_pos _, by simpa [slotAt] using first⟩
        · refine ⟨index + 1, by omega, ?_⟩
          rwa [Nat.add_mul, Nat.one_mul, Nat.add_comm, ← List.drop_drop]
      · rintro ⟨index, inside, found⟩
        cases index with
        | zero => exact .inl (by simpa [slotAt] using found)
        | succ index =>
            refine .inr ⟨index, by omega, ?_⟩
            rwa [Nat.add_mul, Nat.one_mul, Nat.add_comm, ← List.drop_drop] at found

/-- A slot says the same before other slots, or its name has no end. -/
theorem slotAt_append {front : Bytes} (sized : front.length = partitionRecordInfoLen)
    (back other : Bytes) :
    slotAt (front ++ back) = slotAt (front ++ other) ∨
      partitionNameLen ≤ (slotAt (front ++ back)).partitionName.length := by
  have status (rest : Bytes) : (front ++ rest).getD partitionNameLen 0 = front.getD partitionNameLen 0 := by
    rw [List.getD_eq_getElem?_getD, List.getD_eq_getElem?_getD, List.getElem?_append_left]
    rw [sized]
    decide
  by_cases ended : 0 ∈ front
  · left
    obtain ⟨text, rest, shape, clean⟩ := List.eq_append_cons_of_mem ended
    have name (tail : Bytes) : cString (front ++ tail) = text := by
      rw [shape, List.append_assoc, List.cons_append, cString_append_zero clean]
    rw [slotAt, slotAt, status, status, name, name]
  · right
    have whole : cString (front ++ back) = front ++ cString back :=
      List.takeWhile_append_of_pos fun byte member =>
        decide_eq_true fun (same : byte = 0) => ended (same ▸ member)
    have longer : front.length ≤ (cString (front ++ back)).length := by
      rw [whole, List.length_append]
      exact Nat.le_add_right _ _
    rw [sized] at longer
    exact Nat.le_of_succ_le longer

/-- A slot after one of them was written is an old one, the written one, or one with a name that is
no partition's. -/
theorem mem_storedSlots_writeAt {record : Bytes} {index count : Nat} {info slot : PartitionRecordInfo}
    (short : info.partitionName.length < partitionNameLen)
    (room : (index + 1) * partitionRecordInfoLen ≤ record.length)
    (member : slot ∈ storedSlots count
      (writeAt record (index * partitionRecordInfoLen) info.bytes)) :
    slot ∈ storedSlots count record ∨ slot.partitionName = cString info.partitionName ∨
      partitionNameLen ≤ slot.partitionName.length := by
  obtain ⟨other, inside, rfl⟩ := mem_storedSlots.mp member
  have len : partitionRecordInfoLen = 126 := rfl
  have width := info.length_bytes
  rw [len] at room width ⊢
  rcases Nat.lt_trichotomy other index with before | rfl | behind
  · have cut : (record.drop (other * 126)).take 126 ++ record.drop (other * 126 + 126) =
        record.drop (other * 126) := by
      rw [← List.drop_drop, List.take_append_drop]
    have written : (writeAt record (index * 126) info.bytes).drop (other * 126) =
        (record.drop (other * 126)).take 126 ++
          (writeAt record (index * 126) info.bytes).drop (other * 126 + 126) := by
      have front : slice (writeAt record (index * 126) info.bytes) (other * 126) 126 =
          slice record (other * 126) 126 := by
        refine List.ext_getElem? fun place => ?_
        rw [getElem?_slice, getElem?_slice, getElem?_writeAt (by omega)]
        split
        · rw [if_pos (by omega)]
        · rfl
      rw [← slice, ← front, slice, ← List.drop_drop, List.take_append_drop]
    have sized : ((record.drop (other * 126)).take 126).length = partitionRecordInfoLen := by
      rw [List.length_take, List.length_drop, len]
      omega
    rw [written]
    rcases slotAt_append sized _ (record.drop (other * 126 + 126)) with same | long
    · left
      rw [same, cut]
      exact mem_storedSlots.mpr ⟨other, inside, rfl⟩
    · exact .inr (.inr long)
  · right; left
    have written : (writeAt record (other * 126) info.bytes).drop (other * 126) =
        info.bytes ++ record.drop (other * 126 + 126) := by
      have front : (record.take (other * 126)).length = other * 126 := by
        rw [List.length_take]
        omega
      rw [writeAt, width, List.append_assoc]
      exact List.drop_left' front
    obtain ⟨padding, shape⟩ := PartitionRecordInfo.bytes_append short (record.drop (other * 126 + 126))
    rw [written, slotAt, shape, cString_append_zero (zero_notMem_cString _)]
  · left
    have same : (writeAt record (index * 126) info.bytes).drop (other * 126) =
        record.drop (other * 126) := by
      refine List.ext_getElem? fun place => ?_
      rw [List.getElem?_drop, List.getElem?_drop, getElem?_writeAt (by omega), if_neg (by omega),
        if_neg (by omega)]
    rw [same]
    exact mem_storedSlots.mpr ⟨other, inside, rfl⟩

theorem exists_slot_of_isPartitionUpdated {partitionName : Bytes} {misc : MiscRegion}
    (updated : isPartitionUpdated partitionName misc = true) :
    ∃ slot ∈ storedSlots maxPartitionNum misc.record,
      slot.updated = true ∧ slot.partitionName = cString partitionName := by
  rw [isPartitionUpdated, findRecord_storedSlots] at updated
  cases found : (storedSlots maxPartitionNum misc.record).find?
      (PartitionRecordInfo.Names partitionName) with
  | none =>
      rw [found] at updated
      exact absurd updated Bool.false_ne_true
  | some slot =>
      rw [found] at updated
      have member := List.mem_of_find?_eq_some found
      have named : PartitionRecordInfo.Names partitionName slot := by
        simpa using List.find?_some found
      obtain ⟨index, _, rfl⟩ := mem_storedSlots.mp member
      have plain := cString_cString (misc.record.drop (index * partitionRecordInfoLen))
      exact ⟨_, member, updated, plain.symm.trans named⟩

/-- Every reachable region holds the accepted records, then what the last clear left. -/
structure RecordHistory.Consistent (history : RecordHistory) : Prop where
  offset : history.misc.offset = history.accepted.length * partitionRecordInfoLen
  capacity : history.accepted.length ≤ maxPartitionNum
  short : ∀ info ∈ history.accepted, info.partitionName.length < partitionNameLen
  record : history.misc.record = history.accepted.flatMap PartitionRecordInfo.bytes ++
    history.cleared.record.drop (history.accepted.length * partitionRecordInfoLen)

theorem RecordHistory.start_consistent {misc : MiscRegion} (fresh : misc.offset = 0) :
    (RecordHistory.start misc).Consistent := by
  refine ⟨by simp [start, fresh], by simp [start], by simp [start], by simp [start]⟩

theorem length_flatMap_bytes (infos : List PartitionRecordInfo) :
    (infos.flatMap PartitionRecordInfo.bytes).length = infos.length * partitionRecordInfoLen := by
  induction infos with
  | nil => simp
  | cons info infos ih =>
      rw [List.flatMap_cons, List.length_append, info.length_bytes, ih, List.length_cons]
      ring

theorem RecordHistory.step_consistent {history : RecordHistory}
    (consistent : history.Consistent) {call : RecordCall}
    (short : ∀ name updated, call = .record name updated → name.length < partitionNameLen) :
    (history.step call).Consistent := by
  cases call with
  | clear => exact start_consistent rfl
  | record name updated =>
      simp only [step, recordPartitionUpdateStatus]
      split
      · rename_i fits
        have sized := length_flatMap_bytes history.accepted
        refine ⟨?_, ?_, ?_, ?_⟩
        · simp only [recordPartitionSetInfo, consistent.offset, ↓reduceIte, List.length_append,
            List.length_singleton]
          ring
        · have full := consistent.offset ▸ fits
          simp only [partitionRecordInfoLen, partitionUpdaterRecordSize] at full
          simp only [↓reduceIte, List.length_append, List.length_singleton, maxPartitionNum]
          omega
        · intro info member
          simp only [↓reduceIte, List.mem_append, List.mem_singleton] at member
          rcases member with member | rfl
          · exact consistent.short info member
          · exact short name updated rfl
        · simp only [recordPartitionSetInfo, consistent.record, consistent.offset, writeAt,
            ↓reduceIte]
          rw [← sized, List.take_left, List.drop_append, List.drop_eq_nil_of_le (by omega)]
          simp [PartitionRecordInfo.length_bytes, sized, Nat.add_mul]
      · exact ⟨consistent.offset, consistent.capacity, consistent.short, consistent.record⟩

theorem RecordHistory.run_consistent {misc : MiscRegion} (fresh : misc.offset = 0)
    {calls : List RecordCall}
    (short : ∀ name updated, .record name updated ∈ calls → name.length < partitionNameLen) :
    (RecordHistory.run misc calls).Consistent := by
  have keeps : ∀ (calls : List RecordCall) (history : RecordHistory), history.Consistent →
      (∀ name updated, .record name updated ∈ calls → name.length < partitionNameLen) →
      (calls.foldl RecordHistory.step history).Consistent := by
    intro calls
    induction calls with
    | nil => exact fun _ consistent _ => consistent
    | cons call calls ih =>
        intro history consistent short
        refine ih _ (history.step_consistent consistent ?_) fun name updated member =>
          short name updated (by simp [member])
        rintro name updated rfl
        exact short name updated (by simp)
  exact keeps calls _ (start_consistent fresh) short

/-- The scan sees the accepted records, oldest first, and then the leftover slots. -/
theorem RecordHistory.isPartitionUpdated_eq {history : RecordHistory}
    (consistent : history.Consistent) (partitionName : Bytes) :
    isPartitionUpdated partitionName history.misc =
      (((history.accepted ++ history.leftover).find?
        (PartitionRecordInfo.Names partitionName)).map PartitionRecordInfo.updated).getD false := by
  have split : maxPartitionNum =
      history.accepted.length + (maxPartitionNum - history.accepted.length) := by
    have capacity := consistent.capacity
    omega
  rw [isPartitionUpdated, findRecord_storedSlots, split, consistent.record,
    storedSlots_flatMap consistent.short, List.find?_append, List.find?_append, List.find?_map]
  have names : (fun info => decide (PartitionRecordInfo.Names partitionName info)) ∘
      (fun info : PartitionRecordInfo =>
        { info with partitionName := cString info.partitionName }) =
      fun info => decide (PartitionRecordInfo.Names partitionName info) := by
    funext info
    exact decide_eq_decide.mpr (by simp [PartitionRecordInfo.Names])
  rw [names]
  cases history.accepted.find? (PartitionRecordInfo.Names partitionName) <;>
    simp [leftover]

/-- When an accepted record names the partition, the oldest such record is
current; otherwise no leftover slot that is found first says it was updated. -/
def RecordHistory.OldestCurrent (history : RecordHistory) (partitionName : Bytes) : Prop :=
  match history.accepted.find? (PartitionRecordInfo.Names partitionName) with
  | some oldest =>
      oldest.updated = true ↔ statusMap history.accepted partitionName = some true
  | none =>
      (history.leftover.find? (PartitionRecordInfo.Names partitionName)).all (!·.updated) = true

instance (history : RecordHistory) (partitionName : Bytes) :
    Decidable (history.OldestCurrent partitionName) := by
  unfold RecordHistory.OldestCurrent
  split <;> infer_instance

theorem statusMap_append_singleton (records : List PartitionRecordInfo)
    (info : PartitionRecordInfo) :
    statusMap (records ++ [info]) =
      Function.update (statusMap records) info.partitionName (some info.updated) := by
  simp [statusMap]

theorem statusMap_eq_none {records : List PartitionRecordInfo} {partitionName : Bytes}
    (unnamed : ∀ info ∈ records, info.partitionName ≠ partitionName) :
    statusMap records partitionName = none := by
  induction records using List.reverseRecOn with
  | nil => rfl
  | append_singleton records info ih =>
      have different : partitionName ≠ info.partitionName := (unnamed info (by simp)).symm
      rw [statusMap_append_singleton, Function.update_of_ne different]
      exact ih fun other member => unnamed other (by simp [member])

/-- In every reachable region the record answers as the map does just when the
oldest matching record is current. -/
theorem isPartitionUpdated_refines_iff {misc : MiscRegion} (fresh : misc.offset = 0)
    (calls : List RecordCall)
    (short : ∀ name updated, .record name updated ∈ calls → name.length < partitionNameLen)
    (partitionName : Bytes) :
    (isPartitionUpdated partitionName (RecordHistory.run misc calls).misc = true ↔
        statusMap (RecordHistory.run misc calls).accepted partitionName = some true) ↔
      (RecordHistory.run misc calls).OldestCurrent partitionName := by
  have consistent := RecordHistory.run_consistent fresh short
  generalize RecordHistory.run misc calls = history at *
  rw [RecordHistory.isPartitionUpdated_eq consistent, List.find?_append,
    RecordHistory.OldestCurrent]
  cases oldest : history.accepted.find? (PartitionRecordInfo.Names partitionName) with
  | some info => simp
  | none =>
      have unnamed : ∀ info ∈ history.accepted, info.partitionName ≠ partitionName := by
        intro info member same
        have different := List.find?_eq_none.mp oldest info member
        simp [PartitionRecordInfo.Names, same] at different
      rw [statusMap_eq_none unnamed]
      cases stale : history.leftover.find? (PartitionRecordInfo.Names partitionName) <;> simp

def blankMisc : MiscRegion where
  offset := 0
  record := List.replicate partitionUpdaterRecordMsgSize 0
  aligned := Nat.dvd_zero _
  sized := List.length_replicate

/-- `s` recorded, cleared, and still reported; a repeated name keeps its first status. -/
theorem stale_record_reported :
    let name : Bytes := [115]
    let cleared := RecordHistory.run blankMisc [.record name true, .clear]
    let repeated := RecordHistory.run blankMisc [.record name false, .record name true]
    (isPartitionUpdated name cleared.misc = true ∧ statusMap cleared.accepted name = none) ∧
      isPartitionUpdated name repeated.misc = false ∧
        statusMap repeated.accepted name = some true := by
  decide +kernel

theorem isPartitionUpdated_refines_blank :
    (isPartitionUpdated [115] (RecordHistory.run blankMisc [.record [115] true]).misc = true ↔
        statusMap (RecordHistory.run blankMisc [.record [115] true]).accepted [115] = some true) ↔
      (RecordHistory.run blankMisc [.record [115] true]).OldestCurrent [115] :=
  isPartitionUpdated_refines_iff rfl [.record [115] true]
    (by intro name updated member; simp at member; simp [member, partitionNameLen]) [115]

end Updater.ApplyPatch
