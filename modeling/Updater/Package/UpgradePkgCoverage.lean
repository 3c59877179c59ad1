import Updater.Package.UpgradePkgFile

/-! What the readers of an upgrade package digest is the part of the file that they
step over, once the header and the time information fit the buffer they are read into. -/

set_option autoImplicit false

namespace Updater.Package

open Updater.Base

/-- Inside a buffer, its bytes are digested. -/
theorem fedBytes_inside {buffer : Bytes} {count : Nat} (inside : count ≤ buffer.length) :
    fedBytes buffer count = (buffer.take count).map some := by
  apply List.ext_getElem?
  intro index
  simp only [fedBytes, List.getElem?_map, List.getElem?_take]
  by_cases before : index < count
  · rw [List.getElem?_range before, if_pos before]
    have found := List.getElem?_eq_getElem (Nat.lt_of_lt_of_le before inside)
    simp [found]
  · rw [if_neg before, List.getElem?_eq_none (by simpa using before)]
    rfl

/-- Behind its end, something else is. -/
theorem none_mem_fedBytes {buffer : Bytes} {count : Nat} (behind : buffer.length < count) :
    none ∈ fedBytes buffer count := by
  apply List.mem_map.mpr
  exact ⟨buffer.length, List.mem_range.mpr behind, List.getElem?_eq_none (Nat.le_refl _)⟩

variable {file buffer buffer' : Bytes} {start size : Nat}

theorem readInto_some (read : readInto file buffer start = some buffer') :
    buffer'.length = buffer.length ∧ start < file.length ∧
      (start + buffer.length ≤ file.length → buffer' = slice file start buffer.length) := by
  obtain ⟨bytes, found, rfl⟩ := Option.map_eq_some_iff.mp read
  unfold fileRead at found
  split at found
  · cases found
  · rename_i valid
    obtain ⟨inside, some⟩ := not_or.mp valid
    cases found
    have short := length_slice_le file start buffer.length
    refine ⟨?_, ?_, ?_⟩
    · rw [List.length_append, List.length_drop]
      omega
    · by_contra beyond
      apply some
      rw [slice, List.drop_of_length_le (Nat.not_lt.mp beyond), List.take_nil]
    · intro room
      rw [length_slice room, List.drop_length, List.append_nil]

theorem readBuffer_some (read : readBuffer file start size = some buffer) :
    buffer.length = size ∧ start < file.length ∧
      (start + size ≤ file.length → buffer = slice file start size) := by
  obtain ⟨length, inside, whole⟩ := readInto_some read
  rw [List.length_replicate] at length whole
  exact ⟨length, inside, whole⟩

/-- From one state to a later one: the digest got what `parsedLen` stepped over, if
that is in the file. -/
structure UpgradeState.Advances (file : Bytes) (st st' : UpgradeState) : Prop where
  version : st'.updateFileVersion = st.updateFileVersion
  fileType : st'.updateFileType = st.updateFileType
  forward : st.parsedLen ≤ st'.parsedLen
  grows : st.fed <+: st'.fed
  covers : st'.parsedLen ≤ file.length →
    st'.fed = st.fed ++ (slice file st.parsedLen (st'.parsedLen - st.parsedLen)).map some

namespace UpgradeState

variable {st st' st'' : UpgradeState}

theorem Advances.refl (file : Bytes) (st : UpgradeState) : st.Advances file st where
  version := rfl
  fileType := rfl
  forward := Nat.le_refl _
  grows := List.prefix_rfl
  covers := by
    intro _
    simp

theorem Advances.trans (first : st.Advances file st') (second : st'.Advances file st'') :
    st.Advances file st'' where
  version := second.version.trans first.version
  fileType := second.fileType.trans first.fileType
  forward := Nat.le_trans first.forward second.forward
  grows := first.grows.trans second.grows
  covers := by
    intro inside
    have middle := first.covers (Nat.le_trans second.forward inside)
    have forward := first.forward
    have join := slice_append_slice file st.parsedLen (st'.parsedLen - st.parsedLen)
      (st''.parsedLen - st'.parsedLen)
    rw [Nat.add_sub_cancel' forward] at join
    rw [second.covers inside, middle, List.append_assoc, ← List.map_append, join]
    congr 3
    have later := second.forward
    omega

/-- Reading a piece behind `parsedLen` and digesting all of it. -/
theorem Advances.piece (read : readBuffer file st.parsedLen size = some buffer)
    (version : st'.updateFileVersion = st.updateFileVersion)
    (fileType : st'.updateFileType = st.updateFileType)
    (parsedLen : st'.parsedLen = st.parsedLen + size)
    (fed : st'.fed = st.fed ++ fedBytes buffer size) : st.Advances file st' := by
  obtain ⟨length, -, whole⟩ := readBuffer_some read
  constructor
  · exact version
  · exact fileType
  · rw [parsedLen]
    exact Nat.le_add_right _ _
  · rw [fed]
    exact List.prefix_append _ _
  · intro inside
    rw [parsedLen] at inside ⊢
    rw [fed, fedBytes_inside (Nat.le_of_eq length.symm), ← length, List.take_length, length,
      Nat.add_sub_cancel_left, whole inside]

end UpgradeState

variable {input : UpgradeInput} {st st' : UpgradeState}

namespace UpgradeInput

/-- One TLV. -/
theorem readTlv_spec {size expectedType : Nat} {head value : Bytes}
    (read : input.readTlv size expectedType st = some (head, value, st')) :
    st.Advances input.file st' ∧ st'.parsedLen = st.parsedLen + (head.length + value.length) ∧
      st'.entries = st.entries ∧ st.parsedLen < input.file.length := by
  simp only [readTlv, Option.bind_eq_bind] at read
  obtain ⟨front, headRead, read⟩ := Option.bind_eq_some_iff.mp read
  split at read
  · obtain ⟨data, valueRead, read⟩ := Option.bind_eq_some_iff.mp read
    cases read
    obtain ⟨headLength, inside, -⟩ := readBuffer_some headRead
    obtain ⟨valueLength, -, -⟩ := readBuffer_some valueRead
    have first : UpgradeState.Advances input.file st
        { st.update head size with parsedLen := st.parsedLen + size } :=
      UpgradeState.Advances.piece headRead rfl rfl rfl rfl
    refine ⟨first.trans (UpgradeState.Advances.piece valueRead rfl rfl rfl rfl), ?_, rfl, inside⟩
    rw [headLength, valueLength]
    exact Nat.add_assoc _ _ _
  · cases read

/-- A reader of chunks: digests what it steps over and leaves the entries alone. -/
structure Reads (input : UpgradeInput) (st st' : UpgradeState) : Prop where
  advances : st.Advances input.file st'
  entries : st'.entries = st.entries

theorem Reads.trans {st'' : UpgradeState} (first : input.Reads st st')
    (second : input.Reads st' st'') : input.Reads st st'' :=
  ⟨first.advances.trans second.advances, second.entries.trans first.entries⟩

theorem readTlv_reads {size expectedType : Nat} {head value : Bytes}
    (read : input.readTlv size expectedType st = some (head, value, st')) : input.Reads st st' := by
  obtain ⟨advances, -, entries, -⟩ := readTlv_spec read
  exact ⟨advances, entries⟩

/-- Storing what was read in the chunk information is no step. -/
theorem Reads.store (reads : input.Reads st st') (chunkInfo : UpgradeChunkInfo) :
    input.Reads st { st' with chunkInfo } := by
  obtain ⟨⟨version, fileType, forward, grows, covers⟩, entries⟩ := reads
  exact ⟨⟨version, fileType, forward, grows, covers⟩, entries⟩

theorem readChunkListInfo_reads (read : input.readChunkListInfo st = some st') :
    input.Reads st st' := by
  simp only [readChunkListInfo, Option.bind_eq_bind] at read
  obtain ⟨⟨head, value, middle⟩, tlv, read⟩ := Option.bind_eq_some_iff.mp read
  cases read
  exact (readTlv_reads tlv).store _

theorem readPartitionNumChunk_reads (read : input.readPartitionNumChunk st = some st') :
    input.Reads st st' := by
  simp only [readPartitionNumChunk, Option.bind_eq_bind] at read
  obtain ⟨⟨head, value, middle⟩, tlv, read⟩ := Option.bind_eq_some_iff.mp read
  split at read
  · cases read
  · cases read
    exact (readTlv_reads tlv).store _

theorem readImageSize_reads (read : input.readImageSize st = some st') : input.Reads st st' := by
  simp only [readImageSize, Option.bind_eq_bind] at read
  obtain ⟨⟨_, name, first⟩, nameTlv, read⟩ := Option.bind_eq_some_iff.mp read
  obtain ⟨⟨_, size, second⟩, sizeTlv, read⟩ := Option.bind_eq_some_iff.mp read
  split at read
  · cases read
  · split at read
    · cases read
    · cases read
      exact ((readTlv_reads nameTlv).trans (readTlv_reads sizeTlv)).store _

theorem readImageHash_reads (read : input.readImageHash st = some st') : input.Reads st st' := by
  simp only [readImageHash, Option.bind_eq_bind] at read
  obtain ⟨⟨_, name, first⟩, nameTlv, read⟩ := Option.bind_eq_some_iff.mp read
  obtain ⟨⟨_, hash, second⟩, hashTlv, read⟩ := Option.bind_eq_some_iff.mp read
  split at read
  · cases read
  · cases read
    exact ((readTlv_reads nameTlv).trans (readTlv_reads hashTlv)).store _

theorem repeatRead_reads {read : UpgradeState → Option UpgradeState}
    (each : ∀ {st st'}, read st = some st' → input.Reads st st') {count : Nat}
    (ran : repeatRead read count st = some st') : input.Reads st st' := by
  induction count generalizing st with
  | zero =>
      cases ran
      exact ⟨.refl _ _, rfl⟩
  | succ count ih =>
      obtain ⟨middle, first, rest⟩ := Option.bind_eq_some_iff.mp ran
      exact (each first).trans (ih rest)

end UpgradeInput

/-- Data that lies one after another from an offset on, in 64 bits. -/
def StoredFrom : Nat → List UpgradeEntry → Prop
  | _, [] => True
  | offset, entry :: entries =>
      entry.dataOffset = offset ∧ StoredFrom ((offset + entry.packedSize) % 2 ^ 64) entries

/-- The packed sizes in so many component entries of the file from an offset on. -/
def componentSizes (updateFileVersion : Nat) (file : Bytes) : Nat → Nat → List Nat
  | _, 0 => []
  | offset, count + 1 =>
      leValue (slice file (offset + 47) (if updateFileVersion ≥ 3 then 8 else 4)) ::
        componentSizes updateFileVersion file (offset + upgradeCompInfoLen) count

/-- A reader that also moves the data of all components by what it stepped over. -/
structure UpgradeState.Shifts (file : Bytes) (st st' : UpgradeState) : Prop where
  advances : st.Advances file st'
  entries : st'.entries = (st.addDataOffset (st'.parsedLen - st.parsedLen)).entries

theorem UpgradeState.Advances.addDataOffset {file : Bytes} {st st' : UpgradeState}
    (advances : st.Advances file st') (offset : Nat) :
    st.Advances file (st'.addDataOffset offset) := by
  obtain ⟨version, fileType, forward, grows, covers⟩ := advances
  exact ⟨version, fileType, forward, grows, covers⟩

namespace UpgradeInput

/-- Chunk information is there only in stream packages from version 5 on. -/
theorem readChunkInfo_spec (read : input.readChunkInfo st = some st') :
    st' = st ∨ st.Shifts input.file st' := by
  unfold readChunkInfo at read
  split at read
  · cases read
    exact .inl rfl
  · right
    simp only [Option.bind_eq_bind] at read
    obtain ⟨first, listInfo, read⟩ := Option.bind_eq_some_iff.mp read
    obtain ⟨second, number, read⟩ := Option.bind_eq_some_iff.mp read
    obtain ⟨third, sizes, read⟩ := Option.bind_eq_some_iff.mp read
    obtain ⟨fourth, hashes, read⟩ := Option.bind_eq_some_iff.mp read
    cases read
    have reads := ((readChunkListInfo_reads listInfo).trans (readPartitionNumChunk_reads number)).trans
      ((repeatRead_reads readImageSize_reads sizes).trans
        (repeatRead_reads readImageHash_reads hashes))
    refine ⟨reads.advances.addDataOffset _, ?_⟩
    simp only [UpgradeState.addDataOffset, reads.entries]

theorem readImgHashData_spec (read : input.readImgHashData st = some st') :
    st' = st ∨ st.Shifts input.file st' := by
  unfold readImgHashData at read
  split at read
  · cases read
    exact .inl rfl
  · right
    simp only [Option.bind_eq_bind] at read
    obtain ⟨⟨infoHead, info, first⟩, infoRead, read⟩ := Option.bind_eq_some_iff.mp read
    obtain ⟨⟨dataHead, data, second⟩, dataRead, read⟩ := Option.bind_eq_some_iff.mp read
    obtain ⟨infoAdvances, infoLen, infoEntries, -⟩ := readTlv_spec infoRead
    obtain ⟨dataAdvances, dataLen, dataEntries, -⟩ := readTlv_spec dataRead
    split at read
    · cases read
      refine ⟨(infoAdvances.trans dataAdvances).addDataOffset _, ?_⟩
      have moved : second.parsedLen - st.parsedLen =
          (infoHead ++ info ++ (dataHead ++ data)).length := by
        simp only at dataLen
        simp only [List.length_append]
        omega
      simp only [UpgradeState.addDataOffset, moved, dataEntries, infoEntries]
    · cases read

theorem readReserveData_spec (read : input.readReserveData st = some st') :
    st.Advances input.file st' ∧ st'.parsedLen = st.parsedLen + upgradeReserveLen ∧
      st'.entries = st.entries := by
  simp only [readReserveData, Option.bind_eq_bind] at read
  obtain ⟨buffer, reserve, read⟩ := Option.bind_eq_some_iff.mp read
  cases read
  exact ⟨UpgradeState.Advances.piece reserve rfl rfl rfl rfl, rfl, rfl⟩

theorem readSignData_spec {signData : Bytes} (read : input.readSignData st = some (signData, st')) :
    st.parsedLen < input.file.length ∧ st'.fed = st.fed ∧
      st'.entries = (st.addDataOffset (st'.parsedLen - st.parsedLen)).entries ∧
      st.parsedLen ≤ st'.parsedLen ∧ st'.parsedLen < input.file.length + 2 ^ 33 := by
  simp only [readSignData, Option.bind_eq_bind] at read
  obtain ⟨head, headRead, read⟩ := Option.bind_eq_some_iff.mp read
  obtain ⟨-, inside, -⟩ := readBuffer_some headRead
  split at read
  · obtain ⟨value, valueRead, read⟩ := Option.bind_eq_some_iff.mp read
    cases read
    have small := leValue_lt (slice head 2 4)
    have width := Nat.pow_le_pow_right (show 0 < 256 by decide) (length_slice_le head 2 4)
    have tlv : hashTlvSize = 6 := rfl
    refine ⟨inside, rfl, ?_, Nat.le_add_right _ _, ?_⟩
    · simp only [UpgradeState.addDataOffset, Nat.add_sub_cancel_left]
    · simp only [UpgradeState.addDataOffset]
      omega
  · cases read

theorem readSignData_parsedLen {signData : Bytes}
    (read : input.readSignData st = some (signData, st')) :
    st'.parsedLen = st.parsedLen + hashTlvSize + leValue (slice input.file (st.parsedLen + 2) 4) := by
  simp only [readSignData, Option.bind_eq_bind] at read
  obtain ⟨head, headRead, read⟩ := Option.bind_eq_some_iff.mp read
  obtain ⟨-, -, whole⟩ := readBuffer_some headRead
  split at read
  · obtain ⟨value, valueRead, read⟩ := Option.bind_eq_some_iff.mp read
    cases read
    obtain ⟨-, inside, -⟩ := readBuffer_some valueRead
    have size : hashTlvSize = 6 := rfl
    simp only [UpgradeState.addDataOffset]
    rw [whole (Nat.le_of_lt inside), slice_slice (by omega), Nat.add_assoc]
  · cases read

/-- What one turn of the loop over the components does: it always reads, and an entry
is decoded only if all of it was in the file. -/
theorem component_step {info ready next : UpgradeParam} (size : info.compBuffer.length =
    upgradeCompInfoLen) (empty : info.readLen < info.currLen + upgradeCompInfoLen)
    (read : input.nextComponent st info = some ready) (saved : saveEntry st ready = some (st', next)) :
    ∃ entry, st' = { st with
        entries := st.entries ++ [entry]
        fed := st.fed ++ (slice input.file (st.parsedLen + info.srcOffset) upgradeCompInfoLen).map
          some } ∧
      decodeHeader st.updateFileVersion
        (slice input.file (st.parsedLen + info.srcOffset) upgradeCompInfoLen)
        (st.parsedLen + info.srcOffset) info.dataOffset = some entry ∧
      st.parsedLen + info.srcOffset + upgradeCompInfoLen ≤ input.file.length ∧
      next.dataOffset = (info.dataOffset + entry.packedSize) % 2 ^ 64 ∧
      next.compBuffer.length = upgradeCompInfoLen ∧
      next.readLen < next.currLen + upgradeCompInfoLen := by
  unfold nextComponent at read
  rw [if_pos empty] at read
  obtain ⟨compBuffer, component, rfl⟩ := Option.map_eq_some_iff.mp read
  obtain ⟨length, -, whole⟩ := readInto_some component
  rw [size] at length whole
  have short := length_slice_le input.file (st.parsedLen + info.srcOffset) upgradeCompInfoLen
  simp only [saveEntry, Option.bind_eq_bind, size] at saved
  obtain ⟨entry, decoded, saved⟩ := Option.bind_eq_some_iff.mp saved
  cases saved
  have enough : upgradeCompInfoLen ≤
      (slice input.file (st.parsedLen + info.srcOffset) upgradeCompInfoLen).length := by
    unfold decodeHeader at decoded
    split at decoded
    · cases decoded
    · rename_i long
      have cut := length_slice_le compBuffer 0
        ((slice input.file (st.parsedLen + info.srcOffset) upgradeCompInfoLen).length - 0)
      omega
  have inside : st.parsedLen + info.srcOffset + upgradeCompInfoLen ≤ input.file.length := by
    simp only [slice, List.length_take, List.length_drop] at enough
    have size : upgradeCompInfoLen = 87 := rfl
    omega
  have same := whole inside
  have cut : slice compBuffer 0
      ((slice input.file (st.parsedLen + info.srcOffset) upgradeCompInfoLen).length - 0) =
        slice input.file (st.parsedLen + info.srcOffset) upgradeCompInfoLen := by
    rw [← same]
    exact slice_full _
  rw [cut] at decoded
  refine ⟨entry, ?_, decoded, inside, rfl, length, ?_⟩
  · simp only [UpgradeState.update, List.drop_zero]
    rw [fedBytes_inside (Nat.le_of_eq length.symm), ← length, List.take_length, length, same]
  · simp only
    have positive : 0 < upgradeCompInfoLen := by decide
    omega

theorem decodeHeader_some {updateFileVersion headerOffset dataOffset : Nat} {entry : UpgradeEntry}
    (decoded : decodeHeader updateFileVersion (slice file start upgradeCompInfoLen) headerOffset
      dataOffset = some entry) :
    entry.dataOffset = dataOffset ∧
      entry.packedSize =
        leValue (slice file (start + 47) (if updateFileVersion ≥ 3 then 8 else 4)) := by
  have size : upgradeCompInfoLen = 87 := rfl
  unfold decodeHeader at decoded
  split at decoded
  · cases decoded
  · cases decoded
    refine ⟨rfl, ?_⟩
    dsimp only
    split
    · rw [slice_slice (by omega)]
    · rw [slice_slice (by omega)]

/-- Run lemma: how many entries are decoded, from where, and where their data lies. -/
theorem componentLoop_spec {tlvLength consumed : Nat} {info : UpgradeParam}
    (size : info.compBuffer.length = upgradeCompInfoLen)
    (empty : info.readLen < info.currLen + upgradeCompInfoLen)
    (ran : input.componentLoop tlvLength st info = some (st', consumed)) :
    ∃ new, st' = { st with
        entries := st.entries ++ new
        fed := st.fed ++ (slice input.file (st.parsedLen + info.srcOffset)
          (upgradeCompInfoLen * new.length)).map some } ∧
      consumed = info.srcOffset + upgradeCompInfoLen * new.length ∧
      StoredFrom info.dataOffset new ∧ tlvLength ≤ consumed ∧
      new.map UpgradeEntry.packedSize = componentSizes st.updateFileVersion input.file
        (st.parsedLen + info.srcOffset) new.length ∧
      (info.srcOffset < tlvLength → new ≠ [] ∧ st.parsedLen + consumed ≤ input.file.length ∧
        consumed < tlvLength + upgradeCompInfoLen) := by
  have positive : 0 < upgradeCompInfoLen := by decide
  generalize left : tlvLength - info.srcOffset = count
  induction count using Nat.strongRecOn generalizing st info with
  | ind count ih =>
      rw [componentLoop] at ran
      split at ran
      · rename_i more
        split at ran
        · cases ran
        · rename_i ready read
          split at ran
          · cases ran
          · rename_i middle next saved
            obtain ⟨entry, same, decoded, inside, dataOffset, nextSize, nextEmpty⟩ :=
              component_step size empty read saved
            have forward := saveEntry_srcOffset saved
            rw [nextComponent_srcOffset read] at forward
            obtain ⟨new, later, total, stored, reached, sizes, rest⟩ :=
              ih (tlvLength - next.srcOffset) (by omega) nextSize nextEmpty ran rfl
            obtain ⟨placed, packedSize⟩ := decodeHeader_some decoded
            have parsedLen : middle.parsedLen = st.parsedLen := by rw [same]
            have version : middle.updateFileVersion = st.updateFileVersion := by rw [same]
            refine ⟨entry :: new, ?_, ?_, ?_, reached, ?_, fun _ => ⟨List.cons_ne_nil _ _, ?_⟩⟩
            · rw [later, same, forward]
              simp only [List.append_assoc, List.singleton_append, List.length_cons,
                ← List.map_append]
              rw [← Nat.add_assoc, slice_append_slice, Nat.mul_succ, Nat.add_comm upgradeCompInfoLen]
            · rw [total, forward, List.length_cons, Nat.mul_succ]
              omega
            · refine ⟨placed, ?_⟩
              rw [← dataOffset]
              exact stored
            · rw [List.map_cons, packedSize, sizes, parsedLen, version, forward, Nat.add_assoc]
              rfl
            · rcases Nat.lt_or_ge next.srcOffset tlvLength with again | done
              · rw [← parsedLen]
                exact (rest again).2
              · have nothing : new = [] := by
                  have again := ran
                  rw [componentLoop, dif_neg (Nat.not_lt.mpr done)] at again
                  cases again
                  have none : upgradeCompInfoLen * new.length = 0 := by omega
                  rcases Nat.mul_eq_zero.mp none with zero | zero
                  · omega
                  · exact List.length_eq_zero_iff.mp zero
                rw [total, nothing, forward, List.length_nil]
                constructor
                · omega
                · omega
      · rename_i done
        cases ran
        exact ⟨[], by simp, by simp, trivial, Nat.not_lt.mp done, rfl, fun more => absurd more done⟩

theorem componentTlv_spec {tlvLength : Nat} (read : input.componentTlv st = some (st', tlvLength)) :
    st.Advances input.file st' ∧ st'.parsedLen = st.parsedLen + pkgTlvLen ∧
      st'.entries = st.entries ∧ upgradeCompInfoLen ≤ tlvLength := by
  simp only [componentTlv, Option.bind_eq_bind] at read
  obtain ⟨buffer, tlv, read⟩ := Option.bind_eq_some_iff.mp read
  split at read
  · rename_i checked
    cases read
    refine ⟨UpgradeState.Advances.piece tlv rfl rfl rfl rfl, rfl, rfl, ?_⟩
    simp only [tlvChecked, Bool.and_eq_true, decide_eq_true_eq] at checked
    exact checked.1.1.2
  · cases read

/-- `ReadComponents`: the entries of the components, one after another. -/
theorem readComponents_spec (read : input.readComponents st = some st') :
    ∃ middle tlvLength new, input.componentTlv st = some (middle, tlvLength) ∧
      st.Advances input.file st' ∧ st'.entries = st.entries ++ new ∧ new ≠ [] ∧
      st'.parsedLen = st.parsedLen + pkgTlvLen + upgradeCompInfoLen * new.length ∧
      tlvLength ≤ upgradeCompInfoLen * new.length ∧
      upgradeCompInfoLen * new.length < tlvLength + upgradeCompInfoLen ∧
      StoredFrom (st.parsedLen + pkgTlvLen + tlvLength + upgradeReserveLen) new ∧
      new.map UpgradeEntry.packedSize = componentSizes st.updateFileVersion input.file
        (st.parsedLen + pkgTlvLen) new.length ∧
      st'.parsedLen ≤ input.file.length := by
  simp only [readComponents, Option.bind_eq_bind] at read
  obtain ⟨⟨middle, tlvLength⟩, tlv, read⟩ := Option.bind_eq_some_iff.mp read
  obtain ⟨⟨last, consumed⟩, loop, read⟩ := Option.bind_eq_some_iff.mp read
  cases read
  obtain ⟨advances, parsedLen, entries, least⟩ := componentTlv_spec tlv
  have short := length_slice_le input.file st.parsedLen pkgTlvLen
  have positive : 0 < upgradeCompInfoLen := by decide
  obtain ⟨new, same, total, stored, reached, sizes, some⟩ := componentLoop_spec
    List.length_replicate (by simp only; omega) loop
  obtain ⟨nonempty, inside, least⟩ := some (by simp only; omega)
  simp only [Nat.zero_add, Nat.add_zero] at same total
  refine ⟨middle, tlvLength, new, tlv, ?_, ?_, nonempty, ?_, ?_, ?_, ?_, ?_, ?_⟩
  · apply advances.trans
    subst same
    constructor
    · rfl
    · rfl
    · exact Nat.le_add_right _ _
    · exact List.prefix_append _ _
    · intro _
      simp only [total, Nat.add_sub_cancel_left]
  · rw [same, entries]
  · rw [same, parsedLen, total]
  · rw [← total]
    exact reached
  · rw [← total]
    exact least
  · rw [← parsedLen]
    exact stored
  · rw [sizes, advances.version, parsedLen]
    rfl
  · rw [same]
    exact inside

/-- Memory inside a buffer. -/
theorem memory_inside {start count : Nat} (inside : start + count ≤ buffer.length) :
    input.memory buffer start count = slice buffer start count := by
  apply List.ext_getElem?
  intro index
  rw [getElem?_slice, memory, List.getElem?_map]
  by_cases before : index < count
  · rw [List.getElem?_range before, if_pos before]
    have found := List.getElem?_eq_getElem (show start + index < buffer.length by omega)
    simp [found]
  · rw [List.getElem?_eq_none (by simpa using before), if_neg before]
    rfl

end UpgradeInput

/-- The length field of the TLV at an offset. -/
def tlvLengthAt (file : Bytes) (offset : Nat) : Nat :=
  leValue (slice file (offset + 2) 2)

/-- The header TLV, and the time TLV behind it, lie in a buffer of
`UPGRADE_FILE_BASIC_LEN` bytes; a header of just that length has the buffer read anew. -/
def HeaderFits (file : Bytes) : Prop :=
  let front := pkgTlvLen + tlvLengthAt file 0
  let back := pkgTlvLen + tlvLengthAt file front
  front + back ≤ upgradeFileBasicLen ∨ front = upgradeFileBasicLen ∧ back ≤ upgradeFileBasicLen

instance (file : Bytes) : Decidable (HeaderFits file) := by
  unfold HeaderFits
  exact inferInstance

namespace UpgradeInput

/-- `ReadUpgradePkgHeader` digests the head of the file, and nothing else just when both
TLVs fit the buffer. -/
theorem readUpgradePkgHeader_spec (large : 2 * upgradeFileBasicLen ≤ input.file.length)
    (read : input.readUpgradePkgHeader = some st) :
    if HeaderFits input.file then
      st.parsedLen ≤ input.file.length ∧ st.fed = (input.file.take st.parsedLen).map some
    else none ∈ st.fed := by
  have basic : upgradeFileBasicLen = 176 := rfl
  have tlv : pkgTlvLen = 4 := rfl
  simp only [readUpgradePkgHeader, Option.bind_eq_bind] at read
  obtain ⟨buffer, front, read⟩ := Option.bind_eq_some_iff.mp read
  obtain ⟨length, -, whole⟩ := readBuffer_some front
  rw [Nat.zero_add] at whole
  have same := whole (by omega)
  have readLen := length_slice (show 0 + upgradeFileBasicLen ≤ input.file.length by omega)
  have headLength : leValue (input.memory buffer 2 2) = tlvLengthAt input.file 0 := by
    rw [memory_inside (by omega), same, slice_slice (by omega), Nat.zero_add]
    rfl
  rw [readLen, headLength] at read
  obtain ⟨⟨early, next, currLen⟩, extra, read⟩ := Option.bind_eq_some_iff.mp read
  dsimp only at read
  split at read
  swap
  · cases read
  cases read
  split at extra
  · rename_i long
    obtain ⟨_, again, pair⟩ := Option.map_eq_some_iff.mp extra
    cases pair
    obtain ⟨nextLength, -, nextWhole⟩ := readInto_some again
    rw [length] at nextLength nextWhole
    simp only [UpgradeState.update, List.nil_append]
    rcases Nat.eq_or_lt_of_le long with exact | beyond
    · have nextSame := nextWhole (by omega)
      have timeLength : leValue (input.memory next (0 + 2) 2) =
          tlvLengthAt input.file upgradeFileBasicLen := by
        rw [memory_inside (by omega), nextSame, ← exact]
        simp only [tlvLengthAt, slice, List.drop_take, List.take_take, List.drop_drop]
        congr 2
      rw [timeLength, ← exact]
      have first : fedBytes buffer upgradeFileBasicLen =
          (input.file.take upgradeFileBasicLen).map some := by
        rw [fedBytes_inside (Nat.le_of_eq length.symm), ← length, List.take_length, length, same]
        rfl
      split
      · rename_i fits
        have back : 0 + pkgTlvLen + tlvLengthAt input.file upgradeFileBasicLen ≤
            upgradeFileBasicLen := by
          simp only [HeaderFits, ← exact] at fits
          omega
        rw [Nat.zero_add] at back ⊢
        refine ⟨by omega, ?_⟩
        rw [first, fedBytes_inside (by omega), nextSame, ← List.map_append, ← exact]
        simp only [slice, List.take_take, Nat.min_eq_left back]
        exact congrArg (List.map some) List.take_add.symm
      · rename_i short
        apply List.mem_append_right
        apply none_mem_fedBytes
        simp only [HeaderFits, ← exact] at short
        rw [nextLength]
        by_contra small
        apply short
        right
        exact ⟨trivial, by omega⟩
    · rw [if_neg]
      · apply List.mem_append_left
        apply none_mem_fedBytes
        omega
      · simp only [HeaderFits]
        omega
  · rename_i short
    cases extra
    simp only [UpgradeState.update, List.nil_append, Nat.zero_add]
    split
    · rename_i fits
      simp only [HeaderFits] at fits
      have back : pkgTlvLen + tlvLengthAt input.file 0 + pkgTlvLen +
          tlvLengthAt input.file (pkgTlvLen + tlvLengthAt input.file 0) ≤ upgradeFileBasicLen := by
        omega
      have timeLength : leValue (input.memory buffer (pkgTlvLen + tlvLengthAt input.file 0 + 2) 2) =
          tlvLengthAt input.file (pkgTlvLen + tlvLengthAt input.file 0) := by
        rw [memory_inside (by omega), same, slice_slice (by omega), Nat.zero_add]
        rfl
      rw [timeLength]
      refine ⟨by omega, ?_⟩
      rw [fedBytes_inside (by omega), same]
      simp only [slice, List.drop_zero, List.take_take, Nat.min_eq_left back]
    · rename_i outside
      apply none_mem_fedBytes
      rw [length]
      by_contra small
      have timeLength : leValue (input.memory buffer (pkgTlvLen + tlvLengthAt input.file 0 + 2) 2) =
          tlvLengthAt input.file (pkgTlvLen + tlvLengthAt input.file 0) := by
        rw [memory_inside (by omega), same, slice_slice (by omega), Nat.zero_add]
        rfl
      rw [timeLength] at small
      apply outside
      left
      omega

/-- From the header to the signature TLV, every reader digests what it steps over. -/
theorem verifyHeaderInput_spec {signOffset : Nat} {fed : List (Option UInt8)}
    (reached : input.verifyHeaderInput = some (signOffset, fed)) :
    ∃ header before, input.readUpgradePkgHeader = some header ∧
      2 * upgradeFileBasicLen ≤ input.file.length ∧ header.Advances input.file before ∧
      before.parsedLen = signOffset ∧ before.fed = fed ∧ signOffset < input.file.length := by
  simp only [verifyHeaderInput, Option.bind_eq_bind] at reached
  obtain ⟨headers, read, reached⟩ := Option.bind_eq_some_iff.mp reached
  split at reached
  swap
  · cases reached
  obtain ⟨before, beforeSign, reached⟩ := Option.bind_eq_some_iff.mp reached
  obtain ⟨⟨signData, last⟩, sign, reached⟩ := Option.bind_eq_some_iff.mp reached
  cases reached
  unfold readHeaders at read
  split at read
  · cases read
  · rename_i large
    simp only [Option.bind_eq_bind] at read
    obtain ⟨header, headerRead, read⟩ := Option.bind_eq_some_iff.mp read
    obtain ⟨components, componentsRead, chunkRead⟩ := Option.bind_eq_some_iff.mp read
    obtain ⟨_, _, _, _, componentsAdvance, _⟩ := readComponents_spec componentsRead
    obtain ⟨reserve, reserveRead, hashRead⟩ := Option.bind_eq_some_iff.mp beforeSign
    obtain ⟨reserveAdvances, _⟩ := readReserveData_spec reserveRead
    obtain ⟨inside, same, _⟩ := readSignData_spec sign
    have chunkAdvances : components.Advances input.file headers := by
      rcases readChunkInfo_spec chunkRead with rfl | shifts
      · exact .refl _ _
      · exact shifts.advances
    have hashAdvances : reserve.Advances input.file before := by
      rcases readImgHashData_spec hashRead with rfl | shifts
      · exact .refl _ _
      · exact shifts.advances
    refine ⟨header, before, headerRead, ?_, ?_, rfl, same.symm, inside⟩
    · have least : 2 * upgradeFileBasicLen ≤ upgradeFileHeaderLen + upgradeCompInfoLen +
          upgradeSignatureLen + upgradeReserveLen := by decide
      exact Nat.le_trans least (Nat.not_lt.mp large)
    · exact (componentsAdvance.trans chunkAdvances).trans (reserveAdvances.trans hashAdvances)

/-- The digest is that of the file up to the signature TLV, just when the header and the
time information fit their buffer. -/
theorem signatureCoverage_iff {signOffset : Nat} {fed : List (Option UInt8)}
    (reached : input.verifyHeaderInput = some (signOffset, fed)) :
    fed = (input.file.take signOffset).map some ↔ HeaderFits input.file := by
  obtain ⟨header, before, read, large, advances, rfl, rfl, inside⟩ := verifyHeaderInput_spec reached
  have spec := readUpgradePkgHeader_spec large read
  constructor
  · intro covered
    by_contra outside
    rw [if_neg outside] at spec
    have member := advances.grows.subset spec
    rw [covered] at member
    obtain ⟨_, _, impossible⟩ := List.mem_map.mp member
    cases impossible
  · intro fits
    rw [if_pos fits] at spec
    obtain ⟨-, head⟩ := spec
    rw [advances.covers (Nat.le_of_lt inside), head, ← List.map_append, slice, ← List.take_add,
      Nat.add_sub_cancel' advances.forward]

/-- A package of version 2 with a header TLV of some length and one empty component. -/
def withHeaderLength (headerLength : Nat) : UpgradeInput where
  file := [1, 0] ++ leBytes 2 headerLength ++ [0, 0, 0, 0, 2, 0] ++
    List.replicate (headerLength - 6) 0 ++ [2, 0, 32, 0] ++ List.replicate 32 0 ++
    [5, 0, 87, 0] ++ List.replicate 87 0 ++ List.replicate 16 0 ++ [8, 0, 0, 1, 0, 0] ++
    List.replicate 700 0
  heap := fun _ => 0
  checksImgHash := false
  parsesImgHash := fun _ _ => true

theorem signatureCoverage_plain :
    ∃ fed, (withHeaderLength 136).verifyHeaderInput = some (283, fed) ∧
      fed = ((withHeaderLength 136).file.take 283).map some := by
  have reached : (withHeaderLength 136).verifyHeaderInput.map Prod.fst = some 283 := by
    decide +kernel
  obtain ⟨⟨signOffset, fed⟩, reached, rfl⟩ := Option.map_eq_some_iff.mp reached
  exact ⟨fed, reached, (signatureCoverage_iff reached).mpr (by decide +kernel)⟩

/-- A header TLV of 200 bytes is digested from a buffer of 176. -/
theorem longHeader_digested :
    ¬ ∀ (input : UpgradeInput) (signOffset : Nat) (fed : List (Option UInt8)),
      input.verifyHeaderInput = some (signOffset, fed) →
        fed = (input.file.take signOffset).map some := by
  intro covered
  have found : (withHeaderLength 200).verifyHeaderInput.map (fun run => decide (none ∈ run.2)) =
      some true := by
    decide +kernel
  obtain ⟨⟨signOffset, fed⟩, reached, member⟩ := Option.map_eq_some_iff.mp found
  have member : none ∈ fed := of_decide_eq_true member
  rw [covered _ _ _ reached] at member
  obtain ⟨_, _, impossible⟩ := List.mem_map.mp member
  cases impossible

end UpgradeInput

end Updater.Package
