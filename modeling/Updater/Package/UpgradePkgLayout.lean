import Updater.Package.UpgradePkgCoverage

/-! Where the components of a loaded upgrade package lie: behind its head and one after
another, if the length of their TLV is a whole number of entries. -/

set_option autoImplicit false

namespace Updater.Package

open Updater.Base

/-- Data that lies one after another without going around. -/
def Consecutive (entries : List UpgradeEntry) : Prop :=
  List.IsChain (fun entry next => next.dataOffset = entry.dataOffset + entry.packedSize) entries

/-- In 64 bits, data lies one after another if all of it but the last starts below the limit. -/
theorem StoredFrom.consecutive_iff {offset : Nat} {entries : List UpgradeEntry}
    (stored : StoredFrom offset entries) (small : offset < 2 ^ 64) :
    Consecutive entries ↔ offset + (entries.map UpgradeEntry.packedSize).dropLast.sum < 2 ^ 64 := by
  induction entries generalizing offset with
  | nil =>
      simp only [Consecutive, List.map_nil, List.dropLast_nil, List.sum_nil]
      exact ⟨fun _ => small, fun _ => .nil⟩
  | cons entry entries ih =>
      obtain ⟨placed, rest⟩ := stored
      cases entries with
      | nil =>
          simp only [Consecutive, List.map_cons, List.map_nil, List.dropLast_singleton,
            List.sum_nil]
          exact ⟨fun _ => small, fun _ => .singleton _⟩
      | cons next entries =>
          have following := ih rest (Nat.mod_lt _ (by decide))
          obtain ⟨nextPlaced, -⟩ := rest
          simp only [Consecutive, List.map_cons, List.dropLast_cons_cons, List.sum_cons]
            at following ⊢
          rw [List.isChain_cons_cons, following, nextPlaced, placed]
          constructor
          · rintro ⟨whole, bound⟩
            omega
          · intro bound
            have whole : (offset + entry.packedSize) % 2 ^ 64 = offset + entry.packedSize := by
              apply Nat.mod_eq_of_lt
              omega
            rw [whole]
            exact ⟨rfl, by omega⟩

theorem StoredFrom.addDataOffset {offset count : Nat} {st : UpgradeState}
    (stored : StoredFrom offset st.entries) :
    StoredFrom ((offset + count) % 2 ^ 64) (st.addDataOffset count).entries := by
  simp only [UpgradeState.addDataOffset]
  generalize st.entries = entries at stored ⊢
  induction entries generalizing offset with
  | nil => trivial
  | cons entry entries ih =>
      obtain ⟨placed, rest⟩ := stored
      refine ⟨?_, ?_⟩
      · exact congrArg (fun offset => (offset + count) % 2 ^ 64) placed
      · have moved := ih rest
        have same : ((offset + entry.packedSize) % 2 ^ 64 + count) % 2 ^ 64 =
            ((offset + count) % 2 ^ 64 + entry.packedSize) % 2 ^ 64 := by
          omega
        rw [same] at moved
        exact moved

theorem UpgradeState.addDataOffset_packedSize (st : UpgradeState) (count : Nat) :
    (st.addDataOffset count).entries.map UpgradeEntry.packedSize =
      st.entries.map UpgradeEntry.packedSize := by
  simp only [UpgradeState.addDataOffset, List.map_map]
  rfl

/-- Offsets that lag behind `parsedLen` by what was read too much of the entries, and are
ahead by what was counted before it is read. -/
structure DataBehind (ahead surplus : Nat) (sizes : List Nat) (st : UpgradeState) : Prop where
  stored : ∃ offset, StoredFrom offset st.entries ∧
    (offset + surplus) % 2 ^ 64 = (st.parsedLen + ahead) % 2 ^ 64
  sizes : st.entries.map UpgradeEntry.packedSize = sizes

variable {input : UpgradeInput} {st st' : UpgradeState} {ahead surplus : Nat} {sizes : List Nat}

theorem DataBehind.moved {count : Nat} (behind : DataBehind ahead surplus sizes st)
    (entries : st'.entries = (st.addDataOffset count).entries) :
    ∃ offset < 2 ^ 64, StoredFrom offset st'.entries ∧
      (offset + surplus) % 2 ^ 64 = (st.parsedLen + ahead + count) % 2 ^ 64 ∧
      st'.entries.map UpgradeEntry.packedSize = sizes := by
  obtain ⟨⟨offset, stored, same⟩, packed⟩ := behind
  refine ⟨(offset + count) % 2 ^ 64, Nat.mod_lt _ (by decide), ?_, by omega, ?_⟩
  · rw [entries]
    exact stored.addDataOffset
  · rw [entries, UpgradeState.addDataOffset_packedSize]
    exact packed

theorem DataBehind.shifts (behind : DataBehind ahead surplus sizes st)
    (shifts : st' = st ∨ st.Shifts input.file st') : DataBehind ahead surplus sizes st' := by
  rcases shifts with rfl | ⟨advances, entries⟩
  · exact behind
  · obtain ⟨offset, -, stored, same, packed⟩ := behind.moved entries
    have forward := advances.forward
    refine ⟨⟨offset, stored, ?_⟩, packed⟩
    rw [same]
    congr 1
    omega

namespace UpgradeInput

/-- `ReadPackageInfo`: the signatures are no part of the reserved bytes. -/
theorem readPackageInfo_spec {signData : Bytes}
    (read : input.readPackageInfo st = some (signData, st')) :
    st'.entries = (st.addDataOffset upgradeSignatureLen).entries ∧
      st'.parsedLen = st.parsedLen + (upgradeReserveLen + upgradeSignatureLen) := by
  simp only [readPackageInfo, Option.bind_eq_bind] at read
  obtain ⟨buffer, reserve, read⟩ := Option.bind_eq_some_iff.mp read
  cases read
  exact ⟨rfl, rfl⟩

/-- The length that the component TLV declares. -/
def declaredLength (input : UpgradeInput) : Option Nat := do
  let st ← input.readUpgradePkgHeader
  let (_, tlvLength) ← input.componentTlv st
  pure tlvLength

/-- The bytes that are consumed as component entries. -/
def consumedLength (input : UpgradeInput) : Option Nat := do
  let st ← input.readUpgradePkgHeader
  let components ← input.readComponents st
  pure (components.parsedLen - (st.parsedLen + pkgTlvLen))

/-- The data of the components of a loaded package follows its head and is consecutive,
and their entries take as much as their TLV declares. -/
structure ComponentLayout (input : UpgradeInput) (loaded : LoadedPackage) : Prop where
  first : ∀ entry ∈ loaded.st.entries.head?, entry.dataOffset = loaded.updateFileHeadLen
  next : Consecutive loaded.st.entries
  consumed : input.consumedLength = input.declaredLength

/-- Where the signature ends, in 64 bits: that of version 1 has a fixed length, later
ones have it in their TLV. -/
def signatureEnd (input : UpgradeInput) : Option Nat := do
  let st ← input.readHeaders
  if st.updateFileVersion ≥ 2 then do
    let st ← input.readBeforeSign st
    pure ((st.parsedLen + hashTlvSize + leValue (slice input.file (st.parsedLen + 2) 4)) % 2 ^ 64)
  else pure ((st.parsedLen + (upgradeReserveLen + upgradeSignatureLen)) % 2 ^ 64)

/-- The component TLV holds whole entries, the head of the file is shorter than 4 GiB,
and all data but the last ends below the limit of 64 bits. -/
def LayoutFits (input : UpgradeInput) : Prop :=
  ∃ header signEnd, input.readUpgradePkgHeader = some header ∧ input.signatureEnd = some signEnd ∧
    upgradeCompInfoLen ∣ tlvLengthAt input.file header.parsedLen ∧ signEnd < 2 ^ 32 ∧
    signEnd + (componentSizes header.updateFileVersion input.file (header.parsedLen + pkgTlvLen)
      (tlvLengthAt input.file header.parsedLen / upgradeCompInfoLen)).dropLast.sum < 2 ^ 64

theorem readUpgradePkgHeader_entries (read : input.readUpgradePkgHeader = some st) :
    st.entries = [] := by
  simp only [readUpgradePkgHeader, Option.bind_eq_bind] at read
  obtain ⟨buffer, front, read⟩ := Option.bind_eq_some_iff.mp read
  obtain ⟨⟨early, next, currLen⟩, extra, read⟩ := Option.bind_eq_some_iff.mp read
  dsimp only at read
  split at read
  · cases read
    split at extra
    · obtain ⟨_, -, pair⟩ := Option.map_eq_some_iff.mp extra
      cases pair
      rfl
    · cases extra
      rfl
  · cases read

theorem componentTlv_declares {tlvLength : Nat} (inside : st.parsedLen + pkgTlvLen ≤ input.file.length)
    (read : input.componentTlv st = some (st', tlvLength)) :
    tlvLength = tlvLengthAt input.file st.parsedLen := by
  simp only [componentTlv, Option.bind_eq_bind] at read
  obtain ⟨buffer, tlv, read⟩ := Option.bind_eq_some_iff.mp read
  split at read
  · cases read
    obtain ⟨-, -, whole⟩ := readBuffer_some tlv
    have size : pkgTlvLen = 4 := rfl
    rw [whole inside, slice_slice (by omega)]
    rfl
  · cases read

/-- What `LoadPackage` leaves up to `VerifyFile`: the data of the components is said to
begin behind the reserved bytes, as if the entries took what their TLV declares. -/
theorem readHeaders_layout (read : input.readHeaders = some st) :
    ∃ header count, input.readUpgradePkgHeader = some header ∧ count ≠ 0 ∧
      input.declaredLength = some (tlvLengthAt input.file header.parsedLen) ∧
      input.consumedLength = some (upgradeCompInfoLen * count) ∧
      tlvLengthAt input.file header.parsedLen ≤ upgradeCompInfoLen * count ∧
      upgradeCompInfoLen * count < tlvLengthAt input.file header.parsedLen + upgradeCompInfoLen ∧
      DataBehind upgradeReserveLen
        (upgradeCompInfoLen * count - tlvLengthAt input.file header.parsedLen)
        (componentSizes header.updateFileVersion input.file (header.parsedLen + pkgTlvLen) count)
        st := by
  unfold readHeaders at read
  split at read
  · cases read
  · simp only [Option.bind_eq_bind] at read
    obtain ⟨header, headerRead, read⟩ := Option.bind_eq_some_iff.mp read
    obtain ⟨components, componentsRead, chunkRead⟩ := Option.bind_eq_some_iff.mp read
    obtain ⟨tlvState, tlvLength, new, tlv, advances, entries, nonempty, parsedLen, least, most,
      stored, packed, inside⟩ := readComponents_spec componentsRead
    have declared := componentTlv_declares (by omega) tlv
    rw [readUpgradePkgHeader_entries headerRead, List.nil_append] at entries
    refine ⟨header, new.length, headerRead, ?_, ?_, ?_, ?_, ?_, ?_⟩
    · intro empty
      exact nonempty (List.length_eq_zero_iff.mp empty)
    · simp only [declaredLength, headerRead, tlv, declared, Option.bind_eq_bind, Option.bind_some]
      rfl
    · simp only [consumedLength, headerRead, componentsRead, parsedLen, Option.bind_eq_bind,
        Option.bind_some, Nat.add_sub_cancel_left]
      rfl
    · rw [← declared]
      exact least
    · rw [← declared]
      exact most
    · have behind : DataBehind upgradeReserveLen (upgradeCompInfoLen * new.length - tlvLength)
          (componentSizes header.updateFileVersion input.file (header.parsedLen + pkgTlvLen)
            new.length) components := by
        refine ⟨⟨header.parsedLen + pkgTlvLen + tlvLength + upgradeReserveLen, ?_, ?_⟩, ?_⟩
        · rw [entries]
          exact stored
        · rw [parsedLen]
          exact congrArg (fun offset => offset % 2 ^ 64) (by omega)
        · rw [entries]
          exact packed
      rw [← declared]
      exact behind.shifts (readChunkInfo_spec chunkRead)

/-- `LoadPackage`: offsets that lag behind the end of the signature by what was read too
much of the entries. -/
theorem loadPackage_layout {verifier verifySign : List (Option UInt8) → Bytes → Bool}
    {loaded : LoadedPackage} (loads : input.loadPackage verifier verifySign = some loaded) :
    ∃ header count offset signEnd, input.readUpgradePkgHeader = some header ∧ count ≠ 0 ∧
      input.declaredLength = some (tlvLengthAt input.file header.parsedLen) ∧
      input.consumedLength = some (upgradeCompInfoLen * count) ∧
      tlvLengthAt input.file header.parsedLen ≤ upgradeCompInfoLen * count ∧
      upgradeCompInfoLen * count < tlvLengthAt input.file header.parsedLen + upgradeCompInfoLen ∧
      input.signatureEnd = some signEnd ∧ signEnd < 2 ^ 64 ∧
      loaded.updateFileHeadLen = signEnd % 2 ^ 32 ∧ offset < 2 ^ 64 ∧
      StoredFrom offset loaded.st.entries ∧
      (offset + (upgradeCompInfoLen * count - tlvLengthAt input.file header.parsedLen)) % 2 ^ 64 =
        signEnd ∧
      loaded.st.entries.map UpgradeEntry.packedSize =
        componentSizes header.updateFileVersion input.file (header.parsedLen + pkgTlvLen) count := by
  simp only [loadPackage, Option.bind_eq_bind] at loads
  obtain ⟨headers, read, loads⟩ := Option.bind_eq_some_iff.mp loads
  obtain ⟨⟨accepted, last⟩, verified, loads⟩ := Option.bind_eq_some_iff.mp loads
  dsimp only at loads
  split at loads
  swap
  · cases loads
  cases loads
  obtain ⟨header, count, headerRead, some, declared, consumed, least, most, behind⟩ :=
    readHeaders_layout read
  have narrow (parsedLen : Nat) : parsedLen % 2 ^ 32 = parsedLen % 2 ^ 64 % 2 ^ 32 :=
    (Nat.mod_mod_of_dvd _ (pow_dvd_pow 2 (by decide))).symm
  split at verified
  · rename_i version
    obtain ⟨before, beforeRead, verified⟩ := Option.bind_eq_some_iff.mp verified
    obtain ⟨⟨signData, signed⟩, sign, verified⟩ := Option.bind_eq_some_iff.mp verified
    cases verified
    obtain ⟨reserve, reserveRead, hashRead⟩ := Option.bind_eq_some_iff.mp beforeRead
    obtain ⟨-, reserveLen, reserveEntries⟩ := readReserveData_spec reserveRead
    obtain ⟨-, -, signEntries, forward, -⟩ := readSignData_spec sign
    have reserved : DataBehind 0 (upgradeCompInfoLen * count -
        tlvLengthAt input.file header.parsedLen) (componentSizes header.updateFileVersion
          input.file (header.parsedLen + pkgTlvLen) count) reserve := by
      obtain ⟨⟨offset, stored, same⟩, packed⟩ := behind
      refine ⟨⟨offset, ?_, ?_⟩, ?_⟩
      · rw [reserveEntries]
        exact stored
      · rw [same, reserveLen]
        rfl
      · rw [reserveEntries]
        exact packed
    obtain ⟨offset, small, stored, same, packed⟩ :=
      (reserved.shifts (readImgHashData_spec hashRead)).moved signEntries
    rw [Nat.add_zero, Nat.add_sub_cancel' forward] at same
    refine ⟨header, count, offset, signed.parsedLen % 2 ^ 64, headerRead, some, declared, consumed,
      least, most, ?_, Nat.mod_lt _ (by decide), narrow _, small, stored, same, packed⟩
    simp only [signatureEnd, read, beforeRead, version, Option.bind_eq_bind, Option.bind_some,
      if_true]
    rw [readSignData_parsedLen sign]
    rfl
  · rename_i version
    obtain ⟨⟨signData, signed⟩, sign, verified⟩ := Option.bind_eq_some_iff.mp verified
    cases verified
    obtain ⟨signEntries, signLen⟩ := readPackageInfo_spec sign
    obtain ⟨offset, small, stored, same, packed⟩ := behind.moved signEntries
    rw [Nat.add_assoc, ← signLen] at same
    refine ⟨header, count, offset, signed.parsedLen % 2 ^ 64, headerRead, some, declared, consumed,
      least, most, ?_, Nat.mod_lt _ (by decide), narrow _, small, stored, same, packed⟩
    simp only [signatureEnd, read, version, Option.bind_eq_bind, Option.bind_some, if_false, signLen]
    rfl

/-- The layout is the one expected just when the component TLV holds whole entries and
neither the length of the head nor an offset goes around. -/
theorem componentLayout_iff {verifier verifySign : List (Option UInt8) → Bytes → Bool}
    {loaded : LoadedPackage} (loads : input.loadPackage verifier verifySign = some loaded) :
    ComponentLayout input loaded ↔ LayoutFits input := by
  obtain ⟨header, count, offset, signEnd, headerRead, some, declared, consumed, least, most, ended,
    bounded, headLen, small, stored, same, packed⟩ := loadPackage_layout loads
  have nonempty : ∃ entry entries, loaded.st.entries = entry :: entries := by
    cases found : loaded.st.entries with
    | nil =>
        rw [found] at packed
        cases count with
        | zero => exact absurd rfl some
        | succ count => cases packed
    | cons entry entries => exact ⟨entry, entries, rfl⟩
  obtain ⟨entry, entries, found⟩ := nonempty
  have placed : entry.dataOffset = offset := by
    rw [found] at stored
    exact stored.1
  have size : upgradeCompInfoLen = 87 := rfl
  constructor
  · rintro ⟨first, next, whole⟩
    rw [declared, consumed] at whole
    have whole := Option.some.inj whole
    have ended' : offset = signEnd := by
      rw [whole, Nat.sub_self, Nat.add_zero, Nat.mod_eq_of_lt small] at same
      exact same
    have first := first entry (by rw [found]; rfl)
    rw [placed, ended', headLen] at first
    refine ⟨header, signEnd, headerRead, ended, ⟨count, whole.symm⟩, ?_, ?_⟩
    · rw [first]
      exact Nat.mod_lt _ (by decide)
    · rw [← whole, Nat.mul_div_cancel_left _ (by decide), ← packed, ← ended']
      exact (stored.consecutive_iff small).mp next
  · rintro ⟨header', signEnd', headerRead', ended', divides, narrow, limit⟩
    rw [headerRead] at headerRead'
    cases headerRead'
    rw [ended] at ended'
    cases ended'
    obtain ⟨whole, exactly⟩ := divides
    have same_count : whole = count := by
      rw [exactly, size] at least most
      omega
    rw [same_count] at exactly
    have placed' : offset = signEnd := by
      rw [exactly, Nat.sub_self, Nat.add_zero, Nat.mod_eq_of_lt small] at same
      exact same
    constructor
    · intro first member
      rw [found] at member
      cases member
      rw [placed, headLen, placed', Nat.mod_eq_of_lt narrow]
    · rw [exactly, Nat.mul_div_cancel_left _ (by decide), ← packed, ← placed'] at limit
      exact (stored.consecutive_iff small).mpr limit
    · rw [declared, consumed, exactly]

/-- A package of version 2 with empty components and some length in their TLV. -/
def withComponentLength (length count : Nat) : UpgradeInput where
  file := [1, 0, 136, 0, 0, 0, 0, 0, 2, 0] ++ List.replicate 130 0 ++ [2, 0, 32, 0] ++
    List.replicate 32 0 ++ [5, 0] ++ leBytes 2 length ++
    List.replicate (upgradeCompInfoLen * count) 0 ++ List.replicate 16 0 ++ [8, 0, 0, 1, 0, 0] ++
    List.replicate 700 0
  heap := fun _ => 0
  checksImgHash := false
  parsesImgHash := fun _ _ => true

theorem componentLayout_plain :
    ∃ loaded, (withComponentLength 174 2).loadPackage (fun _ _ => true) (fun _ _ => true) =
        some loaded ∧ ComponentLayout (withComponentLength 174 2) loaded := by
  have found : ((withComponentLength 174 2).loadPackage (fun _ _ => true) (fun _ _ => true)).isSome := by
    decide +kernel
  obtain ⟨loaded, loads⟩ := Option.isSome_iff_exists.mp found
  have header : (withComponentLength 174 2).readUpgradePkgHeader.map
      (fun st => (st.parsedLen, st.updateFileVersion)) = some (176, 2) := by
    decide +kernel
  obtain ⟨st, read, at_⟩ := Option.map_eq_some_iff.mp header
  obtain ⟨parsedLen, version⟩ := Prod.mk.inj at_
  refine ⟨loaded, loads, (componentLayout_iff loads).mpr ⟨st, 632, read, ?_, ?_, ?_, ?_⟩⟩
  · decide +kernel
  · rw [parsedLen]
    decide +kernel
  · decide
  · rw [parsedLen, version]
    decide +kernel

/-- A TLV of 88 bytes has two entries read. -/
theorem oddLength_overread :
    ¬ ∀ (input : UpgradeInput) (verifier verifySign : List (Option UInt8) → Bytes → Bool)
      (loaded : LoadedPackage), input.loadPackage verifier verifySign = some loaded →
        ComponentLayout input loaded := by
  intro always
  have found : ((withComponentLength 88 2).loadPackage (fun _ _ => true) (fun _ _ => true)).isSome := by
    decide +kernel
  obtain ⟨loaded, loads⟩ := Option.isSome_iff_exists.mp found
  have whole := (always _ _ _ _ loads).consumed
  have differ : (withComponentLength 88 2).consumedLength ≠
      (withComponentLength 88 2).declaredLength := by
    decide +kernel
  exact differ whole

end UpgradeInput

end Updater.Package
