import Mathlib.Data.List.Forall2
import Updater.Package.UpgradePkgWritten

/-! Upgrade packages that are written and loaded again: which of them come back. -/

set_option autoImplicit false

namespace Updater.Package

open Updater.Base

/-- A component is loaded as it was added. -/
structure Restored (file : Bytes) (entry : PackedEntry) (loaded : UpgradeEntry) : Prop where
  identity : loaded.identity = entry.info.identity
  version : loaded.version = entry.info.version
  digest : loaded.digest = entry.info.digest
  id : loaded.id = entry.info.id.toNat
  resType : loaded.resType = entry.info.resType.toNat
  compFlags : loaded.compFlags = entry.info.compFlags.toNat
  type : loaded.type = entry.info.type.toNat
  packedSize : loaded.packedSize = entry.packed.length
  data : slice file loaded.dataOffset loaded.packedSize = entry.packed

/-- Once a signature that the verifiers accept is put into its slot, the package is loaded
with all its components as they were added. -/
def RoundTrips (info : UpgradePkgInfo) (entries : List PackedEntry) (package : Bytes)
    (signOffset : Nat) : Prop :=
  ∀ (input : UpgradeInput) (signature : Bytes) (verifier verifySign : List (Option UInt8) → Bytes → Bool),
    signature.length = signatureLength info →
    input.file = writeAt package (signOffset + signatureStart info) signature →
    verifier (package.map some) signature = true → verifySign (package.map some) signature = true →
    ∃ loaded, input.loadPackage verifier verifySign = some loaded ∧
      List.Forall₂ (Restored input.file) entries loaded.st.entries

/-- The packages that do so: all of version 1 with as many components as they have room
for, whose texts and sizes fit their fields. -/
structure Loadable (algorithms : PackAlgorithms) (info : UpgradePkgInfo)
    (files : List ComponentInfo) : Prop where
  version : info.updateFileVersion < 2
  all : files.length = info.entryCount
  listed : info.entryCount * upgradeCompInfoLen < 2 ^ 16
  readable : ∀ file ∈ files, Printable file.identity ∧ Printable file.version
  sized : ∀ file ∈ files, ∀ packed ∈ file.pack algorithms, packed.length = file.initSize % 2 ^ 32

/-- A component whose fields say what it is. -/
structure PackedEntry.Faithful (entry : PackedEntry) : Prop where
  identity : Printable entry.info.identity
  version : Printable entry.info.version
  sized : entry.packed.length = entry.info.initSize % 2 ^ 32

theorem decodedFrom_restored {file : Bytes} {entries : List PackedEntry}
    {headerOffset dataOffset : Nat} (faithful : ∀ entry ∈ entries, entry.Faithful)
    (here : file.drop dataOffset = packedData entries) (inside : dataOffset ≤ file.length)
    (small : file.length < 2 ^ 64) :
    List.Forall₂ (Restored file) entries (decodedFrom headerOffset dataOffset entries) := by
  induction entries generalizing headerOffset dataOffset with
  | nil => exact .nil
  | cons entry entries ih =>
      obtain ⟨identity, version, sized⟩ := faithful entry List.mem_cons_self
      have data : file.drop dataOffset = entry.packed ++ packedData entries := here
      have lengths := congrArg List.length data
      rw [List.length_drop, List.length_append] at lengths
      have next : (dataOffset + entry.info.initSize % 2 ^ 32) % 2 ^ 64 =
          dataOffset + entry.packed.length := by
        rw [← sized]
        exact Nat.mod_eq_of_lt (by omega)
      rw [decodedFrom, next]
      constructor
      · constructor
        case identity => exact (convertBufferToString_iff _).mpr identity
        case version => exact (convertBufferToString_iff _).mpr version
        case packedSize => exact sized.symm
        case data =>
          change (file.drop dataOffset).take (entry.info.initSize % 2 ^ 32) = _
          rw [data, ← sized, List.take_left]
        all_goals rfl
      · apply ih
        · intro other member
          exact faithful other (List.mem_cons_of_mem _ member)
        · rw [← List.drop_drop, data, List.drop_left]
        · omega

theorem faithful_of_restored {file : Bytes} {entries : List PackedEntry}
    {headerOffset dataOffset : Nat}
    (restored : List.Forall₂ (Restored file) entries (decodedFrom headerOffset dataOffset entries)) :
    ∀ entry ∈ entries, entry.Faithful := by
  induction entries generalizing headerOffset dataOffset with
  | nil =>
      intro entry member
      cases member
  | cons first entries ih =>
      rw [decodedFrom] at restored
      cases restored with
      | cons one rest =>
        intro entry member
        rcases List.mem_cons.mp member with rfl | later
        · exact ⟨(convertBufferToString_iff _).mp one.identity,
            (convertBufferToString_iff _).mp one.version, one.packedSize.symm⟩
        · exact ih rest entry later

namespace UpgradeInput

variable {input : UpgradeInput} {st st' : UpgradeState}

theorem readComponents_digestMethod (read : input.readComponents st = some st') :
    st'.digestMethod = st.digestMethod := by
  simp only [readComponents, Option.bind_eq_bind] at read
  obtain ⟨⟨middle, tlvLength⟩, tlv, read⟩ := Option.bind_eq_some_iff.mp read
  obtain ⟨⟨last, consumed⟩, ran, read⟩ := Option.bind_eq_some_iff.mp read
  cases read
  have same : middle.digestMethod = st.digestMethod := by
    simp only [componentTlv, Option.bind_eq_bind] at tlv
    obtain ⟨buffer, -, tlv⟩ := Option.bind_eq_some_iff.mp tlv
    split at tlv
    · cases tlv
      rfl
    · cases tlv
  have short : (slice input.file st.parsedLen pkgTlvLen).length < pkgTlvLen + upgradeCompInfoLen :=
    Nat.lt_of_le_of_lt (length_slice_le _ _ _) (by decide)
  obtain ⟨new, later, -⟩ := componentLoop_spec List.length_replicate short ran
  rw [← same]
  dsimp only
  rw [later]

theorem leValue_two {file : Bytes} {start : Nat} (read : leValue (slice file start 2) = 8) :
    file[start]? = some 8 := by
  have first := getElem?_slice file start 2 0
  rw [if_pos (by decide), Nat.add_zero] at first
  cases found : slice file start 2 with
  | nil =>
      rw [found] at read
      cases read
  | cons byte rest =>
      rw [found] at first read
      rw [leValue] at read
      have small := byte.toNat_lt
      have eight : byte.toNat = (8 : UInt8).toNat := by
        change byte.toNat = 8
        omega
      rw [← first, List.getElem?_cons_zero, UInt8.toNat_inj.mp eight]

/-- The two ways in which a load without image hashes ends. -/
theorem loadPackage_cases {verifier verifySign : List (Option UInt8) → Bytes → Bool}
    {loaded : LoadedPackage} (plain : input.checksImgHash = false)
    (loads : input.loadPackage verifier verifySign = some loaded) :
    ∃ components, input.readHeaders = some components ∧
      loaded.st.entries.length = components.entries.length ∧
      (components.parsedLen + (upgradeReserveLen + upgradeSignatureLen) ≤ input.file.length →
        if components.updateFileVersion ≥ 2 then
          input.file[components.parsedLen + upgradeReserveLen]? = some 8
        else ∃ fed, verifier fed (
          match components.digestMethod with
          | .sha384 => slice input.file
              (components.parsedLen + (upgradeReserveLen + signSha256Len)) signSha384Len
          | .sha256 => slice input.file (components.parsedLen + upgradeReserveLen)
              signSha256Len) = true) := by
  simp only [loadPackage, Option.bind_eq_bind] at loads
  obtain ⟨components, headers, loads⟩ := Option.bind_eq_some_iff.mp loads
  obtain ⟨⟨accepted, last⟩, verified, loads⟩ := Option.bind_eq_some_iff.mp loads
  dsimp only at loads
  split at loads
  · rename_i holds
    cases loads
    refine ⟨components, headers, ?_⟩
    dsimp only at holds ⊢
    have reserve : upgradeReserveLen = 16 := rfl
    have signatures : upgradeSignatureLen = 640 := rfl
    have tlv : hashTlvSize = 6 := rfl
    split at verified
    · rename_i version2
      obtain ⟨before, early, verified⟩ := Option.bind_eq_some_iff.mp verified
      obtain ⟨⟨signData, signed⟩, sign, verified⟩ := Option.bind_eq_some_iff.mp verified
      cases verified
      obtain ⟨reserved, reserveRead, hashRead⟩ := Option.bind_eq_some_iff.mp early
      have skipped : before = reserved := by
        rw [readImgHashData, plain] at hashRead
        cases hashRead
        rfl
      subst skipped
      obtain ⟨-, parsedLen, entries⟩ := readReserveData_spec reserveRead
      obtain ⟨-, -, moved, -⟩ := readSignData_spec sign
      constructor
      · rw [moved, ← entries]
        exact List.length_map _
      · intro inside
        rw [if_pos version2, ← parsedLen]
        apply leValue_two
        simp only [readSignData, Option.bind_eq_bind] at sign
        obtain ⟨head, headRead, sign⟩ := Option.bind_eq_some_iff.mp sign
        obtain ⟨-, -, whole⟩ := readBuffer_some headRead
        have field : slice head 0 2 = slice input.file before.parsedLen 2 := by
          rw [whole (by omega), slice_slice (by omega), Nat.add_zero]
        split at sign
        · rename_i type
          rw [← field]
          exact type
        · cases sign
    · rename_i version1
      obtain ⟨⟨signData, packaged⟩, info, verified⟩ := Option.bind_eq_some_iff.mp verified
      cases verified
      simp only [readPackageInfo, Option.bind_eq_bind] at info
      obtain ⟨buffer, read, info⟩ := Option.bind_eq_some_iff.mp info
      obtain ⟨-, -, whole⟩ := readBuffer_some read
      cases info
      constructor
      · exact List.length_map _
      · intro inside
        rw [if_neg version1]
        refine ⟨_, Eq.trans (congrArg _ ?_) holds⟩
        have sha384 : signSha384Len = 384 := rfl
        have sha256 : signSha256Len = 256 := rfl
        rw [whole inside]
        cases components.digestMethod with
        | sha256 => exact (slice_slice (by omega)).symm
        | sha384 => exact (slice_slice (by omega)).symm
  · cases loads

/-- What the headers of a written package are, however its entries are read. -/
theorem readHeaders_written {info : UpgradePkgInfo} {header rest : Bytes} {components : UpgradeState}
    (made : info.packageHeader = some header) (file : input.file = header ++ rest)
    (version : info.updateFileVersion < 2 ^ 16) (read : input.readHeaders = some components) :
    components.updateFileVersion = info.updateFileVersion ∧
      components.digestMethod =
        (if info.digestMethod = pkgDigestTypeSha384 then .sha384 else .sha256) ∧
      components.parsedLen = upgradeFileHeaderLen + upgradeCompInfoLen * components.entries.length ∧
      upgradeCompInfoLen * components.entries.length <
        info.entryCount * upgradeCompInfoLen % 2 ^ 16 + upgradeCompInfoLen ∧
      info.entryCount * upgradeCompInfoLen % 2 ^ 16 ≤
        upgradeCompInfoLen * components.entries.length := by
  have fields := packageHeader_fields made
  have length := UpgradePkgInfo.length_packageHeader made
  obtain ⟨first, headerRead, headParsed, headVersion, headType, headDigest⟩ :=
    readUpgradePkgHeader_written fields length file
  unfold readHeaders at read
  split at read
  · cases read
  · simp only [headerRead, Option.bind_eq_bind, Option.bind_some] at read
    obtain ⟨last, componentsRead, chunks⟩ := Option.bind_eq_some_iff.mp read
    obtain ⟨middle, tlvLength, new, tlv, advances, entries, -, parsedLen, many, few, -, -, inside⟩ :=
      readComponents_spec componentsRead
    have digestMethod := readComponents_digestMethod componentsRead
    rw [readUpgradePkgHeader_entries headerRead, List.nil_append] at entries
    have skips : input.readChunkInfo last = some last := by
      rw [readChunkInfo, if_pos]
      right
      rw [advances.fileType, headType]
      omega
    rw [skips] at chunks
    cases chunks
    have whole : upgradeFileHeaderLen = 180 := rfl
    have basic : upgradeFileBasicLen = 176 := rfl
    have tlvSize : pkgTlvLen = 4 := rfl
    have declared := componentTlv_declares (by omega) tlv
    have field : slice input.file (first.parsedLen + 2) 2 = slice header 178 2 := by
      rw [headParsed, file]
      exact slice_append_left rest (by omega)
    rw [tlvLengthAt, field, fields.componentLength] at declared
    refine ⟨?_, digestMethod.trans headDigest, ?_, ?_, ?_⟩
    · rw [advances.version, headVersion]
      exact Nat.mod_eq_of_lt version
    · rw [entries, parsedLen, headParsed]
      rfl
    · rw [entries, ← declared]
      exact few
    · rw [entries, ← declared]
      exact many

end UpgradeInput

section

variable {algorithms : PackAlgorithms} {info : UpgradePkgInfo} {files : List ComponentInfo}
  {st : PackState} {package header infos reserve signature : Bytes}

theorem signature_fits (info : UpgradePkgInfo) :
    signatureStart info + signatureLength info ≤ upgradeSignatureLen := by
  rw [signatureStart, signatureLength]
  split <;> decide

/-- A full package with a signature in its slot. -/
theorem PackageLayout.signed (packs : PackageLayout info algorithms files st header infos reserve package)
    (all : st.entries.length = info.entryCount) (length : signature.length = signatureLength info) :
    ∃ area, area.length = upgradeSignatureLen ∧
      slice area (signatureStart info) (signatureLength info) = signature ∧
      writeAt package (info.reserveOffset + upgradeReserveLen + signatureStart info) signature =
        header ++ (infos ++ (reserve ++ (area ++ packedData st.entries))) := by
  have fits := signature_fits info
  have reserveLength := (textField_some packs.reserved).2.2
  have headerLength := UpgradePkgInfo.length_packageHeader packs.made
  have infosLength := packs.encoded.length
  have split : zeros upgradeSignatureLen = zeros (signatureStart info) ++
      (zeros (signatureLength info) ++
        zeros (upgradeSignatureLen - signatureStart info - signatureLength info)) := by
    rw [← zeros_add, ← zeros_add]
    apply congrArg zeros
    omega
  refine ⟨zeros (signatureStart info) ++ (signature ++
    zeros (upgradeSignatureLen - signatureStart info - signatureLength info)), ?_, ?_, ?_⟩
  · rw [List.length_append, List.length_append, length_zeros, length_zeros, length]
    omega
  · exact slice_field (length_zeros _).symm length.symm
  · have front : info.reserveOffset + upgradeReserveLen + signatureStart info =
        (header ++ (infos ++ (reserve ++ zeros (signatureStart info)))).length := by
      rw [List.length_append, List.length_append, List.length_append, length_zeros, headerLength,
        infosLength, reserveLength, all, UpgradePkgInfo.reserveOffset, Nat.mul_comm]
      omega
    have written := @writeAt_middle (header ++ (infos ++ (reserve ++ zeros (signatureStart info))))
      (zeros (signatureLength info))
      (zeros (upgradeSignatureLen - signatureStart info - signatureLength info) ++
        packedData st.entries) signature (length.trans (length_zeros _).symm)
    rw [← front] at written
    have layout := packs.layout
    have full : upgradeCompInfoLen * (info.entryCount - st.entries.length) = 0 := by
      rw [all, Nat.sub_self, Nat.mul_zero]
    rw [full, split] at layout
    simp only [List.append_assoc] at layout written ⊢
    rw [layout]
    exact written

/-- The components of a loadable package are faithful. -/
theorem PackageLayout.faithful_iff
    (packs : PackageLayout info algorithms files st header infos reserve package) :
    (∀ entry ∈ st.entries, entry.Faithful) ↔
      (∀ file ∈ files, Printable file.identity ∧ Printable file.version) ∧
        ∀ file ∈ files, ∀ packed ∈ file.pack algorithms, packed.length = file.initSize % 2 ^ 32 := by
  rw [← packs.named]
  constructor
  · intro faithful
    constructor
    · intro file member
      obtain ⟨entry, inside, rfl⟩ := List.mem_map.mp member
      exact ⟨(faithful entry inside).identity, (faithful entry inside).version⟩
    · intro file member packed made
      obtain ⟨entry, inside, rfl⟩ := List.mem_map.mp member
      have same := (packs.packed entry inside).2
      rw [Option.mem_def.mp made] at same
      cases same
      exact (faithful entry inside).sized
  · rintro ⟨readable, sized⟩ entry inside
    have member : entry.info ∈ st.entries.map PackedEntry.info := List.mem_map_of_mem inside
    obtain ⟨identity, version⟩ := readable _ member
    exact ⟨identity, version, sized _ member _ (packs.packed entry inside).2⟩

theorem PackageLayout.length_files
    (packs : PackageLayout info algorithms files st header infos reserve package) :
    st.entries.length = files.length := by
  rw [← packs.named, List.length_map]

theorem Loadable.roundTrips (loadable : Loadable algorithms info files)
    (packs : PackageLayout info algorithms files st header infos reserve package) :
    RoundTrips info st.entries package (info.reserveOffset + upgradeReserveLen) := by
  intro input signature verifier verifySign length sealed accepted _
  have all : st.entries.length = info.entryCount := packs.length_files.trans loadable.all
  have reserveLength := (textField_some packs.reserved).2.2
  have headerLength := UpgradePkgInfo.length_packageHeader packs.made
  obtain ⟨area, areaLength, field, written⟩ := packs.signed all length
  have file := sealed.trans written
  have version := loadable.version
  obtain ⟨final, ran, entries⟩ := loadPackage_written (packageHeader_fields packs.made) headerLength
    file packs.encoded packs.nonempty all loadable.listed reserveLength areaLength (by omega)
    verifier verifySign
  have full : upgradeCompInfoLen * (info.entryCount - st.entries.length) = 0 := by
    rw [all, Nat.sub_self, Nat.mul_zero]
  have plain : header ++ (infos ++ (reserve ++ (zeros upgradeSignatureLen ++
      packedData st.entries))) = package := by
    rw [packs.layout, full]
    rfl
  rw [field, plain, if_pos accepted] at ran
  have place : (header ++ (infos ++ (reserve ++ area))).length = info.dataBase := by
    rw [List.length_append, List.length_append, List.length_append, headerLength,
      packs.encoded.length, reserveLength, areaLength, all, UpgradePkgInfo.dataBase,
      UpgradePkgInfo.reserveOffset, Nat.mul_comm]
    omega
  have total : input.file.length = package.length := by
    rw [file, ← plain]
    simp only [List.length_append, areaLength, length_zeros]
  have small := packs.small
  have base : info.dataBase ≤ input.file.length := by
    rw [file, ← place]
    simp only [List.length_append]
    omega
  refine ⟨_, ran, ?_⟩
  change List.Forall₂ (Restored input.file) st.entries final.entries
  rw [entries, Nat.mod_eq_of_lt (by omega)]
  apply decodedFrom_restored (packs.faithful_iff.mpr ⟨loadable.readable, loadable.sized⟩)
  · have front : input.file = (header ++ (infos ++ (reserve ++ area))) ++ packedData st.entries := by
      rw [file]
      simp only [List.append_assoc]
    rw [front, ← place, List.drop_left]
  · exact base
  · omega

/-- Behind the entries and what takes the place of the reserve, a package has a zero. -/
theorem PackageLayout.blank
    (packs : PackageLayout info algorithms files st header infos reserve package) :
    package[upgradeFileHeaderLen + upgradeCompInfoLen * st.entries.length + upgradeReserveLen]? =
      some 0 := by
  have reserveLength := (textField_some packs.reserved).2.2
  have headerLength := UpgradePkgInfo.length_packageHeader packs.made
  have reserve16 : upgradeReserveLen = 16 := rfl
  have comp87 : upgradeCompInfoLen = 87 := rfl
  have signatures : upgradeSignatureLen = 640 := rfl
  have front : (header ++ infos).length =
      upgradeFileHeaderLen + upgradeCompInfoLen * st.entries.length := by
    rw [List.length_append, headerLength, packs.encoded.length]
  rw [packs.layout, ← front, ← List.append_assoc,
    List.getElem?_append_right (Nat.le_add_right _ _), Nat.add_sub_cancel_left]
  rcases Nat.eq_or_lt_of_le packs.counted with all | fewer
  · rw [all, Nat.sub_self, Nat.mul_zero]
    change (reserve ++ _)[upgradeReserveLen]? = _
    rw [← reserveLength, List.getElem?_append_right (Nat.le_refl _), Nat.sub_self,
      List.getElem?_append_left (by rw [length_zeros]; decide), zeros,
      List.getElem?_replicate_of_lt (by decide)]
  · have room : upgradeReserveLen < upgradeCompInfoLen * (info.entryCount - st.entries.length) := by
      rw [comp87]
      omega
    rw [List.getElem?_append_left (by rw [length_zeros]; exact room), zeros,
      List.getElem?_replicate_of_lt room]

theorem PackageLayout.length_package
    (packs : PackageLayout info algorithms files st header infos reserve package) :
    package.length = info.dataBase + (packedData st.entries).length := by
  have counted := packs.counted
  rw [packs.layout]
  simp only [List.length_append, UpgradePkgInfo.length_packageHeader packs.made,
    (textField_some packs.reserved).2.2, packs.encoded.length, length_zeros]
  have entries : upgradeCompInfoLen * info.entryCount = upgradeCompInfoLen * st.entries.length +
      upgradeCompInfoLen * (info.entryCount - st.entries.length) := by
    rw [← Nat.mul_add, Nat.add_sub_cancel' counted]
  rw [UpgradePkgInfo.dataBase, UpgradePkgInfo.reserveOffset, Nat.mul_comm info.entryCount]
  omega

/-- A byte that a signature is made of here: neither the type of a signature TLV nor the
one at an offset of the package. -/
def markByte (package : Bytes) (offset : Nat) : UInt8 :=
  if package[offset]? = some 1 then 2 else 1

theorem markByte_ne (package : Bytes) (offset : Nat) :
    package[offset]? ≠ some (markByte package offset) ∧ markByte package offset ≠ 8 := by
  rw [markByte]
  split
  · rename_i one
    rw [one]
    decide
  · rename_i other
    exact ⟨other, by decide⟩

theorem RoundTrips.loadable
    (trips : RoundTrips info st.entries package (info.reserveOffset + upgradeReserveLen))
    (packs : PackageLayout info algorithms files st header infos reserve package)
    (version : info.updateFileVersion < 2 ^ 16) : Loadable algorithms info files := by
  have reserve16 : upgradeReserveLen = 16 := rfl
  have comp87 : upgradeCompInfoLen = 87 := rfl
  have signatures : upgradeSignatureLen = 640 := rfl
  have fits := signature_fits info
  have counted := packs.counted
  have headerLength := UpgradePkgInfo.length_packageHeader packs.made
  have packageLength := packs.length_package
  have slot : info.reserveOffset = upgradeFileHeaderLen + upgradeCompInfoLen * info.entryCount := by
    rw [UpgradePkgInfo.reserveOffset, Nat.mul_comm]
  have base : info.dataBase = info.reserveOffset + (upgradeReserveLen + upgradeSignatureLen) := rfl
  generalize offset_ : upgradeFileHeaderLen + upgradeCompInfoLen * st.entries.length +
    upgradeReserveLen = blank at *
  obtain ⟨differs, notType⟩ := markByte_ne package (blank + signatureStart info)
  generalize markByte package (blank + signatureStart info) = mark at differs notType
  generalize made : List.replicate (signatureLength info) mark = signature
  have length : signature.length = signatureLength info := by
    rw [← made, List.length_replicate]
  have room : info.reserveOffset + upgradeReserveLen + signatureStart info ≤ package.length := by
    omega
  generalize sealed : writeAt package
    (info.reserveOffset + upgradeReserveLen + signatureStart info) signature = file at trips
  have at_ (index : Nat) := @getElem?_writeAt UInt8 package signature _ room index
  simp only [sealed] at at_
  have fileLength : file.length = package.length := by
    rw [← sealed]
    exact length_writeAt (by omega)
  have front : ∃ rest, file = header ++ rest := by
    rw [← sealed, packs.layout, writeAt, List.take_append, List.take_of_length_le (by omega)]
    exact ⟨_, (List.append_assoc _ _ _).trans (List.append_assoc _ _ _)⟩
  obtain ⟨rest, file_⟩ := front
  obtain ⟨loaded, loads, restored⟩ := trips
    { file, heap := fun _ => 0, checksImgHash := false, parsesImgHash := fun _ _ => true }
    signature (fun _ found => found = signature) (fun _ _ => true) length sealed.symm
    (decide_eq_true rfl) rfl
  obtain ⟨components, headers, counts, ends⟩ := UpgradeInput.loadPackage_cases rfl loads
  obtain ⟨loadedVersion, digestMethod, parsedLen, few, -⟩ :=
    UpgradeInput.readHeaders_written packs.made file_ version headers
  have same : components.entries.length = st.entries.length :=
    counts.symm.trans restored.length_eq.symm
  rw [same] at parsedLen few
  have entriesFit : upgradeCompInfoLen * st.entries.length ≤
      upgradeCompInfoLen * info.entryCount := Nat.mul_le_mul_left _ counted
  have ending := ends (by dsimp only; omega)
  dsimp only at ending
  have blank_ : components.parsedLen + upgradeReserveLen = blank := by omega
  -- a signature TLV would begin with a zero or a byte of the signature
  have old : ¬ components.updateFileVersion ≥ 2 := by
    intro version2
    rw [if_pos version2, blank_, at_ blank, ← made] at ending
    split at ending
    · rw [← offset_, packs.blank] at ending
      cases ending
    · split at ending
      · rename_i inside
        rw [List.length_replicate] at inside
        rw [List.getElem?_replicate_of_lt (by omega)] at ending
        exact notType (Option.some.inj ending)
      · rw [← offset_, packs.blank] at ending
        cases ending
  -- with fewer entries the signature is looked for in front of its slot
  have all : st.entries.length = info.entryCount := by
    apply Nat.le_antisymm counted
    apply Nat.not_lt.mp
    intro fewer
    rw [if_neg old] at ending
    obtain ⟨_, accepted⟩ := ending
    have found := of_decide_eq_true accepted
    have place : components.parsedLen + (upgradeReserveLen + signatureStart info) =
        blank + signatureStart info := by omega
    have shape : slice file (blank + signatureStart info) (signatureLength info) = signature := by
      rw [← place, ← found, digestMethod]
      rw [signatureStart, signatureLength]
      by_cases sha384 : info.digestMethod = pkgDigestTypeSha384
      · simp only [if_pos sha384]
      · simp only [if_neg sha384, Nat.add_zero]
    have before : upgradeCompInfoLen * st.entries.length < upgradeCompInfoLen * info.entryCount :=
      Nat.mul_lt_mul_of_pos_left fewer (by decide)
    have positive : 0 < signatureLength info := by
      rw [signatureLength]
      split <;> decide
    have first := getElem?_slice file (blank + signatureStart info) (signatureLength info) 0
    rw [shape, if_pos positive, Nat.add_zero, ← made, List.getElem?_replicate_of_lt positive,
      at_ _, if_pos (by omega)] at first
    exact differs first.symm
  rw [all] at few
  have listed : info.entryCount * upgradeCompInfoLen < 2 ^ 16 := by
    rw [Nat.mul_comm info.entryCount] at few ⊢
    omega
  have version1 : info.updateFileVersion < 2 := by omega
  obtain ⟨area, areaLength, field, written⟩ := packs.signed all length
  rw [sealed] at written
  have whole : ({ file, heap := fun _ => 0, checksImgHash := false, parsesImgHash := fun _ _ => true } :
      UpgradeInput).file = header ++ (infos ++ (reserve ++ (area ++ packedData st.entries))) := written
  obtain ⟨final, ran, entries⟩ := loadPackage_written (packageHeader_fields packs.made) headerLength
    whole packs.encoded packs.nonempty all listed (textField_some packs.reserved).2.2 areaLength
    (by omega) (fun _ found => found = signature) (fun _ _ => true)
  rw [field, if_pos (decide_eq_true rfl)] at ran
  have last := loads.symm.trans ran
  cases last
  dsimp only at restored
  rw [entries] at restored
  obtain ⟨readable, sized⟩ := packs.faithful_iff.mp (faithful_of_restored restored)
  exact ⟨version1, packs.length_files.symm.trans all, listed, readable, sized⟩

/-- A package comes back exactly if it is loadable. -/
theorem upgradePackage_roundTrips_iff {signOffset : Nat}
    (created : info.createPackage algorithms files = some (st, package, signOffset))
    (version : info.updateFileVersion < 2 ^ 16) :
    RoundTrips info st.entries package signOffset ↔ Loadable algorithms info files := by
  obtain ⟨rfl, header, infos, reserve, packs⟩ := createPackage_layout created
  constructor
  · intro trips
    exact trips.loadable packs version
  · intro loadable
    exact loadable.roundTrips packs

end

/-- A package with a component of three stored bytes. -/
def bootPackage (updateFileVersion : Nat) : UpgradePkgInfo where
  entryCount := 1
  digestMethod := pkgDigestTypeSha256
  updateFileVersion
  productUpdateId := []
  softwareVersion := []
  date := []
  time := []
  descriptPackageId := []

def bootComponent : ComponentInfo where
  identity := ascii "boot"
  version := ascii "1"
  digest := List.replicate 32 0
  id := 1
  resType := 0
  compFlags := 0
  type := 0
  originalSize := 3
  digestMethod := 0
  packMethod := pkgCompressMethodNone
  unpackedSize := 0
  stream := [1, 2, 3]
  sized := List.length_replicate

def noAlgorithms : PackAlgorithms where
  sha256 := fun _ => []
  compress := fun _ _ _ => none

theorem bootComponent_loadable :
    Loadable noAlgorithms (bootPackage 1) [bootComponent] where
  version := by decide
  all := rfl
  listed := by decide
  readable := by
    intro file member
    rw [List.mem_singleton.mp member]
    exact ⟨by decide +kernel, by decide +kernel⟩
  sized := by
    intro file member packed made
    rw [List.mem_singleton.mp member] at made ⊢
    have stored : bootComponent.pack noAlgorithms = some [1, 2, 3] := by decide +kernel
    rw [stored] at made
    cases made
    decide +kernel

/-- The package of version 1 comes back. -/
theorem bootPackage_roundTrips :
    ∃ st package signOffset,
      (bootPackage 1).createPackage noAlgorithms [bootComponent] = some (st, package, signOffset) ∧
      RoundTrips (bootPackage 1) st.entries package signOffset := by
  have made : ((bootPackage 1).createPackage noAlgorithms [bootComponent]).isSome = true := by
    decide +kernel
  obtain ⟨⟨st, package, signOffset⟩, created⟩ := Option.isSome_iff_exists.mp made
  exact ⟨st, package, signOffset, created,
    (upgradePackage_roundTrips_iff created (by decide)).mpr bootComponent_loadable⟩

/-- That of version 2 does not: it is written in the layout of version 1. -/
theorem bootPackage_version2_lost :
    ¬ ∀ (info : UpgradePkgInfo) (algorithms : PackAlgorithms) (files : List ComponentInfo)
      (st : PackState) (package : Bytes) (signOffset : Nat),
      1 ≤ info.updateFileVersion → info.updateFileVersion ≤ 5 → files ≠ [] →
      info.createPackage algorithms files = some (st, package, signOffset) →
      RoundTrips info st.entries package signOffset := by
  intro comesBack
  have made : ((bootPackage 2).createPackage noAlgorithms [bootComponent]).isSome = true := by
    decide +kernel
  obtain ⟨⟨st, package, signOffset⟩, created⟩ := Option.isSome_iff_exists.mp made
  have trips := comesBack (bootPackage 2) noAlgorithms [bootComponent] st package signOffset
    (by decide) (by decide) (List.cons_ne_nil _ _) created
  obtain ⟨rfl, header, infos, reserve, packs⟩ := createPackage_layout created
  have old := (trips.loadable packs (by decide)).version
  revert old
  decide

end Updater.Package
