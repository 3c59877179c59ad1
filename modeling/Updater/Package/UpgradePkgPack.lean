import Updater.Base.SparseFile
import Updater.Package.UpgradePkgFile

/-! `UpgradePkgFile::AddEntry` and `SavePackage`: how an upgrade package is written. -/

set_option autoImplicit false

namespace Updater.Package

open Updater.Base

/-- `UpgradePkgInfo`. -/
structure UpgradePkgInfo where
  entryCount : Nat
  digestMethod : Nat
  updateFileVersion : Nat
  productUpdateId : Bytes
  softwareVersion : Bytes
  date : Bytes
  time : Bytes
  descriptPackageId : Bytes

def digestMaxLen : Nat := 32

def pkgDigestTypeSha256 : Nat := 2

def pkgDigestTypeSha384 : Nat := 3

def pkgCompressMethodNone : Nat := 0

/-- `ComponentInfo` of a component, and the contents of its stream. -/
structure ComponentInfo where
  identity : Bytes
  version : Bytes
  digest : Bytes
  id : UInt16
  resType : UInt8
  compFlags : UInt8
  type : UInt8
  originalSize : Nat
  digestMethod : Nat
  packMethod : Nat
  unpackedSize : Nat
  stream : Bytes
  sized : digest.length = digestMaxLen

/-- The digest, and what the compression methods make of so many bytes of a stream. -/
structure PackAlgorithms where
  sha256 : Bytes → Bytes
  compress : Nat → Bytes → Nat → Option Bytes

/-- A field of `size` bytes with a text at its front; `ConvertStringToBuffer` and
`memcpy_s` refuse a longer one. -/
def textField (size : Nat) (text : Bytes) : Option Bytes :=
  if size < text.length then none
  else some (text ++ List.replicate (size - text.length) 0)

/-- `FileStream::Write`; an offset has 63 bits. -/
def streamWrite (file : Bytes) (start : Nat) (data : Bytes) : Option Bytes :=
  if start + data.length < 2 ^ 63 then some (fileWrite file start data) else none

/-- An entry of a package in the making. -/
structure PackedEntry where
  info : ComponentInfo
  packed : Bytes

structure PackState where
  file : Bytes := []
  entries : List PackedEntry := []

namespace ComponentInfo

variable (info : ComponentInfo)

/-- The size that `PkgEntry::Init` takes; zero stands for the whole stream. -/
def initSize : Nat :=
  if info.unpackedSize = 0 then info.stream.length else info.unpackedSize

/-- `Pack` of the algorithm: what it writes. -/
def pack (algorithms : PackAlgorithms) : Option Bytes :=
  if info.packMethod = pkgCompressMethodNone then
    if info.stream.length < info.initSize then none
    else
      let data := info.stream.take info.initSize
      if info.digestMethod = pkgDigestTypeSha256 ∧ algorithms.sha256 data ≠ info.digest then none
      else some data
  else algorithms.compress info.packMethod info.stream info.initSize

/-- `UpgradeFileEntry::EncodeHeader`. -/
def encodeHeader : Option Bytes := do
  let address ← textField 32 info.identity
  let version ← textField 10 info.version
  pure (address ++ (leBytes 2 info.id.toNat ++ ([info.resType] ++ ([info.compFlags] ++
    ([info.type] ++ (version ++ (leBytes 4 info.initSize ++ (leBytes 4 info.originalSize ++
      info.digest))))))))

end ComponentInfo

namespace UpgradePkgInfo

variable (info : UpgradePkgInfo)

def getPackageTlvType : Nat :=
  if info.digestMethod = pkgDigestTypeSha384 then 0x11 else 0x01

/-- The offset at which the reserve lies, behind room for all entries. -/
def reserveOffset : Nat :=
  upgradeFileHeaderLen + info.entryCount * upgradeCompInfoLen

/-- `GetEntryOffset`. -/
def getEntryOffset (st : PackState) : Option Nat :=
  if info.entryCount ≤ st.entries.length then none
  else some (info.reserveOffset + (upgradeReserveLen + upgradeSignatureLen) +
    (st.entries.map fun entry => entry.packed.length).sum)

/-- `AddEntry`. -/
def addEntry (algorithms : PackAlgorithms) (st : PackState) (file : ComponentInfo) :
    Option PackState := do
  let dataOffset ← info.getEntryOffset st
  if file.initSize = 0 then none
  else do
    let packed ← file.pack algorithms
    let written ← streamWrite st.file dataOffset packed
    let comp ← file.encodeHeader
    let offset := upgradeFileHeaderLen + st.entries.length * upgradeCompInfoLen
    let written ← streamWrite written offset comp
    pure { file := written, entries := st.entries ++ [{ info := file, packed }] }

/-- `CheckPackageHeader` and what `SavePackage` puts behind it. -/
def packageHeader : Option Bytes := do
  let softwareVersion ← textField 64 info.softwareVersion
  let productUpdateId ← textField 64 info.productUpdateId
  let date ← textField 16 info.date
  let time ← textField 16 info.time
  -- the version is written with 32 bits, over the type of the file as well
  pure (leBytes 2 info.getPackageTlvType ++ (leBytes 2 upgradePkgHeaderLen ++
    (leBytes 4 (info.reserveOffset + upgradeReserveLen) ++ (leBytes 4 info.updateFileVersion ++
    (productUpdateId ++ (softwareVersion ++ (leBytes 2 2 ++ (leBytes 2 upgradePkgTimeLen ++
    (date ++ (time ++ (leBytes 2 5 ++
      leBytes 2 (info.entryCount * upgradeCompInfoLen))))))))))))

/-- `SavePackage`: the file and the offset of its signatures. -/
def savePackage (st : PackState) : Option (Bytes × Nat) :=
  -- the first entry takes the package out of `PKG_FILE_STATE_IDLE`
  if st.entries = [] then none
  else do
    let header ← info.packageHeader
    let file ← streamWrite st.file 0 header
    let descriptPackageId ← textField upgradeReserveLen info.descriptPackageId
    let file ← streamWrite file info.reserveOffset
      (descriptPackageId ++ List.replicate upgradeSignatureLen 0)
    pure (file, info.reserveOffset + upgradeReserveLen)

/-- All calls that make a package of some components. -/
def createPackage (algorithms : PackAlgorithms) (files : List ComponentInfo) :
    Option (PackState × Bytes × Nat) := do
  let st ← files.foldlM (info.addEntry algorithms) {}
  let (file, signOffset) ← info.savePackage st
  pure (st, file, signOffset)

end UpgradePkgInfo

theorem textField_some {size : Nat} {text field : Bytes} (set : textField size text = some field) :
    text.length ≤ size ∧ field = text ++ List.replicate (size - text.length) 0 ∧
      field.length = size := by
  rw [textField] at set
  split at set
  · cases set
  · rename_i fits
    cases set
    refine ⟨Nat.not_lt.mp fits, rfl, ?_⟩
    rw [List.length_append, List.length_replicate]
    omega

theorem streamWrite_some {file data written : Bytes} {start : Nat}
    (wrote : streamWrite file start data = some written) :
    start + data.length < 2 ^ 63 ∧ written = fileWrite file start data := by
  rw [streamWrite] at wrote
  split at wrote
  · rename_i small
    cases wrote
    exact ⟨small, rfl⟩
  · cases wrote

theorem ComponentInfo.length_encodeHeader {info : ComponentInfo} {comp : Bytes}
    (encoded : info.encodeHeader = some comp) : comp.length = upgradeCompInfoLen := by
  simp only [ComponentInfo.encodeHeader, Option.bind_eq_bind] at encoded
  obtain ⟨address, addressSet, encoded⟩ := Option.bind_eq_some_iff.mp encoded
  obtain ⟨version, versionSet, encoded⟩ := Option.bind_eq_some_iff.mp encoded
  cases encoded
  simp only [List.length_append, (textField_some addressSet).2.2, (textField_some versionSet).2.2,
    length_leBytes, List.length_singleton, info.sized, upgradeCompInfoLen, digestMaxLen]

theorem UpgradePkgInfo.length_packageHeader {info : UpgradePkgInfo} {header : Bytes}
    (made : info.packageHeader = some header) : header.length = upgradeFileHeaderLen := by
  simp only [UpgradePkgInfo.packageHeader, Option.bind_eq_bind] at made
  obtain ⟨software, softwareSet, made⟩ := Option.bind_eq_some_iff.mp made
  obtain ⟨product, productSet, made⟩ := Option.bind_eq_some_iff.mp made
  obtain ⟨date, dateSet, made⟩ := Option.bind_eq_some_iff.mp made
  obtain ⟨time, timeSet, made⟩ := Option.bind_eq_some_iff.mp made
  cases made
  simp only [List.length_append, (textField_some softwareSet).2.2,
    (textField_some productSet).2.2, (textField_some dateSet).2.2, (textField_some timeSet).2.2,
    length_leBytes]
  rfl

/-- The encoded entries of some components. -/
def EncodedAs : List PackedEntry → Bytes → Prop
  | [], infos => infos = []
  | entry :: entries, infos =>
      ∃ comp rest, entry.info.encodeHeader = some comp ∧ infos = comp ++ rest ∧
        EncodedAs entries rest

theorem EncodedAs.append {entries : List PackedEntry} {infos comp : Bytes} {entry : PackedEntry}
    (encoded : EncodedAs entries infos) (last : entry.info.encodeHeader = some comp) :
    EncodedAs (entries ++ [entry]) (infos ++ comp) := by
  induction entries generalizing infos with
  | nil =>
      cases encoded
      exact ⟨comp, [], last, (List.append_nil comp).symm, rfl⟩
  | cons first entries ih =>
      obtain ⟨head, rest, headEncoded, rfl, tail⟩ := encoded
      exact ⟨head, rest ++ comp, headEncoded, List.append_assoc head rest comp, ih tail⟩

theorem EncodedAs.length {entries : List PackedEntry} {infos : Bytes}
    (encoded : EncodedAs entries infos) :
    infos.length = upgradeCompInfoLen * entries.length := by
  induction entries generalizing infos with
  | nil =>
      cases encoded
      rfl
  | cons first entries ih =>
      obtain ⟨head, rest, headEncoded, rfl, tail⟩ := encoded
      rw [List.length_append, ComponentInfo.length_encodeHeader headEncoded, ih tail,
        List.length_cons, Nat.mul_succ, Nat.add_comm]

/-- All packed data. -/
def packedData (entries : List PackedEntry) : Bytes :=
  (entries.map PackedEntry.packed).flatten

theorem packedData_append (entries : List PackedEntry) (entry : PackedEntry) :
    packedData (entries ++ [entry]) = packedData entries ++ entry.packed := by
  rw [packedData, List.map_append, List.flatten_append]
  exact congrArg _ (List.append_nil entry.packed)

theorem length_packedData (entries : List PackedEntry) :
    (packedData entries).length = (entries.map fun entry => entry.packed.length).sum := by
  rw [packedData, List.length_flatten, List.map_map]
  rfl

/-- Where the data of the components begins. -/
def UpgradePkgInfo.dataBase (info : UpgradePkgInfo) : Nat :=
  info.reserveOffset + (upgradeReserveLen + upgradeSignatureLen)

def zeros (count : Nat) : Bytes :=
  List.replicate count 0

theorem zeros_add (first second : Nat) : zeros (first + second) = zeros first ++ zeros second :=
  List.replicate_add _ _ _

theorem length_zeros (count : Nat) : (zeros count).length = count :=
  List.length_replicate

/-- The file between two calls of `AddEntry`: entries and data are where they belong, and
what is not yet written reads as zeros. -/
structure Packing (info : UpgradePkgInfo) (algorithms : PackAlgorithms) (st : PackState)
    (infos : Bytes) : Prop where
  counted : st.entries.length ≤ info.entryCount
  encoded : EncodedAs st.entries infos
  packed : ∀ entry ∈ st.entries, entry.info.initSize ≠ 0 ∧
    entry.info.pack algorithms = some entry.packed
  fits : st.file.length ≤ info.dataBase + (packedData st.entries).length
  full : packedData st.entries ≠ [] → st.file.length = info.dataBase + (packedData st.entries).length
  small : packedData st.entries ≠ [] → info.dataBase + (packedData st.entries).length < 2 ^ 63
  layout : zeroPadded (info.dataBase + (packedData st.entries).length) st.file =
    zeros upgradeFileHeaderLen ++ (infos ++
      (zeros (upgradeCompInfoLen * (info.entryCount - st.entries.length)) ++
        (zeros (upgradeReserveLen + upgradeSignatureLen) ++ packedData st.entries)))

section

variable {info : UpgradePkgInfo} {algorithms : PackAlgorithms} {st st' : PackState}
  {infos : Bytes} {file : ComponentInfo}

theorem Packing.start (info : UpgradePkgInfo) (algorithms : PackAlgorithms) :
    Packing info algorithms {} [] where
  counted := Nat.zero_le _
  encoded := rfl
  packed := nofun
  fits := Nat.zero_le _
  full := fun some => absurd rfl some
  small := fun some => absurd rfl some
  layout := by
    rw [zeroPadded, List.nil_append, List.nil_append]
    change zeros (info.dataBase + 0 - 0) = _
    change _ = _ ++ (zeros (upgradeCompInfoLen * info.entryCount) ++ (_ ++ []))
    rw [List.append_nil, ← zeros_add, ← zeros_add]
    apply congrArg zeros
    rw [UpgradePkgInfo.dataBase, UpgradePkgInfo.reserveOffset, Nat.mul_comm info.entryCount]
    omega

/-- What `AddEntry` writes. -/
theorem addEntry_writes (added : info.addEntry algorithms st file = some st') :
    ∃ comp packed, st.entries.length < info.entryCount ∧ file.initSize ≠ 0 ∧
      file.pack algorithms = some packed ∧ file.encodeHeader = some comp ∧
      info.dataBase + (packedData st.entries).length + packed.length < 2 ^ 63 ∧
      st' = {
        file := fileWrite (fileWrite st.file (info.dataBase + (packedData st.entries).length) packed)
          (upgradeFileHeaderLen + st.entries.length * upgradeCompInfoLen) comp
        entries := st.entries ++ [{ info := file, packed }] } := by
  simp only [UpgradePkgInfo.addEntry, Option.bind_eq_bind] at added
  obtain ⟨dataOffset, offsetFound, added⟩ := Option.bind_eq_some_iff.mp added
  split at added
  · cases added
  · rename_i positive
    obtain ⟨packed, packs, added⟩ := Option.bind_eq_some_iff.mp added
    obtain ⟨first, dataWritten, added⟩ := Option.bind_eq_some_iff.mp added
    obtain ⟨comp, encoded, added⟩ := Option.bind_eq_some_iff.mp added
    obtain ⟨second, compWritten, added⟩ := Option.bind_eq_some_iff.mp added
    cases added
    rw [UpgradePkgInfo.getEntryOffset] at offsetFound
    split at offsetFound
    · cases offsetFound
    · rename_i room
      have offset : info.dataBase + (packedData st.entries).length = dataOffset := by
        rw [length_packedData]
        exact Option.some.inj offsetFound
      subst offset
      obtain ⟨small, rfl⟩ := streamWrite_some dataWritten
      obtain ⟨-, rfl⟩ := streamWrite_some compWritten
      exact ⟨comp, packed, Nat.not_le.mp room, positive, packs, encoded, small, rfl⟩

/-- Step lemma: `AddEntry` puts an entry and its data where they belong. -/
theorem Packing.addEntry (packing : Packing info algorithms st infos)
    (added : info.addEntry algorithms st file = some st') :
    (∃ packed, st'.entries = st.entries ++ [{ info := file, packed }]) ∧
      ∃ infos', Packing info algorithms st' infos' := by
  obtain ⟨comp, packed, room, positive, packs, encoded, small, rfl⟩ := addEntry_writes added
  refine ⟨⟨packed, rfl⟩, infos ++ comp, ?_⟩
  have compLength := ComponentInfo.length_encodeHeader encoded
  have infosLength := packing.encoded.length
  have headed : upgradeFileHeaderLen + st.entries.length * upgradeCompInfoLen + comp.length ≤
      info.dataBase := by
    rw [compLength, UpgradePkgInfo.dataBase, UpgradePkgInfo.reserveOffset]
    have more := Nat.mul_le_mul_right upgradeCompInfoLen room
    rw [Nat.succ_mul] at more
    omega
  have total : info.dataBase + (packedData (st.entries ++ [{ info := file, packed }])).length =
      info.dataBase + (packedData st.entries).length + packed.length := by
    rw [packedData_append, List.length_append, Nat.add_assoc]
  generalize last : ({ info := file, packed } : PackedEntry) = entry at total ⊢
  have packedIs : entry.packed = packed := by
    rw [← last]
  have dataFits := length_fileWrite_le (packing.fits.trans (Nat.le_add_right _ packed.length))
    (Nat.le_refl _)
  constructor
  · rw [List.length_append]
    exact room
  · rw [← last]
    exact packing.encoded.append encoded
  · intro other member
    rcases List.mem_append.mp member with earlier | latest
    · exact packing.packed other earlier
    · rw [List.mem_singleton.mp latest, ← last]
      exact ⟨positive, packs⟩
  · rw [total]
    exact length_fileWrite_le dataFits (by omega)
  · intro some
    have written : comp ≠ [] := by
      intro none
      rw [none] at compLength
      cases compLength
    rw [total, length_fileWrite written]
    by_cases packs : packed = []
    · rw [packedData_append, packedIs, packs, List.append_nil] at some
      have length := packing.full some
      rw [fileWrite, if_pos packs, length, packs, List.length_nil]
      omega
    · rw [length_fileWrite packs]
      have fits := packing.fits
      omega
  · intro _
    rw [total]
    exact small
  · rw [total, zeroPadded_fileWrite dataFits (by omega), zeroPadded_fileWrite
      (packing.fits.trans (Nat.le_add_right _ packed.length)) (Nat.le_refl _),
      zeroPadded_add packing.fits]
    have first : writeAt (zeroPadded (info.dataBase + (packedData st.entries).length) st.file ++
        List.replicate packed.length 0) (info.dataBase + (packedData st.entries).length) packed =
        zeroPadded (info.dataBase + (packedData st.entries).length) st.file ++ packed := by
      have length := length_zeroPadded packing.fits
      generalize zeroPadded (info.dataBase + (packedData st.entries).length) st.file = front at length ⊢
      rw [← length]
      exact writeAt_end List.length_replicate.symm
    have left : info.entryCount - st.entries.length =
        info.entryCount - (st.entries ++ [entry]).length + 1 := by
      rw [List.length_append, List.length_singleton]
      omega
    have front : upgradeFileHeaderLen + st.entries.length * upgradeCompInfoLen =
        (zeros upgradeFileHeaderLen ++ infos).length := by
      rw [List.length_append, length_zeros, infosLength, Nat.mul_comm]
    rw [first, packing.layout, left, Nat.mul_succ, Nat.add_comm, zeros_add, front]
    have second := @writeAt_middle (zeros upgradeFileHeaderLen ++ infos) (zeros upgradeCompInfoLen)
      (zeros (upgradeCompInfoLen *
        (info.entryCount - (st.entries ++ [entry]).length)) ++
          (zeros (upgradeReserveLen + upgradeSignatureLen) ++
            packedData (st.entries ++ [entry]))) comp
      (compLength.trans (length_zeros _).symm)
    rw [packedData_append, packedIs] at second ⊢
    simp only [List.append_assoc] at second ⊢
    exact second

/-- Run lemma: so do all calls. -/
theorem Packing.addEntries {files : List ComponentInfo} (packing : Packing info algorithms st infos)
    (added : files.foldlM (info.addEntry algorithms) st = some st') :
    st'.entries.map PackedEntry.info = st.entries.map PackedEntry.info ++ files ∧
      ∃ infos', Packing info algorithms st' infos' := by
  induction files generalizing st infos with
  | nil =>
      cases added
      exact ⟨(List.append_nil _).symm, infos, packing⟩
  | cons file files ih =>
      rw [List.foldlM_cons] at added
      obtain ⟨next, one, rest⟩ := Option.bind_eq_some_iff.mp added
      obtain ⟨⟨packed, entries⟩, more, grown⟩ := packing.addEntry one
      obtain ⟨named, all⟩ := ih grown rest
      refine ⟨?_, all⟩
      rw [named, entries, List.map_append, List.append_assoc]
      rfl

/-- What a package consists of. -/
structure PackageLayout (info : UpgradePkgInfo) (algorithms : PackAlgorithms)
    (files : List ComponentInfo) (st : PackState) (header infos reserve file : Bytes) : Prop where
  named : st.entries.map PackedEntry.info = files
  nonempty : st.entries ≠ []
  counted : st.entries.length ≤ info.entryCount
  made : info.packageHeader = some header
  encoded : EncodedAs st.entries infos
  packed : ∀ entry ∈ st.entries, entry.info.initSize ≠ 0 ∧
    entry.info.pack algorithms = some entry.packed
  reserved : textField upgradeReserveLen info.descriptPackageId = some reserve
  small : file.length < 2 ^ 63
  layout : file = header ++ (infos ++
    (zeros (upgradeCompInfoLen * (info.entryCount - st.entries.length)) ++
      (reserve ++ (zeros upgradeSignatureLen ++ packedData st.entries))))

/-- Writing what `SavePackage` does over all entries gives the package. -/
theorem createPackage_layout {files : List ComponentInfo} {package : Bytes} {signOffset : Nat}
    (created : info.createPackage algorithms files = some (st, package, signOffset)) :
    signOffset = info.reserveOffset + upgradeReserveLen ∧
      ∃ header infos reserve, PackageLayout info algorithms files st header infos reserve package := by
  simp only [UpgradePkgInfo.createPackage, Option.bind_eq_bind] at created
  obtain ⟨all, added, created⟩ := Option.bind_eq_some_iff.mp created
  obtain ⟨⟨saved, offset⟩, save, created⟩ := Option.bind_eq_some_iff.mp created
  cases created
  simp only [UpgradePkgInfo.savePackage, Option.bind_eq_bind] at save
  split at save
  · cases save
  rename_i some
  obtain ⟨header, made, save⟩ := Option.bind_eq_some_iff.mp save
  obtain ⟨first, headerWritten, save⟩ := Option.bind_eq_some_iff.mp save
  obtain ⟨reserve, reserved, save⟩ := Option.bind_eq_some_iff.mp save
  obtain ⟨second, reserveWritten, save⟩ := Option.bind_eq_some_iff.mp save
  cases save
  obtain ⟨-, rfl⟩ := streamWrite_some headerWritten
  obtain ⟨baseSmall, rfl⟩ := streamWrite_some reserveWritten
  obtain ⟨named, infos, packing⟩ := (Packing.start info algorithms).addEntries added
  have headerLength := UpgradePkgInfo.length_packageHeader made
  have reserveLength := (textField_some reserved).2.2
  have bodyLength : (reserve ++ List.replicate upgradeSignatureLen 0).length =
      upgradeReserveLen + upgradeSignatureLen := by
    rw [List.length_append, reserveLength, List.length_replicate]
  rw [bodyLength] at baseSmall
  change info.dataBase < 2 ^ 63 at baseSmall
  have headed : upgradeFileHeaderLen ≤ info.dataBase := by
    rw [UpgradePkgInfo.dataBase, UpgradePkgInfo.reserveOffset]
    omega
  have base : info.reserveOffset + (upgradeReserveLen + upgradeSignatureLen) = info.dataBase := rfl
  have fits := packing.fits
  have headerSome : header ≠ [] := by
    intro none
    rw [none] at headerLength
    cases headerLength
  have bodySome : reserve ++ List.replicate upgradeSignatureLen 0 ≠ [] := by
    intro none
    rw [none] at bodyLength
    cases bodyLength
  have firstFits := length_fileWrite_le fits
    (show 0 + header.length ≤ info.dataBase + (packedData st.entries).length by omega)
  have length : (fileWrite (fileWrite st.file 0 header) info.reserveOffset
      (reserve ++ List.replicate upgradeSignatureLen 0)).length =
      info.dataBase + (packedData st.entries).length := by
    rw [length_fileWrite bodySome, length_fileWrite headerSome, bodyLength, base, headerLength]
    by_cases none : packedData st.entries = []
    · rw [none, List.length_nil] at fits ⊢
      omega
    · rw [packing.full none]
      omega
  refine ⟨rfl, header, infos, reserve, named, some, packing.counted, made, packing.encoded,
    packing.packed, reserved, ?_, ?_⟩
  · rw [length]
    by_cases none : packedData st.entries = []
    · rw [none]
      exact baseSmall
    · exact packing.small none
  · rw [← zeroPadded_self (fileWrite _ _ _), length, zeroPadded_fileWrite firstFits (by omega),
      zeroPadded_fileWrite fits (by omega), packing.layout]
    have first := @writeAt_middle [] (zeros upgradeFileHeaderLen) (infos ++
      (zeros (upgradeCompInfoLen * (info.entryCount - st.entries.length)) ++
        (zeros (upgradeReserveLen + upgradeSignatureLen) ++ packedData st.entries))) header
      (headerLength.trans (length_zeros _).symm)
    rw [List.nil_append, List.nil_append, List.length_nil] at first
    rw [first]
    have front : info.reserveOffset = (header ++ (infos ++
        zeros (upgradeCompInfoLen * (info.entryCount - st.entries.length)))).length := by
      have counted := packing.counted
      rw [List.length_append, List.length_append, length_zeros, headerLength,
        packing.encoded.length, ← Nat.mul_add, Nat.add_sub_cancel' counted,
        UpgradePkgInfo.reserveOffset, Nat.mul_comm]
    have second := @writeAt_middle (header ++ (infos ++
        zeros (upgradeCompInfoLen * (info.entryCount - st.entries.length))))
      (zeros (upgradeReserveLen + upgradeSignatureLen)) (packedData st.entries)
      (reserve ++ List.replicate upgradeSignatureLen 0) (bodyLength.trans (length_zeros _).symm)
    rw [← front] at second
    simp only [List.append_assoc] at second ⊢
    exact second

end

end Updater.Package
