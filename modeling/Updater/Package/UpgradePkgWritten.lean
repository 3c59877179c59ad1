import Mathlib.Data.List.TakeWhile
import Updater.Package.UpgradePkgLayout
import Updater.Package.UpgradePkgPack

/-! `UpgradePkgFile::LoadPackage` of a package as `SavePackage` writes it. -/

set_option autoImplicit false

namespace Updater.Package

open Updater.Base
open UpgradeInput (decodeHeader)

theorem slice_behind {front back : Bytes} {start size : Nat} (behind : front.length ≤ start) :
    slice (front ++ back) start size = slice back (start - front.length) size := by
  rw [← slice_append_right front back (start - front.length) size,
    Nat.add_sub_cancel' behind]

theorem slice_front {front back : Bytes} {size : Nat} (whole : size = front.length) :
    slice (front ++ back) 0 size = front := by
  rw [whole, slice, List.drop_zero, List.take_left]

/-- A field behind `front`. -/
theorem slice_field {front field back : Bytes} {start size : Nat} (at_ : start = front.length)
    (length : size = field.length) : slice (front ++ (field ++ back)) start size = field := by
  rw [at_, length, slice, List.drop_left, List.take_left]

theorem convertBufferToString_zeros (text : Bytes) (count : Nat) :
    convertBufferToString (text ++ List.replicate count 0) = convertBufferToString text := by
  induction text with
  | nil =>
      cases count with
      | zero => rfl
      | succ count => rfl
  | cons byte text ih =>
      rw [convertBufferToString, convertBufferToString, List.cons_append, List.takeWhile_cons,
        List.takeWhile_cons]
      split
      · exact congrArg (byte :: ·) ih
      · rfl

/-- Every byte of the text is printable. -/
def Printable (text : Bytes) : Prop :=
  ∀ byte ∈ text, 32 ≤ byte.toNat ∧ byte.toNat < 127

instance (text : Bytes) : Decidable (Printable text) :=
  @List.decidableBAll UInt8 _ (fun _ => inferInstance) text

theorem convertBufferToString_iff (text : Bytes) :
    convertBufferToString text = text ↔ Printable text := by
  rw [convertBufferToString, List.takeWhile_eq_self_iff]
  simp only [decide_eq_true_eq]
  rfl

/-- An entry that is read as it was written. -/
def decodedEntry (info : ComponentInfo) (headerOffset dataOffset : Nat) : UpgradeEntry where
  identity := convertBufferToString info.identity
  version := convertBufferToString info.version
  digest := info.digest
  id := info.id.toNat
  resType := info.resType.toNat
  compFlags := info.compFlags.toNat
  type := info.type.toNat
  packedSize := info.initSize % 2 ^ 32
  originalSize := info.originalSize % 2 ^ 32
  headerOffset
  dataOffset

theorem leValue_singleton (byte : UInt8) : leValue [byte] = byte.toNat := by
  rw [leValue, leValue, Nat.mul_zero, Nat.add_zero]

theorem decodeHeader_encodeHeader {info : ComponentInfo} {comp : Bytes}
    {updateFileVersion headerOffset dataOffset : Nat}
    (encoded : info.encodeHeader = some comp) (old : updateFileVersion < 3) :
    decodeHeader updateFileVersion comp headerOffset dataOffset =
      some (decodedEntry info headerOffset dataOffset) := by
  have size := ComponentInfo.length_encodeHeader encoded
  simp only [ComponentInfo.encodeHeader, Option.bind_eq_bind] at encoded
  obtain ⟨address, addressSet, encoded⟩ := Option.bind_eq_some_iff.mp encoded
  obtain ⟨version, versionSet, encoded⟩ := Option.bind_eq_some_iff.mp encoded
  obtain ⟨-, addressIs, addressLength⟩ := textField_some addressSet
  obtain ⟨-, versionIs, versionLength⟩ := textField_some versionSet
  cases encoded
  have digestLength := info.sized
  rw [decodeHeader, if_neg (Nat.not_lt.mpr (Nat.le_of_eq size.symm)), if_neg (by omega),
    if_neg (by omega), decodedEntry]
  have idLength := length_leBytes 2 info.id.toNat
  have sizeLength := length_leBytes 4 info.initSize
  have originalLength := length_leBytes 4 info.originalSize
  have resTypeLength : [info.resType].length = 1 := rfl
  have flagsLength : [info.compFlags].length = 1 := rfl
  have typeLength : [info.type].length = 1 := rfl
  rw [digestMaxLen] at digestLength
  simp (disch := omega) only [slice_behind, slice_front, addressLength, versionLength, idLength,
    sizeLength, originalLength, List.length_singleton, Nat.reduceSub, Nat.sub_self]
  have digest : slice info.digest 0 32 = info.digest := by
    rw [← digestLength, slice_full]
  have id : leValue (leBytes 2 info.id.toNat) = info.id.toNat :=
    leValue_leBytes_of_lt info.id.toNat_lt
  rw [addressIs, versionIs, convertBufferToString_zeros, convertBufferToString_zeros, digest, id,
    leValue_singleton, leValue_singleton, leValue_singleton, leValue_leBytes, leValue_leBytes]
  rfl

/-- What the header of a package says. -/
structure HeaderFields (info : UpgradePkgInfo) (header : Bytes) : Prop where
  type : leValue (slice header 0 2) = info.getPackageTlvType
  length : leValue (slice header 2 2) = upgradePkgHeaderLen
  version : leValue (slice header 8 2) = info.updateFileVersion % 2 ^ 16
  fileType : leValue (slice header 10 2) = info.updateFileVersion / 2 ^ 16 % 2 ^ 16
  timeType : leValue (slice header 140 2) = 2
  timeLength : leValue (slice header 142 2) = upgradePkgTimeLen
  componentType : leValue (slice header 176 2) = 5
  componentLength : leValue (slice header 178 2) = info.entryCount * upgradeCompInfoLen % 2 ^ 16

theorem leBytes_add (first second value : Nat) :
    leBytes (first + second) value = leBytes first value ++ leBytes second (value / 256 ^ first) := by
  induction first generalizing value with
  | zero => rw [Nat.zero_add, leBytes, List.nil_append, Nat.pow_zero, Nat.div_one]
  | succ first ih =>
      rw [Nat.succ_add, leBytes, leBytes, ih, List.cons_append, Nat.div_div_eq_div_mul, pow_succ']

theorem packageHeader_fields {info : UpgradePkgInfo} {header : Bytes}
    (made : info.packageHeader = some header) : HeaderFields info header := by
  simp only [UpgradePkgInfo.packageHeader, Option.bind_eq_bind] at made
  obtain ⟨software, softwareSet, made⟩ := Option.bind_eq_some_iff.mp made
  obtain ⟨product, productSet, made⟩ := Option.bind_eq_some_iff.mp made
  obtain ⟨date, dateSet, made⟩ := Option.bind_eq_some_iff.mp made
  obtain ⟨time, timeSet, made⟩ := Option.bind_eq_some_iff.mp made
  have softwareLength := (textField_some softwareSet).2.2
  have productLength := (textField_some productSet).2.2
  have dateLength := (textField_some dateSet).2.2
  have timeLength := (textField_some timeSet).2.2
  have two (value : Nat) : (leBytes 2 value).length = 2 := length_leBytes 2 value
  cases made
  have typeLength := two info.getPackageTlvType
  have headLength := two upgradePkgHeaderLen
  have infoLength := length_leBytes 4 (info.reserveOffset + upgradeReserveLen)
  have versionLength := two info.updateFileVersion
  have fileTypeLength := two (info.updateFileVersion / 2 ^ 16)
  have timeTypeLength := two 2
  have timeLenLength := two upgradePkgTimeLen
  have compTypeLength := two 5
  have compLenLength := two (info.entryCount * upgradeCompInfoLen)
  have split : leBytes 4 info.updateFileVersion =
      leBytes 2 info.updateFileVersion ++ leBytes 2 (info.updateFileVersion / 2 ^ 16) :=
    leBytes_add 2 2 _
  have last := List.append_nil (leBytes 2 (info.entryCount * upgradeCompInfoLen))
  rw [split, List.append_assoc, ← last]
  have tlvType : info.getPackageTlvType < 2 ^ 16 := by
    rw [UpgradePkgInfo.getPackageTlvType]
    split <;> decide
  constructor
  all_goals
    simp (disch := omega) only [slice_behind, slice_front, two, infoLength, softwareLength,
      productLength, dateLength, timeLength, Nat.reduceSub, Nat.sub_self, leValue_leBytes]
  · exact Nat.mod_eq_of_lt tlvType
  all_goals rfl

theorem readInto_inside {file buffer : Bytes} {start : Nat}
    (inside : start + buffer.length ≤ file.length) (positive : buffer.length ≠ 0) :
    readInto file buffer start = some (slice file start buffer.length) := by
  have length := length_slice inside
  have found : fileRead file start buffer.length = some (slice file start buffer.length) := by
    rw [fileRead, if_neg]
    rintro (behind | empty)
    · omega
    · rw [empty] at length
      exact positive length.symm
  have rest : buffer.drop (slice file start buffer.length).length = [] := by
    rw [length]
    exact List.drop_of_length_le (Nat.le_refl _)
  rw [readInto, found, Option.map_some, rest, List.append_nil]

theorem readBuffer_inside {file : Bytes} {start size : Nat} (inside : start + size ≤ file.length)
    (positive : size ≠ 0) : readBuffer file start size = some (slice file start size) := by
  have read := @readInto_inside file (List.replicate size 0) start
  rw [List.length_replicate] at read
  exact read inside positive

/-- The entries that are decoded from an offset on, the data of the first from another. -/
def decodedFrom : Nat → Nat → List PackedEntry → List UpgradeEntry
  | _, _, [] => []
  | headerOffset, dataOffset, entry :: entries =>
      decodedEntry entry.info headerOffset dataOffset ::
        decodedFrom (headerOffset + upgradeCompInfoLen)
          ((dataOffset + entry.info.initSize % 2 ^ 32) % 2 ^ 64) entries

/-- A reader of the entries changes these and the digest only. -/
structure EntriesRead (st st' : UpgradeState) (entries : List UpgradeEntry) : Prop where
  entries : st'.entries = st.entries ++ entries
  version : st'.updateFileVersion = st.updateFileVersion
  fileType : st'.updateFileType = st.updateFileType
  digestMethod : st'.digestMethod = st.digestMethod
  parsedLen : st'.parsedLen = st.parsedLen

section

variable {input : UpgradeInput} {info : UpgradePkgInfo} {header rest : Bytes}

/-- `ReadUpgradePkgHeader` of a written package. -/
theorem readUpgradePkgHeader_written (fields : HeaderFields info header)
    (length : header.length = upgradeFileHeaderLen) (file : input.file = header ++ rest) :
    ∃ st, input.readUpgradePkgHeader = some st ∧ st.parsedLen = upgradeFileBasicLen ∧
      st.updateFileVersion = info.updateFileVersion % 2 ^ 16 ∧
      st.updateFileType = info.updateFileVersion / 2 ^ 16 % 2 ^ 16 ∧
      st.digestMethod = (if info.digestMethod = pkgDigestTypeSha384 then .sha384 else .sha256) := by
  have whole : upgradeFileHeaderLen = 180 := rfl
  have basic : upgradeFileBasicLen = 176 := rfl
  have inside : 0 + upgradeFileBasicLen ≤ input.file.length := by
    rw [file, List.length_append, length]
    omega
  have front := readBuffer_inside inside (by decide)
  have bufferLength := length_slice inside
  have memory {start count : Nat} (within : start + count ≤ upgradeFileBasicLen) :
      input.memory (slice input.file 0 upgradeFileBasicLen) start count =
        slice header start count := by
    rw [UpgradeInput.memory_inside (by omega), slice_slice within, Nat.zero_add, file,
      slice_append_left rest (by omega)]
  have tlvType := (memory (show 0 + 2 ≤ upgradeFileBasicLen by decide)).trans rfl
  have tlvLength := congrArg leValue (memory (show 2 + 2 ≤ upgradeFileBasicLen by decide))
  have version := congrArg leValue (memory (show 8 + 2 ≤ upgradeFileBasicLen by decide))
  have fileType := congrArg leValue (memory (show 10 + 2 ≤ upgradeFileBasicLen by decide))
  have timeType := congrArg leValue (memory (show 140 + 2 ≤ upgradeFileBasicLen by decide))
  have timeLength := congrArg leValue (memory (show 142 + 2 ≤ upgradeFileBasicLen by decide))
  rw [fields.length] at tlvLength
  rw [fields.version] at version
  rw [fields.fileType] at fileType
  rw [fields.timeType] at timeType
  rw [fields.timeLength] at timeLength
  have normal : ¬ pkgTlvLen + upgradePkgHeaderLen ≥ upgradeFileBasicLen := by decide
  have checked : input.tlvChecked 2 upgradePkgTimeLen 2 upgradePkgTimeLen = true := by
    have time : upgradePkgTimeLen = 32 := rfl
    have tlv : pkgTlvLen = 4 := rfl
    simp only [UpgradeInput.tlvChecked, Bool.and_eq_true, decide_eq_true_eq, time, tlv]
    refine ⟨⟨⟨?_, Nat.le_refl _⟩, trivial⟩, ?_⟩
    · omega
    · omega
  simp only [UpgradeInput.readUpgradePkgHeader, front, Option.bind_eq_bind, Option.bind_some,
    bufferLength, tlvType, fields.type, tlvLength, version, fileType, if_neg normal]
  change ∃ st, (if input.tlvChecked (leValue (input.memory _ 140 2)) (leValue (input.memory _ 142 2))
    2 upgradePkgTimeLen = true then _ else _) = some st ∧ _
  rw [timeType, timeLength, if_pos checked]
  refine ⟨_, rfl, ?_, rfl, rfl, ?_⟩
  · change 0 + (_ + leValue (input.memory _ 142 2)) = _
    rw [timeLength]
    rfl
  · change (if info.getPackageTlvType = 0x11 then _ else _) = _
    rw [UpgradePkgInfo.getPackageTlvType]
    by_cases sha384 : info.digestMethod = pkgDigestTypeSha384
    · rw [if_pos sha384, if_pos sha384]
      rfl
    · rw [if_neg sha384, if_neg sha384]
      rfl

/-- Run lemma: the loop of `ReadComponents` decodes the entries as they were encoded. -/
theorem componentLoop_written {entries : List PackedEntry} {infos : Bytes} {st : UpgradeState}
    {param : UpgradeInput.UpgradeParam} {tlvLength : Nat} (encoded : EncodedAs entries infos)
    (old : st.updateFileVersion < 3)
    (here : input.file.drop (st.parsedLen + param.srcOffset) = infos ++ rest)
    (size : param.compBuffer.length = upgradeCompInfoLen)
    (empty : param.readLen < param.currLen + upgradeCompInfoLen)
    (length : tlvLength = param.srcOffset + upgradeCompInfoLen * entries.length) :
    ∃ st', input.componentLoop tlvLength st param = some (st', tlvLength) ∧
      EntriesRead st st' (decodedFrom (st.parsedLen + param.srcOffset) param.dataOffset entries) := by
  induction entries generalizing infos st param with
  | nil =>
      rw [List.length_nil, Nat.mul_zero, Nat.add_zero] at length
      rw [UpgradeInput.componentLoop, dif_neg (by omega), length]
      exact ⟨st, rfl, (List.append_nil _).symm, rfl, rfl, rfl, rfl⟩
  | cons entry entries ih =>
      obtain ⟨comp, later, headEncoded, rfl, tail⟩ := encoded
      have compLength := ComponentInfo.length_encodeHeader headEncoded
      have positive : 0 < upgradeCompInfoLen := by decide
      rw [List.length_cons, Nat.mul_succ] at length
      have lengths := congrArg List.length here
      rw [List.length_drop, List.length_append, List.length_append, compLength] at lengths
      have inside : st.parsedLen + param.srcOffset + param.compBuffer.length ≤ input.file.length := by
        rw [size]
        omega
      have comp_ : slice input.file (st.parsedLen + param.srcOffset) upgradeCompInfoLen = comp := by
        rw [slice, here, List.append_assoc, ← compLength, List.take_left]
      have ready : input.nextComponent st param = some { param with
          compBuffer := comp
          readLen := upgradeCompInfoLen
          currLen := 0 } := by
        rw [UpgradeInput.nextComponent, if_pos (by omega),
          readInto_inside inside (by omega), size, comp_, compLength]
        rfl
      have saved : UpgradeInput.saveEntry st { param with
            compBuffer := comp
            readLen := upgradeCompInfoLen
            currLen := 0 } = some ({ st.update comp upgradeCompInfoLen with
              entries := st.entries ++
                [decodedEntry entry.info (st.parsedLen + param.srcOffset) param.dataOffset] },
            { param with
              compBuffer := comp
              readLen := upgradeCompInfoLen
              currLen := upgradeCompInfoLen
              srcOffset := param.srcOffset + upgradeCompInfoLen
              dataOffset := (param.dataOffset + entry.info.initSize % 2 ^ 32) % 2 ^ 64 }) := by
        have buffer : slice comp 0 (upgradeCompInfoLen - 0) = comp := by
          rw [Nat.sub_zero, ← compLength, slice_full]
        simp only [UpgradeInput.saveEntry, buffer, decodeHeader_encodeHeader headEncoded old,
          Option.bind_eq_bind, Option.bind_some, List.drop_zero, Nat.zero_add]
        rfl
      have behind : input.file.drop (st.parsedLen + (param.srcOffset + upgradeCompInfoLen)) =
          later ++ rest := by
        rw [← Nat.add_assoc, ← List.drop_drop, here, List.append_assoc, ← compLength,
          List.drop_left]
      obtain ⟨st', ran, read⟩ := @ih later { st.update comp upgradeCompInfoLen with
          entries := st.entries ++
            [decodedEntry entry.info (st.parsedLen + param.srcOffset) param.dataOffset] }
        { param with
          compBuffer := comp
          readLen := upgradeCompInfoLen
          currLen := upgradeCompInfoLen
          srcOffset := param.srcOffset + upgradeCompInfoLen
          dataOffset := (param.dataOffset + entry.info.initSize % 2 ^ 32) % 2 ^ 64 }
        tail old behind compLength (Nat.lt_add_of_pos_right positive) (by dsimp only; omega)
      refine ⟨st', ?_, ?_⟩
      · rw [UpgradeInput.componentLoop, dif_pos (by omega)]
        split
        · rename_i stopped
          rw [ready] at stopped
          cases stopped
        · rename_i found read
          rw [ready] at read
          cases read
          split
          · rename_i stopped
            rw [saved] at stopped
            cases stopped
          · rename_i middle next save
            rw [saved] at save
            cases save
            exact ran
      · obtain ⟨all, version, fileType, digestMethod, parsedLen⟩ := read
        refine ⟨?_, version, fileType, digestMethod, parsedLen⟩
        rw [all, List.append_assoc, List.singleton_append, decodedFrom]
        rfl

/-- `ReadComponents` of a package with all its entries, if their length fits its field. -/
theorem readComponents_written {entries : List PackedEntry} {infos : Bytes} {st : UpgradeState}
    (fields : HeaderFields info header) (length : header.length = upgradeFileHeaderLen)
    (file : input.file = header ++ (infos ++ rest)) (encoded : EncodedAs entries infos)
    (nonempty : entries ≠ []) (counted : entries.length = info.entryCount)
    (listed : info.entryCount * upgradeCompInfoLen < 2 ^ 16)
    (parsedLen : st.parsedLen = upgradeFileBasicLen) (old : st.updateFileVersion < 3) :
    ∃ st', input.readComponents st = some st' ∧
      st'.entries = st.entries ++ decodedFrom upgradeFileHeaderLen
        (info.reserveOffset + upgradeReserveLen) entries ∧
      st'.updateFileVersion = st.updateFileVersion ∧ st'.updateFileType = st.updateFileType ∧
      st'.digestMethod = st.digestMethod ∧ st'.parsedLen = info.reserveOffset := by
  have infosLength := encoded.length
  have lengths := congrArg List.length file
  rw [List.length_append, List.length_append, length, infosLength, counted, Nat.mul_comm] at lengths
  have whole : upgradeFileHeaderLen = 180 := rfl
  have basic : upgradeFileBasicLen = 176 := rfl
  have tlv : pkgTlvLen = 4 := rfl
  have positive : upgradeCompInfoLen ≤ info.entryCount * upgradeCompInfoLen := by
    apply Nat.le_mul_of_pos_left
    rw [← counted]
    exact List.length_pos_iff.mpr nonempty
  have inside : st.parsedLen + pkgTlvLen ≤ input.file.length := by omega
  have front := readBuffer_inside inside (by decide)
  have field {start : Nat} (within : start + 2 ≤ pkgTlvLen) :
      slice (slice input.file st.parsedLen pkgTlvLen) start 2 = slice header (176 + start) 2 := by
    rw [slice_slice within, parsedLen, file]
    exact slice_append_left _ (by omega)
  have type := congrArg leValue (field (show 0 + 2 ≤ pkgTlvLen by decide))
  have tlvLength := congrArg leValue (field (show 2 + 2 ≤ pkgTlvLen by decide))
  rw [fields.componentType] at type
  rw [fields.componentLength, Nat.mod_eq_of_lt listed] at tlvLength
  have checked : input.tlvChecked 5 (info.entryCount * upgradeCompInfoLen) 5 upgradeCompInfoLen =
      true := by
    simp only [UpgradeInput.tlvChecked, Bool.and_eq_true, decide_eq_true_eq]
    refine ⟨⟨⟨?_, positive⟩, trivial⟩, ?_⟩
    · omega
    · omega
  have header_ : input.componentTlv st = some ({ st.update (slice input.file st.parsedLen pkgTlvLen)
      pkgTlvLen with parsedLen := st.parsedLen + pkgTlvLen },
      info.entryCount * upgradeCompInfoLen) := by
    simp only [UpgradeInput.componentTlv, front, Option.bind_eq_bind, Option.bind_some, type,
      tlvLength, checked, if_true]
    rfl
  have start : st.parsedLen + pkgTlvLen + 0 = upgradeFileHeaderLen := by omega
  have readLen := length_slice inside
  obtain ⟨st', ran, read⟩ := @componentLoop_written input rest entries infos
    { st.update (slice input.file st.parsedLen pkgTlvLen) pkgTlvLen with
      parsedLen := st.parsedLen + pkgTlvLen }
    { compBuffer := List.replicate upgradeCompInfoLen 0
      readLen := (slice input.file st.parsedLen pkgTlvLen).length
      dataOffset := st.parsedLen + pkgTlvLen + info.entryCount * upgradeCompInfoLen +
        upgradeReserveLen
      srcOffset := 0
      currLen := pkgTlvLen }
    (info.entryCount * upgradeCompInfoLen) encoded old
    (by dsimp only; rw [start, file, ← length, List.drop_left])
    List.length_replicate (by dsimp only; rw [readLen]; decide)
    (by dsimp only; rw [Nat.zero_add, counted, Nat.mul_comm])
  obtain ⟨all, version, fileType, digestMethod, parsed⟩ := read
  refine ⟨{ st' with parsedLen := st'.parsedLen + info.entryCount * upgradeCompInfoLen }, ?_, ?_,
    version, fileType, digestMethod, ?_⟩
  · simp only [UpgradeInput.readComponents, header_, Option.bind_eq_bind, Option.bind_some, ran]
    rfl
  · dsimp only
    rw [all]
    dsimp only
    rw [start]
    have data : st.parsedLen + pkgTlvLen + info.entryCount * upgradeCompInfoLen +
        upgradeReserveLen = info.reserveOffset + upgradeReserveLen := by
      rw [UpgradePkgInfo.reserveOffset, ← start]
      rfl
    rw [data]
    rfl
  · dsimp only
    rw [parsed, UpgradePkgInfo.reserveOffset, ← start]
    rfl

theorem decodedFrom_moved (headerOffset dataOffset count : Nat) (entries : List PackedEntry) :
    (decodedFrom headerOffset dataOffset entries).map (fun entry =>
        { entry with dataOffset := (entry.dataOffset + count) % 2 ^ 64 }) =
      (decodedFrom headerOffset ((dataOffset + count) % 2 ^ 64) entries) := by
  induction entries generalizing headerOffset dataOffset with
  | nil => rfl
  | cons entry entries ih =>
      have next : ((dataOffset + entry.info.initSize % 2 ^ 32) % 2 ^ 64 + count) % 2 ^ 64 =
          ((dataOffset + count) % 2 ^ 64 + entry.info.initSize % 2 ^ 32) % 2 ^ 64 := by
        omega
      rw [decodedFrom, List.map_cons, ih, next, decodedFrom]
      rfl

/-- Where the signature of a digest method lies among the signatures. -/
def signatureStart (info : UpgradePkgInfo) : Nat :=
  if info.digestMethod = pkgDigestTypeSha384 then signSha256Len else 0

def signatureLength (info : UpgradePkgInfo) : Nat :=
  if info.digestMethod = pkgDigestTypeSha384 then signSha384Len else signSha256Len

theorem headerFits_written (fields : HeaderFields info header)
    (length : header.length = upgradeFileHeaderLen) (file : input.file = header ++ rest) :
    HeaderFits input.file := by
  have whole : upgradeFileHeaderLen = 180 := rfl
  have first : tlvLengthAt input.file 0 = upgradePkgHeaderLen := by
    rw [tlvLengthAt, file, Nat.zero_add, slice_append_left _ (by omega), fields.length]
  have second : tlvLengthAt input.file (pkgTlvLen + upgradePkgHeaderLen) = upgradePkgTimeLen := by
    change leValue (slice input.file 142 2) = _
    rw [file, slice_append_left _ (by omega), fields.timeLength]
  rw [HeaderFits, first, second]
  exact Or.inl (by decide)

/-- The signature that is picked out of the area behind the reserved bytes. -/
theorem slice_signature {digestMethod : DigestMethod} {reserve area : Bytes}
    (reserveLength : reserve.length = upgradeReserveLen) :
    digestMethod = (if info.digestMethod = pkgDigestTypeSha384 then .sha384 else .sha256) →
    (match digestMethod with
      | .sha384 => slice (reserve ++ area) (upgradeReserveLen + signSha256Len) signSha384Len
      | .sha256 => slice (reserve ++ area) upgradeReserveLen signSha256Len) =
      slice area (signatureStart info) (signatureLength info) := by
  rintro rfl
  rw [signatureStart, signatureLength]
  by_cases sha384 : info.digestMethod = pkgDigestTypeSha384
  · simp only [if_pos sha384]
    rw [← reserveLength, slice_append_right]
  · simp only [if_neg sha384]
    rw [← reserveLength, ← Nat.add_zero reserve.length, slice_append_right]

/-- `LoadPackage` of such a package of version 1: the verifier gets the package with its
signatures cleared. -/
theorem loadPackage_written {entries : List PackedEntry} {infos reserve area data : Bytes}
    (fields : HeaderFields info header) (length : header.length = upgradeFileHeaderLen)
    (file : input.file = header ++ (infos ++ (reserve ++ (area ++ data))))
    (encoded : EncodedAs entries infos) (nonempty : entries ≠ [])
    (counted : entries.length = info.entryCount)
    (listed : info.entryCount * upgradeCompInfoLen < 2 ^ 16)
    (reserveLength : reserve.length = upgradeReserveLen)
    (areaLength : area.length = upgradeSignatureLen)
    (old : info.updateFileVersion % 2 ^ 16 < 2)
    (verifier verifySign : List (Option UInt8) → Bytes → Bool) :
    ∃ st, input.loadPackage verifier verifySign =
        (if verifier ((header ++ (infos ++ (reserve ++ (zeros upgradeSignatureLen ++ data)))).map some)
            (slice area (signatureStart info) (signatureLength info))
          then some ⟨st, st.parsedLen % 2 ^ 32⟩ else none) ∧
      st.entries = decodedFrom upgradeFileHeaderLen (info.dataBase % 2 ^ 64) entries := by
  obtain ⟨st, headerRead, headParsed, headVersion, headType, headDigest⟩ :=
    readUpgradePkgHeader_written fields length file
  have noEntries := UpgradeInput.readUpgradePkgHeader_entries headerRead
  obtain ⟨components, componentsRead, all, version, fileType, digestMethod, parsed⟩ :=
    readComponents_written fields length file encoded nonempty counted listed headParsed
      (by omega)
  have lengths := congrArg List.length file
  have infosLength := encoded.length
  simp only [List.length_append] at lengths
  have whole : upgradeFileHeaderLen = 180 := rfl
  have basic : upgradeFileBasicLen = 176 := rfl
  have reserve16 : upgradeReserveLen = 16 := rfl
  have signatures : upgradeSignatureLen = 640 := rfl
  have comp87 : upgradeCompInfoLen = 87 := rfl
  have place : (header ++ infos).length = info.reserveOffset := by
    rw [List.length_append, length, infosLength, counted, Nat.mul_comm]
    rfl
  have total : input.file.length =
      info.reserveOffset + (upgradeReserveLen + (upgradeSignatureLen + data.length)) := by
    rw [lengths, reserveLength, areaLength, ← place, List.length_append]
    omega
  have positive : upgradeCompInfoLen ≤ info.entryCount * upgradeCompInfoLen := by
    apply Nat.le_mul_of_pos_left
    rw [← counted]
    exact List.length_pos_iff.mpr nonempty
  have offset : info.reserveOffset =
      upgradeFileHeaderLen + info.entryCount * upgradeCompInfoLen := rfl
  have large : 2 * upgradeFileBasicLen ≤ input.file.length := by omega
  -- what was digested up to here is what was read
  have fed : components.fed = (input.file.take info.reserveOffset).map some := by
    have spec := UpgradeInput.readUpgradePkgHeader_spec large headerRead
    rw [if_pos (headerFits_written fields length file)] at spec
    obtain ⟨_, _, _, -, advances, -, -, -, -, -, -, -, inside⟩ :=
      UpgradeInput.readComponents_spec componentsRead
    have forward := advances.forward
    rw [advances.covers inside, spec.2, ← List.map_append, slice, ← List.take_add,
      Nat.add_sub_cancel' forward, parsed]
  have headers : input.readHeaders = some components := by
    have size : ¬ input.file.length < upgradeFileHeaderLen + upgradeCompInfoLen +
        upgradeSignatureLen + upgradeReserveLen := by
      omega
    have skips : input.readChunkInfo components = some components := by
      rw [UpgradeInput.readChunkInfo, if_pos (Or.inl (by omega))]
    simp only [UpgradeInput.readHeaders, if_neg size, headerRead, componentsRead,
      Option.bind_eq_bind, Option.bind_some, skips]
  have bufferLength : (reserve ++ area).length = upgradeReserveLen + upgradeSignatureLen := by
    rw [List.length_append, reserveLength, areaLength]
  have split : input.file = (header ++ infos) ++ ((reserve ++ area) ++ data) := by
    rw [file]
    simp only [List.append_assoc]
  have buffer : slice input.file components.parsedLen (upgradeReserveLen + upgradeSignatureLen) =
      reserve ++ area := by
    rw [split]
    exact slice_field (parsed.trans place.symm) bufferLength.symm
  have read := @readBuffer_inside input.file components.parsedLen
    (upgradeReserveLen + upgradeSignatureLen) (by omega) (by decide)
  rw [buffer] at read
  have version1 : ¬ components.updateFileVersion ≥ 2 := by omega
  have signData := @slice_signature info components.digestMethod reserve area reserveLength
    (digestMethod.trans headDigest)
  have cleared : (reserve ++ area).take upgradeReserveLen ++ List.replicate upgradeSignatureLen 0 =
      reserve ++ zeros upgradeSignatureLen := by
    rw [← reserveLength, List.take_left]
    rfl
  have package : UpgradeInput.readPackageInfo input components = some
      (slice area (signatureStart info) (signatureLength info),
        { (components.addDataOffset upgradeSignatureLen).update (reserve ++ zeros upgradeSignatureLen)
            (upgradeReserveLen + upgradeSignatureLen) with
          descriptPackageId := convertBufferToString reserve
          parsedLen := components.parsedLen + (upgradeReserveLen + upgradeSignatureLen) }) := by
    have front : (reserve ++ area).take upgradeReserveLen = reserve := by
      rw [← reserveLength, List.take_left]
    simp only [UpgradeInput.readPackageInfo, read, Option.bind_eq_bind, Option.bind_some]
    rw [cleared, front]
    exact congrArg (fun signature => some (signature, _)) signData
  have digested : (input.feedRest { (components.addDataOffset upgradeSignatureLen).update
        (reserve ++ zeros upgradeSignatureLen) (upgradeReserveLen + upgradeSignatureLen) with
          descriptPackageId := convertBufferToString reserve
          parsedLen := components.parsedLen + (upgradeReserveLen + upgradeSignatureLen) }).fed =
      (header ++ (infos ++ (reserve ++ (zeros upgradeSignatureLen ++ data)))).map some := by
    have clearedLength : (reserve ++ zeros upgradeSignatureLen).length =
        upgradeReserveLen + upgradeSignatureLen := by
      rw [List.length_append, reserveLength, length_zeros]
    have early : input.file.take info.reserveOffset = header ++ infos := by
      rw [split, ← place, List.take_left]
    have late : input.file.drop (components.parsedLen + (upgradeReserveLen + upgradeSignatureLen)) =
        data := by
      rw [parsed, ← List.drop_drop, split, ← place, List.drop_left, ← bufferLength, List.drop_left]
    change (components.fed ++ fedBytes (reserve ++ zeros upgradeSignatureLen) _) ++
      (input.file.drop _).map some = _
    rw [late, fed, early, fedBytes_inside (Nat.le_of_eq clearedLength.symm), ← clearedLength,
      List.take_length, ← List.map_append, ← List.map_append]
    simp only [List.append_assoc]
  generalize final : ({ (components.addDataOffset upgradeSignatureLen).update
      (reserve ++ zeros upgradeSignatureLen) (upgradeReserveLen + upgradeSignatureLen) with
        descriptPackageId := convertBufferToString reserve
        parsedLen := components.parsedLen + (upgradeReserveLen + upgradeSignatureLen) } :
      UpgradeState) = last at package digested
  refine ⟨last, ?_, ?_⟩
  · simp only [UpgradeInput.loadPackage, headers, Option.bind_eq_bind, Option.bind_some,
      if_neg version1, package, digested]
    rfl
  · have moved : last.entries = (components.addDataOffset upgradeSignatureLen).entries := by
      rw [← final]
      rfl
    have start : (info.reserveOffset + upgradeReserveLen + upgradeSignatureLen) % 2 ^ 64 =
        info.dataBase % 2 ^ 64 := by
      rw [UpgradePkgInfo.dataBase, Nat.add_assoc]
    rw [moved, UpgradeState.addDataOffset, all, noEntries, List.nil_append, decodedFrom_moved, start]

end

end Updater.Package
