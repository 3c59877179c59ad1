import Updater.Package.UpgradePkgRoundTrip

/-! `PkgManagerImpl::Sign` of a package that `SavePackage` wrote, and what the verifier
gets when the package is loaded. -/

set_option autoImplicit false

namespace Updater.Package

open Updater.Base

def pkgDigestTypeCrc : Nat := 1

def pkgDigestTypeMax : Nat := 4

def pkgSignMethodNone : Nat := 0

def pkgSignMethodRsa : Nat := 1

def pkgSignMethodEcdsa : Nat := 2

/-- `DigestAlgorithm::GetSignatureLen`. -/
def getSignatureLen (digestMethod : Nat) : Nat :=
  if digestMethod = pkgDigestTypeSha256 then signSha256Len
  else if digestMethod = pkgDigestTypeSha384 then signSha384Len
  else if digestMethod < pkgDigestTypeMax then 0
  else signSha256Len

/-- The digests, `SignBuffer` of the algorithm for a sign method and a digest method (the
vector it leaves and `signLen`), and the memory that a vector leaves when it grows. -/
structure SignAlgorithms where
  crc32 : Bytes → Nat
  sha256 : Bytes → Bytes
  signBuffer : Nat → Nat → Bytes → Option (Bytes × Nat)
  freed : Nat → Bytes

namespace SignAlgorithms

variable (algorithms : SignAlgorithms)

/-- `GenerateFileDigest` with `DIGEST_FLAGS_HAS_SIGN`. Without a digest the vector is empty,
and `SignBuffer` refuses its null buffer. -/
def generateFileDigest (digestMethod : Nat) (file : Bytes) : Option Bytes :=
  if digestMethod = pkgDigestTypeCrc then some (leBytes 4 (algorithms.crc32 file))
  else if digestMethod = pkgDigestTypeSha256 ∨ digestMethod = pkgDigestTypeSha384 then
    some (algorithms.sha256 file)
  else none

/-- What lies at `signBuffer` after `SignBuffer`: it still points to the first storage of
the vector, which is reused as long as it is large enough. -/
def storage (signLen : Nat) (signedData : Bytes) : Bytes :=
  if signedData.length ≤ signLen then
    signedData ++ List.replicate (signLen - signedData.length) 0
  else algorithms.freed signLen

/-- `Sign`: the file afterwards. -/
def sign (digestMethod signMethod : Nat) (file : Bytes) (offset : Nat) : Option Bytes :=
  if signMethod = pkgSignMethodNone then some file
  else do
    let digest ← algorithms.generateFileDigest digestMethod file
    if signMethod ≠ pkgSignMethodRsa ∧ signMethod ≠ pkgSignMethodEcdsa then none
    else do
      let signLen := getSignatureLen digestMethod
      -- the result of this write is not looked at
      let cleared := (streamWrite file offset (List.replicate signLen 0)).getD file
      let (signedData, signDataLen) ← algorithms.signBuffer signMethod digestMethod digest
      -- `fwrite` of nothing counts as a failure
      if signLen < signDataLen ∨ signDataLen = 0 then none
      else streamWrite cleared offset ((algorithms.storage signLen signedData).take signDataLen)

end SignAlgorithms

/-- The buffer of a signature slot that begins with some bytes. -/
def slotBuffer (info : UpgradePkgInfo) (signature : Bytes) : Bytes :=
  signature ++ zeros (signatureLength info - signature.length)

/-- Whatever the verifier is, loading the file hands it bytes with the digest that was
signed, and the signature; `Sign` has changed the signature area only. -/
structure SignAgrees (algorithms : SignAlgorithms) (info : UpgradePkgInfo)
    (package signed signature : Bytes) (signOffset : Nat) : Prop where
  handed : ∀ input : UpgradeInput, input.file = signed →
    ∃ digested : Bytes, algorithms.generateFileDigest info.digestMethod digested =
        algorithms.generateFileDigest info.digestMethod package ∧
      ∀ verifier verifySign : List (Option UInt8) → Bytes → Bool, ∃ loaded,
        input.loadPackage verifier verifySign =
          if verifier (digested.map some) (slotBuffer info signature) then some loaded else none
  length : signed.length = package.length
  outside : ∀ index, index < signOffset ∨ signOffset + upgradeSignatureLen ≤ index →
    signed[index]? = package[index]?

/-- So do all signers whose `SignBuffer` gives no more than fits the slot. -/
def SignsAsLoaded (info : UpgradePkgInfo) (package : Bytes) (signOffset : Nat) : Prop :=
  ∀ (algorithms : SignAlgorithms) (signMethod : Nat) (digest signedData signed : Bytes)
    (signDataLen : Nat),
    signMethod = pkgSignMethodRsa ∨ signMethod = pkgSignMethodEcdsa →
    algorithms.generateFileDigest info.digestMethod package = some digest →
    algorithms.signBuffer signMethod info.digestMethod digest = some (signedData, signDataLen) →
    signedData.length ≤ signatureLength info → signDataLen ≤ signedData.length →
    algorithms.sign info.digestMethod signMethod package signOffset = some signed →
    SignAgrees algorithms info package signed (signedData.take signDataLen) signOffset

section

variable {algorithms : PackAlgorithms} {info : UpgradePkgInfo} {files : List ComponentInfo}
  {st : PackState} {package header infos reserve : Bytes}

/-- The component of an entry that was never added. -/
def blankComponent : ComponentInfo where
  identity := []
  version := []
  digest := zeros digestMaxLen
  id := 0
  resType := 0
  compFlags := 0
  type := 0
  originalSize := 0
  digestMethod := 0
  packMethod := 0
  unpackedSize := 0
  stream := []
  sized := List.length_replicate

theorem blankComponent_encoded :
    blankComponent.encodeHeader = some (zeros upgradeCompInfoLen) := by
  decide +kernel

/-- Room for entries reads as blank ones. -/
theorem encodedAs_blank (count : Nat) :
    EncodedAs (List.replicate count { info := blankComponent, packed := [] })
      (zeros (upgradeCompInfoLen * count)) := by
  induction count with
  | zero => rfl
  | succ count ih =>
      refine ⟨_, _, blankComponent_encoded, ?_, ih⟩
      rw [← zeros_add, Nat.mul_succ, Nat.add_comm]

theorem EncodedAs.join {front back : List PackedEntry} {first second : Bytes}
    (encoded : EncodedAs front first) (behind : EncodedAs back second) :
    EncodedAs (front ++ back) (first ++ second) := by
  induction front generalizing first with
  | nil =>
      cases encoded
      exact behind
  | cons entry front ih =>
      obtain ⟨head, rest, headEncoded, rfl, tail⟩ := encoded
      exact ⟨head, rest ++ second, headEncoded, List.append_assoc head rest second, ih tail⟩

/-- A package is what lies in front of the signatures, these, and the data. -/
theorem PackageLayout.split
    (packs : PackageLayout info algorithms files st header infos reserve package) :
    package = (header ++ (infos ++
      (zeros (upgradeCompInfoLen * (info.entryCount - st.entries.length)) ++ reserve))) ++
        (zeros upgradeSignatureLen ++ packedData st.entries) := by
  rw [packs.layout]
  simp only [List.append_assoc]

theorem PackageLayout.length_front
    (packs : PackageLayout info algorithms files st header infos reserve package) :
    (header ++ (infos ++ (zeros (upgradeCompInfoLen * (info.entryCount - st.entries.length)) ++
      reserve))).length = info.reserveOffset + upgradeReserveLen := by
  have entries : upgradeCompInfoLen * info.entryCount = upgradeCompInfoLen * st.entries.length +
      upgradeCompInfoLen * (info.entryCount - st.entries.length) := by
    rw [← Nat.mul_add, Nat.add_sub_cancel' packs.counted]
  simp only [List.length_append, UpgradePkgInfo.length_packageHeader packs.made,
    (textField_some packs.reserved).2.2, packs.encoded.length, length_zeros]
  rw [UpgradePkgInfo.reserveOffset, Nat.mul_comm info.entryCount]
  omega

theorem fileWrite_middle {front piece back data : Bytes} (same : data.length = piece.length) :
    fileWrite (front ++ (piece ++ back)) front.length data = front ++ (data ++ back) := by
  rw [fileWrite]
  split
  · rename_i nothing
    rw [nothing] at same
    rw [nothing, List.eq_nil_of_length_eq_zero same.symm]
  · rw [List.length_append, Nat.sub_eq_zero_of_le (Nat.le_add_right _ _), List.replicate_zero,
      List.append_nil]
    exact writeAt_middle same

theorem getSignatureLen_eq
    (method : info.digestMethod = pkgDigestTypeSha256 ∨ info.digestMethod = pkgDigestTypeSha384) :
    getSignatureLen info.digestMethod = signatureLength info := by
  rcases method with sha256 | sha384
  · rw [signatureLength, sha256]
    rfl
  · rw [signatureLength, sha384]
    rfl

/-- `Sign` puts the signature at the front of the signature area. -/
theorem sign_writes {signer : SignAlgorithms} {signMethod signDataLen : Nat}
    {digest signedData signed front data : Bytes}
    (method : info.digestMethod = pkgDigestTypeSha256 ∨ info.digestMethod = pkgDigestTypeSha384)
    (signs : signMethod = pkgSignMethodRsa ∨ signMethod = pkgSignMethodEcdsa)
    (digested : signer.generateFileDigest info.digestMethod
      (front ++ (zeros upgradeSignatureLen ++ data)) = some digest)
    (made : signer.signBuffer signMethod info.digestMethod digest = some (signedData, signDataLen))
    (fits : signedData.length ≤ signatureLength info) (whole : signDataLen ≤ signedData.length)
    (ran : signer.sign info.digestMethod signMethod (front ++ (zeros upgradeSignatureLen ++ data))
      front.length = some signed) :
    signedData.take signDataLen ≠ [] ∧
      signed = front ++ ((signedData.take signDataLen ++
        zeros (upgradeSignatureLen - signDataLen)) ++ data) := by
  have signLen := getSignatureLen_eq method
  have slot := signature_fits info
  have notNone : signMethod ≠ pkgSignMethodNone := by
    rcases signs with rfl | rfl
    · decide
    · decide
  have known : ¬ (signMethod ≠ pkgSignMethodRsa ∧ signMethod ≠ pkgSignMethodEcdsa) := by
    rintro ⟨notRsa, notEcdsa⟩
    exact signs.elim notRsa notEcdsa
  simp only [SignAlgorithms.sign, if_neg notNone, digested, if_neg known, made, signLen,
    Option.bind_eq_bind, Option.bind_some] at ran
  split at ran
  · cases ran
  rename_i counted
  have length : (signedData.take signDataLen).length = signDataLen := by
    rw [List.length_take, Nat.min_eq_left whole]
  have bytes : (signer.storage (signatureLength info) signedData).take signDataLen =
      signedData.take signDataLen := by
    rw [SignAlgorithms.storage, if_pos fits, List.take_append_of_le_length whole]
  have cleared : (streamWrite (front ++ (zeros upgradeSignatureLen ++ data)) front.length
      (List.replicate (signatureLength info) 0)).getD (front ++ (zeros upgradeSignatureLen ++ data)) =
      front ++ (zeros upgradeSignatureLen ++ data) := by
    cases written : streamWrite (front ++ (zeros upgradeSignatureLen ++ data)) front.length
        (List.replicate (signatureLength info) 0) with
    | none => rfl
    | some file =>
        obtain ⟨-, rfl⟩ := streamWrite_some written
        have split : zeros upgradeSignatureLen = zeros (signatureLength info) ++
            zeros (upgradeSignatureLen - signatureLength info) := by
          rw [← zeros_add, Nat.add_sub_cancel' (by omega)]
        rw [split, List.append_assoc, Option.getD_some]
        exact fileWrite_middle rfl
  rw [cleared, bytes] at ran
  obtain ⟨-, rfl⟩ := streamWrite_some ran
  constructor
  · intro none
    rw [none] at length
    exact counted (.inr length.symm)
  · have split : zeros upgradeSignatureLen = zeros signDataLen ++
        zeros (upgradeSignatureLen - signDataLen) := by
      rw [← zeros_add, Nat.add_sub_cancel' (by omega)]
    rw [split, List.append_assoc, List.append_assoc]
    exact fileWrite_middle (length.trans (length_zeros _).symm)

/-- The packages that are loaded as they were signed: the signature lies where `LoadPackage`
looks for one over SHA256, and the length of the entries fits its field. -/
structure SignLoadable (info : UpgradePkgInfo) : Prop where
  method : info.digestMethod = pkgDigestTypeSha256
  listed : info.entryCount * upgradeCompInfoLen < 2 ^ 16

theorem SignLoadable.signsAsLoaded (loadable : SignLoadable info)
    (packs : PackageLayout info algorithms files st header infos reserve package)
    (version : info.updateFileVersion < 2) :
    SignsAsLoaded info package (info.reserveOffset + upgradeReserveLen) := by
  intro signer signMethod digest signedData signed signDataLen signs digested made fits whole ran
  have frontLength := packs.length_front
  have slot := signature_fits info
  have length : (signedData.take signDataLen).length = signDataLen := by
    rw [List.length_take, Nat.min_eq_left whole]
  rw [← frontLength, packs.split] at ran
  rw [packs.split] at digested
  obtain ⟨-, written⟩ := sign_writes (.inl loadable.method) signs digested made fits whole ran
  have areaLength : (signedData.take signDataLen ++ zeros (upgradeSignatureLen - signDataLen)).length =
      upgradeSignatureLen := by
    rw [List.length_append, length, length_zeros]
    omega
  constructor
  · intro input file
    refine ⟨package, rfl, ?_⟩
    intro verifier verifySign
    have encoded := packs.encoded.join (encodedAs_blank (info.entryCount - st.entries.length))
    have counted : (st.entries ++ List.replicate (info.entryCount - st.entries.length)
        ({ info := blankComponent, packed := [] } : PackedEntry)).length = info.entryCount := by
      rw [List.length_append, List.length_replicate, Nat.add_sub_cancel' packs.counted]
    have nonempty : st.entries ++ List.replicate (info.entryCount - st.entries.length)
        ({ info := blankComponent, packed := [] } : PackedEntry) ≠ [] :=
      fun none => packs.nonempty (List.append_eq_nil_iff.mp none).1
    have layout : input.file = header ++ ((infos ++
        zeros (upgradeCompInfoLen * (info.entryCount - st.entries.length))) ++ (reserve ++
          ((signedData.take signDataLen ++ zeros (upgradeSignatureLen - signDataLen)) ++
            packedData st.entries))) := by
      rw [file, written]
      simp only [List.append_assoc]
    obtain ⟨loaded, loads, -⟩ := loadPackage_written (packageHeader_fields packs.made)
      (UpgradePkgInfo.length_packageHeader packs.made) layout encoded nonempty counted
      loadable.listed (textField_some packs.reserved).2.2 areaLength (by omega) verifier verifySign
    have digestedBytes : header ++ ((infos ++
        zeros (upgradeCompInfoLen * (info.entryCount - st.entries.length))) ++ (reserve ++
          (zeros upgradeSignatureLen ++ packedData st.entries))) = package := by
      rw [packs.split]
      simp only [List.append_assoc]
    have first : signatureStart info = 0 := by
      rw [signatureStart, loadable.method]
      rfl
    have signature : slice (signedData.take signDataLen ++ zeros (upgradeSignatureLen - signDataLen))
        (signatureStart info) (signatureLength info) =
        slotBuffer info (signedData.take signDataLen) := by
      have split : upgradeSignatureLen - signDataLen = (signatureLength info - signDataLen) +
          (upgradeSignatureLen - signatureLength info) := by
        omega
      rw [first, slotBuffer, length, split, zeros_add, ← List.append_assoc]
      apply slice_front
      rw [List.length_append, length, length_zeros]
      omega
    rw [digestedBytes, signature] at loads
    exact ⟨_, loads⟩
  · rw [written, packs.split]
    simp only [List.length_append, length, length_zeros]
    omega
  · intro index outside
    rw [written, packs.split, ← frontLength] at *
    rcases outside with before | behind
    · rw [List.getElem?_append_left before, List.getElem?_append_left before]
    · rw [List.getElem?_append_right (by omega), List.getElem?_append_right (by omega),
        List.getElem?_append_right (by omega), List.getElem?_append_right (by rw [length_zeros]; omega),
        areaLength, length_zeros]

/-- A signer whose signatures are a single byte. -/
def byteSigner (byte : UInt8) : SignAlgorithms where
  crc32 := fun _ => 0
  sha256 := fun _ => []
  signBuffer := fun _ _ _ => some ([byte], 1)
  freed := fun _ => []

/-- Its signature stands where the loader looks for it, which the header decides. -/
theorem SignsAsLoaded.byte_found
    (agrees : SignsAsLoaded info package (info.reserveOffset + upgradeReserveLen))
    (packs : PackageLayout info algorithms files st header infos reserve package)
    (version : info.updateFileVersion < 2)
    (method : info.digestMethod = pkgDigestTypeSha256 ∨ info.digestMethod = pkgDigestTypeSha384)
    (byte : UInt8) :
    ∃ signed count, signed = header ++ (infos ++
        (zeros (upgradeCompInfoLen * (info.entryCount - st.entries.length)) ++ reserve)) ++
          (([byte] ++ zeros (upgradeSignatureLen - 1)) ++ packedData st.entries) ∧
      upgradeCompInfoLen * count <
        info.entryCount * upgradeCompInfoLen % 2 ^ 16 + upgradeCompInfoLen ∧
      info.entryCount * upgradeCompInfoLen % 2 ^ 16 ≤ upgradeCompInfoLen * count ∧
      signed[upgradeFileHeaderLen + upgradeCompInfoLen * count +
        (upgradeReserveLen + signatureStart info)]? = some byte := by
  have frontLength := packs.length_front
  have packageLength := packs.length_package
  have small := packs.small
  have reserve16 : upgradeReserveLen = 16 := rfl
  have comp87 : upgradeCompInfoLen = 87 := rfl
  have signatures : upgradeSignatureLen = 640 := rfl
  have slot := signature_fits info
  have positive : 1 ≤ signatureLength info := by
    rw [signatureLength]
    split <;> decide
  have base : info.dataBase = info.reserveOffset + (upgradeReserveLen + upgradeSignatureLen) := rfl
  have digested : (byteSigner byte).generateFileDigest info.digestMethod package = some [] := by
    rw [SignAlgorithms.generateFileDigest]
    rcases method with sha256 | sha384
    · rw [sha256]
      rfl
    · rw [sha384]
      rfl
  have write (file : Bytes) : streamWrite file (info.reserveOffset + upgradeReserveLen)
      (((byteSigner byte).storage (getSignatureLen info.digestMethod) [byte]).take 1) =
      some (fileWrite file (info.reserveOffset + upgradeReserveLen) [byte]) := by
    have bytes : ((byteSigner byte).storage (getSignatureLen info.digestMethod) [byte]).take 1 =
        [byte] := by
      rw [getSignatureLen_eq method, SignAlgorithms.storage,
        if_pos (show [byte].length ≤ signatureLength info from positive)]
      rfl
    rw [bytes, streamWrite, if_pos]
    rw [List.length_singleton]
    omega
  have succeeds : ∃ signed, (byteSigner byte).sign info.digestMethod pkgSignMethodRsa package
      (info.reserveOffset + upgradeReserveLen) = some signed := by
    have made : (byteSigner byte).signBuffer pkgSignMethodRsa info.digestMethod [] =
        some ([byte], 1) := rfl
    have fits : ¬ (getSignatureLen info.digestMethod < 1 ∨ (1 : Nat) = 0) := by
      rw [getSignatureLen_eq method]
      omega
    have rsa : ¬ pkgSignMethodRsa = pkgSignMethodNone := by decide
    have known : ¬ (pkgSignMethodRsa ≠ pkgSignMethodRsa ∧ pkgSignMethodRsa ≠ pkgSignMethodEcdsa) :=
      fun wrong => wrong.1 rfl
    simp only [SignAlgorithms.sign, if_neg rsa, digested, if_neg known, made, if_neg fits,
      Option.bind_eq_bind, Option.bind_some]
    exact ⟨_, write _⟩
  obtain ⟨signed, ran⟩ := succeeds
  have agreed := agrees (byteSigner byte) pkgSignMethodRsa [] [byte] signed 1 (.inl rfl) digested rfl
    positive (Nat.le_refl 1) ran
  rw [← frontLength, packs.split] at ran
  rw [packs.split] at digested
  obtain ⟨-, written⟩ := sign_writes method (.inl rfl) digested rfl positive (Nat.le_refl 1) ran
  obtain ⟨digestedBytes, -, handed⟩ := agreed.handed
    { file := signed, heap := fun _ => 0, checksImgHash := false, parsesImgHash := fun _ _ => true } rfl
  obtain ⟨loaded, loads⟩ := handed (fun _ found => found = slotBuffer info [byte]) (fun _ _ => true)
  have accepts : decide (slotBuffer info ([byte].take 1) = slotBuffer info [byte]) = true :=
    decide_eq_true rfl
  rw [if_pos accepts] at loads
  obtain ⟨components, headers, -, ends⟩ := UpgradeInput.loadPackage_cases rfl loads
  have front : signed = header ++ ((infos ++
      (zeros (upgradeCompInfoLen * (info.entryCount - st.entries.length)) ++ reserve)) ++
        (([byte].take 1 ++ zeros (upgradeSignatureLen - 1)) ++ packedData st.entries)) := by
    rw [written]
    simp only [List.append_assoc]
  obtain ⟨loadedVersion, digestMethod, parsedLen, few, many⟩ :=
    UpgradeInput.readHeaders_written packs.made front (by omega) headers
  refine ⟨signed, components.entries.length, written, few, many, ?_⟩
  have counted : upgradeCompInfoLen * components.entries.length ≤
      info.entryCount * upgradeCompInfoLen := by
    have cut := Nat.mod_le (info.entryCount * upgradeCompInfoLen) (2 ^ 16)
    rw [comp87] at few cut ⊢
    omega
  have inside : components.parsedLen + (upgradeReserveLen + upgradeSignatureLen) ≤ signed.length := by
    rw [agreed.length, packageLength, base, UpgradePkgInfo.reserveOffset, parsedLen]
    omega
  have ending := ends inside
  dsimp only at ending
  rw [if_neg (by omega)] at ending
  obtain ⟨_, found⟩ := ending
  have found := of_decide_eq_true found
  have shape : slice signed (components.parsedLen + (upgradeReserveLen + signatureStart info))
      (signatureLength info) = slotBuffer info [byte] := by
    rw [← found, digestMethod, signatureStart, signatureLength]
    by_cases sha384 : info.digestMethod = pkgDigestTypeSha384
    · simp only [if_pos sha384]
    · simp only [if_neg sha384, Nat.add_zero]
  have first := getElem?_slice signed (components.parsedLen + (upgradeReserveLen + signatureStart info))
    (signatureLength info) 0
  rw [shape, if_pos (Nat.lt_of_lt_of_le Nat.zero_lt_one positive), Nat.add_zero, parsedLen] at first
  exact first.symm

theorem SignsAsLoaded.loadable
    (agrees : SignsAsLoaded info package (info.reserveOffset + upgradeReserveLen))
    (packs : PackageLayout info algorithms files st header infos reserve package)
    (version : info.updateFileVersion < 2)
    (method : info.digestMethod = pkgDigestTypeSha256 ∨ info.digestMethod = pkgDigestTypeSha384) :
    SignLoadable info := by
  have frontLength := packs.length_front
  have comp87 : upgradeCompInfoLen = 87 := rfl
  have sha256Len : signSha256Len = 256 := rfl
  have start : signatureStart info = 0 ∨ signatureStart info = signSha256Len := by
    rw [signatureStart]
    split
    · exact .inr rfl
    · exact .inl rfl
  obtain ⟨signed, count, written, few, many, found⟩ := agrees.byte_found packs version method 1
  obtain ⟨other, count', otherWritten, few', many', otherFound⟩ :=
    agrees.byte_found packs version method 2
  have same : count' = count := by
    rw [comp87] at few few' many many'
    omega
  rw [same, otherWritten] at otherFound
  rw [written] at found
  generalize place : upgradeFileHeaderLen + upgradeCompInfoLen * count +
    (upgradeReserveLen + signatureStart info) = position at found otherFound
  -- in front of the signature area both packages are the same
  have reached : info.reserveOffset + upgradeReserveLen ≤ position := by
    apply Nat.not_lt.mp
    intro before
    rw [List.getElem?_append_left (by omega)] at found otherFound
    have equal := found.symm.trans otherFound
    revert equal
    decide
  have listed : info.entryCount * upgradeCompInfoLen < 2 ^ 16 := by
    apply Nat.not_le.mp
    intro large
    rw [UpgradePkgInfo.reserveOffset] at reached
    rw [comp87] at few large reached place
    omega
  refine ⟨?_, listed⟩
  rcases method with sha256 | sha384
  · exact sha256
  · have second : signatureStart info = 256 := by
      rw [signatureStart, if_pos sha384]
      rfl
    rw [Nat.mod_eq_of_lt listed] at few many
    rw [second] at place
    have entries : count = info.entryCount := by
      rw [Nat.mul_comm, ← Nat.succ_mul] at few
      rw [Nat.mul_comm upgradeCompInfoLen] at many
      exact Nat.le_antisymm (Nat.lt_succ_iff.mp (Nat.lt_of_mul_lt_mul_right few))
        (Nat.le_of_mul_le_mul_right many (by decide))
    have all : position = (info.reserveOffset + upgradeReserveLen) + 256 := by
      rw [← place, entries, UpgradePkgInfo.reserveOffset, Nat.mul_comm upgradeCompInfoLen]
      exact (Nat.add_assoc _ _ _).symm
    rw [← frontLength] at all
    rw [all, List.getElem?_append_right (Nat.le_add_right _ _), Nat.add_sub_cancel_left,
      List.getElem?_append_left (by rw [List.length_append, length_zeros]; decide)] at found
    exact absurd found (by decide +kernel)

/-- A package of version 1 is loaded as it was signed exactly if it is over SHA256 and the
length of its entries fits its field. -/
theorem upgradePackage_signsAsLoaded_iff {signOffset : Nat}
    (created : info.createPackage algorithms files = some (st, package, signOffset))
    (version : info.updateFileVersion = 1)
    (method : info.digestMethod = pkgDigestTypeSha256 ∨ info.digestMethod = pkgDigestTypeSha384) :
    SignsAsLoaded info package signOffset ↔ SignLoadable info := by
  obtain ⟨rfl, header, infos, reserve, packs⟩ := createPackage_layout created
  constructor
  · intro agrees
    exact agrees.loadable packs (by omega) method
  · intro loadable
    exact loadable.signsAsLoaded packs (by omega)

end

/-- So is the package with one stored component. -/
theorem bootPackage_signsAsLoaded :
    ∃ st package signOffset,
      (bootPackage 1).createPackage noAlgorithms [bootComponent] = some (st, package, signOffset) ∧
      SignsAsLoaded (bootPackage 1) package signOffset := by
  have made : ((bootPackage 1).createPackage noAlgorithms [bootComponent]).isSome = true := by
    decide +kernel
  obtain ⟨⟨st, package, signOffset⟩, created⟩ := Option.isSome_iff_exists.mp made
  exact ⟨st, package, signOffset, created,
    (upgradePackage_signsAsLoaded_iff created rfl (.inl rfl)).mpr ⟨rfl, by decide⟩⟩

/-- Over SHA384 the signature is written to the slot of SHA256. -/
theorem sha384_signature_misplaced :
    ¬ ∀ (info : UpgradePkgInfo) (algorithms : PackAlgorithms) (files : List ComponentInfo)
      (st : PackState) (package : Bytes) (signOffset : Nat),
      info.updateFileVersion = 1 →
      info.digestMethod = pkgDigestTypeSha256 ∨ info.digestMethod = pkgDigestTypeSha384 →
      info.createPackage algorithms files = some (st, package, signOffset) →
      SignsAsLoaded info package signOffset := by
  intro signs
  have made : ({ bootPackage 1 with digestMethod := pkgDigestTypeSha384 }.createPackage noAlgorithms
      [bootComponent]).isSome = true := by
    decide +kernel
  obtain ⟨⟨st, package, signOffset⟩, created⟩ := Option.isSome_iff_exists.mp made
  have agrees := signs { bootPackage 1 with digestMethod := pkgDigestTypeSha384 } noAlgorithms
    [bootComponent] st package signOffset rfl (.inr rfl) created
  obtain ⟨rfl, header, infos, reserve, packs⟩ := createPackage_layout created
  have sha256 := (agrees.loadable packs (by decide) (.inr rfl)).method
  revert sha256
  decide

end Updater.Package
