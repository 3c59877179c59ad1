import Updater.Package.GZipPkgFile
import Updater.Package.ZipPkgRoundTrip

/-! Gzip packages that are written and loaded again: which of them come back. -/

set_option autoImplicit false

namespace Updater.Package

open Updater.Base

/-- Inflating what was deflated, and no more of the file than that, gives the content back. -/
def GZipAlgorithm.Inverts (algorithm : GZipAlgorithm) : Prop :=
  ∀ {content : Bytes} {packed : ZipPacked} {file : Bytes} {offset : Nat},
    algorithm.pack content = some packed → slice file offset packed.data.length = packed.data →
    algorithm.unpack file offset packed.data.length =
      ⟨pkgSuccess, content, packed.data.length, content.length, packed.crc⟩

/-- The package loads with one entry, of the name that was given, whose range, sizes and CRC are
those that were written; and it is unpacked to the content. -/
def GZipRoundTrips (algorithm : GZipAlgorithm) (added : GZipAdded) (package : Bytes) : Prop :=
  ∃ entry, gzipLoadPackage package = some entry ∧ entry.identity = added.info.identity ∧
    entry.dataOffset = added.dataOffset ∧ entry.packedSize = added.packed.data.length ∧
    entry.unpackedSize = added.info.content.length % 2 ^ 32 ∧
    (gzipUnpack algorithm package entry).1 = pkgSuccess ∧
    (gzipUnpack algorithm package entry).2.1 = added.info.content ∧
    (gzipUnpack algorithm package entry).2.2.2 = added.packed.crc.toNat

/-- A name of printable characters that has room in the buffer of the header. -/
structure GZipFileInfo.Named (info : GZipFileInfo) : Prop where
  some_ : info.identity ≠ []
  room : info.identity.length ≤ gzipBufferSize - gzipHeaderLen
  printable : Printable info.identity

/-- How much of the sign data is in the file. -/
def signLength (refused : Option Nat) : Nat :=
  match refused with
  | none => signDataLen
  | some left => min left signDataLen

theorem signLength_eq_zero_iff {refused : Option Nat} : signLength refused = 0 ↔ refused = some 0 := by
  cases refused with
  | none => exact iff_of_false (by decide) nofun
  | some left =>
      rw [signLength, Option.some.injEq, signDataLen]
      omega

theorem gzipSavePackage_eq (refused : Option Nat) (file : Bytes) :
    gzipSavePackage refused file = file ++ List.replicate (signLength refused) 0 := by
  cases refused with
  | none => rfl
  | some left => rw [gzipSavePackage, signLength, List.take_replicate]

section Written

variable {algorithm : GZipAlgorithm} {info : GZipFileInfo} {added : GZipAdded} {file : Bytes}

/-- What `AddEntry` leaves in the file. -/
structure GZipWritten (algorithm : GZipAlgorithm) (info : GZipFileInfo) (added : GZipAdded)
    (file : Bytes) : Prop where
  same : added.info = info
  packs : algorithm.pack info.content = some added.packed
  offset : added.dataOffset = info.getUpGradeCompInfo.length
  layout : file = info.getUpGradeCompInfo ++
    (added.packed.data ++ gzipTrailer added.packed.crc info.initSize)
  length : info.content.length = info.initSize
  fits : file.length < 2 ^ 63

theorem gzipAddEntry_written (made : gzipAddEntry algorithm info = some (added, file)) :
    GZipWritten algorithm info added file := by
  rw [gzipAddEntry] at made
  split at made
  · cases made
  · obtain ⟨first, header, made⟩ := Option.bind_eq_some_iff.mp made
    obtain ⟨-, rfl⟩ := streamWrite_some header
    split at made
    · cases made
    · rename_i _ enough
      obtain ⟨packed, packs, made⟩ := Option.bind_eq_some_iff.mp made
      obtain ⟨second, data, made⟩ := Option.bind_eq_some_iff.mp made
      obtain ⟨third, trailer, made⟩ := Option.bind_eq_some_iff.mp made
      obtain ⟨-, rfl⟩ := streamWrite_some data
      obtain ⟨fits, rfl⟩ := streamWrite_some trailer
      cases made
      have headerAt : fileWrite [] 0 info.getUpGradeCompInfo = info.getUpGradeCompInfo :=
        fileWrite_end [] _
      have dataAt : fileWrite info.getUpGradeCompInfo info.getUpGradeCompInfo.length packed.data =
          info.getUpGradeCompInfo ++ packed.data := fileWrite_end _ _
      have trailerAt := fileWrite_end (info.getUpGradeCompInfo ++ packed.data)
        (gzipTrailer packed.crc info.initSize)
      rw [List.length_append, List.append_assoc] at trailerAt
      refine ⟨rfl, packs, rfl, ?_, ?_, ?_⟩
      · rw [headerAt, dataAt, trailerAt]
      · rw [GZipFileInfo.content, List.length_take, Nat.min_eq_left (Nat.le_of_not_lt enough)]
      · rw [headerAt, dataAt, trailerAt, List.length_append, List.length_append, ← Nat.add_assoc]
        exact fits

end Written

section Load

/-- A terminator ends a name, as the end of the buffer does. -/
theorem convertBufferToString_take {name rest : Bytes} {count : Nat} (room : name.length ≤ count) :
    convertBufferToString ((name ++ 0 :: rest).take count) = convertBufferToString name := by
  induction name generalizing count with
  | nil =>
      cases count with
      | zero => rfl
      | succ count => rfl
  | cons byte name ih =>
      cases count with
      | zero => exact absurd room (Nat.not_succ_le_zero _)
      | succ count =>
          rw [convertBufferToString, convertBufferToString, List.cons_append, List.take_succ_cons,
            List.takeWhile_cons, List.takeWhile_cons]
          split
          · exact congrArg (byte :: ·) (ih (Nat.le_of_succ_le_succ room))
          · rfl

/-- The name that is read from a header. -/
def GZipFileInfo.shownName (info : GZipFileInfo) : Bytes :=
  convertBufferToString info.headerName

variable {info : GZipFileInfo} {package rest : Bytes}

theorem GZipFileInfo.length_headerName : info.headerName.length ≤ gzipBufferSize - gzipHeaderLen := by
  rw [headerName]
  split
  · exact Nat.zero_le _
  · rename_i room
    exact Nat.le_of_not_lt room

theorem GZipFileInfo.length_shownName : info.shownName.length ≤ info.headerName.length :=
  (List.takeWhile_prefix _).length_le

theorem length_getUpGradeCompInfo :
    info.getUpGradeCompInfo.length = gzipHeaderLen + (info.headerName.length + 1) := by
  simp only [GZipFileInfo.getUpGradeCompInfo, List.length_append, length_leBytes,
    List.length_singleton, gzipHeaderLen]
  omega

/-- The buffer that a package is read to is its beginning, with zeros behind a short one. -/
theorem readFront_start (some_ : package ≠ []) :
    readFront package (List.replicate gzipBufferSize 0) 0 gzipBufferSize =
      some ((package ++ List.replicate gzipBufferSize 0).take gzipBufferSize) := by
  have found : slice package 0 gzipBufferSize = package.take gzipBufferSize := by
    rw [slice, List.drop_zero]
  have positive : package.take gzipBufferSize ≠ [] := by
    rw [Ne, List.take_eq_nil_iff]
    rintro (zero | nothing)
    · exact absurd zero (by decide)
    · exact some_ nothing
  rw [readFront, fileRead, found, if_neg (not_or.mpr ⟨Nat.not_lt_zero _, positive⟩),
    Option.map_some, List.take_append, List.drop_replicate, List.take_replicate, List.length_take]
  congr 3
  omega

/-- Where the data of a package that begins with a header is found, and the name. -/
theorem decodeHeaderCalOffset_written {buffer : Bytes}
    (made : buffer = (info.getUpGradeCompInfo ++ rest).take gzipBufferSize)
    (length : buffer.length = gzipBufferSize) :
    leValue (slice buffer 0 2) = gzipMagic ∧ leValue (slice buffer 3 1) = origName ∧
      decodeHeaderCalOffset origName buffer gzipHeaderLen =
        (gzipHeaderLen + (info.shownName.length + 1), info.shownName) := by
  have split : info.getUpGradeCompInfo ++ rest = leBytes 2 gzipMagic ++
      (leBytes 1 zDeflated.toNat ++ (leBytes 1 origName ++ (leBytes 8 info.modifiedTime ++
        (leBytes 2 0 ++ (info.headerName ++ 0 :: rest))))) := by
    simp only [GZipFileInfo.getUpGradeCompInfo, List.append_assoc, List.singleton_append]
  have field : ∀ start size, start + size ≤ gzipBufferSize →
      slice buffer start size = slice (info.getUpGradeCompInfo ++ rest) start size := by
    intro start size inside
    rw [made, slice, slice, List.drop_take, List.take_take, Nat.min_eq_left (by omega)]
  have behind : buffer.drop gzipHeaderLen =
      (info.headerName ++ 0 :: rest).take (gzipBufferSize - gzipHeaderLen) := by
    have cut : (info.getUpGradeCompInfo ++ rest).drop gzipHeaderLen =
        info.headerName ++ 0 :: rest := by
      have front : (leBytes 2 gzipMagic ++ (leBytes 1 zDeflated.toNat ++ (leBytes 1 origName ++
          (leBytes 8 info.modifiedTime ++ leBytes 2 0)))).length = gzipHeaderLen := by
        simp only [List.length_append, length_leBytes]
        rfl
      rw [split, ← front]
      simp only [← List.append_assoc]
      exact List.drop_left
    rw [made, List.drop_take, cut]
  refine ⟨?_, ?_, ?_⟩
  · rw [field 0 2 (by decide), split, slice_front_leBytes, leValue_leBytes_of_lt (by decide)]
  · rw [field 3 1 (by decide), split, slice_behind_leBytes (by decide),
      slice_behind_leBytes (by decide), slice_front_leBytes, leValue_leBytes_of_lt (by decide)]
  · have named : (decide (buffer.length > gzipHeaderLen) && decide (origName &&& origName ≠ 0)) =
        true := by
      rw [length]
      decide
    have plain : origName &&& extraField = 0 ∧ origName &&& comment = 0 ∧
        origName &&& headerCrc = 0 := by decide
    rw [decodeHeaderCalOffset, plain.1, plain.2.1, plain.2.2, if_neg (not_not_intro rfl), if_neg (not_not_intro rfl), named, if_pos rfl, if_pos rfl,
      if_neg fun both => both.2 rfl, behind,
      convertBufferToString_take info.length_headerName]
    rfl

end Load

section RoundTrip

variable {algorithm : GZipAlgorithm} {info : GZipFileInfo} {added : GZipAdded} {file : Bytes}
  {refused : Option Nat}

/-- What a package that was written is loaded as: the data range ends eight bytes before the end of
the file, and the size is read behind it. -/
theorem gzipLoadPackage_written (written : GZipWritten algorithm info added file) :
    gzipLoadPackage (gzipSavePackage refused file) = some
      { identity := if info.shownName = [] then ascii "gzip_0" else info.shownName
        headerOffset := 0
        dataOffset := gzipHeaderLen + (info.shownName.length + 1)
        packedSize := info.headerName.length - info.shownName.length +
          (added.packed.data.length + signLength refused)
        unpackedSize := leValue (slice (gzipSavePackage refused file)
          (file.length + signLength refused - 4) 4) } := by
  have package := gzipSavePackage_eq refused file
  have shown := info.length_shownName
  have room := info.length_headerName
  have header := @length_getUpGradeCompInfo info
  have whole : file.length = gzipHeaderLen + (info.headerName.length + 1) +
      (added.packed.data.length + gzipBlockSize) := by
    rw [written.layout, List.length_append, List.length_append, header, gzipTrailer,
      List.length_append, length_leBytes, length_leBytes]
    rfl
  have total : (gzipSavePackage refused file).length = file.length + signLength refused := by
    rw [package, List.length_append, List.length_replicate]
  have few : signLength refused ≤ signDataLen := by
    cases refused with
    | none => exact Nat.le_refl _
    | some left => exact Nat.min_le_right _ _
  have fits := written.fits
  have some_ : gzipSavePackage refused file ≠ [] := by
    intro nothing
    rw [nothing, List.length_nil, whole] at total
    omega
  obtain ⟨buffer, made⟩ : ∃ buffer, buffer = (gzipSavePackage refused file ++
      List.replicate gzipBufferSize 0).take gzipBufferSize := ⟨_, rfl⟩
  have length : buffer.length = gzipBufferSize := by
    rw [made, List.length_take, List.length_append, List.length_replicate]
    exact Nat.min_eq_left (Nat.le_add_left _ _)
  have front : gzipSavePackage refused file ++ List.replicate gzipBufferSize 0 =
      info.getUpGradeCompInfo ++ (added.packed.data ++ gzipTrailer added.packed.crc info.initSize ++
        (List.replicate (signLength refused) 0 ++ List.replicate gzipBufferSize 0)) := by
    rw [package, written.layout]
    simp only [List.append_assoc]
  obtain ⟨magic, flags, decoded⟩ := decodeHeaderCalOffset_written (made.trans (by rw [front])) length
  have notEncrypted : ¬origName &&& encrypted ≠ 0 := by decide
  have start : ((gzipSavePackage refused file).length + 2 ^ 64 - gzipBlockSize) % 2 ^ 64 =
      file.length + signLength refused - gzipBlockSize := by
    rw [total]
    rw [gzipBlockSize] at whole ⊢
    rw [signDataLen] at few
    omega
  have last : slice (gzipSavePackage refused file)
      (file.length + signLength refused - gzipBlockSize) gzipBufferSize =
        slice (gzipSavePackage refused file)
          (file.length + signLength refused - gzipBlockSize) gzipBlockSize := by
    rw [slice, slice, List.take_of_length_le, List.take_of_length_le]
    · rw [List.length_drop, total, gzipBlockSize]
      omega
    · rw [List.length_drop, total, gzipBlockSize, gzipBufferSize]
      omega
  have lastLength : (slice (gzipSavePackage refused file)
      (file.length + signLength refused - gzipBlockSize) gzipBlockSize).length = gzipBlockSize := by
    refine length_slice ?_
    rw [total]
    rw [gzipBlockSize] at whole ⊢
    omega
  have read : fileRead (gzipSavePackage refused file)
      (file.length + signLength refused - gzipBlockSize) gzipBufferSize =
        some (slice (gzipSavePackage refused file)
          (file.length + signLength refused - gzipBlockSize) gzipBlockSize) := by
    rw [fileRead, last, if_neg]
    rintro (behind | nothing)
    · rw [total] at behind
      omega
    · rw [nothing] at lastLength
      exact absurd lastLength (by decide)
  have size : slice (slice (gzipSavePackage refused file)
      (file.length + signLength refused - gzipBlockSize) gzipBlockSize) 4 4 =
        slice (gzipSavePackage refused file) (file.length + signLength refused - 4) 4 := by
    have behind : file.length + signLength refused - gzipBlockSize + 4 =
        file.length + signLength refused - 4 := by
      rw [gzipBlockSize] at whole ⊢
      omega
    rw [slice_slice (by decide), behind]
  have range : (file.length + signLength refused - gzipBlockSize + 2 ^ 64 -
      (gzipHeaderLen + (info.shownName.length + 1))) % 2 ^ 64 =
        info.headerName.length - info.shownName.length +
          (added.packed.data.length + signLength refused) := by
    rw [signDataLen] at few
    rw [gzipBlockSize] at whole ⊢
    omega
  rw [gzipLoadPackage, readFront_start some_, ← made, Option.bind_eq_bind, Option.bind_some, magic,
    if_neg (not_not_intro rfl), flags, if_neg notEncrypted, gzipDecodeHeader, flags, decoded]
  dsimp only
  rw [start, readFront, length, read, Option.map_some, Option.map_some,
    slice_append_left _ (by rw [lastLength]; decide), size, Nat.zero_add, range]

/-- A name is shown as it was given exactly when it has room and can be printed. -/
theorem shownName_iff :
    (if info.shownName = [] then ascii "gzip_0" else info.shownName) = info.identity ↔
      info.Named := by
  constructor
  · intro same
    by_cases nothing : info.shownName = []
    · rw [if_pos nothing] at same
      have room : ¬gzipBufferSize - gzipHeaderLen < info.identity.length := by
        rw [← same]
        decide
      rw [GZipFileInfo.shownName, GZipFileInfo.headerName, if_neg room, ← same] at nothing
      exact absurd nothing (by decide)
    · rw [if_neg nothing] at same
      have room : ¬gzipBufferSize - gzipHeaderLen < info.identity.length := by
        intro long
        rw [GZipFileInfo.shownName, GZipFileInfo.headerName, if_pos long] at nothing
        exact nothing rfl
      refine ⟨same ▸ nothing, Nat.le_of_not_lt room, ?_⟩
      rw [GZipFileInfo.shownName, GZipFileInfo.headerName, if_neg room] at same
      exact (convertBufferToString_iff _).mp same
  · rintro ⟨some_, room, printable⟩
    rw [GZipFileInfo.shownName, GZipFileInfo.headerName, if_neg (Nat.not_lt_of_le room),
      (convertBufferToString_iff _).mpr printable, if_neg some_]

theorem headerName_of_named (named : info.Named) :
    info.headerName = info.identity ∧ info.shownName = info.identity := by
  have header : info.headerName = info.identity := if_neg (Nat.not_lt_of_le named.room)
  refine ⟨header, ?_⟩
  rw [GZipFileInfo.shownName, header]
  exact (convertBufferToString_iff _).mpr named.printable

/-- The trailer that was written, where nothing is behind it. -/
theorem trailer_written (written : GZipWritten algorithm info added file) :
    slice file (added.packed.data.length + info.getUpGradeCompInfo.length) gzipBlockSize =
        gzipTrailer added.packed.crc info.initSize ∧
      slice file (file.length - 4) 4 = leBytes 4 info.initSize := by
  have split : file = (info.getUpGradeCompInfo ++ added.packed.data) ++
      (gzipTrailer added.packed.crc info.initSize ++ []) := by
    rw [written.layout, List.append_nil, List.append_assoc]
  have last : file = (info.getUpGradeCompInfo ++ (added.packed.data ++
      leBytes 4 added.packed.crc.toNat)) ++ (leBytes 4 info.initSize ++ []) := by
    rw [written.layout, gzipTrailer]
    simp only [List.append_assoc, List.append_nil]
  have length : file.length = info.getUpGradeCompInfo.length + (added.packed.data.length + 8) := by
    rw [written.layout, gzipTrailer]
    simp only [List.length_append, length_leBytes]
  constructor
  · rw [split]
    refine slice_field ?_ ?_
    · rw [List.length_append, Nat.add_comm]
    · rw [gzipTrailer, List.length_append, length_leBytes, length_leBytes]
      rfl
  · have at_ : file.length - 4 = (info.getUpGradeCompInfo ++ (added.packed.data ++
        leBytes 4 added.packed.crc.toNat)).length := by
      rw [length, List.length_append, List.length_append, length_leBytes]
      omega
    rw [at_, last]
    exact slice_field rfl (length_leBytes 4 _).symm

/-- Inflating the exact range gives the content; it is accepted where its size has 32 bits. -/
theorem gzipUnpack_written (inverts : algorithm.Inverts)
    (written : GZipWritten algorithm info added file) {entry : GZipEntry}
    (offset : entry.dataOffset = info.getUpGradeCompInfo.length)
    (size : entry.packedSize = added.packed.data.length) :
    ((gzipUnpack algorithm file entry).1 = pkgSuccess ↔ info.initSize < 2 ^ 32) ∧
      (gzipUnpack algorithm file entry).2.1 = info.content ∧
      (gzipUnpack algorithm file entry).2.2.2 = added.packed.crc.toNat := by
  have unpacked := inverts written.packs (show slice file info.getUpGradeCompInfo.length
      added.packed.data.length = added.packed.data from by
    rw [written.layout]
    exact slice_field rfl rfl)
  have trailer := (trailer_written written).1
  have room : fileRead file (added.packed.data.length + info.getUpGradeCompInfo.length)
      gzipBlockSize = some (gzipTrailer added.packed.crc info.initSize) := by
    rw [fileRead, trailer, if_neg]
    rintro (behind | nothing)
    · rw [written.layout, List.length_append, List.length_append] at behind
      omega
    · have length : (gzipTrailer added.packed.crc info.initSize).length = 8 := by
        rw [gzipTrailer, List.length_append, length_leBytes, length_leBytes]
      rw [nothing] at length
      exact absurd length (by decide)
  have crc : leValue (slice (gzipTrailer added.packed.crc info.initSize) 0 4) =
      added.packed.crc.toNat := by
    rw [gzipTrailer, slice_front_leBytes]
    exact leValue_leBytes_of_lt added.packed.crc.toNat_lt
  have isize : leValue (slice (gzipTrailer added.packed.crc info.initSize) 4 4) =
      info.initSize % 2 ^ 32 := by
    rw [gzipTrailer, slice_behind_leBytes (Nat.le_refl _), Nat.sub_self, slice_leBytes]
    exact leValue_leBytes 4 _
  have whole : (gzipTrailer added.packed.crc info.initSize).length = gzipBlockSize := by
    rw [gzipTrailer, List.length_append, length_leBytes, length_leBytes]
    rfl
  rw [gzipUnpack, offset, size, unpacked]
  dsimp only
  rw [if_neg (not_not_intro rfl), readFront, room, Option.map_some, whole, List.drop_replicate,
    Nat.sub_self, List.replicate_zero, List.append_nil]
  dsimp only
  rw [crc, isize, if_neg (not_not_intro rfl), written.length]
  by_cases small : info.initSize < 2 ^ 32
  · rw [if_neg (not_not_intro (Nat.mod_eq_of_lt small))]
    exact ⟨iff_of_true rfl small, rfl, rfl⟩
  · have differ : info.initSize % 2 ^ 32 ≠ info.initSize := fun same =>
      small (same ▸ Nat.mod_lt _ (by decide))
    rw [if_pos differ]
    exact ⟨iff_of_false (by decide : pkgVerifyFail ≠ pkgSuccess) small, rfl, rfl⟩

/-- A gzip package comes back exactly when none of the sign data gets into its file, its name can
be printed and has room, and the size of its content has 32 bits. -/
theorem gzip_roundTrips_iff (inverts : algorithm.Inverts)
    (made : gzipAddEntry algorithm info = some (added, file)) (refused : Option Nat) :
    GZipRoundTrips algorithm added (gzipSavePackage refused file) ↔
      refused = some 0 ∧ info.Named ∧ info.initSize < 2 ^ 32 := by
  have written := gzipAddEntry_written made
  have loaded := @gzipLoadPackage_written _ _ _ _ refused written
  have header := @length_getUpGradeCompInfo info
  rw [GZipRoundTrips, written.same, written.offset]
  constructor
  · rintro ⟨entry, found, identity, offset, size, -, success, -, -⟩
    rw [loaded] at found
    cases found
    have named := shownName_iff.mp identity
    obtain ⟨headerName, shownName⟩ := headerName_of_named named
    dsimp only at size
    rw [headerName, shownName, Nat.sub_self, Nat.zero_add] at size
    have none_ : signLength refused = 0 := by omega
    refine ⟨signLength_eq_zero_iff.mp none_, named, ?_⟩
    have package : gzipSavePackage refused file = file := by
      rw [gzipSavePackage_eq, none_, List.replicate_zero, List.append_nil]
    rw [package] at success
    refine (gzipUnpack_written inverts written ?_ ?_).1.mp success
    · exact offset
    · dsimp only
      rw [headerName, shownName, none_, Nat.sub_self, Nat.zero_add, Nat.add_zero]
  · rintro ⟨none_, named, small⟩
    obtain ⟨headerName, shownName⟩ := headerName_of_named named
    have nothing := signLength_eq_zero_iff.mpr none_
    have package : gzipSavePackage refused file = file := by
      rw [gzipSavePackage_eq, nothing, List.replicate_zero, List.append_nil]
    refine ⟨_, loaded, shownName_iff.mpr named, ?_, ?_, ?_, ?_⟩
    · dsimp only
      rw [header, headerName, shownName]
    · dsimp only
      rw [headerName, shownName, nothing, Nat.sub_self, Nat.zero_add, Nat.add_zero]
    · dsimp only
      rw [package, nothing, Nat.add_zero, (trailer_written written).2, written.length]
      exact leValue_leBytes 4 _
    · rw [package]
      have unpacks := @gzipUnpack_written _ _ _ _ inverts written
        { identity := if info.shownName = [] then ascii "gzip_0" else info.shownName
          headerOffset := 0
          dataOffset := gzipHeaderLen + (info.shownName.length + 1)
          packedSize := info.headerName.length - info.shownName.length +
            (added.packed.data.length + signLength refused)
          unpackedSize := leValue (slice file (file.length + signLength refused - 4) 4) }
        (by rw [header, headerName, shownName])
        (by dsimp only; rw [headerName, shownName, nothing, Nat.sub_self, Nat.zero_add, Nat.add_zero])
      exact ⟨unpacks.1.mpr small, unpacks.2⟩

end RoundTrip

/-- The letter a, deflated. -/
def letterPacked : ZipPacked where
  data := [0x4b, 0x04, 0x00]
  crc := 0xe8b7be43

/-- What deflating and inflating do to the letter a. -/
def letterAlgorithm : GZipAlgorithm where
  pack content := if content = [0x61] then some letterPacked else none
  unpack file offset _ :=
    if slice file offset 3 = [0x4b, 0x04, 0x00] then ⟨pkgSuccess, [0x61], 3, 1, 0xe8b7be43⟩
    else ⟨pkgNotExistAlgorithm, [], 0, 0, 0⟩

theorem letterAlgorithm_inverts : letterAlgorithm.Inverts := by
  intro content packed file offset packs found
  rw [letterAlgorithm] at packs ⊢
  dsimp only at packs ⊢
  split at packs
  · rename_i letter
    cases packs
    rw [letter]
    exact if_pos found
  · cases packs

def letterFile : GZipFileInfo where
  identity := ascii "a.txt"
  unpackedSize := 0
  modifiedTime := 1
  stream := [0x61]

def letterAdded : GZipAdded where
  info := letterFile
  packed := letterPacked
  dataOffset := 20

def letterBytes : Bytes :=
  letterFile.getUpGradeCompInfo ++ (letterPacked.data ++ gzipTrailer letterPacked.crc 1)

theorem letter_added : gzipAddEntry letterAlgorithm letterFile = some (letterAdded, letterBytes) :=
  rfl

theorem letter_roundTrips_iff :
    GZipRoundTrips letterAlgorithm letterAdded (gzipSavePackage none letterBytes) ↔
      none = some 0 ∧ letterFile.Named ∧ letterFile.initSize < 2 ^ 32 :=
  gzip_roundTrips_iff letterAlgorithm_inverts letter_added none

/-- The range of the data of a plain package goes on into its sign data. -/
theorem letter_not_roundTrips :
    gzipAddEntry letterAlgorithm letterFile = some (letterAdded, letterBytes) ∧
      ¬GZipRoundTrips letterAlgorithm letterAdded (gzipSavePackage none letterBytes) := by
  refine ⟨letter_added, ?_⟩
  rintro ⟨entry, found, -, -, size, -⟩
  rw [gzipLoadPackage_written (gzipAddEntry_written letter_added)] at found
  cases found
  exact absurd size (by decide)

end Updater.Package
