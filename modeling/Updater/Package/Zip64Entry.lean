import Updater.Package.ZipPkgFile

/-! Sizes and offsets of an archive that do not fit into thirty-two bits: the extra field that
lists them, and what `DoDecodeCentralDirEntry` takes from it. -/

set_option autoImplicit false

namespace Updater.Package

open Updater.Base

/-- A size or an offset, and whether its field of thirty-two bits is saturated. -/
structure Zip64Field where
  value : Nat
  saturated : Bool
  fits : value < 2 ^ 64
  real : saturated = false → value < uintMax

namespace Zip64Field

/-- The field of thirty-two bits. -/
def shown (field : Zip64Field) : Nat :=
  if field.saturated then uintMax else field.value

theorem shown_of_saturated {field : Zip64Field} (saturated : field.saturated = true) :
    field.shown = uintMax := by
  rw [shown, if_pos saturated]

theorem shown_of_real {field : Zip64Field} (real : field.saturated = false) :
    field.shown = field.value := by
  rw [shown, if_neg (by rw [real]; exact Bool.false_ne_true)]

theorem value_ne_uintMax {field : Zip64Field} (real : field.saturated = false) :
    field.value ≠ uintMax :=
  Nat.ne_of_lt (field.real real)

end Zip64Field

/-- The true sizes and offset of an entry. -/
structure Zip64Entry where
  unpacked : Zip64Field
  packed : Zip64Field
  offset : Zip64Field

namespace Zip64Entry

/-- What the extra field lists: the saturated fields, in the order of the format. -/
def listed (entry : Zip64Entry) : List Nat :=
  ([entry.unpacked, entry.packed, entry.offset].filter Zip64Field.saturated).map Zip64Field.value

/-- An entry of the central directory, whose extra area begins with the zip64 field. -/
structure EncodedIn (entry : Zip64Entry) (data : Nat → Nat → Bytes) (nameSize extraSize : Nat) :
    Prop where
  packed : leValue (data 20 4) = entry.packed.shown
  unpacked : leValue (data 24 4) = entry.unpacked.shown
  offset : leValue (data 42 4) = entry.offset.shown
  room : 4 + 8 * entry.listed.length ≤ extraSize
  headerId : leValue (data (nameSize + centralDirEntryLen) 2) = 1
  fieldSize : leValue (data (nameSize + centralDirEntryLen + 2) 2) = 8 * entry.listed.length
  values : ∀ (index : Nat) (inside : index < entry.listed.length),
    leValue (data (nameSize + centralDirEntryLen + (4 + 8 * index)) 8) = entry.listed.get ⟨index, inside⟩

/-- The decoded entry has the true sizes and the true offset. -/
def DecodedAs (entry : Zip64Entry) (decoded : ZipEntry) : Prop :=
  decoded.unpackedSize = entry.unpacked.value ∧
    decoded.packedSize = entry.packed.value ∧ decoded.headerOffset = entry.offset.value

/-- Where the source does not look for a value at its place in the list, the bytes where it looks
happen to be that value. -/
structure FoundBehind (entry : Zip64Entry) (data : Nat → Nat → Bytes) (nameSize : Nat) : Prop where
  packed : entry.packed.saturated = true → entry.unpacked.saturated = false →
    leValue (data (nameSize + centralDirEntryLen + 12) 8) = entry.packed.value
  offset : entry.offset.saturated = true → entry.unpacked.saturated ≠ entry.packed.saturated →
    leValue (data (nameSize + centralDirEntryLen + bigSizeHeader) 8) = entry.offset.value

variable {entry : Zip64Entry} {data : Nat → Nat → Bytes} {nameSize extraSize : Nat}

section Listed

theorem listed_of_unpacked (unpacked : entry.unpacked.saturated = true) :
    entry.listed[0]? = some entry.unpacked.value := by
  rw [listed, List.filter_cons_of_pos unpacked]
  rfl

theorem listed_of_offset (unpacked : entry.unpacked.saturated = false)
    (packed : entry.packed.saturated = false) (offset : entry.offset.saturated = true) :
    entry.listed[0]? = some entry.offset.value := by
  rw [listed, List.filter_cons_of_neg (by rw [unpacked]; exact Bool.false_ne_true),
    List.filter_cons_of_neg (by rw [packed]; exact Bool.false_ne_true),
    List.filter_cons_of_pos offset]
  rfl

theorem listed_of_sizes (unpacked : entry.unpacked.saturated = true)
    (packed : entry.packed.saturated = true) :
    entry.listed[1]? = some entry.packed.value := by
  rw [listed, List.filter_cons_of_pos unpacked, List.filter_cons_of_pos packed]
  rfl

theorem listed_of_all (unpacked : entry.unpacked.saturated = true)
    (packed : entry.packed.saturated = true) (offset : entry.offset.saturated = true) :
    entry.listed[2]? = some entry.offset.value := by
  rw [listed, List.filter_cons_of_pos unpacked, List.filter_cons_of_pos packed,
    List.filter_cons_of_pos offset]
  rfl

end Listed

section Decoded

variable (encoded : entry.EncodedIn data nameSize extraSize)

include encoded

/-- The values of the list, one after another behind the head of the extra field. -/
theorem value_at {index value : Nat} (found : entry.listed[index]? = some value) :
    leValue (data (nameSize + centralDirEntryLen + (4 + 8 * index)) 8) = value := by
  obtain ⟨inside, same⟩ := List.getElem?_eq_some_iff.mp found
  exact (encoded.values index inside).trans same

/-- What is taken: the first value for the uncompressed size, the second for the compressed one,
the third for the offset, unless only the offset is saturated. -/
theorem doDecode_eq (identity : Bytes) :
    let decoded := doDecodeCentralDirEntry data identity nameSize extraSize
    let read := fun start => leValue (data (nameSize + centralDirEntryLen + start) 8)
    decoded.unpackedSize =
        (if entry.unpacked.saturated then read 4 else entry.unpacked.value) ∧
      decoded.packedSize = (if entry.packed.saturated then read 12 else entry.packed.value) ∧
      decoded.headerOffset =
        if entry.offset.saturated then
          if entry.unpacked.saturated || entry.packed.saturated then read bigSizeHeader else read 4
        else entry.offset.value := by
  have head : ¬(extraSize = 0 ∨ leValue (data (nameSize + centralDirEntryLen) 2) ≠ 1) := by
    rintro (empty | other)
    · have room := encoded.room
      omega
    · exact other encoded.headerId
  have saturated : ∀ field : Zip64Field, field.shown = uintMax ↔ field.saturated = true := by
    intro field
    cases real : field.saturated with
    | true => exact ⟨fun _ => rfl, fun _ => Zip64Field.shown_of_saturated real⟩
    | false =>
        rw [Zip64Field.shown_of_real real]
        exact ⟨fun same => absurd same (Zip64Field.value_ne_uintMax real), nofun⟩
  have shown : ∀ field : Zip64Field, ∀ read : Nat,
      (if field.shown = uintMax then read else field.shown) =
        if field.saturated then read else field.value := by
    intro field read
    cases real : field.saturated with
    | true => rw [if_pos ((saturated field).mpr real), if_pos rfl]
    | false =>
        rw [Zip64Field.shown_of_real real, if_neg (Zip64Field.value_ne_uintMax real),
          if_neg Bool.false_ne_true]
  dsimp only
  rw [doDecodeCentralDirEntry]
  dsimp only
  rw [if_neg head, encoded.packed, encoded.unpacked, encoded.offset]
  have either : (entry.unpacked.saturated || entry.packed.saturated) = true ↔
      entry.packed.shown = uintMax ∨ entry.unpacked.shown = uintMax := by
    rw [Bool.or_eq_true, saturated, saturated, or_comm]
  by_cases sizes : entry.packed.shown = uintMax ∨ entry.unpacked.shown = uintMax
  · rw [if_pos sizes, if_pos (either.mpr sizes)]
    exact ⟨shown _ _, shown _ _, shown _ _⟩
  · have packed : entry.packed.saturated = false :=
      eq_false_of_ne_true fun found => sizes (.inl ((saturated _).mpr found))
    have unpacked : entry.unpacked.saturated = false :=
      eq_false_of_ne_true fun found => sizes (.inr ((saturated _).mpr found))
    rw [if_neg sizes, if_neg (fun found => sizes (either.mp found)), packed, unpacked,
      if_neg Bool.false_ne_true, if_neg Bool.false_ne_true, ← shown]
    split
    · exact ⟨Zip64Field.shown_of_real unpacked, Zip64Field.shown_of_real packed, rfl⟩
    · exact ⟨Zip64Field.shown_of_real unpacked, Zip64Field.shown_of_real packed, rfl⟩

/-- The sizes and the offset are true exactly when the list has no value at a place where the
source does not look, or the bytes where it looks happen to agree. -/
theorem decodedAs_iff (identity : Bytes) :
    entry.DecodedAs (doDecodeCentralDirEntry data identity nameSize extraSize) ↔
      entry.FoundBehind data nameSize := by
  obtain ⟨unpackedSize, packedSize, headerOffset⟩ := doDecode_eq encoded identity
  rw [DecodedAs, unpackedSize, packedSize, headerOffset]
  constructor
  · rintro ⟨-, packed, offset⟩
    refine ⟨?_, ?_⟩
    · intro saturated _
      rwa [if_pos saturated] at packed
    · intro saturated differ
      have either : (entry.unpacked.saturated || entry.packed.saturated) = true := by
        cases unpacked : entry.unpacked.saturated with
        | true => rfl
        | false =>
            rw [unpacked] at differ
            exact eq_true_of_ne_false differ.symm
      rwa [if_pos saturated, if_pos either] at offset
  · intro found
    refine ⟨?_, ?_, ?_⟩
    · split
      · exact value_at encoded (listed_of_unpacked ‹_›)
      · rfl
    · split
      · rename_i packed
        cases unpacked : entry.unpacked.saturated with
        | true => exact value_at encoded (listed_of_sizes unpacked packed)
        | false => exact found.packed packed unpacked
      · rfl
    · split
      · rename_i offset
        cases unpacked : entry.unpacked.saturated with
        | true =>
            cases packed : entry.packed.saturated with
            | true => exact value_at encoded (listed_of_all unpacked packed offset)
            | false => exact found.offset offset (by rw [unpacked, packed]; exact nofun)
        | false =>
            cases packed : entry.packed.saturated with
            | true => exact found.offset offset (by rw [unpacked, packed]; exact nofun)
            | false => exact value_at encoded (listed_of_offset unpacked packed offset)
      · rfl

end Decoded

end Zip64Entry

/-- A file of five gigabytes that packs into a thousand bytes, behind six gigabytes of others. -/
def bigEntry : Zip64Entry where
  unpacked := { value := 5 * 2 ^ 30, saturated := true, fits := by decide, real := nofun }
  packed := { value := 1000, saturated := false, fits := by decide, real := fun _ => by decide }
  offset := { value := 6 * 2 ^ 30, saturated := true, fits := by decide, real := nofun }

/-- Its entry of the directory, with the beginning of the one behind it. -/
def bigEntryBytes : Bytes :=
  leBytes 4 centralSignature ++ leBytes 2 45 ++ leBytes 2 45 ++ leBytes 2 0 ++ leBytes 2 8 ++
    leBytes 2 0 ++ leBytes 2 33 ++ leBytes 4 0 ++ leBytes 4 1000 ++ leBytes 4 uintMax ++
    leBytes 2 1 ++ leBytes 2 20 ++ leBytes 2 0 ++ leBytes 2 0 ++ leBytes 2 0 ++ leBytes 4 0 ++
    leBytes 4 uintMax ++ ascii "a" ++
    (leBytes 2 1 ++ leBytes 2 16 ++ leBytes 8 (5 * 2 ^ 30) ++ leBytes 8 (6 * 2 ^ 30)) ++
    leBytes 4 endCentralSignature ++ leBytes 8 0

/-- Memory at this entry. -/
def bigEntryData : Nat → Nat → Bytes :=
  ZipInput.memory { file := [], heap := fun _ => 0 } bigEntryBytes

theorem bigEntry_encodedIn : bigEntry.EncodedIn bigEntryData 1 20 where
  packed := by decide +kernel
  unpacked := by decide +kernel
  offset := by decide +kernel
  room := by decide
  headerId := by decide +kernel
  fieldSize := by decide +kernel
  values := by decide +kernel

theorem bigEntry_decodedAs_iff :
    bigEntry.DecodedAs (doDecodeCentralDirEntry bigEntryData (ascii "a") 1 20) ↔
      bigEntry.FoundBehind bigEntryData 1 :=
  Zip64Entry.decodedAs_iff bigEntry_encodedIn (ascii "a")

/-- Its offset is lost: the source takes what is behind the extra field. -/
theorem bigEntry_lost :
    bigEntry.EncodedIn bigEntryData 1 20 ∧
      (doDecodeCentralDirEntry bigEntryData (ascii "a") 1 20).headerOffset = endCentralSignature ∧
      ¬bigEntry.DecodedAs (doDecodeCentralDirEntry bigEntryData (ascii "a") 1 20) := by
  have offset : (doDecodeCentralDirEntry bigEntryData (ascii "a") 1 20).headerOffset =
      endCentralSignature := by decide +kernel
  refine ⟨bigEntry_encodedIn, offset, ?_⟩
  rintro ⟨-, -, same⟩
  rw [offset] at same
  exact absurd same (by decide)

end Updater.Package
