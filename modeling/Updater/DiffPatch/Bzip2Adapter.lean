import Updater.Base.Bytes

/-! The bzip2 adapters of the diff and the patch side over a bzip2 library that is
a parameter. -/

set_option autoImplicit false

namespace Updater.DiffPatch

open Updater.Base

/-- bzip2 behind the adapters: what is flushed for a whole section, and readers
that hand out what a section decompresses to, `left` bytes of it at most. -/
structure Bzip2 where
  Reader : Type
  compress : Bytes → Bytes
  decompressInit : Bytes → Reader
  readData : Reader → Nat → Option (Bytes × Reader)
  left : Reader → Nat
  left_read {reader reader' : Reader} {length : Nat} {data : Bytes} (small : length < 2 ^ 32)
    (read : readData reader length = some (data, reader')) : left reader' + length ≤ left reader

namespace Bzip2

variable (bzip2 : Bzip2)

/-- `BZip2BufferReadAdapter::Open`; `none` is a reader left uninitialized. -/
def openRead (buffer : Bytes) (offset dataLength : Nat) : Option bzip2.Reader :=
  if buffer.length < offset ∨ buffer.length - offset < dataLength then none
  else some (bzip2.decompressInit (slice buffer offset dataLength))

/-- `ReadData`, which fails on a reader that is not initialized. -/
def readFrom (reader : Option bzip2.Reader) (length : Int) : Option (Bytes × bzip2.Reader) :=
  reader.bind fun reader => bzip2.readData reader length.toNat

def readAll (reader : bzip2.Reader) : List Nat → Option (List Bytes)
  | [] => some []
  | length :: rest =>
      match bzip2.readData reader length with
      | none => none
      | some (data, reader) => (readAll reader rest).map (data :: ·)

/-- Reads of positive lengths return `data` piece by piece. -/
def Yields (reader : bzip2.Reader) (data : Bytes) : Prop :=
  ∀ lengths : List Nat, (∀ length ∈ lengths, 0 < length) → lengths.sum ≤ data.length →
    bzip2.readAll reader lengths = some (pieces data lengths)

/-- Decompressing undoes compressing on this section, also with `rest` behind its
stream. The stream starts with a header even if the section holds nothing. -/
structure RestoresBefore (data rest : Bytes) : Prop where
  stream : bzip2.compress data ≠ []
  yields : bzip2.Yields (bzip2.decompressInit (bzip2.compress data ++ rest)) data

def Restores (data : Bytes) : Prop :=
  bzip2.RestoresBefore data []

variable {bzip2}

theorem Yields.read {reader : bzip2.Reader} {data : Bytes} (yields : bzip2.Yields reader data)
    {length : Nat} (positive : 0 < length) (enough : length ≤ data.length) :
    ∃ reader', bzip2.readData reader length = some (data.take length, reader') ∧
      bzip2.Yields reader' (data.drop length) := by
  have first := yields [length] (by simpa using positive) (by simpa using enough)
  cases read : bzip2.readData reader length with
  | none => simp [readAll, read] at first
  | some answer =>
      obtain ⟨piece, reader'⟩ := answer
      simp only [readAll, read, pieces, Option.map_some, Option.some.injEq, List.cons.injEq,
        and_true] at first
      refine ⟨reader', by rw [first], fun lengths allPositive fits => ?_⟩
      rw [List.length_drop] at fits
      have both := yields (length :: lengths)
        (List.forall_mem_cons.mpr ⟨positive, allPositive⟩) (by rw [List.sum_cons]; omega)
      simp only [readAll, read, pieces] at both
      cases rest : bzip2.readAll reader' lengths with
      | none => simp [rest] at both
      | some output =>
          simp only [rest, Option.map_some, Option.some.injEq, List.cons.injEq] at both
          rw [both.2]

/-- A library known by some of its streams: sections and what they compress to. -/
def ofTable (table : List (Bytes × Bytes)) : Bzip2 where
  Reader := Bytes
  compress data := ((table.find? fun entry => entry.1 = data).map Prod.snd).getD []
  decompressInit stream :=
    ((table.find? fun entry => entry.2.isPrefixOf stream).map Prod.fst).getD []
  readData reader length :=
    if length ≤ reader.length then some (reader.take length, reader.drop length) else none
  left := List.length
  left_read := by
    intro reader reader' length data _ read
    split at read
    · cases read
      rw [List.length_drop]
      omega
    · cases read

theorem ofTable_yields (table : List (Bytes × Bytes)) (data : Bytes) :
    (ofTable table).Yields data data := by
  intro lengths positive enough
  induction lengths generalizing data with
  | nil => rfl
  | cons length rest ih =>
      rw [List.sum_cons] at enough
      have first : (ofTable table).readData data length =
          some (data.take length, data.drop length) := if_pos (by omega)
      have later := ih (data.drop length) (fun other member => positive other (.tail _ member))
        (by rw [List.length_drop]; omega)
      simp only [readAll, first, later, pieces, Option.map_some]

end Bzip2

end Updater.DiffPatch
