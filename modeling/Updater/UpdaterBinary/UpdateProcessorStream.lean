import Updater.StreamUpdate.StreamTermination

/-! How a stream package file is read to its end, and what is reported then. -/

set_option autoImplicit false

namespace Updater.UpdaterBinary

open Updater.Base Updater.StreamUpdate

def typeZipHeader : Nat := 0xaa

/-- `MAX_UPDATER_BUFFER_SIZE`. -/
def maxUpdaterBufferSize : UInt32 := 2 * 50 * 1024

/-- The bytes of a chunk. -/
def chunkBytes (chunk : Chunk) : Bytes :=
  chunk.data.read 0 chunk.len

/-- What the reads of a file up to its end return. -/
structure Reads (rest : Bytes) where
  chunks : List Chunk
  positive : ∀ chunk ∈ chunks, chunk.len ≠ 0
  whole : chunks.flatMap chunkBytes = rest

/-- What is behind the header of a file that `ProcessUpdateFile` accepts. -/
def behindHeader (file : Bytes) : Option Bytes :=
  if file.length < 2 then none
  else if leValue (file.take 2) ≠ typeZipHeader then none
  else if file.length < 6 then none
  else some (file.drop (6 + leValue (slice file 2 4)))

section Loop

variable {World : Type} (services : Services World) (turns : Nat)

/-- The results of the calls with chunks, up to one that does not go on. -/
def callResults : List Chunk → BinChunkUpdate World → List (Option UpdateResultCode)
  | [], _ => []
  | chunk :: chunks, st =>
      match st.startBinChunkUpdate services turns chunk with
      | (some (.success, _), st) => some .success :: callResults chunks st
      | (result, _) => [result.map Prod.fst]

/-- The loop of `ProcessUpdateFile`, with whether it is a success; nothing when a call does not
return. -/
def processChunks : List Chunk → BinChunkUpdate World → Option Bool
  | [], _ => some true
  | chunk :: chunks, st =>
      match st.startBinChunkUpdate services turns chunk with
      | (none, _) => none
      | (some (.success, _), st) => processChunks chunks st
      | (some (.failure, _), _) => some false
      | (some (.complete, _), _) => some true

/-- `ProcessUpdateFile`, with the memory of the parser's new buffer and the reads of the file. -/
def processUpdateFile (buffer : Memory) (world : World) (reads : (rest : Bytes) → Reads rest)
    (file : Bytes) : Option Bool :=
  match behindHeader file with
  | none => some false
  | some rest =>
      processChunks services turns (reads rest).chunks (.create maxUpdaterBufferSize buffer world)

/-- The results of the calls of `StartBinChunkUpdate` that it makes. -/
def fileResults (buffer : Memory) (world : World) (reads : (rest : Bytes) → Reads rest)
    (file : Bytes) : List (Option UpdateResultCode) :=
  match behindHeader file with
  | none => []
  | some rest =>
      callResults services turns (reads rest).chunks (.create maxUpdaterBufferSize buffer world)

/-- The end of the file is reached while the parser still goes on. -/
def EndsEarly (buffer : Memory) (world : World) (reads : (rest : Bytes) → Reads rest)
    (file : Bytes) : Prop :=
  (behindHeader file).isSome = true ∧
    ∀ result ∈ fileResults services turns buffer world reads file, result = some .success

variable {services turns}

/-- The loop is a success when a call completes, or when all go on. -/
theorem processChunks_success {chunks : List Chunk} {st : BinChunkUpdate World} :
    processChunks services turns chunks st = some true ↔
      some .complete ∈ callResults services turns chunks st ∨
        ∀ result ∈ callResults services turns chunks st, result = some .success := by
  induction chunks generalizing st with
  | nil => exact iff_of_true rfl (.inr fun _ listed => nomatch listed)
  | cons chunk chunks ih =>
      rw [processChunks, callResults]
      cases st.startBinChunkUpdate services turns chunk with
      | mk result next =>
          match result with
          | none =>
              refine iff_of_false (fun same => nomatch same) ?_
              rintro (listed | all)
              · exact nomatch List.mem_singleton.mp listed
              · exact nomatch all none List.mem_cons_self
          | some (.success, dealLen) =>
              rw [List.mem_cons, List.forall_mem_cons]
              refine ih.trans (or_congr ?_ ?_)
              · exact (or_iff_right (fun same => nomatch same)).symm
              · exact (and_iff_right rfl).symm
          | some (.failure, dealLen) =>
              refine iff_of_false (fun same => nomatch same) ?_
              rintro (listed | all)
              · exact nomatch List.mem_singleton.mp listed
              · exact nomatch all _ List.mem_cons_self
          | some (.complete, dealLen) => exact iff_of_true rfl (.inl List.mem_cons_self)

end Loop

/-- A read of one byte. -/
def byteChunk (byte : UInt8) : Chunk where
  data := fun address => if address = 0 then byte else 0
  len := 1
  short := by decide

/-- The file is read byte by byte. -/
def bytewise (rest : Bytes) : Reads rest where
  chunks := rest.map byteChunk
  positive := by
    intro chunk listed
    obtain ⟨byte, _, rfl⟩ := List.mem_map.mp listed
    exact Nat.one_ne_zero
  whole := by
    induction rest with
    | nil => rfl
    | cons byte rest ih => exact congrArg (byte :: ·) ih

/-- A header, and the first byte of a record. -/
def truncated : Bytes :=
  [0xaa, 0, 0, 0, 0, 0, 0x12]

end Updater.UpdaterBinary
