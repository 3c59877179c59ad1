import Updater.ApplyPatch.CommandBuffers

/-! When a move, a copy or a diff keeps to its buffers: the sizes that the numbers, ranges and
stashes of its arguments have to agree on. -/

set_option autoImplicit false

namespace Updater.ApplyPatch

open Updater.Base Updater.Utils

/-- Ranges of the source buffer and where their blocks come from: a stash, or the buffer itself. -/
structure Piece where
  locations : BlockSet
  stash : Option Bytes

namespace Piece

def sourceSize (piece : Piece) (size : Nat) : Nat :=
  match piece.stash with
  | none => size
  | some stash => stash.length

/-- The piece lies inside of a buffer of `size` bytes, and its packed blocks inside of theirs. -/
def Kept (piece : Piece) (size : Nat) : Prop :=
  piece.locations.Fits (piece.sourceSize size) size

/-- What `MoveBlock` reads from. -/
def source (piece : Piece) (buffer : Bytes) : Bytes :=
  match piece.stash with
  | none => buffer
  | some stash => stash

/-- The piece scattered into memory. -/
def scatter (piece : Piece) (memory : Memory) : Memory :=
  match piece.stash with
  | none => BlockSet.moveBlockWithin BlockSet.securecMemMaxLen memory piece.locations
  | some stash =>
      BlockSet.moveBlock BlockSet.securecMemMaxLen memory piece.locations (Memory.ofBytes stash)

variable {piece : Piece} {buffer : Bytes}

theorem moveBlock_ne_none_iff :
    piece.locations.moveBlockChecked buffer piece.source ≠ none ↔ piece.Kept buffer.length := by
  apply BlockSet.moveBlockChecked_ne_none_iff
  intro other same
  cases stash : piece.stash with
  | none => simp only [source, sourceSize, stash, same]
  | some stash => simp only [source, sourceSize, stash]

/-- A checked move that goes through does what the unchecked one does. -/
theorem moveBlock_holds {memory : Memory} {result : Bytes} (holds : memory.Holds buffer)
    (moved : piece.locations.moveBlockChecked buffer piece.source = some result) :
    result.length = buffer.length ∧ (piece.scatter memory).Holds result := by
  cases found : piece.stash with
  | none =>
      have same : piece.source = id := by
        funext other
        simp only [source, found, id_eq]
      rw [same] at moved
      have seen := @Move.allChecked_holds id buffer _ id memory result
        (fun _ _ holds => holds) holds moved
      rw [scatter, found]
      exact seen
  | some stash =>
      have same : piece.source = fun _ => stash := by
        funext other
        simp only [source, found]
      rw [same] at moved
      have seen := @Move.allChecked_holds (fun _ => stash) buffer _ (fun _ => Memory.ofBytes stash)
        memory result (fun _ _ _ => Memory.holds_ofBytes stash) holds moved
      rw [scatter, found]
      exact seen

end Piece

/-- A source buffer as the arguments describe it: what is read first, then the pieces up to one
that cannot be loaded, and whether there is none such. -/
structure Gathering where
  initial : Bytes
  pieces : List Piece
  loads : Bool

/-- The memory that all pieces leave. -/
def Gathering.assembled (gathering : Gathering) : Memory :=
  gathering.pieces.foldl (fun memory piece => piece.scatter memory) (Memory.ofBytes gathering.initial)

namespace Setting

variable (setting : Setting) (cmd : Command)

/-- The pieces of stash arguments, and whether all can be loaded. -/
def stashPieces : List String → List Piece × Bool
  | [] => ([], true)
  | lastArg :: args =>
      if lastArg = "" then ([], true)
      else
        match setting.loadStash cmd lastArg with
        | .error _ => ([], false)
        | .ok (locations, stash) =>
            (⟨locations, some stash⟩ :: (stashPieces args).1, (stashPieces args).2)

/-- The source of `size` bytes that the arguments from `pos` on describe. -/
def gathering (pos size : Nat) : Gathering :=
  let buffer := List.replicate size 0
  let stashes := fun behind => setting.stashPieces cmd (cmd.tokens.drop behind)
  if cmd.getArgumentByPos pos ≠ "-" then
    let read := setting.readSource (blockSetOf (cmd.getArgumentByPos pos)) buffer
    if read.1 = 0 then ⟨read.2, [], false⟩
    else if cmd.getArgumentByPos (pos + 1) = "" then ⟨read.2, [], true⟩
    else
      ⟨read.2, ⟨blockSetOf (cmd.getArgumentByPos (pos + 1)), none⟩ :: (stashes (pos + 2)).1,
        (stashes (pos + 2)).2⟩
  else ⟨buffer, (stashes (pos + 1)).1, (stashes (pos + 1)).2⟩

section Load

variable {setting cmd}

theorem loadDataFromStore_le (fileName : String) (buffer : Bytes) :
    (setting.loadDataFromStore fileName buffer).1 ≤ 0 := by
  have negative : (-2 : Int) ≤ 0 ∧ (-1 : Int) ≤ 0 := by decide
  rw [loadDataFromStore]
  split
  · exact negative.1
  · split
    · exact negative.2
    · split
      · exact negative.2
      · dsimp only
        split
        · exact Int.le_refl 0
        · exact negative.2

/-- A stash that cannot be loaded makes the command fail. -/
theorem loadStash_error {lastArg : String} {ret : Int}
    (failed : setting.loadStash cmd lastArg = .error ret) : ret < 0 := by
  rw [loadStash] at failed
  dsimp only at failed
  split at failed
  · cases failed
    decide
  · split at failed
    · split at failed
      · rename_i nonzero
        cases failed
        exact lt_of_le_of_ne (loadDataFromStore_le _ _) nonzero
      · exact nomatch failed
    · split at failed
      · cases failed
        decide
      · exact nomatch failed

theorem loadStashBuffer_ne_none_iff {args : List String} {buffer : Bytes} :
    setting.loadStashBuffer cmd args buffer ≠ none ↔
      ∀ piece ∈ (setting.stashPieces cmd args).1, piece.Kept buffer.length := by
  induction args generalizing buffer with
  | nil => exact ⟨fun _ => nofun, fun _ => nofun⟩
  | cons lastArg args ih =>
      rw [loadStashBuffer, stashPieces]
      by_cases none_ : lastArg = ""
      · rw [if_pos none_, if_pos none_]
        exact ⟨fun _ => nofun, fun _ => nofun⟩
      · rw [if_neg none_, if_neg none_]
        cases loaded : setting.loadStash cmd lastArg with
        | error ret => exact ⟨fun _ => nofun, fun _ => nofun⟩
        | ok pair =>
            obtain ⟨locations, stash⟩ := pair
            have kept := @Piece.moveBlock_ne_none_iff ⟨locations, some stash⟩ buffer
            dsimp only
            rw [List.forall_mem_cons, ← kept]
            cases moved : locations.moveBlockChecked buffer fun _ => stash with
            | none =>
                refine ⟨fun done_ => absurd rfl done_, fun both => absurd moved both.1⟩
            | some result =>
                obtain ⟨length, -⟩ := @Piece.moveBlock_holds ⟨locations, some stash⟩ buffer _ result
                  (Memory.holds_ofBytes buffer) moved
                rw [Option.bind_eq_bind, Option.bind_some, ih, length]
                exact (and_iff_right fun failed => nomatch moved.symm.trans failed).symm

/-- What `LoadStashBuffer` returns, and the buffer where it has loaded all. -/
theorem loadStashBuffer_holds {args : List String} {buffer : Bytes} {memory : Memory}
    {loaded : Int × Bytes} (holds : memory.Holds buffer)
    (run : setting.loadStashBuffer cmd args buffer = some loaded) :
    loaded.2.length = buffer.length ∧
      match (setting.stashPieces cmd args).2 with
      | true => loaded.1 = 1 ∧ ((setting.stashPieces cmd args).1.foldl
          (fun memory piece => piece.scatter memory) memory).Holds loaded.2
      | false => loaded.1 < 0 := by
  induction args generalizing buffer memory with
  | nil =>
      cases run
      exact ⟨rfl, rfl, holds⟩
  | cons lastArg args ih =>
      rw [loadStashBuffer] at run
      rw [stashPieces]
      by_cases none_ : lastArg = ""
      · rw [if_pos none_] at run ⊢
        cases run
        exact ⟨rfl, rfl, holds⟩
      · rw [if_neg none_] at run ⊢
        cases found : setting.loadStash cmd lastArg with
        | error ret =>
            rw [found] at run
            cases run
            exact ⟨rfl, loadStash_error found⟩
        | ok pair =>
            obtain ⟨locations, stash⟩ := pair
            rw [found] at run
            cases moved : locations.moveBlockChecked buffer fun _ => stash with
            | none =>
                dsimp only at run
                rw [moved] at run
                exact nomatch run
            | some result =>
                dsimp only at run
                rw [moved, Option.bind_eq_bind, Option.bind_some] at run
                obtain ⟨length, scattered⟩ :=
                  @Piece.moveBlock_holds ⟨locations, some stash⟩ buffer _ result holds moved
                obtain ⟨same, rest⟩ := ih scattered run
                exact ⟨same.trans length, rest⟩

theorem length_readSource (blocks : BlockSet) (buffer : Bytes) :
    (setting.readSource blocks buffer).2.length = buffer.length := by
  rw [readSource]
  split
  · rfl
  · exact BlockSet.length_readLoop _ _ _ (Nat.zero_le _)

theorem length_initial (pos size : Nat) : (setting.gathering cmd pos size).initial.length = size := by
  have zeros : (List.replicate size (0 : UInt8)).length = size := List.length_replicate
  rw [gathering]
  split
  · dsimp only
    split
    · exact (length_readSource _ _).trans zeros
    · split
      · exact (length_readSource _ _).trans zeros
      · exact (length_readSource _ _).trans zeros
  · exact zeros

/-- What is in the source buffer at first is zero or from the device. -/
theorem mem_initial {pos size : Nat} {byte : UInt8}
    (member : byte ∈ (setting.gathering cmd pos size).initial) :
    byte = 0 ∨ ∃ place, setting.source place = byte := by
  have read : ∀ blocks, byte ∈ (setting.readSource blocks (List.replicate size 0)).2 →
      byte = 0 ∨ ∃ place, setting.source place = byte := by
    intro blocks member
    rw [readSource] at member
    split at member
    · exact .inl (List.eq_of_mem_replicate member)
    · exact (BlockSet.mem_readLoop member).imp List.eq_of_mem_replicate id
  rw [gathering] at member
  split at member
  · dsimp only at member
    split at member
    · exact read _ member
    · split at member
      · exact read _ member
      · exact read _ member
  · exact .inl (List.eq_of_mem_replicate member)

theorem loadSourceBuffer_ne_none_iff {target : BlockSet} {pos size : Nat} :
    setting.loadSourceBuffer cmd target pos (List.replicate size 0) ≠ none ↔
      ∀ piece ∈ (setting.gathering cmd pos size).pieces, piece.Kept size := by
  have zeros : (List.replicate size (0 : UInt8)).length = size := List.length_replicate
  rw [loadSourceBuffer, gathering]
  dsimp only
  by_cases stashed : cmd.getArgumentByPos pos = "-"
  · rw [if_neg (not_not_intro stashed), if_neg (not_not_intro stashed)]
    have kept := @loadStashBuffer_ne_none_iff setting cmd (cmd.tokens.drop (pos + 1))
      (List.replicate size 0)
    rw [zeros] at kept
    rw [← kept]
    cases setting.loadStashBuffer cmd (cmd.tokens.drop (pos + 1)) (List.replicate size 0) with
    | none => exact ⟨fun done_ => absurd rfl done_, fun done_ => absurd rfl done_⟩
    | some loaded => exact ⟨fun _ => nofun, fun _ => nofun⟩
  · have length := (@length_readSource setting (blockSetOf (cmd.getArgumentByPos pos))
      (List.replicate size 0)).trans zeros
    rw [if_pos stashed, if_pos stashed]
    generalize setting.readSource (blockSetOf (cmd.getArgumentByPos pos))
      (List.replicate size 0) = read at length ⊢
    by_cases failed : read.1 = 0
    · rw [if_pos failed, if_pos failed]
      exact ⟨fun _ => nofun, fun _ => nofun⟩
    · rw [if_neg failed, if_neg failed]
      by_cases last : cmd.getArgumentByPos (pos + 1) = ""
      · rw [if_pos last, if_pos last]
        exact ⟨fun _ => nofun, fun _ => nofun⟩
      · rw [if_neg last, if_neg last, List.forall_mem_cons, ← length,
          ← @Piece.moveBlock_ne_none_iff ⟨_, none⟩]
        have same : (Piece.mk (blockSetOf (cmd.getArgumentByPos (pos + 1))) none).source = id := rfl
        rw [same]
        cases moved : (blockSetOf (cmd.getArgumentByPos (pos + 1))).moveBlockChecked read.2 id with
        | none => exact ⟨fun done_ => absurd rfl done_, fun both => absurd rfl both.1⟩
        | some result =>
            obtain ⟨kept, -⟩ := @Piece.moveBlock_holds ⟨_, none⟩ read.2 _ _
              (Memory.holds_ofBytes read.2) moved
            rw [← kept, ← loadStashBuffer_ne_none_iff, Option.bind_eq_bind, Option.bind_some]
            refine Iff.trans ?_ (and_iff_right nofun).symm
            cases setting.loadStashBuffer cmd (cmd.tokens.drop (pos + 2)) result with
            | none => exact ⟨fun done_ => absurd rfl done_, fun done_ => absurd rfl done_⟩
            | some loaded => exact ⟨fun _ => nofun, fun _ => nofun⟩

/-- Whether a command that is not a stream reads source ranges that overlap the target. -/
def overlaps (cmd : Command) (target : BlockSet) (pos : Nat) : Bool :=
  decide (cmd.getArgumentByPos pos ≠ "-") && !cmd.isStreamCmd &&
    BlockSet.isTwoBlocksOverlap (blockSetOf (cmd.getArgumentByPos pos)) target

/-- What `LoadSourceBuffer` returns, and the buffer where it has loaded all. -/
theorem loadSourceBuffer_holds {target : BlockSet} {pos size : Nat} {loaded : Int × Bool × Bytes}
    (run : setting.loadSourceBuffer cmd target pos (List.replicate size 0) = some loaded) :
    loaded.2.2.length = size ∧ loaded.2.1 = overlaps cmd target pos ∧
      match (setting.gathering cmd pos size).loads with
      | true => loaded.1 = 1 ∧ (setting.gathering cmd pos size).assembled.Holds loaded.2.2
      | false => loaded.1 < 0 := by
  have zeros : (List.replicate size (0 : UInt8)).length = size := List.length_replicate
  rw [loadSourceBuffer] at run
  rw [gathering, overlaps, Gathering.assembled]
  dsimp only at run ⊢
  by_cases stashed : cmd.getArgumentByPos pos = "-"
  · rw [if_neg (not_not_intro stashed)] at run ⊢
    rw [decide_eq_false (not_not_intro stashed)]
    cases stashes : setting.loadStashBuffer cmd (cmd.tokens.drop (pos + 1))
        (List.replicate size 0) with
    | none =>
        rw [stashes] at run
        exact nomatch run
    | some result =>
        rw [stashes, Option.bind_eq_bind, Option.bind_some] at run
        cases run
        obtain ⟨length, holds⟩ := loadStashBuffer_holds (Memory.holds_ofBytes _) stashes
        exact ⟨length.trans zeros, rfl, holds⟩
  · have length := (@length_readSource setting (blockSetOf (cmd.getArgumentByPos pos))
      (List.replicate size 0)).trans zeros
    rw [if_pos stashed] at run ⊢
    rw [decide_eq_true stashed, Bool.true_and]
    generalize setting.readSource (blockSetOf (cmd.getArgumentByPos pos))
      (List.replicate size 0) = read at length run ⊢
    by_cases failed : read.1 = 0
    · rw [if_pos failed] at run ⊢
      cases run
      exact ⟨length, rfl, (by decide : (-1 : Int) < 0)⟩
    · rw [if_neg failed] at run ⊢
      by_cases last : cmd.getArgumentByPos (pos + 1) = ""
      · rw [if_pos last] at run ⊢
        cases run
        exact ⟨length, rfl, rfl, Memory.holds_ofBytes _⟩
      · rw [if_neg last] at run ⊢
        cases moved : (blockSetOf (cmd.getArgumentByPos (pos + 1))).moveBlockChecked read.2 id with
        | none =>
            rw [moved] at run
            exact nomatch run
        | some buffer =>
            rw [moved, Option.bind_eq_bind, Option.bind_some] at run
            obtain ⟨kept, scattered⟩ := @Piece.moveBlock_holds ⟨_, none⟩ read.2 _ _
              (Memory.holds_ofBytes read.2) moved
            cases stashes : setting.loadStashBuffer cmd (cmd.tokens.drop (pos + 2)) buffer with
            | none =>
                rw [stashes] at run
                exact nomatch run
            | some result =>
                rw [stashes, Option.bind_eq_bind, Option.bind_some] at run
                cases run
                obtain ⟨same, holds⟩ := loadStashBuffer_holds scattered stashes
                exact ⟨same.trans (kept.trans length), rfl, holds⟩

end Load

/-- The ranges are written up to one that cannot be, and each of them from inside of `size` bytes,
the first one from `pos` on. -/
def WritesFit (blocks : BlockSet) (pos size : Nat) : Prop :=
  ∀ front pair back, blocks = front ++ pair :: back →
    (∀ other ∈ front, seekFails (BlockPair.start setting.offset other) = false ∧
      setting.writeFails other = false) →
    seekFails (BlockPair.start setting.offset pair) = false →
    pos + (front.map BlockPair.size).sum + BlockPair.size pair ≤ size

/-- The source buffer that a command is left with has this size: the declared one, or, where the
source has another hash, that of the stash with its hash. -/
inductive LoadedWith (target : BlockSet) (pos blockSize : Nat) (srcHash : String) : Nat → Prop
  | stream : cmd.isStreamCmd = true →
      LoadedWith target pos blockSize srcHash (blockSize * hBlockSize % sizeMax)
  | verified : cmd.isStreamCmd = false →
      setting.sha256Hex ((setting.gathering cmd pos (blockSize * hBlockSize % sizeMax)).assembled.read
        0 (blockSize * hBlockSize % sizeMax)) = srcHash →
      (overlaps cmd target pos = true → setting.store srcHash = none →
        setting.stored = 0 ∧ blockSize * hBlockSize % 2 ^ 32 < 2 ^ 31) →
      LoadedWith target pos blockSize srcHash (blockSize * hBlockSize % sizeMax)
  | stash (file : StoreFile) : cmd.isStreamCmd = false →
      setting.sha256Hex ((setting.gathering cmd pos (blockSize * hBlockSize % sizeMax)).assembled.read
        0 (blockSize * hBlockSize % sizeMax)) ≠ srcHash →
      setting.store srcHash = some file → file.content.length % hBlockSize = 0 →
      file.opens = true → file.reads = true →
      LoadedWith target pos blockSize srcHash file.content.length

section Write

variable {setting cmd}

theorem writesFit_cons_iff {pair : BlockPair} {blocks : BlockSet} {pos size : Nat} :
    setting.WritesFit (pair :: blocks) pos size ↔
      (seekFails (BlockPair.start setting.offset pair) = false →
        pos + BlockPair.size pair ≤ size ∧ (setting.writeFails pair = false →
          setting.WritesFit blocks (pos + BlockPair.size pair) size)) := by
  constructor
  · intro fit seeks
    refine ⟨fit [] pair blocks rfl nofun seeks, ?_⟩
    intro writes front other back split written there
    have all : ∀ before ∈ pair :: front,
        seekFails (BlockPair.start setting.offset before) = false ∧
          setting.writeFails before = false := by
      intro before member
      cases member with
      | head => exact ⟨seeks, writes⟩
      | tail _ member => exact written before member
    have inside := fit (pair :: front) other back (congrArg (pair :: ·) split) all there
    rw [List.map_cons, List.sum_cons] at inside
    omega
  · intro fit front other back split written there
    cases front with
    | nil =>
        cases split
        exact (fit there).1
    | cons first front =>
        cases split
        obtain ⟨seeks, writes⟩ := written pair (.head _)
        have inside := (fit seeks).2 writes front other back rfl
          (fun before member => written before (.tail _ member)) there
        rw [List.map_cons, List.sum_cons]
        omega

theorem writeLoop_ne_none_iff {buffer : Bytes} {blocks : BlockSet} {pos : Nat}
    (fits : buffer.length < sizeMax) :
    setting.writeLoop buffer blocks pos ≠ none ↔ setting.WritesFit blocks pos buffer.length := by
  induction blocks generalizing pos with
  | nil =>
      refine ⟨fun _ front pair back split => ?_, fun _ other => by cases other⟩
      exact absurd split.symm (List.append_ne_nil_of_right_ne_nil _ (List.cons_ne_nil _ _))
  | cons pair blocks ih =>
      rw [writesFit_cons_iff, writeLoop]
      cases seeks : seekFails (BlockPair.start setting.offset pair) with
      | true => exact ⟨(fun _ other => by cases other), fun _ other => by cases other⟩
      | false =>
          rw [if_neg Bool.false_ne_true, checkedSlice]
          by_cases inside : pos + BlockPair.size pair ≤ buffer.length
          · rw [if_pos inside, Option.bind_eq_bind, Option.bind_some]
            cases writes : setting.writeFails pair with
            | true => exact ⟨fun _ _ => ⟨inside, fun other => by cases other⟩, fun _ other => by cases other⟩
            | false =>
                rw [if_neg Bool.false_ne_true, ih, Nat.mod_eq_of_lt (Nat.lt_of_le_of_lt inside fits)]
                exact ⟨fun rest _ => ⟨inside, fun _ => rest⟩, fun both => (both rfl).2 rfl⟩
          · rw [if_neg inside]
            exact ⟨fun done_ => absurd rfl done_, fun both => absurd (both rfl).1 inside⟩

/-- What a check of all of a buffer finds. -/
theorem verifySha256_eq {buffer : Bytes} {size : Nat} {expected : String}
    (whole : buffer.length = size * hBlockSize % sizeMax) :
    setting.verifySha256 buffer size expected =
      some (if setting.sha256Hex buffer = expected then 0 else -1) := by
  rw [verifySha256, ← whole, checkedSlice, Nat.zero_add, if_pos (Nat.le_refl _), slice_full]
  rfl

/-- A stash of the source never takes more than the source has. -/
theorem writeDataToStore_eq {buffer : Bytes} {size : Nat}
    (whole : buffer.length = size % sizeMax) :
    setting.writeDataToStore buffer (size % sizeMax) =
      some (if size % 2 ^ 32 < 2 ^ 31 then setting.stored else -1) := by
  have low : size % sizeMax % 2 ^ 32 = size % 2 ^ 32 := Nat.mod_mod_of_dvd size (by decide)
  rw [writeDataToStore, low]
  by_cases negative : size % 2 ^ 32 ≥ 2 ^ 31
  · rw [if_pos negative, if_neg (Nat.not_lt_of_le negative)]
  · have inside : 0 + size % 2 ^ 32 ≤ buffer.length := by
      rw [Nat.zero_add, whole, ← low]
      exact Nat.mod_le _ _
    rw [if_neg negative, if_pos (Nat.lt_of_not_le negative), checkedSlice, if_pos inside]
    rfl

end Write

theorem result_eq_zero_iff {ret : Int} : (if ret ≠ 0 then (-1 : Int) else 0) = 0 ↔ ret = 0 := by
  by_cases zero : ret = 0
  · rw [if_neg (not_not_intro zero)]
    exact iff_of_true rfl zero
  · rw [if_pos zero]
    exact iff_of_false (by decide) zero

theorem stored_eq_zero_iff {stored : Int} {positive : Prop} [Decidable positive] :
    (if positive then stored else -1) = 0 ↔ stored = 0 ∧ positive := by
  by_cases holds : positive
  · rw [if_pos holds]
    exact (and_iff_left holds).symm
  · rw [if_neg holds]
    exact iff_of_false (by decide) fun both => holds both.2

section Target

variable {setting cmd} {srcHash : String} {buffer : Bytes}

theorem loadDataFromStore_content {file : StoreFile} (found : setting.store srcHash = some file)
    (whole : file.content.length % hBlockSize = 0) (opens : file.opens = true) :
    (setting.loadDataFromStore srcHash buffer).2 = file.content := by
  rw [loadDataFromStore, found]
  dsimp only
  rw [if_neg (not_not_intro whole), opens]
  rfl

theorem loaded_eq_zero_iff :
    (if (setting.loadDataFromStore srcHash buffer).1 = 0 then (0 : Int) else -1) = 0 ↔
      ∃ file, setting.store srcHash = some file ∧ file.content.length % hBlockSize = 0 ∧
        file.opens = true ∧ file.reads = true := by
  rw [stored_eq_zero_iff, and_iff_right rfl, loadDataFromStore]
  cases found : setting.store srcHash with
  | none => exact iff_of_false (by decide : ¬(-2 : Int) = 0) nofun
  | some file =>
      dsimp only
      constructor
      · intro loaded
        split at loaded
        · exact absurd loaded (by decide : ¬(-1 : Int) = 0)
        · rename_i whole
          split at loaded
          · exact absurd loaded (by decide : ¬(-1 : Int) = 0)
          · rename_i opens
            dsimp only at loaded
            split at loaded
            · rename_i reads
              refine ⟨file, rfl, not_not.mp whole, ?_, reads⟩
              cases same : file.opens with
              | true => rfl
              | false => exact absurd (by rw [same]; rfl) opens
            · exact absurd loaded (by decide)
      · rintro ⟨other, same, whole, opens, reads⟩
        cases same
        rw [if_neg (not_not_intro whole), opens, reads]
        rfl

variable {target : BlockSet} {pos blockSize : Nat}

theorem loadTargetBuffer_ne_none_iff :
    setting.loadTargetBuffer cmd target
        (List.replicate (blockSize * hBlockSize % sizeMax) 0) blockSize pos srcHash ≠ none ↔
      ∀ piece ∈ (setting.gathering cmd pos (blockSize * hBlockSize % sizeMax)).pieces,
        piece.Kept (blockSize * hBlockSize % sizeMax) := by
  rw [loadTargetBuffer, ← @loadSourceBuffer_ne_none_iff setting cmd target]
  cases run : setting.loadSourceBuffer cmd target pos
      (List.replicate (blockSize * hBlockSize % sizeMax) 0) with
  | none => exact ⟨fun done_ => absurd rfl done_, fun done_ => absurd rfl done_⟩
  | some loaded =>
      obtain ⟨ret, isOverlap, buffer⟩ := loaded
      obtain ⟨length, -, -⟩ := loadSourceBuffer_holds run
      refine iff_of_true ?_ nofun
      rw [Option.bind_eq_bind, Option.bind_some]
      dsimp only at length ⊢
      split
      · exact nofun
      · split
        · exact nofun
        · rw [verifySha256_eq length, Option.bind_eq_bind, Option.bind_some]
          by_cases verified : setting.sha256Hex buffer = srcHash
          · rw [if_pos verified, if_neg fun both => both.1 rfl, if_pos rfl]
            split
            · rw [writeDataToStore_eq length]
              exact nofun
            · exact nofun
          · rw [if_neg verified, if_neg (by decide : ¬(-1 : Int) = 0)]
            split
            · exact nofun
            · exact nofun

/-- A command that may write goes on exactly when it has loaded all, with the buffer that is told. -/
theorem loadTargetBuffer_eq_zero_iff {loaded : Int × Bytes} (canWrite : setting.canWrite = true)
    (run : setting.loadTargetBuffer cmd target
      (List.replicate (blockSize * hBlockSize % sizeMax) 0) blockSize pos srcHash = some loaded)
    (size : Nat) :
    loaded.1 = 0 ∧ loaded.2.length = size ↔
      (setting.gathering cmd pos (blockSize * hBlockSize % sizeMax)).loads = true ∧
        setting.LoadedWith cmd target pos blockSize srcHash size := by
  rw [loadTargetBuffer] at run
  cases source : setting.loadSourceBuffer cmd target pos
      (List.replicate (blockSize * hBlockSize % sizeMax) 0) with
  | none =>
      rw [source] at run
      cases run
  | some result =>
      obtain ⟨ret, isOverlap, buffer⟩ := result
      obtain ⟨length, overlap, holds⟩ := loadSourceBuffer_holds source
      rw [source, Option.bind_eq_bind, Option.bind_some] at run
      dsimp only at length overlap holds run
      cases loads : (setting.gathering cmd pos (blockSize * hBlockSize % sizeMax)).loads with
      | false =>
          rw [loads] at holds
          dsimp only at holds
          rw [if_pos (by omega)] at run
          cases run
          exact ⟨fun both => absurd both.1 (by omega), fun both => by cases both.1⟩
      | true =>
          rw [loads] at holds
          obtain ⟨returned, holds⟩ := holds
          have read := holds.read_zero
          rw [length] at read
          rw [if_neg (not_not_intro returned)] at run
          rw [and_iff_right rfl]
          cases stream : cmd.isStreamCmd with
          | true =>
              rw [if_pos stream] at run
              cases run
              rw [and_iff_right rfl, length]
              constructor
              · rintro rfl
                exact .stream stream
              · intro with_
                cases with_ with
                | stream _ => rfl
                | verified other _ _ => cases stream.symm.trans other
                | stash _ other _ _ _ _ _ => cases stream.symm.trans other
          | false =>
              rw [if_neg (Bool.eq_false_iff.mp stream), verifySha256_eq length,
                Option.bind_eq_bind, Option.bind_some,
                if_neg fun both => Bool.false_ne_true (both.2.symm.trans canWrite)] at run
              by_cases verified : setting.sha256Hex buffer = srcHash
              · rw [if_pos verified, if_pos rfl, overlap] at run
                rw [← read] at verified
                have only : ∀ {size}, setting.LoadedWith cmd target pos blockSize srcHash size →
                    blockSize * hBlockSize % sizeMax = size ∧
                      (overlaps cmd target pos = true → setting.store srcHash = none →
                        setting.stored = 0 ∧ blockSize * hBlockSize % 2 ^ 32 < 2 ^ 31) := by
                  intro size with_
                  cases with_ with
                  | stream other => cases stream.symm.trans other
                  | verified _ _ stashed => exact ⟨rfl, stashed⟩
                  | stash _ _ differs _ _ _ _ => exact absurd verified differs
                by_cases stashes :
                    (overlaps cmd target pos && (setting.store srcHash).isNone) = true
                · rw [if_pos stashes, writeDataToStore_eq length, Option.bind_some] at run
                  obtain ⟨overlapping, absent⟩ := Bool.and_eq_true_iff.mp stashes
                  cases run
                  dsimp only
                  rw [result_eq_zero_iff, stored_eq_zero_iff]
                  constructor
                  · rintro ⟨stored, rfl⟩
                    rw [length]
                    exact .verified stream verified fun _ _ => stored
                  · intro with_
                    obtain ⟨same, stashed⟩ := only with_
                    exact ⟨stashed overlapping (Option.isNone_iff_eq_none.mp absent),
                      length.trans same⟩
                · rw [if_neg stashes] at run
                  cases run
                  rw [and_iff_right rfl, length]
                  constructor
                  · rintro rfl
                    refine .verified stream verified fun overlapping absent => ?_
                    refine absurd (Bool.and_eq_true_iff.mpr ⟨overlapping, ?_⟩) stashes
                    exact Option.isNone_iff_eq_none.mpr absent
                  · exact fun with_ => (only with_).1
              · rw [if_neg verified, if_neg (by decide)] at run
                rw [← read] at verified
                have only : ∀ {size}, setting.LoadedWith cmd target pos blockSize srcHash size →
                    ∃ file, setting.store srcHash = some file ∧
                      file.content.length % hBlockSize = 0 ∧ file.opens = true ∧
                      file.reads = true ∧ file.content.length = size := by
                  intro size with_
                  cases with_ with
                  | stream other => cases stream.symm.trans other
                  | verified _ same _ => exact absurd same verified
                  | stash file _ _ found whole opens reads =>
                      exact ⟨file, found, whole, opens, reads, rfl⟩
                cases run
                rw [loaded_eq_zero_iff]
                constructor
                · rintro ⟨⟨file, found, whole, opens, reads⟩, rfl⟩
                  rw [loadDataFromStore_content found whole opens]
                  exact .stash file stream verified found whole opens reads
                · intro with_
                  obtain ⟨file, found, whole, opens, reads, rfl⟩ := only with_
                  rw [loadDataFromStore_content found whole opens]
                  exact ⟨⟨file, found, whole, opens, reads⟩, rfl⟩

end Target

/-- The position of the target ranges of a command. -/
def targetPos (cmd : Command) : Nat :=
  (hashes cmd (argsStart cmd)).pos

def targetBlock (cmd : Command) : BlockSet :=
  blockSetOf (cmd.getArgumentByPos (targetPos cmd))

/-- The number of source blocks that a command declares. -/
def srcBlockSize (cmd : Command) : Nat :=
  string2Int (cmd.getArgumentByPos (targetPos cmd + 1)) nDec

/-- The size of the source buffer that a command declares. -/
def srcBufferSize (cmd : Command) : Nat :=
  srcBlockSize cmd * hBlockSize % sizeMax

/-- The source that the arguments of a command describe. -/
def sourceOf : Gathering :=
  setting.gathering cmd (targetPos cmd + 2) (srcBufferSize cmd)

/-- The target can be read, and has another hash than it shall get. -/
def TargetDiffers : Prop :=
  let read := setting.readTarget (targetBlock cmd)
    (List.replicate (BlockSet.blocksSize (targetBlock cmd)) 0)
  read.1 ≠ 0 ∧ setting.sha256Hex read.2 ≠ (hashes cmd (argsStart cmd)).tgtHash

/-- The command gets to its source. -/
def LoadsSource : Prop :=
  setting.skipInPlaceMove cmd = false ∧ (cmd.type ≠ .copy → setting.TargetDiffers cmd)

/-- Where a command loads its source, every piece of it lies inside of the buffer that is declared,
with its blocks inside of their own, and what is written then to the target is not more than the
buffer has. -/
structure Consistent : Prop where
  pieces : setting.LoadsSource cmd →
    ∀ piece ∈ (setting.sourceOf cmd).pieces, piece.Kept (srcBufferSize cmd)
  written : setting.LoadsSource cmd → setting.canWrite = true →
    cmd.type = .move ∨ cmd.type = .copy → (setting.sourceOf cmd).loads = true →
    ∀ size, setting.LoadedWith cmd (targetBlock cmd) (targetPos cmd + 2) (srcBlockSize cmd)
      (hashes cmd (argsStart cmd)).srcHash size → setting.WritesFit (targetBlock cmd) 0 size

section Execute

variable {setting cmd}

theorem length_readTarget (blocks : BlockSet) (buffer : Bytes) :
    (setting.readTarget blocks buffer).2.length = buffer.length := by
  rw [readTarget]
  split
  · rfl
  · exact BlockSet.length_readLoop _ _ _ (Nat.zero_le _)

/-- `LoadTarget` goes on to the source, or leaves without an access to it. -/
theorem loadTarget_cases :
    (cmd.type ≠ .copy → setting.TargetDiffers cmd) ∧
        setting.loadTarget cmd (argsStart cmd) = setting.loadSourceBlocks cmd (targetBlock cmd)
          (targetPos cmd + 1) (hashes cmd (argsStart cmd)).srcHash ∨
      ¬(cmd.type ≠ .copy → setting.TargetDiffers cmd) ∧
        ∃ result, setting.loadTarget cmd (argsStart cmd) = some ⟨false, result, []⟩ := by
  rw [loadTarget, TargetDiffers]
  dsimp only
  by_cases copy : cmd.type = .copy
  · rw [if_neg (not_not_intro copy)]
    exact .inl ⟨fun other => absurd copy other, rfl⟩
  · have length := @length_readTarget setting (targetBlock cmd)
      (List.replicate (BlockSet.blocksSize (targetBlock cmd)) 0)
    rw [List.length_replicate] at length
    rw [if_pos copy, forall_prop_of_true copy]
    change _ ∧ ite ((setting.readTarget (targetBlock cmd) (List.replicate
      (BlockSet.blocksSize (targetBlock cmd)) 0)).1 = 0) _ _ = _ ∨ _
    rw [targetBlock, targetPos] at length ⊢
    generalize setting.readTarget (blockSetOf (cmd.getArgumentByPos (hashes cmd (argsStart cmd)).pos))
      (List.replicate (BlockSet.blocksSize
        (blockSetOf (cmd.getArgumentByPos (hashes cmd (argsStart cmd)).pos))) 0) = read at length ⊢
    by_cases failed : read.1 = 0
    · rw [if_pos failed]
      exact .inr ⟨fun both => both.1 failed, _, rfl⟩
    · rw [if_neg failed, verifySha256_eq length, Option.bind_eq_bind, Option.bind_some]
      by_cases verified : setting.sha256Hex read.2 = (hashes cmd (argsStart cmd)).tgtHash
      · rw [if_pos verified, if_pos rfl]
        exact .inr ⟨fun both => both.2 verified, _, rfl⟩
      · rw [if_neg verified, if_neg (by decide)]
        exact .inl ⟨⟨failed, verified⟩, rfl⟩

theorem loadSourceBlocks_ne_none_iff :
    setting.loadSourceBlocks cmd (targetBlock cmd) (targetPos cmd + 1)
        (hashes cmd (argsStart cmd)).srcHash ≠ none ↔
      ∀ piece ∈ (setting.sourceOf cmd).pieces, piece.Kept (srcBufferSize cmd) := by
  rw [sourceOf, srcBufferSize, srcBlockSize, ← @loadTargetBuffer_ne_none_iff setting cmd
    (hashes cmd (argsStart cmd)).srcHash (targetBlock cmd), loadSourceBlocks]
  cases setting.loadTargetBuffer cmd (targetBlock cmd) (List.replicate
      (string2Int (cmd.getArgumentByPos (targetPos cmd + 1)) nDec * hBlockSize % sizeMax) 0)
      (string2Int (cmd.getArgumentByPos (targetPos cmd + 1)) nDec) (targetPos cmd + 2)
      (hashes cmd (argsStart cmd)).srcHash with
  | none => exact ⟨fun done_ => absurd rfl done_, fun done_ => absurd rfl done_⟩
  | some loaded => exact ⟨fun _ => nofun, fun _ => nofun⟩

/-- What the source buffer is then, where the command may write. -/
theorem loadSourceBlocks_loads_iff {loaded : Loaded} (canWrite : setting.canWrite = true)
    (run : setting.loadSourceBlocks cmd (targetBlock cmd) (targetPos cmd + 1)
      (hashes cmd (argsStart cmd)).srcHash = some loaded) (size : Nat) :
    loaded.loads = true ∧ loaded.buffer.length = size ↔
      (setting.sourceOf cmd).loads = true ∧ setting.LoadedWith cmd (targetBlock cmd)
        (targetPos cmd + 2) (srcBlockSize cmd) (hashes cmd (argsStart cmd)).srcHash size := by
  rw [loadSourceBlocks] at run
  cases target : setting.loadTargetBuffer cmd (targetBlock cmd) (List.replicate
      (string2Int (cmd.getArgumentByPos (targetPos cmd + 1)) nDec * hBlockSize % sizeMax) 0)
      (string2Int (cmd.getArgumentByPos (targetPos cmd + 1)) nDec) (targetPos cmd + 2)
      (hashes cmd (argsStart cmd)).srcHash with
  | none =>
      dsimp only at run
      rw [target] at run
      exact nomatch run
  | some result =>
      have same := loadTargetBuffer_eq_zero_iff canWrite target size
      rw [sourceOf, srcBufferSize, srcBlockSize, ← same]
      dsimp only at run
      rw [target, Option.bind_eq_bind, Option.bind_some] at run
      by_cases zero : result.1 = 0
      · rw [if_neg (not_not_intro zero)] at run
        cases run
        exact and_congr_left fun _ => iff_of_true rfl zero
      · rw [if_pos zero] at run
        cases run
        exact and_congr_left fun _ => iff_of_false Bool.false_ne_true zero

theorem LoadedWith.lt_sizeMax {target : BlockSet} {pos blockSize size : Nat} {srcHash : String}
    (loaded : setting.LoadedWith cmd target pos blockSize srcHash size) : size < sizeMax := by
  cases loaded with
  | stream _ => exact Nat.mod_lt _ (by decide)
  | verified _ _ _ => exact Nat.mod_lt _ (by decide)
  | stash file _ _ _ _ _ _ => exact Nat.lt_trans file.sized (by decide)

/-- A move, copy or diff keeps to its buffers exactly when its arguments and stashes agree on their
sizes. -/
theorem buffersKept_iff : setting.BuffersKept cmd ↔ setting.Consistent cmd := by
  rw [BuffersKept, execute]
  cases skips : setting.skipInPlaceMove cmd with
  | true =>
      have never : ¬setting.LoadsSource cmd := fun loads => by cases skips.symm.trans loads.1
      rw [if_pos rfl]
      exact ⟨fun _ => ⟨fun loads => absurd loads never, fun loads => absurd loads never⟩, fun _ other => by cases other⟩
  | false =>
      rw [if_neg Bool.false_ne_true]
      rcases @loadTarget_cases setting cmd with ⟨differs, goesOn⟩ | ⟨stays, result, leaves⟩
      · have loads : setting.LoadsSource cmd := ⟨skips, differs⟩
        rw [goesOn]
        cases run : setting.loadSourceBlocks cmd (targetBlock cmd) (targetPos cmd + 1)
            (hashes cmd (argsStart cmd)).srcHash with
        | none =>
            refine ⟨fun done_ => absurd rfl done_, fun consistent => ?_⟩
            exact absurd run (loadSourceBlocks_ne_none_iff.mpr (consistent.pieces loads))
        | some loaded =>
            have pieces := loadSourceBlocks_ne_none_iff.mp fun failed => by cases run.symm.trans failed
            rw [Option.bind_eq_bind, Option.bind_some]
            by_cases ends : loaded.loads = false ∨ setting.canWrite = false
            · rw [if_pos ends]
              refine ⟨fun _ => ⟨fun _ => pieces, fun _ canWrite _ source size with_ => ?_⟩,
                fun _ other => by cases other⟩
              obtain ⟨goes, -⟩ := (loadSourceBlocks_loads_iff canWrite run size).mpr ⟨source, with_⟩
              rcases ends with left | readOnly
              · cases goes.symm.trans left
              · cases canWrite.symm.trans readOnly
            · have canWrite : setting.canWrite = true := by
                cases same : setting.canWrite with
                | true => rfl
                | false => exact absurd (.inr same) ends
              have goes : loaded.loads = true := by
                cases same : loaded.loads with
                | true => rfl
                | false => exact absurd (.inl same) ends
              have buffer := loadSourceBlocks_loads_iff canWrite run
              obtain ⟨source, with_⟩ := (buffer _).mp ⟨goes, rfl⟩
              rw [if_neg ends]
              by_cases patches : cmd.type ≠ .move ∧ cmd.type ≠ .copy
              · rw [if_pos patches]
                refine ⟨fun _ => ⟨fun _ => pieces, fun _ _ writes => ?_⟩, fun _ other => by cases other⟩
                rcases writes with move | copy
                · exact absurd move patches.1
                · exact absurd copy patches.2
              · have writes : cmd.type = .move ∨ cmd.type = .copy := by
                  by_contra neither
                  exact patches (not_or.mp neither)
                have fit := @writeLoop_ne_none_iff setting loaded.buffer (targetBlock cmd) 0
                  with_.lt_sizeMax
                rw [if_neg patches, writeDataToBlock]
                change (setting.writeLoop loaded.buffer (targetBlock cmd) 0 >>= _) ≠ none ↔ _
                constructor
                · intro done_
                  refine ⟨fun _ => pieces, fun _ _ _ _ size other => ?_⟩
                  rw [← ((buffer size).mpr ⟨source, other⟩).2, ← fit]
                  intro failed
                  rw [failed] at done_
                  exact done_ rfl
                · intro consistent
                  have written := consistent.written loads canWrite writes source _ with_
                  rw [← fit] at written
                  cases wrote : setting.writeLoop loaded.buffer (targetBlock cmd) 0 with
                  | none => exact absurd wrote written
                  | some count =>
                      intro other
                      cases other
      · rw [leaves]
        refine ⟨fun _ => ⟨fun loads => absurd loads.2 stays, fun loads => absurd loads.2 stays⟩,
          fun _ other => by cases other⟩

end Execute

/-- The digest of a block of zeros. -/
def zerosDigest : String :=
  "ad7facb2586fc6e966c004d7d1d16b024f5805ff7cb47c7a85dabd8b48892ca7"

/-- Devices of zeros, an empty stash directory, and a digest that is right for a block of zeros. -/
def zeros : Setting where
  offset := 0
  canWrite := true
  inPlaceDiff := false
  updaterMode := true
  source _ := 0
  sourceFails _ := false
  target _ := 0
  targetFails _ := false
  writeFails _ := false
  synced := true
  store _ := none
  stored := 0
  patched := 0
  errnoEio := false
  sha256Hex bytes := if bytes = List.replicate 4096 0 then zerosDigest else ""

theorem zeros_sha256Hex (bytes : Bytes) :
    zeros.sha256Hex bytes = if bytes = List.replicate 4096 0 then zerosDigest else "" :=
  rfl

/-- A move of one block to two. -/
def shortMove : Command where
  type := .move
  cmdhead := "move"
  cmdLine := "move " ++ zerosDigest ++ " 2,0,2 1 2,0,1"
  tokens := ["move", zerosDigest, "2,0,2", "1", "2,0,1"]
  isStreamCmd := false

theorem shortMove_target : targetBlock shortMove = [(0, 2)] := by
  decide +kernel

theorem shortMove_loadsSource : zeros.LoadsSource shortMove := by
  refine ⟨by decide +kernel, fun _ => ?_⟩
  rw [TargetDiffers, shortMove_target]
  have length := @length_readTarget zeros [(0, 2)] (List.replicate (BlockSet.blocksSize [(0, 2)]) 0)
  refine ⟨by decide +kernel, fun same => ?_⟩
  have other : (zeros.readTarget [(0, 2)]
      (List.replicate (BlockSet.blocksSize [(0, 2)]) 0)).2 ≠ List.replicate 4096 0 := by
    intro equal
    rw [equal] at length
    exact absurd length (by decide +kernel)
  rw [zeros_sha256Hex, if_neg other] at same
  exact absurd same (by decide)

theorem shortMove_source :
    (zeros.sourceOf shortMove).pieces = [] ∧ (zeros.sourceOf shortMove).loads = true := by
  decide +kernel

theorem shortMove_initial : (zeros.sourceOf shortMove).initial = List.replicate 4096 0 := by
  have size : srcBufferSize shortMove = 4096 := by decide +kernel
  refine List.eq_replicate_iff.mpr ⟨(length_initial _ _).trans size, fun byte member => ?_⟩
  rcases mem_initial member with rfl | ⟨place, rfl⟩
  · rfl
  · rfl

/-- The second block that is written lies behind the source buffer. -/
theorem shortMove_overruns :
    Command.init ("move " ++ zerosDigest ++ " 2,0,2 1 2,0,1") false = some shortMove ∧
      ¬zeros.BuffersKept shortMove := by
  refine ⟨by decide +kernel, ?_⟩
  rw [buffersKept_iff]
  intro consistent
  obtain ⟨pieces, loads⟩ := shortMove_source
  have source : (zeros.sourceOf shortMove).assembled.read 0 4096 = List.replicate 4096 0 := by
    have read := (Memory.holds_ofBytes (zeros.sourceOf shortMove).initial).read_zero
    rw [shortMove_initial, List.length_replicate] at read
    rw [Gathering.assembled, pieces, shortMove_initial]
    exact read
  have with_ := @LoadedWith.verified zeros shortMove (targetBlock shortMove) 4 1 zerosDigest rfl
    ((zeros_sha256Hex _).trans (if_pos source)) fun _ _ => ⟨rfl, by decide⟩
  have fit := consistent.written shortMove_loadsSource rfl (.inl rfl) loads _ with_
  rw [shortMove_target] at fit
  exact absurd (fit [] (0, 2) [] rfl nofun (by decide)) (by decide)

end Setting

end Updater.ApplyPatch
