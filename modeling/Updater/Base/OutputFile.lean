import Updater.Base.Bytes

/-! Files behind an output stream: what an open mode keeps of them, and writes that may fail. -/

set_option autoImplicit false

namespace Updater.Base

/-- The flags of an open mode; `binary` changes nothing here. -/
structure OpenMode where
  input : Bool := false
  output : Bool := false
  append : Bool := false
  truncate : Bool := false
  ate : Bool := false

/-- What the file holds once it is open; `none` for flags that open nothing. -/
def OpenMode.opens (mode : OpenMode) (file : Bytes) : Option Bytes :=
  match mode.input, mode.output, mode.truncate, mode.append with
  | false, true, _, false => some []
  | true, true, true, false => some []
  | true, _, false, false => some file
  | _, _, false, true => some file
  | _, _, _, _ => none

/-- An open stream; `room` bytes can still be written before a write fails. -/
structure OutputFile where
  content : Bytes
  position : Nat
  room : Nat
  good : Bool
  deriving DecidableEq, Repr

namespace OutputFile

/-- The constructor of an output stream adds `output` to the flags. -/
def create (mode : OpenMode) (room : Nat) (file : Bytes) : Option OutputFile := do
  let content ← { mode with output := true }.opens file
  let position := if mode.append || mode.ate then content.length else 0
  pure { content, position, room, good := true }

/-- A failed write leaves the stream bad, and then further writes do nothing. -/
def write (stream : OutputFile) (data : Bytes) : OutputFile :=
  if stream.good then
    { content := writeAt stream.content stream.position (data.take stream.room)
      position := stream.position + (data.take stream.room).length
      room := stream.room - data.length
      good := decide (data.length ≤ stream.room) }
  else stream

/-- The same data written several times. -/
def writeTimes (stream : OutputFile) (data : Bytes) : Nat → OutputFile
  | 0 => stream
  | count + 1 => (stream.write data).writeTimes data count

/-- What a stream at the end of `base` has come to after so much data was given to it. -/
structure Wrote (base : Bytes) (room : Nat) (data : Bytes) (stream : OutputFile) : Prop where
  content : stream.content = base ++ data.take room
  position : stream.position = stream.content.length
  left : stream.room = room - data.length
  good : stream.good = decide (data.length ≤ room)

variable {base data : Bytes} {room : Nat} {stream : OutputFile}

theorem Wrote.write (wrote : Wrote base room data stream) (more : Bytes) :
    Wrote base room (data ++ more) (stream.write more) := by
  have behind : stream.content.drop (stream.content.length + (more.take stream.room).length) = [] :=
    List.drop_eq_nil_of_le (Nat.le_add_right _ _)
  by_cases fits : data.length ≤ room
  · have good : stream.good = true := by rw [wrote.good, decide_eq_true fits]
    have taken : (data ++ more).take room = data ++ more.take stream.room := by
      rw [List.take_append, List.take_of_length_le fits, wrote.left]
    have content : (stream.write more).content = base ++ (data ++ more).take room := by
      rw [OutputFile.write, if_pos good, taken]
      simp only [writeAt, wrote.position, List.take_length, behind, List.append_nil]
      rw [wrote.content, List.take_of_length_le fits, List.append_assoc]
    constructor
    case content => exact content
    case position =>
      rw [OutputFile.write, if_pos good]
      simp only [writeAt, wrote.position, List.take_length, behind, List.append_nil,
        List.length_append]
    case left =>
      rw [OutputFile.write, if_pos good, List.length_append, ← Nat.sub_sub, ← wrote.left]
    case good =>
      rw [OutputFile.write, if_pos good, wrote.left, List.length_append]
      simp only [decide_eq_decide]
      omega
  · have bad : ¬ stream.good = true := by
      rw [wrote.good]
      simpa using fits
    have longer : ¬ (data ++ more).length ≤ room := by
      rw [List.length_append]
      omega
    rw [OutputFile.write, if_neg bad]
    constructor
    case content =>
      rw [wrote.content, List.take_append_of_le_length (Nat.le_of_not_le fits)]
    case position => exact wrote.position
    case left =>
      rw [wrote.left, List.length_append]
      omega
    case good => rw [wrote.good, decide_eq_false fits, decide_eq_false longer]

theorem Wrote.writeTimes (wrote : Wrote base room data stream) (block : Bytes) (count : Nat) :
    Wrote base room (data ++ (List.replicate count block).flatten)
      (stream.writeTimes block count) := by
  induction count generalizing data stream with
  | zero =>
      rw [List.replicate_zero, List.flatten_nil, List.append_nil]
      exact wrote
  | succ count ih =>
      rw [List.replicate_succ, List.flatten_cons, ← List.append_assoc]
      exact ih (wrote.write block)

/-- A stream that has just been opened and stands at the end of what it kept. -/
theorem wrote_fresh (base : Bytes) (room : Nat) :
    Wrote base room []
      { content := base, position := base.length, room := room, good := true } where
  content := by rw [List.take_nil, List.append_nil]
  position := rfl
  left := rfl
  good := rfl

end OutputFile

end Updater.Base
