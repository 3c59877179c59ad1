import Updater.Base.Bytes

/-! Files that are written at arbitrary offsets: what a write leaves out reads as zeros. -/

set_option autoImplicit false

namespace Updater.Base

/-- A write at an offset, which may lie behind the end. -/
def fileWrite (file : Bytes) (start : Nat) (data : Bytes) : Bytes :=
  if data = [] then file
  else writeAt (file ++ List.replicate (start - file.length) 0) start data

/-- The file with zeros up to a length. -/
def zeroPadded (length : Nat) (file : Bytes) : Bytes :=
  file ++ List.replicate (length - file.length) 0

theorem length_zeroPadded {length : Nat} {file : Bytes} (fits : file.length ≤ length) :
    (zeroPadded length file).length = length := by
  rw [zeroPadded, List.length_append, List.length_replicate]
  omega

theorem zeroPadded_add {length : Nat} {file : Bytes} (fits : file.length ≤ length) (more : Nat) :
    zeroPadded (length + more) file = zeroPadded length file ++ List.replicate more 0 := by
  have split : length + more - file.length = length - file.length + more := by omega
  rw [zeroPadded, zeroPadded, split, List.replicate_add, List.append_assoc]

theorem zeroPadded_self (file : Bytes) : zeroPadded file.length file = file := by
  rw [zeroPadded, Nat.sub_self, List.replicate_zero, List.append_nil]

theorem length_writeAt_max {xs data : Bytes} {position : Nat} (inside : position ≤ xs.length) :
    (writeAt xs position data).length = max xs.length (position + data.length) := by
  simp only [writeAt, List.length_append, List.length_take, List.length_drop]
  omega

theorem length_fileWrite {file data : Bytes} {start : Nat} (some : data ≠ []) :
    (fileWrite file start data).length = max file.length (start + data.length) := by
  rw [fileWrite, if_neg some, length_writeAt_max]
  · rw [List.length_append, List.length_replicate]
    omega
  · rw [List.length_append, List.length_replicate]
    omega

theorem length_fileWrite_le {file data : Bytes} {start total : Nat} (fits : file.length ≤ total)
    (inside : start + data.length ≤ total) : (fileWrite file start data).length ≤ total := by
  by_cases some : data = []
  · rw [fileWrite, if_pos some]
    exact fits
  · rw [length_fileWrite some]
    omega

/-- A write to the file is one over its bytes and the zeros behind them. -/
theorem zeroPadded_fileWrite {file data : Bytes} {start total : Nat} (fits : file.length ≤ total)
    (inside : start + data.length ≤ total) :
    zeroPadded total (fileWrite file start data) = writeAt (zeroPadded total file) start data := by
  have written := length_fileWrite_le fits inside
  have padded := length_zeroPadded fits
  apply List.ext_getElem?
  intro index
  rw [getElem?_writeAt (by omega), zeroPadded, zeroPadded, List.getElem?_append]
  by_cases some : data = []
  · subst some
    rw [fileWrite, if_pos rfl, List.getElem?_append, List.length_nil]
    split <;> rename_i before
    all_goals
      split
      · rfl
      · rw [if_neg (by omega)]
  · have length := @length_fileWrite file data start some
    rw [length, fileWrite, if_neg some, getElem?_writeAt]
    · simp only [List.getElem?_append, List.getElem?_replicate]
      grind
    · rw [List.length_append, List.length_replicate]
      omega

theorem writeAt_end {front piece data : Bytes} (same : data.length = piece.length) :
    writeAt (front ++ piece) front.length data = front ++ data := by
  have behind : (front ++ piece).drop (front.length + data.length) = [] := by
    apply List.drop_of_length_le
    rw [List.length_append, same]
  rw [writeAt, List.take_left, behind, List.append_nil]

/-- Overwriting a piece of a list. -/
theorem writeAt_middle {front piece back data : Bytes} (same : data.length = piece.length) :
    writeAt (front ++ (piece ++ back)) front.length data = front ++ (data ++ back) := by
  rw [writeAt, List.take_left, ← List.drop_drop, List.drop_left, same, List.drop_left,
    List.append_assoc]

theorem fileWrite_end (file data : Bytes) : fileWrite file file.length data = file ++ data := by
  rw [fileWrite]
  split
  · rename_i nothing
    rw [nothing, List.append_nil]
  · rw [Nat.sub_self, List.replicate_zero, List.append_nil, writeAt, List.take_length,
      List.drop_of_length_le (Nat.le_add_right _ _), List.append_nil]

/-- Data that is written behind a gap which is filled afterwards. -/
theorem fileWrite_gap {file front data : Bytes} (some : front ≠ []) :
    fileWrite (fileWrite file (file.length + front.length) data) file.length front =
      file ++ (front ++ data) := by
  by_cases nothing : data = []
  · have unchanged : fileWrite file (file.length + front.length) [] = file := if_pos rfl
    rw [nothing, unchanged, fileWrite_end, List.append_nil]
  · have gap : file.length + front.length - file.length = front.length := Nat.add_sub_cancel_left _ _
    have written : fileWrite file (file.length + front.length) data =
        file ++ (List.replicate front.length 0 ++ data) := by
      have length : file.length + front.length = (file ++ List.replicate front.length (0 : UInt8)).length := by
        rw [List.length_append, List.length_replicate]
      rw [fileWrite, if_neg nothing, gap, length, writeAt, List.take_length,
        List.drop_of_length_le (Nat.le_add_right _ _), List.append_nil, List.append_assoc]
    rw [written, fileWrite, if_neg some, List.length_append]
    have full : file.length - (file.length + (List.replicate front.length (0 : UInt8) ++ data).length) = 0 :=
      Nat.sub_eq_zero_of_le (Nat.le_add_right _ _)
    rw [full, List.replicate_zero, List.append_nil]
    exact writeAt_middle List.length_replicate.symm

end Updater.Base
