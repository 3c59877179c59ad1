import Mathlib.Data.List.Basic
import Mathlib.Tactic.Linarith
import Mathlib.Tactic.Ring

/-! Byte strings: slices, writes in place, C strings and little-endian integers. -/

set_option autoImplicit false

namespace Updater.Base

abbrev Bytes : Type := List UInt8

instance : LawfulBEq Bytes := inferInstance

section

variable {α : Type}

def slice (xs : List α) (start length : Nat) : List α :=
  (xs.drop start).take length

/-- Overwrites `xs` from `position` on; what lies outside the written range stays. -/
def writeAt (xs : List α) (position : Nat) (data : List α) : List α :=
  xs.take position ++ data ++ xs.drop (position + data.length)

@[simp] theorem slice_zero_length (xs : List α) (start : Nat) : slice xs start 0 = [] := by
  simp [slice]

@[simp] theorem slice_full (xs : List α) : slice xs 0 xs.length = xs := by
  simp [slice]

theorem length_slice {xs : List α} {start length : Nat} (room : start + length ≤ xs.length) :
    (slice xs start length).length = length := by
  simp only [slice, List.length_take, List.length_drop]
  omega

theorem length_slice_le (xs : List α) (start length : Nat) :
    (slice xs start length).length ≤ length := by
  simp only [slice, List.length_take]
  omega

/-- Adjacent slices join. -/
theorem slice_append_slice (xs : List α) (start first second : Nat) :
    slice xs start first ++ slice xs (start + first) second = slice xs start (first + second) := by
  simp only [slice]
  rw [List.take_add, List.drop_drop]

theorem slice_append_left {xs : List α} (ys : List α) {start length : Nat}
    (room : start + length ≤ xs.length) : slice (xs ++ ys) start length = slice xs start length := by
  simp only [slice]
  rw [List.drop_append_of_le_length (by omega), List.take_append_of_le_length]
  rw [List.length_drop]
  omega

theorem slice_append_right (xs ys : List α) (start length : Nat) :
    slice (xs ++ ys) (xs.length + start) length = slice ys start length := by
  simp only [slice]
  rw [← List.drop_drop, List.drop_left]

theorem getElem?_slice (xs : List α) (start length index : Nat) :
    (slice xs start length)[index]? = if index < length then xs[start + index]? else none := by
  simp only [slice, List.getElem?_take, List.getElem?_drop]

/-- A slice of a slice. -/
theorem slice_slice {xs : List α} {start size first count : Nat} (inside : first + count ≤ size) :
    slice (slice xs start size) first count = slice xs (start + first) count := by
  simp only [slice, List.drop_take, List.drop_drop, List.take_take]
  congr 1
  omega

@[simp] theorem length_writeAt {xs data : List α} {position : Nat}
    (room : position + data.length ≤ xs.length) : (writeAt xs position data).length = xs.length := by
  simp only [writeAt, List.length_append, List.length_take, List.length_drop]
  omega

theorem getElem?_writeAt {xs data : List α} {position : Nat} (room : position ≤ xs.length)
    (index : Nat) :
    (writeAt xs position data)[index]? =
      if index < position then xs[index]?
      else if index < position + data.length then data[index - position]?
      else xs[index]? := by
  have cut : (xs.take position).length = position := by simp [room]
  simp only [writeAt, List.append_assoc]
  split
  · rename_i before
    rw [List.getElem?_append_left (by omega), List.getElem?_take_of_lt before]
  · rename_i after
    rw [List.getElem?_append_right (by omega), cut]
    split
    · rw [List.getElem?_append_left (by omega)]
    · rw [List.getElem?_append_right (by omega), List.getElem?_drop]
      congr 1
      omega

end

/-- The consecutive pieces of `data` with the given lengths. -/
def pieces (data : Bytes) : List Nat → List Bytes
  | [] => []
  | length :: rest => data.take length :: pieces (data.drop length) rest

/-- The bytes of a text in the source. -/
def ascii (text : String) : Bytes :=
  text.toList.map fun char => UInt8.ofNat char.toNat

/-- The text that a `char` pointer into `buffer` denotes. -/
def cString (buffer : Bytes) : Bytes :=
  buffer.takeWhile (· ≠ 0)

theorem zero_notMem_cString (buffer : Bytes) : 0 ∉ cString buffer := by
  induction buffer with
  | nil => simp [cString]
  | cons byte rest ih =>
      simp only [cString] at ih ⊢
      rw [List.takeWhile_cons]
      split
      · rename_i nonzero
        simp only [List.mem_cons, not_or]
        exact ⟨fun zero => by simp [← zero] at nonzero, ih⟩
      · simp

theorem cString_append_zero {text : Bytes} (clean : 0 ∉ text) (rest : Bytes) :
    cString (text ++ 0 :: rest) = text := by
  induction text with
  | nil => simp [cString]
  | cons byte text ih =>
      have nonzero : byte ≠ 0 := fun zero => clean (by simp [zero])
      have tail := ih fun member => clean (by simp [member])
      simp only [cString] at tail ⊢
      rw [List.cons_append, List.takeWhile_cons, if_pos (by simpa using nonzero), tail]

theorem cString_of_clean {text : Bytes} (clean : 0 ∉ text) : cString text = text := by
  induction text with
  | nil => rfl
  | cons byte text ih =>
      have nonzero : byte ≠ 0 := fun zero => clean (by simp [zero])
      have tail := ih fun member => clean (by simp [member])
      simp only [cString] at tail ⊢
      rw [List.takeWhile_cons, if_pos (by simpa using nonzero), tail]

@[simp] theorem cString_cString (buffer : Bytes) : cString (cString buffer) = cString buffer :=
  cString_of_clean (zero_notMem_cString buffer)

theorem length_cString_le (buffer : Bytes) : (cString buffer).length ≤ buffer.length :=
  (List.takeWhile_prefix _).length_le

/-- The low `width` bytes of `value`, least significant first. -/
def leBytes : Nat → Nat → Bytes
  | 0, _ => []
  | width + 1, value => UInt8.ofNat (value % 256) :: leBytes width (value / 256)

def leValue : Bytes → Nat
  | [] => 0
  | byte :: rest => byte.toNat + 256 * leValue rest

@[simp] theorem length_leBytes (width value : Nat) : (leBytes width value).length = width := by
  induction width generalizing value with
  | zero => rfl
  | succ width ih => simp [leBytes, ih]

theorem leValue_lt (bytes : Bytes) : leValue bytes < 256 ^ bytes.length := by
  induction bytes with
  | nil => simp [leValue]
  | cons byte rest ih =>
      have small := byte.toNat_lt
      simp only [leValue, List.length_cons, pow_succ]
      omega

theorem leValue_leBytes (width value : Nat) :
    leValue (leBytes width value) = value % 256 ^ width := by
  induction width generalizing value with
  | zero => simp [leBytes, leValue, Nat.mod_one]
  | succ width ih =>
      have digit : (UInt8.ofNat (value % 256)).toNat = value % 256 := by simp
      rw [leBytes, leValue, digit, ih, pow_succ, Nat.mul_comm (256 ^ width), Nat.mod_mul]

theorem leValue_leBytes_of_lt {width value : Nat} (fits : value < 256 ^ width) :
    leValue (leBytes width value) = value := by
  rw [leValue_leBytes, Nat.mod_eq_of_lt fits]

theorem leBytes_leValue (bytes : Bytes) : leBytes bytes.length (leValue bytes) = bytes := by
  induction bytes with
  | nil => rfl
  | cons byte rest hypothesis =>
      have small := byte.toNat_lt
      have digit : (byte.toNat + 256 * leValue rest) % 256 = byte.toNat := by omega
      have others : (byte.toNat + 256 * leValue rest) / 256 = leValue rest := by omega
      rw [List.length_cons, leValue, leBytes, digit, others, hypothesis, UInt8.ofNat_toNat]

theorem leValue_append (first second : Bytes) :
    leValue (first ++ second) = leValue first + 256 ^ first.length * leValue second := by
  induction first with
  | nil => rw [List.nil_append, leValue, List.length_nil, pow_zero, Nat.one_mul, Nat.zero_add]
  | cons byte first hypothesis =>
      rw [List.cons_append, leValue, leValue, hypothesis, List.length_cons, pow_succ]
      ring

end Updater.Base
