import Mathlib.Data.List.Basic
import Updater.Base.Bytes

/-! Base64: bytes as text of 64 digits, three bytes as four digits, with padding behind the last
ones. -/

set_option autoImplicit false

namespace Updater.Base.Base64

def alphabet : List Char :=
  "ABCDEFGHIJKLMNOPQRSTUVWXYZabcdefghijklmnopqrstuvwxyz0123456789+/".toList

def padding : Char := '='

def digit (value : Nat) : Char :=
  alphabet.getD value padding

/-- The value of a digit; that of the padding is zero. -/
def digitValue (char : Char) : Nat :=
  if char = padding then 0 else alphabet.idxOf char

def encode : Bytes → List Char
  | [] => []
  | [first] => [digit (first.toNat / 4), digit (first.toNat % 4 * 16), padding, padding]
  | [first, second] =>
      [digit (first.toNat / 4), digit (first.toNat % 4 * 16 + second.toNat / 16),
        digit (second.toNat % 16 * 4), padding]
  | first :: second :: third :: rest =>
      digit (first.toNat / 4) :: digit (first.toNat % 4 * 16 + second.toNat / 16) ::
        digit (second.toNat % 16 * 4 + third.toNat / 64) :: digit (third.toNat % 64) :: encode rest

/-- Three bytes for each four characters. -/
def decode : List Char → Bytes
  | first :: second :: third :: fourth :: rest =>
      UInt8.ofNat (digitValue first * 4 + digitValue second / 16) ::
        UInt8.ofNat (digitValue second % 16 * 16 + digitValue third / 4) ::
        UInt8.ofNat (digitValue third % 4 * 64 + digitValue fourth) :: decode rest
  | _ => []

theorem digitValue_digit {value : Nat} (small : value < 64) : digitValue (digit value) = value := by
  have all : ∀ value : Fin 64, digitValue (digit value) = value := by
    decide +kernel
  exact all ⟨value, small⟩

theorem digit_mem {value : Nat} (small : value < 64) : digit value ∈ alphabet := by
  have all : ∀ value : Fin 64, digit value ∈ alphabet := by decide +kernel
  exact all ⟨value, small⟩

@[simp] theorem digitValue_padding : digitValue padding = 0 := if_pos rfl

/-- Decoding gives the bytes back, with zeros for the padding. -/
theorem decode_encode (data : Bytes) :
    decode (encode data) = data ++ List.replicate ((data.length + 2) / 3 * 3 - data.length) 0 := by
  have byte : ∀ (byte : UInt8) (value : Nat), value = byte.toNat → UInt8.ofNat value = byte :=
    fun byte value same => by rw [same, UInt8.ofNat_toNat]
  induction data using encode.induct with
  | case1 => rfl
  | case2 first =>
      have bound := first.toNat_lt
      rw [encode, decode, digitValue_digit (by omega), digitValue_digit (by omega),
        digitValue_padding, byte first _ (by omega)]
      have zero : first.toNat % 4 * 16 % 16 * 16 + 0 / 4 = 0 := by omega
      rw [zero]
      simp [decode]
  | case3 first second =>
      have bound := first.toNat_lt
      have bound' := second.toNat_lt
      rw [encode, decode, digitValue_digit (by omega), digitValue_digit (by omega),
        digitValue_digit (by omega), digitValue_padding, byte first _ (by omega),
        byte second _ (by omega)]
      have zero : second.toNat % 16 * 4 % 4 * 64 + 0 = 0 := by omega
      rw [zero]
      simp [decode]
  | case4 first second third rest hypothesis =>
      have bound := first.toNat_lt
      have bound' := second.toNat_lt
      have bound'' := third.toNat_lt
      have length : (first :: second :: third :: rest).length = rest.length + 3 := rfl
      have same : (rest.length + 3 + 2) / 3 * 3 - (rest.length + 3) =
          (rest.length + 2) / 3 * 3 - rest.length := by omega
      rw [encode, decode, digitValue_digit (by omega), digitValue_digit (by omega),
        digitValue_digit (by omega), digitValue_digit (by omega), byte first _ (by omega),
        byte second _ (by omega), byte third _ (by omega), hypothesis, length, same]
      rfl

theorem length_encode (data : Bytes) : (encode data).length = (data.length + 2) / 3 * 4 := by
  induction data using encode.induct with
  | case1 => rfl
  | case2 first =>
      rw [encode]
      simp
  | case3 first second =>
      rw [encode]
      simp
  | case4 first second third rest hypothesis =>
      have length : (first :: second :: third :: rest).length = rest.length + 3 := rfl
      rw [encode, length]
      simp only [List.length_cons, hypothesis]
      omega

/-- All characters are digits or padding. -/
theorem mem_encode {data : Bytes} {char : Char} (within : char ∈ encode data) :
    char ∈ padding :: alphabet := by
  induction data using encode.induct with
  | case1 => exact nomatch within
  | case2 first =>
      have bound := first.toNat_lt
      rw [encode] at within
      simp only [List.mem_cons, List.not_mem_nil, or_false] at within
      rcases within with rfl | rfl | rfl | rfl
      · exact .tail _ (digit_mem (by omega))
      · exact .tail _ (digit_mem (by omega))
      · exact .head _
      · exact .head _
  | case3 first second =>
      have bound := first.toNat_lt
      have bound' := second.toNat_lt
      rw [encode] at within
      simp only [List.mem_cons, List.not_mem_nil, or_false] at within
      rcases within with rfl | rfl | rfl | rfl
      · exact .tail _ (digit_mem (by omega))
      · exact .tail _ (digit_mem (by omega))
      · exact .tail _ (digit_mem (by omega))
      · exact .head _
  | case4 first second third rest hypothesis =>
      have bound := first.toNat_lt
      have bound' := second.toNat_lt
      have bound'' := third.toNat_lt
      rw [encode] at within
      simp only [List.mem_cons] at within
      rcases within with rfl | rfl | rfl | rfl | within
      · exact .tail _ (digit_mem (by omega))
      · exact .tail _ (digit_mem (by omega))
      · exact .tail _ (digit_mem (by omega))
      · exact .tail _ (digit_mem (by omega))
      · exact hypothesis within

/-- Whole groups of digits stand for the first bytes. -/
theorem take_encode (data : Bytes) (groups : Nat) (within : groups * 3 ≤ data.length) :
    (encode data).take (groups * 4) = encode (data.take (groups * 3)) := by
  induction data using encode.induct generalizing groups with
  | case1 =>
      have none_ : groups = 0 := by
        rw [List.length_nil] at within
        omega
      rw [none_]
      rfl
  | case2 first =>
      have none_ : groups = 0 := by
        rw [List.length_singleton] at within
        omega
      rw [none_]
      rfl
  | case3 first second =>
      have none_ : groups = 0 := by
        rw [List.length_cons, List.length_singleton] at within
        omega
      rw [none_]
      rfl
  | case4 first second third rest hypothesis =>
      cases groups with
      | zero => rfl
      | succ groups =>
          have length : (first :: second :: third :: rest).length = rest.length + 3 := rfl
          rw [length] at within
          have four : (groups + 1) * 4 = groups * 4 + 4 := by omega
          have three : (groups + 1) * 3 = groups * 3 + 3 := by omega
          rw [encode, four, three, List.take_succ_cons, List.take_succ_cons, List.take_succ_cons,
            List.take_succ_cons, hypothesis groups (by omega), List.take_succ_cons,
            List.take_succ_cons, List.take_succ_cons, encode]

/-- Behind the digits, as many characters of padding as bytes are missing. -/
theorem encode_padded (data : Bytes) (some_ : data ≠ []) :
    ∃ digits, encode data = digits ++
        List.replicate ((data.length + 2) / 3 * 3 - data.length) padding ∧
      (∀ char ∈ digits, char ∈ alphabet) ∧ 2 ≤ digits.length := by
  induction data using encode.induct with
  | case1 => exact absurd rfl some_
  | case2 first =>
      have bound := first.toNat_lt
      refine ⟨[digit (first.toNat / 4), digit (first.toNat % 4 * 16)], by rw [encode]; simp, ?_,
        Nat.le_refl 2⟩
      intro char within
      simp only [List.mem_cons, List.not_mem_nil, or_false] at within
      rcases within with rfl | rfl
      · exact digit_mem (by omega)
      · exact digit_mem (by omega)
  | case3 first second =>
      have bound := first.toNat_lt
      have bound' := second.toNat_lt
      refine ⟨[digit (first.toNat / 4), digit (first.toNat % 4 * 16 + second.toNat / 16),
        digit (second.toNat % 16 * 4)], by rw [encode]; simp, ?_, Nat.le_succ 2⟩
      intro char within
      simp only [List.mem_cons, List.not_mem_nil, or_false] at within
      rcases within with rfl | rfl | rfl
      · exact digit_mem (by omega)
      · exact digit_mem (by omega)
      · exact digit_mem (by omega)
  | case4 first second third rest hypothesis =>
      have bound := first.toNat_lt
      have bound' := second.toNat_lt
      have bound'' := third.toNat_lt
      have length : (first :: second :: third :: rest).length = rest.length + 3 := rfl
      have same : (rest.length + 3 + 2) / 3 * 3 - (rest.length + 3) =
          (rest.length + 2) / 3 * 3 - rest.length := by omega
      have more : ∃ digits, encode rest = digits ++
          List.replicate ((rest.length + 2) / 3 * 3 - rest.length) padding ∧
            ∀ char ∈ digits, char ∈ alphabet := by
        by_cases none_ : rest = []
        · subst none_
          exact ⟨[], rfl, nofun⟩
        · obtain ⟨digits, split, all, -⟩ := hypothesis none_
          exact ⟨digits, split, all⟩
      obtain ⟨digits, split, all⟩ := more
      refine ⟨digit (first.toNat / 4) :: digit (first.toNat % 4 * 16 + second.toNat / 16) ::
        digit (second.toNat % 16 * 4 + third.toNat / 64) :: digit (third.toNat % 64) :: digits,
        by rw [encode, split, length, same]; rfl, ?_, by simp only [List.length_cons]; omega⟩
      intro char within
      simp only [List.mem_cons] at within
      rcases within with rfl | rfl | rfl | rfl | within
      · exact digit_mem (by omega)
      · exact digit_mem (by omega)
      · exact digit_mem (by omega)
      · exact digit_mem (by omega)
      · exact all char within

theorem padding_not_mem : padding ∉ alphabet := by
  decide

end Updater.Base.Base64
