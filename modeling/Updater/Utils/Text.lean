import Mathlib.Algebra.Group.Nat.Defs
import Mathlib.Data.List.Basic

/-! Text helpers shared by the command parsers: splitting at separator
characters and the integer conversions built on `strtoull`. -/

set_option autoImplicit false

namespace Updater.Utils

/-- Character-level `find_first_of` loop: every character of `del` separates,
so neighbouring separators produce empty tokens. -/
def splitChars (del : List Char) : List Char → List (List Char)
  | [] => [[]]
  | char :: rest =>
      if char ∈ del then [] :: splitChars del rest
      else
        match splitChars del rest with
        | [] => [[char]]
        | token :: tokens => (char :: token) :: tokens

def splitString (str del : String) : List String :=
  (splitChars del.toList str.toList).map String.ofList

theorem splitChars_ne_nil (del chars : List Char) : splitChars del chars ≠ [] := by
  cases chars with
  | nil => simp [splitChars]
  | cons char rest =>
      simp only [splitChars]
      split
      · simp
      · split <;> simp

/-- `Command::Init` reads token zero unconditionally; it always exists. -/
theorem splitString_ne_nil (str del : String) : splitString str del ≠ [] := by
  simp [splitString, splitChars_ne_nil]

def isSpace (char : Char) : Bool :=
  char.toNat = 32 || (9 ≤ char.toNat && char.toNat ≤ 13)

/-- Value of an alphanumeric digit, whatever the base. -/
def digitValue (char : Char) : Option Nat :=
  if '0' ≤ char ∧ char ≤ '9' then some (char.toNat - '0'.toNat)
  else if 'a' ≤ char ∧ char ≤ 'z' then some (char.toNat - 'a'.toNat + 10)
  else if 'A' ≤ char ∧ char ≤ 'Z' then some (char.toNat - 'A'.toNat + 10)
  else none

def isDigit (base : Nat) (char : Char) : Bool :=
  match digitValue char with
  | some value => value < base
  | none => false

/-- Longest digit run, most significant digit first. -/
def readDigits (base : Nat) : Nat → List Char → Nat
  | acc, [] => acc
  | acc, char :: rest =>
      match digitValue char with
      | some value => if value < base then readDigits base (acc * base + value) rest else acc
      | none => acc

/-- A `0x` prefix counts only when a hexadecimal digit follows it. -/
def dropHexPrefix : List Char → List Char
  | '0' :: x :: digit :: rest =>
      if (x = 'x' ∨ x = 'X') ∧ isDigit 16 digit then digit :: rest else '0' :: x :: digit :: rest
  | chars => chars

/-- `strtoull` on 64-bit `unsigned long long`: saturating on overflow, and a
minus sign negates modulo `2^64`. -/
def strtoull (chars : List Char) (base : Nat) : Nat :=
  let chars := chars.dropWhile isSpace
  let (negative, chars) :=
    match chars with
    | '-' :: rest => (true, rest)
    | '+' :: rest => (false, rest)
    | rest => (false, rest)
  let value := readDigits base 0 (if base = 16 then dropHexPrefix chars else chars)
  if 2 ^ 64 ≤ value then 2 ^ 64 - 1
  else if negative then (2 ^ 64 - value) % 2 ^ 64
  else value

/-- `String2Int<size_t>`. The base switches to sixteen on a `0x` prefix and,
because of how the source's condition groups, on any `X` in second place. -/
def string2Int (str : String) (base : Nat) : Nat :=
  match str.toList with
  | [] => 0
  | first :: rest =>
      let second := rest.head?
      let base := if (first = '0' ∧ second = some 'x') ∨ second = some 'X' then 16 else base
      strtoull (first :: rest) base

/-- Decimal conversion base, `N_DEC` in the source. -/
def nDec : Nat := 10

example : splitString "move ab  c" " " = ["move", "ab", "", "c"] := by decide

example : [string2Int "24" nDec, string2Int "0x1f" nDec, string2Int "7z" nDec] = [24, 31, 7] := by
  decide

end Updater.Utils
