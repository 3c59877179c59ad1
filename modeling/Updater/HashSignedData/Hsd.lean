import Mathlib.Data.List.DropRight
import Updater.Base.Base64
import Updater.Base.BlankLines

/-! The list of signed hashes: how it is read from a text, and how the signature of a file is looked
up in it. -/

set_option autoImplicit false
set_option linter.dupNamespace false

namespace Updater.HashSignedData

open Updater.Base

abbrev Str : Type := List Char

/-- `char::is_whitespace`. -/
def isWhitespace (char : Char) : Bool :=
  let code := char.toNat
  (9 ≤ code && code ≤ 13) || code = 0x20 || code = 0x85 || code = 0xA0 || code = 0x1680 ||
    (0x2000 ≤ code && code ≤ 0x200A) || code = 0x2028 || code = 0x2029 || code = 0x202F ||
    code = 0x205F || code = 0x3000

/-- `str::trim`. -/
def trim (text : Str) : Str :=
  (text.dropWhile isWhitespace).rdropWhile isWhitespace

def newline : Char := '\n'

/-- `split("\n\n")`. -/
def splitBlankLines (text : Str) : List Str :=
  splitPairs newline text

/-- `split('\n')` with the empty lines filtered out. -/
def linesOf (text : Str) : List Str :=
  (text.splitOn newline).filter (· ≠ [])

def keyStr : Str := "Name:".toList

def valueStr : Str := "signed-data:".toList

structure SingleSignedData where
  name : Str
  signature : Str
  deriving DecidableEq

/-- `SingleSignedData::try_from`. -/
def SingleSignedData.tryFrom (value : Str) : Except Str SingleSignedData :=
  match linesOf value with
  | [key, signed] =>
      if keyStr.isPrefixOf key ∧ valueStr.isPrefixOf signed then .ok {
        name := trim (key.drop keyStr.length)
        signature := trim (signed.drop valueStr.length) }
      else .error ("format error for single signed data ".toList ++ value)
  | _ => .error ("format error for single signed data ".toList ++ value)

structure HashSignedData where
  data : List SingleSignedData

/-- `HashSignedData::try_from`. -/
def HashSignedData.tryFrom (value : Str) : Except Str HashSignedData :=
  if value = [] then .error "empty value not allowed".toList
  else
    (((splitBlankLines value).filter (· ≠ [])).mapM SingleSignedData.tryFrom).map HashSignedData.mk

/-- `EVP_DecodeBlock` of the first characters of a text: the number of bytes and the bytes that it
writes. It decodes base64 with zeros for the padding, and no characters or fewer to nothing. -/
structure EvpDecodeBlock where
  run : Bytes → Int → Int × Bytes
  decodes {text data : Bytes} {n : Nat} (positive : 0 < n) (within : n ≤ text.length)
    (encoded : text.take n = (Base64.encode data).flatMap String.utf8EncodeChar) :
    run text n = (((n / 4 * 3 : Nat) : Int),
      data ++ List.replicate (n / 4 * 3 - data.length) 0)
  nothing (text : Bytes) {n : Int} (none_ : n ≤ 0) : (run text n).1 ≤ 0

/-- `get_b64_decode_len`. -/
def getB64DecodeLen (inData : Bytes) : Except Str (Nat × Nat) :=
  let len := inData.length
  if len = 0 ∨ len % 4 ≠ 0 then .error "indata is not an valid base64 data".toList
  else
    let last := if inData[len - 1]? = some '='.toUInt8 then 1 else 0
    let secondLast := if inData[len - 2]? = some '='.toUInt8 then 1 else 0
    .ok (len / 4 * 3, last + secondLast)

/-- A length as `i32`. -/
def asI32 (len : Nat) : Int :=
  if len % 2 ^ 32 < 2 ^ 31 then len % 2 ^ 32 else (len % 2 ^ 32 : Int) - 2 ^ 32

variable (evp : EvpDecodeBlock)

/-- `evp_decode_block`. -/
def evpDecodeBlock (inData : Bytes) : Except Str Bytes :=
  match getB64DecodeLen inData with
  | .error message => .error message
  | .ok (outLen, padding) =>
      let outData : Bytes := List.replicate outLen 0
      let (count, written) := evp.run inData (asI32 inData.length)
      if count ≤ 0 then .error "evp decode failed".toList
      else .ok ((writeAt outData 0 written).take (outLen - padding))

/-- `get_sig_for_file`. -/
def HashSignedData.getSigForFile (signed : HashSignedData) (fileName : Str) : Except Str Bytes :=
  match signed.data.find? (·.name = fileName) with
  | some single => evpDecodeBlock evp (single.signature.flatMap String.utf8EncodeChar)
  | none => .error ("file name ".toList ++ fileName ++ " invalid, please check your input".toList)

end Updater.HashSignedData
