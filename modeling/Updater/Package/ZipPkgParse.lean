import Updater.Package.UpgradePkgFile

/-! `ZipPkgParse`: where the signature lies in the comment of a zip package. -/

set_option autoImplicit false

namespace Updater.Package

open Updater.Base

/-- `ZIP_EOCD_FIXED_PART_LEN`, also `sizeof(EndCentralDir)`. -/
def zipEocdFixedPartLen : Nat := 22

def zipEocdLenExcludeComment : Nat := 20

def pkgFooterSize : Nat := 6

def zipEocdSignature : Nat := 0x06054b50

def zipEocdSignatureBytes : Bytes := [0x50, 0x4b, 0x05, 0x06]

structure PkgSignComment where
  signCommentTotalLen : Nat
  signCommentAppendLen : Nat
  deriving DecidableEq, Repr

/-- `ParsePkgFooter`. -/
def parsePkgFooter (footer : Bytes) : Option PkgSignComment :=
  let signCommentAppendLen := leValue (slice footer 0 2)
  let signCommentTotalLen := leValue (slice footer 4 2)
  if leValue (slice footer 2 2) ≠ 0xffff then none
  else if signCommentAppendLen < pkgFooterSize ∨ signCommentTotalLen < pkgFooterSize ∨
      signCommentTotalLen < signCommentAppendLen then none
  else some { signCommentTotalLen, signCommentAppendLen }

/-- `CheckZipEocd`: no other record begins behind this one, whose comment has the length
that the footer says. -/
def checkZipEocd (eocd : Bytes) (signCommentTotalLen : Nat) : Bool :=
  zipEocdFixedPartLen + pkgFooterSize ≤ eocd.length &&
    leValue (slice eocd 0 4) = zipEocdSignature &&
    ((List.range (eocd.length - 3)).all fun i => i < 4 || slice eocd i 4 ≠ zipEocdSignatureBytes) &&
    leValue (slice eocd zipEocdLenExcludeComment 2) = signCommentTotalLen

/-- `ReadFooterFromStream`. -/
def readFooterFromStream (file : Bytes) : Option PkgSignComment :=
  if file.length ≤ pkgFooterSize then none
  else (readBuffer file (file.length - pkgFooterSize) pkgFooterSize).bind parsePkgFooter

/-- `DoParseZipPkg`. -/
def doParseZipPkg (file : Bytes) (sign : PkgSignComment) : Option PkgSignComment := do
  let eocdTotalLen := zipEocdFixedPartLen + sign.signCommentTotalLen
  if file.length ≤ eocdTotalLen then none
  else do
    let zipEocd ← readBuffer file (file.length - eocdTotalLen) eocdTotalLen
    if checkZipEocd zipEocd sign.signCommentTotalLen then pure sign else none

/-- `ParsePkg`. -/
def parsePkg (file : Bytes) : Option PkgSignComment :=
  (readFooterFromStream file).bind (doParseZipPkg file)

end Updater.Package
