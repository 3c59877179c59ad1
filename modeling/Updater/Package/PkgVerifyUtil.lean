import Updater.Package.ZipPkgParse

/-! `PkgVerifyUtil::VerifyPackageSign` of a zip package. -/

set_option autoImplicit false

namespace Updater.Package

open Updater.Base

/-- The hash that a PKCS7 block signs, if it is valid and the hash has the length of a
digest, and the digest of bytes. -/
structure PkgVerifyUtil (Digest : Type) where
  pkcs7verify : Bytes → Option Digest
  calcSha256Digest : Bytes → Digest
  isOldSigSupport : Bool

namespace PkgVerifyUtil

variable {Digest : Type} [DecidableEq Digest] (util : PkgVerifyUtil Digest)

/-- `GetSignature`, with `ParsePackage`. -/
def getSignature (file : Bytes) : Option (Bytes × PkgSignComment) := do
  let sign ← parsePkg file
  let signatureSize := sign.signCommentAppendLen
  if signatureSize < pkgFooterSize then none
  else do
    let signature ← fileRead file (file.length - signatureSize) (signatureSize - pkgFooterSize)
    if file.length < signatureSize + zipEocdFixedPartLen then none
    else pure (signature, sign)

/-- `HashCheck`. -/
def hashCheck (file : Bytes) (dataLen : Nat) (hash : Digest) : Bool :=
  dataLen ≠ 0 && hash = util.calcSha256Digest (file.take dataLen)

/-- `VerifyPackageSign`: over how many bytes the signed hash was found to be. -/
def verifyPackageSign (file : Bytes) : Option Nat := do
  let (signature, sign) ← getSignature file
  let hash ← util.pkcs7verify signature
  let srcDataLen := file.length - sign.signCommentTotalLen - 2
  if util.isOldSigSupport && util.hashCheck file srcDataLen hash then some srcDataLen
  else
    let srcDataLen := file.length - sign.signCommentAppendLen - zipEocdFixedPartLen
    if util.hashCheck file srcDataLen hash then some srcDataLen else none

end PkgVerifyUtil

end Updater.Package
