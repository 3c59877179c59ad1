import Updater.DiffPatch.Bzip2Adapter
import Updater.DiffPatch.Control
import Updater.DiffPatch.SuffixArray

/-! `BlocksDiff::MakePatch`: the control triples of a new file against an old one,
and the patch that holds them. -/

set_option autoImplicit false

namespace Updater.DiffPatch

open Updater.Base

def blockScore : Int := 8

/-- `MAX_PATCH_LENGTH`, the longest old file. -/
def maxPatchLength : Nat := 1024 * 1024 * 1024

/-- Offsets that `GetCtrlDatas` carries from one triple to the next. -/
structure DiffState where
  matchPos : Int
  currentOffset : Int
  lastOffset : Int
  lastScan : Int
  lastPos : Int
  deriving DecidableEq, Repr

/-- A triple and where its data starts in the two files. -/
structure DiffControl where
  ctrl : ControlData
  diffNewStart : Int
  diffOldStart : Int
  extraNewStart : Int
  deriving DecidableEq, Repr

/-- Equality of two bytes, false behind the end of the old file. -/
def sameByte (old new : Bytes) (oldIndex newIndex : Int) : Option Bool :=
  if oldIndex < old.length then do
    let oldByte ← getAt old oldIndex
    let newByte ← getAt new newIndex
    pure (oldByte = newByte)
  else pure false

/-- Counts on from `begin` the bytes that the last offset predicts. -/
def addScore (old new : Bytes) (lastOffset limit begin oldScore : Int) : Option (Int × Int) :=
  if begin < limit then do
    let same ← sameByte old new (begin + lastOffset) begin
    addScore old new lastOffset limit (begin + 1) (if same then oldScore + 1 else oldScore)
  else pure (begin, oldScore)
termination_by (limit - begin).toNat

/-- A search result inside the loop of `ComputeOldScore`. -/
structure Scored where
  currentOffset : Int
  matchPos : Int
  oldScore : Int
  matchLen : Int
  deriving DecidableEq, Repr

/-- The loop of `ComputeOldScore`, which ends at a match worth using. -/
def scoreLoop (suffixArray : List Int) (new old : Bytes) (lastOffset begin : Int)
    (scored : Scored) : Option Scored :=
  if scored.currentOffset < new.length then do
    let (matchLen, matchPos) ← SuffixArray.search suffixArray
      (new.drop scored.currentOffset.toNat) old 0 old.length
    let (begin, oldScore) ← addScore old new lastOffset (scored.currentOffset + matchLen) begin
      scored.oldScore
    if ((matchLen : Int) = oldScore ∧ matchLen ≠ 0) ∨ (matchLen : Int) > oldScore + blockScore then
      pure { scored with matchPos, oldScore, matchLen }
    else do
      let same ← sameByte old new (scored.currentOffset + lastOffset) scored.currentOffset
      scoreLoop suffixArray new old lastOffset begin {
        currentOffset := scored.currentOffset + 1
        matchPos
        oldScore := if same then oldScore - 1 else oldScore
        matchLen }
  else pure scored
termination_by (new.length - scored.currentOffset).toNat

def computeOldScore (suffixArray : List Int) (new old : Bytes) (st : DiffState) (matchLen : Int) :
    Option Scored :=
  let currentOffset := st.currentOffset + matchLen
  scoreLoop suffixArray new old st.lastOffset currentOffset {
    currentOffset, matchPos := st.matchPos, oldScore := 0, matchLen }

/-- Extends the last match forwards, as long as at least half of the bytes agree. -/
def extendFront (new old : Bytes) (st : DiffState) (i s tmp lengthFront : Int) : Option Int :=
  if st.lastScan + i < st.currentOffset ∧ st.lastPos + i < old.length then do
    let oldByte ← getAt old (st.lastPos + i)
    let newByte ← getAt new (st.lastScan + i)
    let s := if oldByte = newByte then s + 1 else s
    let i := i + 1
    if s * multipleTwo - i > tmp * multipleTwo - lengthFront then extendFront new old st i s s i
    else extendFront new old st i s tmp lengthFront
  else pure lengthFront
termination_by (st.currentOffset - st.lastScan - i).toNat

/-- Extends the new match backwards. -/
def extendBack (new old : Bytes) (st : DiffState) (i s tmp lengthBack : Int) : Option Int :=
  if st.currentOffset ≥ st.lastScan + i ∧ st.matchPos ≥ i then do
    let oldByte ← getAt old (st.matchPos - i)
    let newByte ← getAt new (st.currentOffset - i)
    let s := if oldByte = newByte then s + 1 else s
    if s * multipleTwo - i > tmp * multipleTwo - lengthBack then extendBack new old st (i + 1) s s i
    else extendBack new old st (i + 1) s tmp lengthBack
  else pure lengthBack
termination_by (st.currentOffset - st.lastScan - i + 1).toNat

/-- Where to cut the overlap of both extensions: how much the front one keeps. -/
def splitOverlap (new old : Bytes) (st : DiffState) (lengthFront lengthBack overlap : Int)
    (i s tmp lens : Int) : Option Int :=
  if i < overlap then do
    let frontNew ← getAt new (st.lastScan + lengthFront - overlap + i)
    let frontOld ← getAt old (st.lastPos + lengthFront - overlap + i)
    let s := if frontNew = frontOld then s + 1 else s
    let backNew ← getAt new (st.currentOffset - lengthBack + i)
    let backOld ← getAt old (st.matchPos - lengthBack + i)
    let s := if backNew = backOld then s - 1 else s
    if s > tmp then splitOverlap new old st lengthFront lengthBack overlap (i + 1) s s (i + 1)
    else splitOverlap new old st lengthFront lengthBack overlap (i + 1) s tmp lens
  else pure lens
termination_by (overlap - i).toNat

def computeLength (new old : Bytes) (st : DiffState) : Option (Int × Int) := do
  let lengthFront ← extendFront new old st 0 0 0 0
  let lengthBack ←
    (if st.currentOffset < new.length then extendBack new old st 1 0 0 0 else pure 0)
  if st.lastScan + lengthFront > st.currentOffset - lengthBack then do
    let overlap := st.lastScan + lengthFront - (st.currentOffset - lengthBack)
    let lens ← splitOverlap new old st lengthFront lengthBack overlap 0 0 0 0
    pure (lengthFront + (lens - overlap), lengthBack - lens)
  else pure (lengthFront, lengthBack)

/-- The triple of one match, and the offsets behind it. -/
def saveControl (st : DiffState) (lenFront lenBack : Int) : DiffControl × DiffState :=
  ({
    ctrl := {
      diffLength := lenFront
      extraLength := st.currentOffset - lenBack - (st.lastScan + lenFront)
      offsetIncrement := st.matchPos - lenBack - (st.lastPos + lenFront) }
    diffNewStart := st.lastScan
    diffOldStart := st.lastPos
    extraNewStart := st.lastScan + lenFront },
  { st with
    lastScan := st.currentOffset - lenBack
    lastPos := st.matchPos - lenBack
    lastOffset := st.matchPos - st.currentOffset })

/-- The loop of `GetCtrlDatas`; every turn but the last moves on by a match. -/
def ctrlLoop (suffixArray : List Int) (new old : Bytes) :
    Nat → DiffState → Int → Option (List DiffControl)
  | 0, _, _ => none
  | fuel + 1, st, matchLen =>
      if st.currentOffset < new.length then do
        let scored ← computeOldScore suffixArray new old st matchLen
        let st := { st with currentOffset := scored.currentOffset, matchPos := scored.matchPos }
        if scored.matchLen = scored.oldScore ∧ st.currentOffset ≠ (new.length : Int) then
          ctrlLoop suffixArray new old fuel st scored.matchLen
        else do
          let (lenFront, lenBack) ← computeLength new old st
          let (control, st) := saveControl st lenFront lenBack
          let rest ← ctrlLoop suffixArray new old fuel st scored.matchLen
          pure (control :: rest)
      else pure []

def getCtrlDatas (suffixArray : List Int) (new old : Bytes) : Option (List DiffControl) :=
  ctrlLoop suffixArray new old (new.length + 2)
    { matchPos := 0, currentOffset := 0, lastOffset := 0, lastScan := 0, lastPos := 0 } 0

/-- What `WriteControlData` compresses. -/
def controlSection (controls : List DiffControl) : Bytes :=
  controls.flatMap fun control =>
    writeLE64 control.ctrl.diffLength ++ writeLE64 control.ctrl.extraLength ++
      writeLE64 control.ctrl.offsetIncrement

/-- The differences of one triple's diff range. -/
def diffBytes (new old : Bytes) (control : DiffControl) : Option Bytes :=
  (List.range control.ctrl.diffLength.toNat).mapM fun index : Nat => do
    let newByte ← getAt new (control.diffNewStart + index)
    let oldByte ← getAt old (control.diffOldStart + index)
    pure (newByte - oldByte)

/-- What `WriteDiffData` compresses; it cuts it into pieces for the adapter. -/
def diffSection (new old : Bytes) (controls : List DiffControl) : Option Bytes :=
  (controls.mapM (diffBytes new old)).map List.flatten

def extraBytes (new : Bytes) (control : DiffControl) : Option Bytes :=
  if control.ctrl.extraLength ≤ 0 then some []
  else
    if 0 ≤ control.extraNewStart ∧
        control.extraNewStart + control.ctrl.extraLength ≤ new.length then
      some (slice new control.extraNewStart.toNat control.ctrl.extraLength.toNat)
    else none

def extraSection (new : Bytes) (controls : List DiffControl) : Option Bytes :=
  (controls.mapM (extraBytes new)).map List.flatten

/-- The three sections before compression. -/
structure Sections where
  control : Bytes
  diff : Bytes
  extra : Bytes
  deriving DecidableEq, Repr

def makeSections (new old : Bytes) : Option Sections := do
  let suffixArray ← SuffixArray.init old
  let controls ← getCtrlDatas suffixArray new old
  let diff ← diffSection new old controls
  let extra ← extraSection new controls
  pure { control := controlSection controls, diff, extra }

/-- `WritePatchData`: the header counts the compressed control and diff data. -/
def writePatchData (bzip2 : Bzip2) (sections : Sections) (newLength : Nat) : Bytes :=
  let control := bzip2.compress sections.control
  let diff := bzip2.compress sections.diff
  let extra := bzip2.compress sections.extra
  bsdiffMagic ++ writeLE64 control.length ++ writeLE64 diff.length ++ writeLE64 newLength ++
    control ++ diff ++ extra

/-- `MakePatch`, as the bytes it leaves in the buffer or the file. -/
def makePatch (bzip2 : Bzip2) (new old : Bytes) : Option Bytes := do
  let sections ← makeSections new old
  pure (writePatchData bzip2 sections new.length)

end Updater.DiffPatch
