import Updater.Package.UpgradePkgFile
import Updater.Utils.Securec

/-! `BinFlowUpdate`: installs the components of a package from the stream behind its
header, one writer for each. -/

set_option autoImplicit false

namespace Updater.FlowUpdate

open Updater.Base Updater.Utils Updater.Package

/-- `DEFAULT_SIZE`. -/
def binFlowDefaultSize : Nat := 4 * 1024 * 1024

inductive BinFlowUpdateStep where
  | stepPre
  | stepDo
  | stepPost
  deriving DecidableEq, Repr

/-- `buffer` is the first `curlen_` bytes of `buffer_`. `writer` is what the current
writer got, and `released` what those before it did. -/
structure BinFlowUpdate where
  maxBufSize : Nat
  buffer : Bytes := []
  headInit : Bool := false
  entries : List UpgradeEntry := []
  procCompIndex : Nat := 0
  updateStep : BinFlowUpdateStep := .stepPre
  imageWriteLen : Nat := 0
  info : Option UpgradeEntry := none
  writer : Option Bytes := none
  released : List Bytes := []
  deriving DecidableEq, Repr

/-- `FindPkgEntry`: the first entry of that name. -/
def findPkgEntry (entries : List UpgradeEntry) (fileName : Bytes) : Option UpgradeEntry :=
  entries.find? fun entry => entry.identity = fileName

/-- `RawWriter::Write`, which takes nothing as a failure. -/
def rawWrite (written data : Bytes) : Option Bytes :=
  if data = [] then none else some (written ++ data)

namespace BinFlowUpdate

def create (maxBufSize : Nat) : BinFlowUpdate where
  maxBufSize := if maxBufSize = 0 then binFlowDefaultSize else maxBufSize

/-- What each writer got, in the order of the components. -/
def writers (st : BinFlowUpdate) : List Bytes :=
  st.released ++ st.writer.toList

def binUpdatePreWrite (st : BinFlowUpdate) : Int × BinFlowUpdate :=
  match st.entries[st.procCompIndex]? with
  | none => (-1, st)
  | some component =>
      let st := { st with
        imageWriteLen := 0
        released := st.writers
        writer := some [] }
      match findPkgEntry st.entries component.identity with
      | none => (-1, { st with info := none })
      | some info => (0, { st with info := some info, updateStep := .stepDo })

/-- The unpacked size of a component is its packed size. -/
def binUpdateDoWrite (st : BinFlowUpdate) : Int × BinFlowUpdate :=
  match st.info, st.writer with
  | some info, some written =>
      let writeLen := min (info.packedSize - st.imageWriteLen) st.buffer.length
      match rawWrite written (st.buffer.take writeLen) with
      | none => (-1, st)
      | some written =>
          let st := { st with
            writer := some written
            buffer := st.buffer.drop writeLen
            imageWriteLen := st.imageWriteLen + writeLen }
          if st.imageWriteLen = info.packedSize then (0, { st with updateStep := .stepPost })
          else if st.imageWriteLen > info.packedSize then (-1, st)
          else (0, st)
  | _, _ => (-1, st)

def binUpdatePostWrite (st : BinFlowUpdate) : Int × BinFlowUpdate :=
  (0, { st with procCompIndex := st.procCompIndex + 1, updateStep := .stepPre })

/-- `UpdateBinData`. -/
def updateBinData (st : BinFlowUpdate) : Int × BinFlowUpdate :=
  match st.updateStep with
  | .stepPre => st.binUpdatePreWrite
  | .stepDo => st.binUpdateDoWrite
  | .stepPost => st.binUpdatePostWrite

/-- How far a step is from the next write. -/
def BinFlowUpdateStep.rank : BinFlowUpdateStep → Nat
  | .stepPre => 1
  | .stepDo => 0
  | .stepPost => 2

def work (st : BinFlowUpdate) : Nat :=
  3 * st.buffer.length + BinFlowUpdateStep.rank st.updateStep

theorem binUpdateDoWrite_work {st next : BinFlowUpdate} (step : st.updateStep = .stepDo)
    (done : st.binUpdateDoWrite = (0, next)) : next.work < st.work := by
  unfold binUpdateDoWrite at done
  split at done
  · rename_i info written _ _
    dsimp only at done
    split at done
    · cases done
    · rename_i written' wrote
      have some : st.buffer.take (min (info.packedSize - st.imageWriteLen) st.buffer.length) ≠ [] := by
        intro empty
        rw [rawWrite, if_pos empty] at wrote
        cases wrote
      have positive : 0 < min (info.packedSize - st.imageWriteLen) st.buffer.length := by
        by_contra none
        apply some
        rw [Nat.eq_zero_of_not_pos none, List.take_zero]
      split at done
      · cases done
        simp only [work, step, BinFlowUpdateStep.rank, List.length_drop]
        omega
      · split at done
        · cases done
        · cases done
          simp only [work, step, BinFlowUpdateStep.rank, List.length_drop]
          omega
  · cases done

theorem updateBinData_work {st next : BinFlowUpdate} (done : st.updateBinData = (0, next)) :
    next.work < st.work := by
  unfold updateBinData at done
  cases step : st.updateStep with
  | stepPre =>
      rw [step] at done
      dsimp only [binUpdatePreWrite] at done
      split at done
      · cases done
      · split at done
        · cases done
        · cases done
          simp only [work, step, BinFlowUpdateStep.rank]
          omega
  | stepDo =>
      rw [step] at done
      exact binUpdateDoWrite_work step done
  | stepPost =>
      rw [step] at done
      cases done
      simp only [work, step, BinFlowUpdateStep.rank]
      omega

/-- The inner loop of `StartBinFlowUpdate`. -/
def processData (st : BinFlowUpdate) : Int × BinFlowUpdate :=
  if st.buffer = [] then (0, st)
  else
    match _done : st.updateBinData with
    | (0, next) => processData next
    | failed => failed
termination_by st.work
decreasing_by exact updateBinData_work _done

/-- `AddRemainData`; gives what is left of the data. -/
def addRemainData (st : BinFlowUpdate) (data : Bytes) : Option (BinFlowUpdate × Bytes) :=
  if st.buffer.length ≥ st.maxBufSize then none
  else
    let copySize := min data.length (st.maxBufSize - st.buffer.length)
    (memcpyS [] (st.maxBufSize - st.buffer.length) (data.take copySize)).map fun copied =>
      ({ st with buffer := st.buffer ++ copied }, data.drop copySize)

theorem addRemainData_some {st next : BinFlowUpdate} {data rest : Bytes}
    (added : st.addRemainData data = some (next, rest)) :
    st.buffer.length < st.maxBufSize ∧
      st.maxBufSize - st.buffer.length ≤ securecMemMaxLen ∧
      next = { st with
        buffer := st.buffer ++ data.take (st.maxBufSize - st.buffer.length) } ∧
      rest = data.drop (st.maxBufSize - st.buffer.length) := by
  unfold addRemainData at added
  split at added
  · cases added
  · rename_i room
    obtain ⟨copied, copy, pair⟩ := Option.map_eq_some_iff.mp added
    have least : data.take (min data.length (st.maxBufSize - st.buffer.length)) =
        data.take (st.maxBufSize - st.buffer.length) := by
      rcases Nat.le_total data.length (st.maxBufSize - st.buffer.length) with small | large
      · rw [Nat.min_eq_left small, List.take_length, List.take_of_length_le small]
      · rw [Nat.min_eq_right large]
    have limit : ¬ securecMemMaxLen < st.maxBufSize - st.buffer.length := by
      intro large
      rw [memcpyS, if_pos (.inr (.inl large))] at copy
      cases copy
    obtain ⟨-, rfl⟩ := memcpyS_eq_some copy
    cases pair
    refine ⟨Nat.not_le.mp room, Nat.not_lt.mp limit, ?_, ?_⟩
    · rw [least, List.drop_nil, List.append_nil]
    · rcases Nat.le_total data.length (st.maxBufSize - st.buffer.length) with small | large
      · rw [Nat.min_eq_left small, List.drop_length, List.drop_of_length_le small]
      · rw [Nat.min_eq_right large]

section

variable (loadPackage : Bytes → Option UpgradeInput.LoadedPackage)

/-- `UpdateBinHead`: the header of the package has to be in the buffer. -/
def updateBinHead (st : BinFlowUpdate) : Option BinFlowUpdate :=
  match loadPackage st.buffer with
  | none => none
  | some loaded =>
      if loaded.updateFileHeadLen = 0 ∨ st.buffer.length < loaded.updateFileHeadLen then none
      else some { st with
        buffer := st.buffer.drop loaded.updateFileHeadLen
        headInit := true
        entries := loaded.st.entries }

/-- The outer loop of `StartBinFlowUpdate`. -/
def feedBuffer (st : BinFlowUpdate) (remain : Bytes) : Int × BinFlowUpdate :=
  if _more : remain = [] then (0, st)
  else
    match _added : st.addRemainData remain with
    | none => (-1, st)
    | some (st, rest) =>
        match if st.headInit then some st else st.updateBinHead loadPackage with
        | none => (-1, st)
        | some st =>
            match st.processData with
            | (0, st) => feedBuffer st rest
            | failed => failed
termination_by remain.length
decreasing_by
  obtain ⟨room, -, -, rfl⟩ := addRemainData_some _added
  have some := List.length_pos_iff.mpr _more
  rw [List.length_drop]
  omega

def startBinFlowUpdate (st : BinFlowUpdate) (data : Bytes) : Int × BinFlowUpdate :=
  if data = [] then (-1, st) else st.feedBuffer loadPackage data

/-- Calls one after another, up to the first that fails. -/
def startAll (st : BinFlowUpdate) : List Bytes → Int × BinFlowUpdate
  | [] => (0, st)
  | data :: rest =>
      match st.startBinFlowUpdate loadPackage data with
      | (0, st) => startAll st rest
      | failed => failed

end

end BinFlowUpdate

end Updater.FlowUpdate
