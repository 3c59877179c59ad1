import Updater.Base.StepRuns
import Updater.Package.PkgManagerLoad

/-! The streams of `PkgManagerImpl`, shared by the names of their files: how they are created,
registered and closed, and when none is deleted that is still in use. -/

set_option autoImplicit false

namespace Updater.Package.StreamRegistry

open Updater.Base

/-- `PkgStreamImpl`, as far as it is shared; `refCount_` is an `int` that wraps. -/
structure PkgStreamImpl where
  fileName : Bytes
  refCount : BitVec 32
  deriving DecidableEq

namespace PkgStreamImpl

def addRef (stream : PkgStreamImpl) : PkgStreamImpl :=
  { stream with refCount := stream.refCount + 1 }

def delRef (stream : PkgStreamImpl) : PkgStreamImpl :=
  { stream with refCount := stream.refCount - 1 }

/-- `IsRef`, which is true of a stream without references. -/
def isRef (stream : PkgStreamImpl) : Bool :=
  stream.refCount = 0

end PkgStreamImpl

/-- `PkgManagerImpl` with the streams that were created and not deleted; no pointer is given out a
second time. -/
structure PkgManagerImpl where
  pkgStreams : Bytes → Option Nat
  streams : Nat → Option PkgStreamImpl
  next : Nat

/-- The types of streams that are made with a size. -/
inductive StreamType where
  | read
  | write
  | memoryMap
  | fileMap
  | other
  deriving DecidableEq, Repr

/-- What the system answers about a file. -/
structure FileAnswers where
  realPath : Bool
  checkFile : Bool
  opens : Bool
  accessible : Bool
  fileSize : Nat
  maps : Bool

namespace PkgManagerImpl

variable (manager : PkgManagerImpl)

/-- A new stream of a name, without references. -/
def allocate (fileName : Bytes) : Nat × PkgManagerImpl :=
  (manager.next, { manager with
    streams := Function.update manager.streams manager.next (some ⟨fileName, 0⟩)
    next := manager.next + 1 })

/-- `DoCreatePkgStream`. -/
def doCreatePkgStream (fileName : Bytes) (type : StreamType) (answers : FileAnswers) :
    Except Int (Nat × PkgManagerImpl) :=
  if type = .read ∧ answers.realPath = false then .error pkgInvalidFile
  else if answers.checkFile = false then .error pkgInvalidFile
  else
    match manager.pkgStreams fileName with
    | some stream =>
        .ok (stream, { manager with
          streams := Function.update manager.streams stream
            ((manager.streams stream).map PkgStreamImpl.addRef) })
    | none =>
        if answers.opens = false then .error pkgInvalidFile
        else .ok (manager.allocate fileName)

/-- The entry of a name, which replaces one that was there. -/
def register (fileName : Bytes) (stream : Nat) : PkgManagerImpl :=
  { manager with pkgStreams := Function.update manager.pkgStreams fileName (some stream) }

/-- `CreatePkgStream` with a size and a type. -/
def createPkgStream (fileName : Bytes) (size : Nat) (type : StreamType) (answers : FileAnswers) :
    Except Int (Nat × PkgManagerImpl) :=
  match type with
  | .write | .read =>
      match manager.doCreatePkgStream fileName type answers with
      | .error code => .error code
      | .ok (stream, manager) => .ok (stream, manager.register fileName stream)
  | .memoryMap | .fileMap =>
      if size = 0 ∧ answers.accessible = false then .error pkgInvalidFile
      else
        let fileSize := if size = 0 then answers.fileSize else size
        if fileSize = 0 then .error pkgInvalidFile
        else if answers.maps = false then .error pkgInvalidFile
        else
          let (stream, manager) := manager.allocate fileName
          .ok (stream, manager.register fileName stream)
  | .other => .error (-1)

/-- `CreatePkgStream` with a processor, shared memory, a buffer or a ring buffer. -/
def createPrivateStream (fileName : Bytes) : Nat × PkgManagerImpl :=
  manager.allocate fileName

/-- A stream is deleted. -/
def delete (stream : Nat) : PkgManagerImpl :=
  { manager with streams := Function.update manager.streams stream none }

/-- `ClosePkgStream`; nothing is said of a stream that was deleted before. -/
def closePkgStream (stream : Nat) : PkgManagerImpl :=
  match manager.streams stream with
  | none => manager
  | some mapStream =>
      match manager.pkgStreams mapStream.fileName with
      | none => manager.delete stream
      | some _ =>
          if mapStream.delRef.isRef then
            { manager with
              streams := Function.update manager.streams stream (some mapStream.delRef) }
          else
            { manager with
              pkgStreams := Function.update manager.pkgStreams mapStream.fileName none }.delete
                stream

section Parts

variable (fileName : Bytes) (stream : Nat)

@[simp] theorem allocate_fst : (manager.allocate fileName).1 = manager.next := rfl

@[simp] theorem allocate_pkgStreams :
    (manager.allocate fileName).2.pkgStreams = manager.pkgStreams := rfl

@[simp] theorem allocate_streams : (manager.allocate fileName).2.streams =
    Function.update manager.streams manager.next (some ⟨fileName, 0⟩) := rfl

@[simp] theorem allocate_next : (manager.allocate fileName).2.next = manager.next + 1 := rfl

@[simp] theorem register_pkgStreams : (manager.register fileName stream).pkgStreams =
    Function.update manager.pkgStreams fileName (some stream) := rfl

@[simp] theorem register_streams :
    (manager.register fileName stream).streams = manager.streams := rfl

@[simp] theorem register_next : (manager.register fileName stream).next = manager.next := rfl

@[simp] theorem delete_pkgStreams : (manager.delete stream).pkgStreams = manager.pkgStreams := rfl

@[simp] theorem delete_streams :
    (manager.delete stream).streams = Function.update manager.streams stream none := rfl

@[simp] theorem delete_next : (manager.delete stream).next = manager.next := rfl

end Parts

section Created

variable {manager} {fileName : Bytes} {type : StreamType} {answers : FileAnswers} {stream : Nat}
  {changed : PkgManagerImpl}

/-- The stream is a new one, or that of the name with one more reference. -/
theorem doCreatePkgStream_cases
    (made : manager.doCreatePkgStream fileName type answers = .ok (stream, changed)) :
    (stream = manager.next ∧ changed = (manager.allocate fileName).2) ∨
      (manager.pkgStreams fileName = some stream ∧ changed = { manager with
        streams := Function.update manager.streams stream
          ((manager.streams stream).map PkgStreamImpl.addRef) }) := by
  rw [doCreatePkgStream] at made
  split at made
  · cases made
  · split at made
    · cases made
    · split at made
      case h_1 found leads =>
        cases made
        exact .inr ⟨leads, rfl⟩
      case h_2 =>
        split at made
        · cases made
        · cases made
          exact .inl ⟨rfl, rfl⟩

theorem createPkgStream_cases {size : Nat}
    (made : manager.createPkgStream fileName size type answers = .ok (stream, changed)) :
    (stream = manager.next ∧
        changed = (manager.allocate fileName).2.register fileName manager.next) ∨
      (manager.pkgStreams fileName = some stream ∧ changed = register { manager with
        streams := Function.update manager.streams stream
          ((manager.streams stream).map PkgStreamImpl.addRef) } fileName stream) := by
  rw [createPkgStream.eq_def] at made
  split at made
  case h_1 | h_2 =>
    split at made
    · cases made
    case h_2 found between shared =>
      cases made
      cases doCreatePkgStream_cases shared with
      | inl new =>
          obtain ⟨rfl, rfl⟩ := new
          exact .inl ⟨rfl, rfl⟩
      | inr old =>
          obtain ⟨leads, rfl⟩ := old
          exact .inr ⟨leads, rfl⟩
  case h_3 | h_4 =>
    split at made
    · cases made
    · dsimp only at made
      generalize (if size = 0 then answers.fileSize else size) = fileSize at made
      split at made
      · cases made
      · split at made
        · cases made
        · cases made
          exact .inl ⟨rfl, rfl⟩
  case h_5 => cases made

end Created

end PkgManagerImpl

/-- A call of a user of the manager. -/
inductive Call where
  | createPkgStream (fileName : Bytes) (size : Nat) (type : StreamType) (answers : FileAnswers)
  | createPrivateStream (fileName : Bytes)
  | closePkgStream (stream : Nat)

/-- The manager, and how often the pointer to each stream was given out and not closed. -/
structure Usage where
  manager : PkgManagerImpl
  references : Nat → Nat

namespace Usage

variable (usage : Usage)

/-- A pointer is given out. -/
def given (stream : Nat) (manager : PkgManagerImpl) : Usage where
  manager := manager
  references := Function.update usage.references stream (usage.references stream + 1)

@[simp] theorem given_manager (stream : Nat) (manager : PkgManagerImpl) :
    (usage.given stream manager).manager = manager := rfl

@[simp] theorem given_references (stream : Nat) (manager : PkgManagerImpl) :
    (usage.given stream manager).references =
      Function.update usage.references stream (usage.references stream + 1) := rfl

def step : Call → Usage
  | .createPkgStream fileName size type answers =>
      match usage.manager.createPkgStream fileName size type answers with
      | .error _ => usage
      | .ok (stream, manager) => usage.given stream manager
  | .createPrivateStream fileName =>
      usage.given (usage.manager.createPrivateStream fileName).1
        (usage.manager.createPrivateStream fileName).2
  | .closePkgStream stream => {
      manager := usage.manager.closePkgStream stream
      references := Function.update usage.references stream (usage.references stream - 1) }

/-- Only pointers are closed that were given out and not closed as often. -/
def Allowed : Call → Prop
  | .closePkgStream stream => 0 < usage.references stream
  | _ => True

/-- What a call is to leave: a stream is there while it has references, each name leads to such a
stream, and a stream that is closed takes no other one with it. -/
structure Proper (call : Call) : Prop where
  deleted : ∀ stream, (usage.step call).manager.streams stream ≠ none ↔
    0 < (usage.step call).references stream
  lookup : ∀ fileName stream, (usage.step call).manager.pkgStreams fileName = some stream →
    (usage.step call).manager.streams stream ≠ none
  others : ∀ closed, call = .closePkgStream closed → ∀ fileName stream, stream ≠ closed →
    usage.manager.pkgStreams fileName = some stream →
      (usage.step call).manager.pkgStreams fileName = some stream ∧
        (usage.step call).manager.streams stream ≠ none

/-- When a call does so: a stream of a registered name has two references, or the last one and the
name leads to it; any other stream has the last one. -/
def Fits : Call → Prop
  | .closePkgStream stream => ∀ impl, usage.manager.streams stream = some impl →
      match usage.manager.pkgStreams impl.fileName with
      | none => usage.references stream = 1
      | some entry => usage.references stream % 2 ^ 32 = 2 ∨
          (usage.references stream = 1 ∧ entry = stream)
  | _ => True

/-- What holds as long as each call fits. -/
structure Sound : Prop where
  deleted : ∀ stream, usage.manager.streams stream ≠ none ↔ 0 < usage.references stream
  counted : ∀ stream impl, usage.manager.streams stream = some impl →
    impl.refCount + 1 = BitVec.ofNat 32 (usage.references stream)
  lookup : ∀ fileName stream, usage.manager.pkgStreams fileName = some stream →
    ∃ impl, usage.manager.streams stream = some impl ∧ impl.fileName = fileName
  unborn : ∀ stream, usage.manager.next ≤ stream → usage.manager.streams stream = none

section Sound

variable {usage} {fileName : Bytes} {stream : Nat}

theorem Sound.unborn_references (sound : usage.Sound) (behind : usage.manager.next ≤ stream) :
    usage.references stream = 0 := by
  by_contra some_
  exact (sound.deleted stream).mpr (Nat.pos_of_ne_zero some_) (sound.unborn stream behind)

/-- The name of a stream may lead to it. -/
theorem Sound.register (sound : usage.Sound) {impl : PkgStreamImpl}
    (there : usage.manager.streams stream = some impl) (named : impl.fileName = fileName) :
    Sound ⟨usage.manager.register fileName stream, usage.references⟩ := by
  refine ⟨sound.deleted, sound.counted, fun other found leads => ?_, sound.unborn⟩
  rw [PkgManagerImpl.register_streams]
  rw [PkgManagerImpl.register_pkgStreams] at leads
  by_cases same : other = fileName
  · rw [same, Function.update_self] at leads
    cases leads
    exact ⟨impl, there, named.trans same.symm⟩
  · rw [Function.update_of_ne same] at leads
    exact sound.lookup other found leads

theorem Sound.allocate (sound : usage.Sound) (fileName : Bytes) :
    (usage.given usage.manager.next (usage.manager.allocate fileName).2).Sound := by
  have none_ := sound.unborn_references (Nat.le_refl _)
  constructor
  case deleted =>
    intro stream
    rw [given_manager, given_references, PkgManagerImpl.allocate_streams]
    by_cases new : stream = usage.manager.next
    · rw [new, Function.update_self, Function.update_self]
      exact iff_of_true nofun (Nat.succ_pos _)
    · rw [Function.update_of_ne new, Function.update_of_ne new]
      exact sound.deleted stream
  case counted =>
    intro stream impl there
    rw [given_manager, PkgManagerImpl.allocate_streams] at there
    rw [given_references]
    by_cases new : stream = usage.manager.next
    · rw [new, Function.update_self] at there
      cases there
      rw [new, Function.update_self, none_]
      rfl
    · rw [Function.update_of_ne new] at there ⊢
      exact sound.counted stream impl there
  case lookup =>
    intro other stream leads
    obtain ⟨impl, there, named⟩ := sound.lookup other stream leads
    have old : stream ≠ usage.manager.next := fun new => by
      rw [new, sound.unborn _ (Nat.le_refl _)] at there
      cases there
    exact ⟨impl, (Function.update_of_ne old _ _).trans there, named⟩
  case unborn =>
    intro stream behind
    have new : stream ≠ usage.manager.next := fun same => by
      rw [same] at behind
      exact absurd behind (Nat.not_succ_le_self _)
    exact (Function.update_of_ne new _ _).trans (sound.unborn stream (Nat.le_of_succ_le behind))

/-- A stream with another number of references, counted as the change of the stream says. -/
theorem Sound.recount (sound : usage.Sound) {impl changed : PkgStreamImpl} {references : Nat}
    (there : usage.manager.streams stream = some impl) (named : changed.fileName = impl.fileName)
    (some_ : 0 < references) (counted : changed.refCount + 1 = BitVec.ofNat 32 references) :
    Sound ⟨{ usage.manager with
        streams := Function.update usage.manager.streams stream (some changed) },
      Function.update usage.references stream references⟩ := by
  constructor
  case deleted =>
    intro other
    dsimp only
    by_cases same : other = stream
    · rw [same, Function.update_self, Function.update_self]
      exact iff_of_true nofun some_
    · rw [Function.update_of_ne same, Function.update_of_ne same]
      exact sound.deleted other
  case counted =>
    intro other found present
    dsimp only at present ⊢
    by_cases same : other = stream
    · rw [same, Function.update_self] at present ⊢
      cases present
      exact counted
    · rw [Function.update_of_ne same] at present ⊢
      exact sound.counted other found present
  case lookup =>
    intro name other leads
    obtain ⟨found, present, leadsTo⟩ := sound.lookup name other leads
    by_cases same : other = stream
    · rw [same, there] at present
      cases present
      exact ⟨changed, same ▸ Function.update_self _ _ _, named.trans leadsTo⟩
    · exact ⟨found, (Function.update_of_ne same _ _).trans present, leadsTo⟩
  case unborn =>
    intro other behind
    have old : other ≠ stream := fun same => by
      rw [← same, sound.unborn other behind] at there
      cases there
    exact (Function.update_of_ne old _ _).trans (sound.unborn other behind)

/-- A stream may go with its last reference once no name leads to it. -/
theorem Sound.delete (sound : usage.Sound) {pkgStreams : Bytes → Option Nat}
    (fewer : ∀ name other, pkgStreams name = some other →
      usage.manager.pkgStreams name = some other ∧ other ≠ stream) :
    Sound ⟨PkgManagerImpl.delete { usage.manager with pkgStreams := pkgStreams } stream,
      Function.update usage.references stream 0⟩ := by
  constructor
  case deleted =>
    intro other
    rw [PkgManagerImpl.delete_streams]
    dsimp only
    by_cases same : other = stream
    · rw [same, Function.update_self, Function.update_self]
      exact iff_of_false (fun held => held rfl) (Nat.lt_irrefl 0)
    · rw [Function.update_of_ne same, Function.update_of_ne same]
      exact sound.deleted other
  case counted =>
    intro other found present
    rw [PkgManagerImpl.delete_streams] at present
    dsimp only at present ⊢
    by_cases same : other = stream
    · rw [same, Function.update_self] at present
      cases present
    · rw [Function.update_of_ne same] at present ⊢
      exact sound.counted other found present
  case lookup =>
    intro name other leads
    obtain ⟨led, old⟩ := fewer name other leads
    obtain ⟨found, present, named⟩ := sound.lookup name other led
    exact ⟨found, (Function.update_of_ne old _ _).trans present, named⟩
  case unborn =>
    intro other behind
    rw [PkgManagerImpl.delete_streams]
    by_cases same : other = stream
    · rw [same, Function.update_self]
    · rw [Function.update_of_ne same]
      exact sound.unborn other behind

theorem Sound.create (sound : usage.Sound) (fileName : Bytes) (size : Nat) (type : StreamType)
    (answers : FileAnswers) :
    (usage.step (.createPkgStream fileName size type answers)).Sound := by
  rw [step]
  cases made : usage.manager.createPkgStream fileName size type answers with
  | error code => exact sound
  | ok created =>
      obtain ⟨stream, manager⟩ := created
      cases PkgManagerImpl.createPkgStream_cases made with
      | inl new =>
          obtain ⟨rfl, rfl⟩ := new
          exact (sound.allocate fileName).register (Function.update_self _ _ _) rfl
      | inr shared =>
          obtain ⟨leads, rfl⟩ := shared
          obtain ⟨impl, there, named⟩ := sound.lookup fileName stream leads
          have counted : impl.addRef.refCount + 1 =
              BitVec.ofNat 32 (usage.references stream + 1) := by
            rw [PkgStreamImpl.addRef, sound.counted stream impl there, BitVec.ofNat_add]
            rfl
          have recounted := sound.recount there (rfl : impl.addRef.fileName = impl.fileName)
            (Nat.succ_pos _) counted
          rw [there, Option.map_some]
          exact recounted.register (Function.update_self _ _ _) named

theorem closePkgStream_private {impl : PkgStreamImpl}
    (there : usage.manager.streams stream = some impl)
    (none_ : usage.manager.pkgStreams impl.fileName = none) :
    usage.manager.closePkgStream stream = usage.manager.delete stream := by
  rw [PkgManagerImpl.closePkgStream, there]
  dsimp only
  rw [none_]

/-- The second reference is taken for a use of the stream, and any other number for none. -/
theorem closePkgStream_registered (sound : usage.Sound) {impl : PkgStreamImpl} {entry : Nat}
    (there : usage.manager.streams stream = some impl)
    (leads : usage.manager.pkgStreams impl.fileName = some entry) :
    usage.manager.closePkgStream stream =
      if usage.references stream % 2 ^ 32 = 2 then
        { usage.manager with
          streams := Function.update usage.manager.streams stream (some impl.delRef) }
      else
        PkgManagerImpl.delete { usage.manager with
          pkgStreams := Function.update usage.manager.pkgStreams impl.fileName none } stream := by
  have second : impl.delRef.isRef = true ↔ usage.references stream % 2 ^ 32 = 2 := by
    have counted := sound.counted stream impl there
    rw [PkgStreamImpl.isRef, PkgStreamImpl.delRef, decide_eq_true_iff]
    generalize impl.refCount = count at counted
    generalize usage.references stream = references at counted
    constructor
    · intro zero
      have one : count = 1 := by bv_omega
      rw [one] at counted
      have same := congrArg BitVec.toNat counted
      rw [BitVec.toNat_ofNat] at same
      exact same.symm
    · intro two
      have same : BitVec.ofNat 32 references = 2 := by
        apply BitVec.eq_of_toNat_eq
        rw [BitVec.toNat_ofNat, two]
        rfl
      rw [same] at counted
      bv_omega
  rw [PkgManagerImpl.closePkgStream, there]
  dsimp only
  rw [leads]
  dsimp only
  by_cases two : usage.references stream % 2 ^ 32 = 2
  · rw [if_pos (second.mpr two), if_pos two]
  · rw [if_neg fun held => two (second.mp held), if_neg two]

/-- A call that fits leaves the manager sound. -/
theorem Sound.step {call : Call} (sound : usage.Sound) (allowed : usage.Allowed call)
    (fits : usage.Fits call) : (usage.step call).Sound := by
  cases call with
  | createPkgStream fileName size type answers => exact sound.create fileName size type answers
  | createPrivateStream fileName => exact sound.allocate fileName
  | closePkgStream stream =>
      have present := (sound.deleted stream).mpr allowed
      obtain ⟨impl, there⟩ := Option.ne_none_iff_exists'.mp present
      have fits := fits impl there
      rw [Usage.step]
      cases leads : usage.manager.pkgStreams impl.fileName with
      | none =>
          rw [leads] at fits
          rw [closePkgStream_private there leads, fits]
          exact sound.delete fun name other ledTo => ⟨ledTo, fun same => by
            obtain ⟨found, present, named⟩ := sound.lookup name other ledTo
            rw [same, there] at present
            cases present
            rw [named, ledTo] at leads
            cases leads⟩
      | some entry =>
          rw [leads] at fits
          rw [closePkgStream_registered sound there leads]
          cases fits with
          | inl second =>
              rw [if_pos second]
              have counted := sound.counted stream impl there
              have references : impl.delRef.refCount + 1 =
                  BitVec.ofNat 32 (usage.references stream - 1) := by
                rw [PkgStreamImpl.delRef]
                bv_omega
              exact sound.recount there (rfl : impl.delRef.fileName = impl.fileName)
                (by omega) references
          | inr last =>
              obtain ⟨one, rfl⟩ := last
              rw [if_neg (by rw [one]; decide), one]
              refine sound.delete fun name other ledTo => ?_
              by_cases same : name = impl.fileName
              · rw [same, Function.update_self] at ledTo
                cases ledTo
              · rw [Function.update_of_ne same] at ledTo
                refine ⟨ledTo, fun own => ?_⟩
                obtain ⟨found, present, named⟩ := sound.lookup name other ledTo
                rw [own, there] at present
                cases present
                exact same named.symm

/-- Whether a call does what it should shows in the state before it. -/
theorem Sound.proper_iff {call : Call} (sound : usage.Sound) (allowed : usage.Allowed call) :
    usage.Proper call ↔ usage.Fits call := by
  constructor
  · intro proper
    cases call with
    | createPkgStream fileName size type answers => trivial
    | createPrivateStream fileName => trivial
    | closePkgStream stream =>
        intro impl there
        have deleted := proper.deleted stream
        have others := proper.others stream rfl impl.fileName
        rw [Usage.step] at deleted others
        dsimp only at deleted others
        rw [Function.update_self] at deleted
        have some_ : 0 < usage.references stream := allowed
        cases leads : usage.manager.pkgStreams impl.fileName with
        | none =>
            rw [closePkgStream_private there leads, PkgManagerImpl.delete_streams,
              Function.update_self] at deleted
            have none_ := (not_congr deleted).mp fun held => held rfl
            dsimp only
            omega
        | some entry =>
            dsimp only
            by_cases second : usage.references stream % 2 ^ 32 = 2
            · exact .inl second
            · rw [closePkgStream_registered sound there leads, if_neg second] at deleted others
              rw [PkgManagerImpl.delete_streams, Function.update_self] at deleted
              have none_ := (not_congr deleted).mp fun held => held rfl
              refine .inr ⟨by omega, ?_⟩
              by_contra other
              have stays := (others entry other leads).1
              rw [PkgManagerImpl.delete_pkgStreams] at stays
              dsimp only at stays
              rw [Function.update_self] at stays
              cases stays
  · intro fits
    have after := sound.step allowed fits
    refine ⟨after.deleted, fun fileName stream leads => ?_, ?_⟩
    · obtain ⟨impl, there, -⟩ := after.lookup fileName stream leads
      rw [there]
      exact nofun
    · rintro closed rfl fileName stream other leads
      obtain ⟨found, present, named⟩ := sound.lookup fileName stream leads
      have stays : (usage.step (.closePkgStream closed)).manager.pkgStreams fileName =
          some stream := by
        obtain ⟨impl, closes⟩ := Option.ne_none_iff_exists'.mp ((sound.deleted closed).mpr allowed)
        have fits := fits impl closes
        rw [Usage.step]
        dsimp only
        cases own : usage.manager.pkgStreams impl.fileName with
        | none =>
            rw [closePkgStream_private closes own]
            exact leads
        | some entry =>
            rw [own] at fits
            rw [closePkgStream_registered sound closes own]
            cases fits with
            | inl second =>
                rw [if_pos second]
                exact leads
            | inr last =>
                obtain ⟨one, rfl⟩ := last
                have apart : fileName ≠ impl.fileName := fun same => by
                  rw [same, own] at leads
                  cases leads
                  exact other rfl
                rw [if_neg (by rw [one]; decide), PkgManagerImpl.delete_pkgStreams]
                exact (Function.update_of_ne apart _ _).trans leads
      obtain ⟨impl, there, -⟩ := after.lookup fileName stream stays
      refine ⟨stays, ?_⟩
      rw [there]
      exact nofun

end Sound

/-- A manager before the first call. -/
def start : Usage where
  manager := { pkgStreams := fun _ => none, streams := fun _ => none, next := 0 }
  references := fun _ => 0

theorem start_sound : start.Sound :=
  ⟨fun _ => iff_of_false (fun held => held rfl) (Nat.lt_irrefl 0), nofun, nofun, fun _ _ => rfl⟩

instance (usage : Usage) : DecidablePred usage.Allowed
  | .closePkgStream stream => inferInstanceAs (Decidable (0 < usage.references stream))
  | .createPkgStream .. => isTrue trivial
  | .createPrivateStream _ => isTrue trivial

/-- Over any sequence of calls, streams are deleted with their last references and leave the others
alone if and only if each stream that is closed has its last reference, and its name leads to no
other one, or has two and its name leads to a stream. -/
theorem calls_proper_iff (calls : List Call) (allowed : EachStep step Allowed start calls) :
    EachStep step Proper start calls ↔ EachStep step Fits start calls :=
  eachStep_iff (fun _ _ sound now => sound.proper_iff now)
    (fun _ _ sound now fits => sound.step now fits) start_sound allowed

def someAnswers : FileAnswers where
  realPath := true
  checkFile := true
  opens := true
  accessible := true
  fileSize := 8
  maps := true

/-- A file that is opened for reading. -/
def opening : Call :=
  .createPkgStream (ascii "update.bin") 0 .read someAnswers

theorem twoReaders_proper :
    EachStep step Proper start [opening, opening, .closePkgStream 0, .closePkgStream 0] := by
  refine (calls_proper_iff _ (by decide)).mpr ⟨trivial, trivial, ?_, ?_, trivial⟩
  · rintro impl there
    cases there
    exact .inl rfl
  · rintro impl there
    cases there
    exact .inr ⟨rfl, rfl⟩

/-- The first of three readers that closes the stream deletes it. -/
theorem threeReaders_deleted :
    EachStep step Allowed start [opening, opening, opening, .closePkgStream 0] ∧
      ¬EachStep step Proper start [opening, opening, opening, .closePkgStream 0] := by
  refine ⟨by decide, fun proper => ?_⟩
  obtain ⟨-, -, -, closed, -⟩ := proper
  exact absurd ((closed.deleted 0).mpr (by decide)) (by decide)

end Usage

end Updater.Package.StreamRegistry
