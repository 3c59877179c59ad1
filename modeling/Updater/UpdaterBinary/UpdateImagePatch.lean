import Updater.Base.Bytes

/-! `USInstrImagePatch`: patches a partition from a backup of it, and what executions that
are cut off leave to the next one. -/

set_option autoImplicit false

namespace Updater.UpdaterBinary

open Updater.Base

/-- What stays over a crash: the partition, its backup file and the record of
`PartitionRecord` that it was updated. -/
structure ImageDisk where
  device : Bytes
  backup : Option Bytes
  updated : Bool
  deriving DecidableEq, Repr

/-- A change that stays. -/
inductive Effect where
  | createBackup
  | appendBackup (byte : UInt8)
  | writeDevice (position : Nat) (byte : UInt8)
  | recordUpdated
  | unlinkBackup
  deriving DecidableEq, Repr

def Effect.apply (disk : ImageDisk) : Effect → ImageDisk
  | .createBackup => { disk with backup := some [] }
  | .appendBackup byte => { disk with backup := disk.backup.map (· ++ [byte]) }
  | .writeDevice position byte => { disk with device := writeAt disk.device position [byte] }
  | .recordUpdated => { disk with updated := true }
  | .unlinkBackup => { disk with backup := none }

/-- `tolower` and `toupper` on hexadecimal digits. -/
def toLower (text : Bytes) : Bytes :=
  text.map fun char => if 65 ≤ char ∧ char ≤ 90 then char + 32 else char

def toUpper (text : Bytes) : Bytes :=
  text.map fun char => if 97 ≤ char ∧ char ≤ 122 then char - 32 else char

/-- The instruction: its hashes, `GeneraterBufferHash`, and what its patch makes of a
source: the bytes it writes, and whether it gets to its end. -/
structure ImagePatchPara where
  srcHash : Bytes
  destHash : Bytes
  sha : Bytes → Bytes
  patch : Bytes → Bytes × Bool

/-- What an execution does: its effects, what it returns, and the source it patches. -/
structure Execution where
  effects : List Effect
  ret : Int
  source : Option Bytes
  deriving DecidableEq, Repr

/-- The bytes of a sequence of writes from a position on. -/
def deviceWrites (position : Nat) : Bytes → List Effect
  | [] => []
  | byte :: rest => .writeDevice position byte :: deviceWrites (position + 1) rest

namespace ImagePatchPara

variable (para : ImagePatchPara)

/-- `GetFileHash`; a file of no bytes cannot be mapped. -/
def getFileHash (file : Bytes) : Bytes :=
  if file = [] then [] else toUpper (para.sha file)

/-- `CopyFile` from the partition to the backup, which has to have a byte. -/
def copyFile (disk : ImageDisk) : List Effect × Option Bytes :=
  (.createBackup :: disk.device.map .appendBackup,
    if disk.device = [] then none else some disk.device)

/-- `GetSourceFile`: its effects and the source. -/
def getSourceFile (disk : ImageDisk) : List Effect × Option Bytes :=
  match disk.backup with
  | none => copyFile disk
  | some backup =>
      if para.getFileHash backup ≠ para.srcHash then ([], some backup) else copyFile disk

/-- `ExecuteImagePatch`. -/
def executeImagePatch (isRetry : Bool) (disk : ImageDisk) : Execution :=
  if isRetry && disk.updated then { effects := [], ret := 0, source := none }
  else
    match para.getSourceFile disk with
    | (effects, none) => { effects, ret := -1, source := none }
    | (effects, some source) =>
        -- `PatchMapFile`
        if source = [] then { effects, ret := -1, source := none }
        else
          let (output, done) := para.patch source
          let effects := effects ++ deviceWrites 0 output
          if done && para.sha output = toLower para.destHash then
            { effects := effects ++ [.recordUpdated, .unlinkBackup], ret := 0, source := some source }
          else { effects, ret := -1, source := some source }

/-- An execution, or one that is cut off behind some of its effects. -/
structure Attempt where
  isRetry : Bool
  crash : Option Nat
  deriving DecidableEq, Repr

def attemptEffects (disk : ImageDisk) (attempt : Attempt) : List Effect :=
  let effects := (para.executeImagePatch attempt.isRetry disk).effects
  match attempt.crash with
  | none => effects
  | some count => effects.take count

/-- What an attempt leaves. -/
def attemptDisk (disk : ImageDisk) (attempt : Attempt) : ImageDisk :=
  (para.attemptEffects disk attempt).foldl Effect.apply disk

/-- A successful execution leaves the new image, and only a source with the declared
hash is patched. -/
structure AttemptSafe (image : Bytes) (disk : ImageDisk) (attempt : Attempt) : Prop where
  success : attempt.crash = none → (para.executeImagePatch attempt.isRetry disk).ret = 0 →
    (para.attemptDisk disk attempt).device.take image.length = image
  source : ∀ source ∈ (para.executeImagePatch attempt.isRetry disk).source,
    para.getFileHash source = para.srcHash

/-- An execution can make no mistake: it skips the partition, or that has its original
content and a backup, if there is one, has its hash or no bytes. -/
def SourceIntact (original : Bytes) (disk : ImageDisk) (attempt : Attempt) : Prop :=
  (attempt.isRetry && disk.updated) = true ∨
    disk.backup = some [] ∧ para.srcHash ≠ [] ∨
      disk.device = original ∧ ∀ backup ∈ disk.backup, para.getFileHash backup = para.srcHash

end ImagePatchPara

theorem length_writeAt_byte {device : Bytes} {position : Nat} (inside : position ≤ device.length)
    (byte : UInt8) : position + 1 ≤ (writeAt device position [byte]).length := by
  simp only [writeAt, List.length_append, List.length_take, List.length_drop, List.length_singleton]
  omega

theorem writeAt_cons {device : Bytes} {position : Nat} (inside : position ≤ device.length)
    (byte : UInt8) (rest : Bytes) :
    writeAt (writeAt device position [byte]) (position + 1) rest =
      writeAt device position (byte :: rest) := by
  have length := length_writeAt_byte inside byte
  apply List.ext_getElem?
  intro index
  rw [getElem?_writeAt (by omega), getElem?_writeAt (by omega), getElem?_writeAt (by omega),
    List.length_singleton, List.length_cons]
  rcases Nat.lt_trichotomy index position with before | rfl | behind
  · rw [if_pos (by omega), if_pos before, if_pos before]
  · rw [if_pos (by omega), if_neg (by omega), if_pos (by omega), if_neg (by omega),
      if_pos (by omega), Nat.sub_self]
    rfl
  · have first : ¬ index < position + 1 := by omega
    have second : ¬ index < position := by omega
    simp only [if_neg first, if_neg second]
    by_cases written : index < position + 1 + rest.length
    · have shift : index - position = index - (position + 1) + 1 := by omega
      rw [if_pos written, if_pos (show index < position + (rest.length + 1) by omega), shift,
        List.getElem?_cons_succ]
    · rw [if_neg written, if_neg (show ¬ index < position + (rest.length + 1) by omega)]

theorem foldl_deviceWrites {disk : ImageDisk} {position : Nat} {data : Bytes}
    (inside : position ≤ disk.device.length) :
    (deviceWrites position data).foldl Effect.apply disk =
      { disk with device := writeAt disk.device position data } := by
  induction data generalizing disk position with
  | nil =>
      have unchanged : writeAt disk.device position [] = disk.device := by
        rw [writeAt, List.append_nil, List.length_nil, Nat.add_zero, List.take_append_drop]
      rw [deviceWrites, List.foldl_nil, unchanged]
  | cons byte rest ih =>
      have length := length_writeAt_byte inside byte
      rw [deviceWrites, List.foldl_cons, Effect.apply, ih length]
      dsimp only
      rw [writeAt_cons inside]

theorem take_deviceWrites (position count : Nat) (data : Bytes) :
    (deviceWrites position data).take count = deviceWrites position (data.take count) := by
  induction data generalizing position count with
  | nil => rw [deviceWrites, List.take_nil, List.take_nil, deviceWrites]
  | cons byte rest ih =>
      cases count with
      | zero => rfl
      | succ count =>
          rw [deviceWrites, List.take_succ_cons, ih, List.take_succ_cons, deviceWrites]

theorem length_deviceWrites (position : Nat) (data : Bytes) :
    (deviceWrites position data).length = data.length := by
  induction data generalizing position with
  | nil => rfl
  | cons byte rest ih => rw [deviceWrites, List.length_cons, List.length_cons, ih]

theorem foldl_appendBackup (disk : ImageDisk) (data : Bytes) :
    ((data.map Effect.appendBackup).foldl Effect.apply disk).device = disk.device ∧
      ((data.map Effect.appendBackup).foldl Effect.apply disk).updated = disk.updated := by
  induction data generalizing disk with
  | nil => exact ⟨rfl, rfl⟩
  | cons byte data ih => exact ih _

/-- The image is where the record says so. -/
def RecordTrue (image : Bytes) (disk : ImageDisk) : Prop :=
  disk.updated = true → disk.device.take image.length = image

section

variable {para : ImagePatchPara} {original image : Bytes} {disk : ImageDisk}

/-- Effects of a copy leave the partition and the record alone. -/
theorem copyFile_effects (disk : ImageDisk) (count : Nat) :
    (((ImagePatchPara.copyFile disk).1.take count).foldl Effect.apply disk).device = disk.device ∧
      (((ImagePatchPara.copyFile disk).1.take count).foldl Effect.apply disk).updated =
        disk.updated := by
  unfold ImagePatchPara.copyFile
  cases count with
  | zero => exact ⟨rfl, rfl⟩
  | succ count =>
      rw [List.take_succ_cons, List.foldl_cons, ← List.map_take]
      exact foldl_appendBackup _ _

/-- Writing over an image what it begins with leaves it. -/
theorem take_writeAt_self {data : Bytes} (here : data.take image.length = image) (count : Nat) :
    (writeAt data 0 (image.take count)).take image.length = image := by
  have long : image.length ≤ data.length := by
    have length := congrArg List.length here
    rw [List.length_take] at length
    omega
  have first : image.take count = data.take (min count image.length) := by
    rw [← List.take_take, here]
  have length : (data.take (min count image.length)).length = min count image.length :=
    List.length_take_of_le (by omega)
  have same : writeAt data 0 (image.take count) = data := by
    rw [first, writeAt, List.take_zero, List.nil_append, Nat.zero_add, length,
      List.take_append_drop]
  rw [same, here]

theorem take_writeAt_all (data : Bytes) : (writeAt data 0 image).take image.length = image := by
  rw [writeAt, List.take_zero, List.nil_append, List.take_left]

/-- The patch is correct: from the original content it makes an image of the declared
hash, and the content has the declared hash itself. -/
structure Correct (para : ImagePatchPara) (original image : Bytes) : Prop where
  patch : para.patch original = (image, true)
  srcHash : para.getFileHash original = para.srcHash
  destHash : para.sha image = toLower para.destHash

/-- No backup, or one with the declared hash, is written anew. -/
theorem getSourceFile_copies
    (backup : ∀ backup ∈ disk.backup, para.getFileHash backup = para.srcHash) :
    para.getSourceFile disk = ImagePatchPara.copyFile disk := by
  unfold ImagePatchPara.getSourceFile
  cases found : disk.backup with
  | none => rfl
  | some file =>
      dsimp only
      rw [if_neg (not_not.mpr (backup file found))]

/-- From the original content, an execution copies it, writes the image and records that. -/
theorem executeImagePatch_intact (correct : Correct para original image) (some : original ≠ [])
    {isRetry : Bool} (runs : (isRetry && disk.updated) = false) (device : disk.device = original)
    (backup : ∀ backup ∈ disk.backup, para.getFileHash backup = para.srcHash) :
    para.executeImagePatch isRetry disk = {
      effects := (ImagePatchPara.copyFile disk).1 ++ deviceWrites 0 image ++
        [.recordUpdated, .unlinkBackup]
      ret := 0
      source := Option.some original } := by
  have chosen : para.getSourceFile disk =
      ((ImagePatchPara.copyFile disk).1, Option.some original) := by
    rw [getSourceFile_copies backup]
    simp only [ImagePatchPara.copyFile, device, if_neg some]
  simp only [ImagePatchPara.executeImagePatch, runs, chosen, correct.patch, correct.destHash,
    if_neg some, Bool.true_and, decide_true, if_true, Bool.false_eq_true, if_false]

/-- Every prefix of these effects keeps the record true. -/
theorem recordTrue_taken (record : RecordTrue image disk) (device : disk.device = original)
    (count : Nat) :
    RecordTrue image ((((ImagePatchPara.copyFile disk).1 ++ deviceWrites 0 image ++
      [Effect.recordUpdated, Effect.unlinkBackup]).take count).foldl Effect.apply disk) := by
  rw [List.take_append, List.take_append, List.foldl_append, List.foldl_append,
    take_deviceWrites]
  obtain ⟨copied, kept⟩ := copyFile_effects disk count
  generalize List.foldl Effect.apply disk ((ImagePatchPara.copyFile disk).1.take count) = copy
    at copied kept ⊢
  rw [foldl_deviceWrites (Nat.zero_le _), copied, device]
  generalize behind : count - (ImagePatchPara.copyFile disk).1.length = written
  generalize last : count - ((ImagePatchPara.copyFile disk).1 ++ deviceWrites 0 image).length = rest
  cases rest with
  | zero =>
      intro updated
      have before := record (kept.symm.trans updated)
      rw [device] at before
      exact take_writeAt_self before written
  | succ rest =>
      have all : image.take written = image := by
        apply List.take_of_length_le
        rw [List.length_append, length_deviceWrites] at last
        omega
      rw [all]
      intro _
      cases rest with
      | zero => exact take_writeAt_all original
      | succ rest =>
          rw [List.take_succ_cons, List.take_succ_cons, List.take_nil]
          exact take_writeAt_all original

/-- An attempt applies the first effects of its execution, all of them if it is not cut off. -/
theorem attemptDisk_take (para : ImagePatchPara) (disk : ImageDisk)
    (attempt : ImagePatchPara.Attempt) :
    ∃ count, para.attemptDisk disk attempt =
        (((para.executeImagePatch attempt.isRetry disk).effects.take count).foldl Effect.apply disk) ∧
      (attempt.crash = none →
        (para.executeImagePatch attempt.isRetry disk).effects.length ≤ count) := by
  unfold ImagePatchPara.attemptDisk ImagePatchPara.attemptEffects
  cases attempt.crash with
  | none => exact ⟨_, by rw [List.take_length], fun _ => Nat.le_refl _⟩
  | some count => exact ⟨count, rfl, nofun⟩

/-- An execution that patches nothing and leaves the partition and the record alone. -/
theorem attempt_safe_idle {attempt : ImagePatchPara.Attempt} (record : RecordTrue image disk)
    (source : (para.executeImagePatch attempt.isRetry disk).source = none)
    (kept : ∀ count,
      (((para.executeImagePatch attempt.isRetry disk).effects.take count).foldl Effect.apply
        disk).device = disk.device ∧
      (((para.executeImagePatch attempt.isRetry disk).effects.take count).foldl Effect.apply
        disk).updated = disk.updated)
    (here : (para.executeImagePatch attempt.isRetry disk).ret = 0 → disk.updated = true) :
    para.AttemptSafe image disk attempt ∧ RecordTrue image (para.attemptDisk disk attempt) := by
  obtain ⟨count, left, -⟩ := attemptDisk_take para disk attempt
  obtain ⟨device, updated⟩ := kept count
  rw [← left] at device updated
  refine ⟨⟨?_, ?_⟩, ?_⟩
  · intro _ success
    rw [device]
    exact record (here success)
  · rw [source]
    exact nofun
  · intro marked
    rw [device]
    exact record (updated.symm.trans marked)

/-- Step lemma: an attempt that can make no mistake makes none, and leaves a true record. -/
theorem attempt_safe (correct : Correct para original image) (record : RecordTrue image disk)
    {attempt : ImagePatchPara.Attempt} (intact : para.SourceIntact original disk attempt) :
    para.AttemptSafe image disk attempt ∧ RecordTrue image (para.attemptDisk disk attempt) := by
  have nothing (count : Nat) :
      ((([] : List Effect).take count).foldl Effect.apply disk).device = disk.device ∧
        ((([] : List Effect).take count).foldl Effect.apply disk).updated = disk.updated := by
    rw [List.take_nil]
    exact ⟨rfl, rfl⟩
  cases runs : attempt.isRetry && disk.updated with
  | true =>
      -- the partition is skipped
      have skipped : para.executeImagePatch attempt.isRetry disk =
          { effects := [], ret := 0, source := none } := by
        rw [ImagePatchPara.executeImagePatch, if_pos runs]
      apply attempt_safe_idle record
      · rw [skipped]
      · rw [skipped]
        exact nothing
      · intro _
        exact (Bool.and_eq_true_iff.mp runs).2
  | false =>
      rcases intact with impossible | ⟨empty, nonempty⟩ | ⟨device, backup⟩
      · rw [runs] at impossible
        cases impossible
      · -- a backup of no bytes is taken and cannot be mapped
        have unmapped : para.executeImagePatch attempt.isRetry disk =
            { effects := [], ret := -1, source := none } := by
          simp only [ImagePatchPara.executeImagePatch, runs, ImagePatchPara.getSourceFile, empty,
            ImagePatchPara.getFileHash, if_true, ne_eq, nonempty.symm, not_false_eq_true,
            Bool.false_eq_true, if_false]
        apply attempt_safe_idle record
        · rw [unmapped]
        · rw [unmapped]
          exact nothing
        · rw [unmapped]
          intro success
          cases success
      · by_cases none : original = []
        · -- so has the partition
          have uncopied : para.executeImagePatch attempt.isRetry disk =
              { effects := (ImagePatchPara.copyFile disk).1, ret := -1, source := Option.none } := by
            have empty := device.trans none
            simp only [ImagePatchPara.executeImagePatch, runs, getSourceFile_copies backup,
              ImagePatchPara.copyFile, empty, if_true, Bool.false_eq_true, if_false]
          apply attempt_safe_idle record
          · rw [uncopied]
          · rw [uncopied]
            exact copyFile_effects disk
          · rw [uncopied]
            intro success
            cases success
        · have executed := executeImagePatch_intact correct none runs device backup
          obtain ⟨count, left, complete⟩ := attemptDisk_take para disk attempt
          have recorded := @recordTrue_taken original image disk record device count
          rw [executed] at left complete
          rw [← left] at recorded
          refine ⟨⟨?_, ?_⟩, recorded⟩
          · intro whole _
            apply recorded
            rw [left, List.take_of_length_le (complete whole), List.foldl_append]
            rfl
          · rw [executed]
            intro source member
            cases member
            exact correct.srcHash

/-- The partition as the instruction finds it first. -/
def ImageDisk.start (original : Bytes) : ImageDisk where
  device := original
  backup := none
  updated := false

/-- Attempts that can make no mistake, one after another. -/
inductive IntactAttempts (para : ImagePatchPara) (original : Bytes) : ImageDisk → Prop where
  | start : IntactAttempts para original (.start original)
  | attempt {disk : ImageDisk} {attempt : ImagePatchPara.Attempt} :
      IntactAttempts para original disk → para.SourceIntact original disk attempt →
      IntactAttempts para original (para.attemptDisk disk attempt)

/-- Run lemma. -/
theorem IntactAttempts.recordTrue (correct : Correct para original image)
    (attempts : IntactAttempts para original disk) : RecordTrue image disk := by
  induction attempts with
  | start => exact nofun
  | attempt _ intact ih => exact (attempt_safe correct ih intact).2

/-- However often an execution is cut off: as long as every one finds its source intact,
all are safe. -/
theorem imagePatch_safe (correct : Correct para original image)
    (attempts : IntactAttempts para original disk) {attempt : ImagePatchPara.Attempt}
    (intact : para.SourceIntact original disk attempt) : para.AttemptSafe image disk attempt :=
  (attempt_safe correct (attempts.recordTrue correct) intact).1

/-- A patch that turns two bytes around; each content is its own hash. -/
def turnAround : ImagePatchPara where
  srcHash := [49, 50]
  destHash := [50, 49]
  sha := id
  patch := fun source => (source.reverse, true)

theorem turnAround_correct : Correct turnAround [49, 50] [50, 49] := by
  constructor
  · rfl
  · decide
  · decide

/-- Cut off behind the backup, and executed again. -/
theorem imagePatch_safe_again :
    turnAround.AttemptSafe [50, 49]
      (turnAround.attemptDisk (.start [49, 50]) ⟨false, some 3⟩) ⟨true, none⟩ := by
  have first : turnAround.SourceIntact [49, 50] (.start [49, 50]) ⟨false, some 3⟩ :=
    .inr (.inr ⟨rfl, nofun⟩)
  refine imagePatch_safe turnAround_correct (.attempt .start first) (.inr (.inr ⟨by decide, ?_⟩))
  have complete : (turnAround.attemptDisk (.start [49, 50]) ⟨false, some 3⟩).backup =
      some [49, 50] := by
    decide
  intro backup member
  rw [complete] at member
  cases member
  exact turnAround_correct.srcHash

/-- Cut off within the backup: the part of it is what the next execution patches. -/
theorem partialBackup_patched :
    ¬ ∀ (para : ImagePatchPara) (original image : Bytes) (attempts : List ImagePatchPara.Attempt)
      (attempt : ImagePatchPara.Attempt), Correct para original image →
        para.AttemptSafe image (attempts.foldl para.attemptDisk (.start original)) attempt := by
  intro always
  have safe := always turnAround [49, 50] [50, 49] [⟨false, some 2⟩] ⟨true, none⟩ turnAround_correct
  have patched : (turnAround.executeImagePatch true
      ([⟨false, some 2⟩].foldl turnAround.attemptDisk (.start [49, 50]))).source = some [49] := by
    decide
  have hash := safe.source [49] patched
  revert hash
  decide

end

end Updater.UpdaterBinary
