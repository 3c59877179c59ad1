import Updater.UpdaterKits.InstallRequest
import Updater.Utils.MiscArguments

/-! When the updater reads after the reboot what an install request was for. -/

set_option autoImplicit false

namespace Updater.UpdaterKits

open Updater.Utils

def optionNames : List (List Char) :=
  ["--force_update_action=".toList, "--night_update".toList, "--shrink_info=".toList,
    "--virtual_shrink_info=".toList, "--screen_state=".toList]

def shrinkNames : List (List Char) :=
  ["--shrink_info=".toList, "--virtual_shrink_info=".toList]

/-- The element is one of the known options. -/
def IsOption (names : List (List Char)) (element : List Char) : Prop :=
  ∃ name ∈ names, name <+: element

/-- One of the names is somewhere in the element. -/
def Mentions (names : List (List Char)) (element : List Char) : Prop :=
  ∃ name ∈ names, find name element ≠ none

instance {names : List (List Char)} {element : List Char} : Decidable (IsOption names element) :=
  inferInstanceAs (Decidable (∃ name ∈ names, name <+: element))

/-- What an element is to be read as. -/
def requestedArg (inodes : Inodes) (element : List Char) : List Char :=
  if IsOption optionNames element then
    element ++ if IsOption shrinkNames element then inodes.suffix else []
  else "--update_package=".toList ++ element

/-- An element that names an option begins with it, and holds no zero. -/
structure PlainElement (element : List Char) : Prop where
  ended : nul ∉ element
  option : Mentions optionNames element → IsOption optionNames element
  shrink : Mentions shrinkNames element → IsOption shrinkNames element

theorem IsOption.mentions {names : List (List Char)} {element : List Char}
    (option : IsOption names element) : Mentions names element := by
  obtain ⟨name, listed, front⟩ := option
  exact ⟨name, listed, find_of_infix front.isInfix⟩

theorem Mentions.option {element : List Char} (shrink : Mentions shrinkNames element) :
    Mentions optionNames element := by
  obtain ⟨name, listed, found⟩ := shrink
  refine ⟨name, ?_, found⟩
  cases listed with
  | head => exact .tail _ (.tail _ (.head _))
  | tail _ listed => exact .tail _ (.tail _ (.tail _ (List.mem_singleton.mp listed ▸ .head _)))

theorem IsOption.option {element : List Char} (shrink : IsOption shrinkNames element) :
    IsOption optionNames element := by
  obtain ⟨name, listed, front⟩ := shrink
  refine ⟨name, ?_, front⟩
  cases listed with
  | head => exact .tail _ (.tail _ (.head _))
  | tail _ listed => exact .tail _ (.tail _ (.tail _ (List.mem_singleton.mp listed ▸ .head _)))

theorem isPackagePath_iff {path : List Char} :
    isPackagePath path = true ↔ ¬ Mentions optionNames path := by
  simp [isPackagePath, Mentions, optionNames, and_assoc]

theorem updateOptExpand_eq (inodes : Inodes) (element : List Char) :
    (Mentions shrinkNames element ∧ updateOptExpand inodes element = element ++ inodes.suffix) ∨
      (¬ Mentions shrinkNames element ∧ updateOptExpand inodes element = element) := by
  rw [updateOptExpand]
  split
  case isTrue none_ =>
    refine .inr ⟨?_, rfl⟩
    rintro ⟨name, listed, found⟩
    cases listed with
    | head => exact found none_.1
    | tail _ listed => exact found (List.mem_singleton.mp listed ▸ none_.2)
  case isFalse some_ =>
    refine .inl ⟨?_, rfl⟩
    by_cases first : find "--shrink_info=".toList element = none
    · exact ⟨_, .tail _ (.head _), fun second => some_ ⟨first, second⟩⟩
    · exact ⟨_, .head _, first⟩

theorem cString_eq_iff {chars : List Char} : cString chars = chars ↔ nul ∉ chars :=
  ⟨fun same => same ▸ not_mem_cString chars, cString_of_not_mem⟩

theorem mem_getFileInode {inode : Option Nat} {char : Char} (member : char ∈ getFileInode inode) :
    char ≠ nul ∧ char ≠ '\n' := by
  cases inode with
  | none => exact List.mem_singleton.mp member ▸ ⟨by decide, by decide⟩
  | some inode =>
      have digit := Nat.isDigit_of_mem_toDigits (by decide) (by decide) member
      refine ⟨?_, ?_⟩
      · rintro rfl
        exact absurd digit (by decide)
      · rintro rfl
        exact absurd digit (by decide)

theorem mem_suffix {inodes : Inodes} {char : Char} (member : char ∈ inodes.suffix) :
    char ≠ nul ∧ char ≠ '\n' := by
  rw [Inodes.suffix] at member
  cases member with
  | head => exact ⟨by decide, by decide⟩
  | tail _ member =>
      cases List.mem_append.mp member with
      | inl member => exact mem_getFileInode member
      | inr member =>
          split at member
          · exact nomatch member
          · cases member with
            | head => exact ⟨by decide, by decide⟩
            | tail _ member => exact mem_getFileInode member

theorem suffix_ne_nil {inodes : Inodes} : inodes.suffix ≠ [] := by
  rw [Inodes.suffix, List.cons_append]
  exact List.cons_ne_nil _ _

theorem not_mem_append_suffix {inodes : Inodes} {element : List Char} :
    nul ∉ element ++ inodes.suffix ↔ nul ∉ element := by
  rw [List.mem_append, not_or]
  exact ⟨And.left, fun ended => ⟨ended, fun member => (mem_suffix member).1 rfl⟩⟩

/-- A path that is taken for an option is not printed as one. -/
theorem expanded_ne_package {inodes : Inodes} {element : List Char} :
    updateOptExpand inodes element ≠ "--update_package=".toList ++ element := by
  intro same
  have commas := congrArg (List.count ',') same
  have lengths := congrArg List.length same
  rw [List.count_append] at commas
  rw [List.length_append] at lengths
  have none_ : List.count ',' "--update_package=".toList = 0 := by decide
  have long : "--update_package=".toList.length = 17 := by decide
  cases updateOptExpand_eq inodes element with
  | inl expanded =>
      rw [expanded.2, List.count_append, none_] at commas
      have some_ : 0 < List.count ',' inodes.suffix := by
        rw [Inodes.suffix]
        exact List.count_pos_iff.mpr (List.mem_append_left _ (List.mem_cons_self ..))
      omega
  | inr plain =>
      rw [plain.2, long] at lengths
      omega

/-- When an element is printed as what it is to be read as. -/
theorem printed_eq_iff {inodes : Inodes} {element : List Char} :
    printed inodes element = requestedArg inodes element ↔ PlainElement element := by
  rw [printed, requestedArg]
  by_cases path : isPackagePath element = true
  case pos =>
    have none_ := isPackagePath_iff.mp path
    have plain : ¬ IsOption optionNames element := fun option => none_ option.mentions
    rw [if_pos path, if_neg plain, List.append_cancel_left_eq, cString_eq_iff]
    constructor
    · exact fun ended => ⟨ended, fun some_ => (none_ some_).elim,
        fun some_ => (none_ some_.option).elim⟩
    · exact PlainElement.ended
  case neg =>
    have mentions : Mentions optionNames element := not_not.mp fun none_ =>
      path (isPackagePath_iff.mpr none_)
    rw [if_neg path]
    by_cases option : IsOption optionNames element
    case pos =>
      rw [if_pos option]
      cases updateOptExpand_eq inodes element with
      | inl expanded =>
          rw [expanded.2]
          by_cases shrink : IsOption shrinkNames element
          case pos =>
            rw [if_pos shrink, cString_eq_iff, not_mem_append_suffix]
            exact ⟨fun ended => ⟨ended, fun _ => option, fun _ => shrink⟩, PlainElement.ended⟩
          case neg =>
            rw [if_neg shrink, List.append_nil]
            refine iff_of_false ?_ (fun plain => shrink (plain.shrink expanded.1))
            intro same
            have ended : nul ∉ element := same ▸ not_mem_cString _
            rw [cString_of_not_mem (not_mem_append_suffix.mpr ended)] at same
            exact suffix_ne_nil (List.append_right_eq_self.mp same)
      | inr plain =>
          have shrink : ¬ IsOption shrinkNames element := fun shrink => plain.1 shrink.mentions
          rw [plain.2, if_neg shrink, List.append_nil, cString_eq_iff]
          exact ⟨fun ended => ⟨ended, fun _ => option, fun some_ => (plain.1 some_).elim⟩,
            PlainElement.ended⟩
    case neg =>
      rw [if_neg option]
      refine iff_of_false ?_ (fun plain => option (plain.option mentions))
      intro same
      have ended : nul ∉ "--update_package=".toList ++ element := same ▸ not_mem_cString _
      have whole : nul ∉ updateOptExpand inodes element := by
        have element_ended : nul ∉ element := fun member => ended (List.mem_append_right _ member)
        cases updateOptExpand_eq inodes element with
        | inl expanded => exact expanded.2 ▸ not_mem_append_suffix.mpr element_ended
        | inr plain =>
            rw [plain.2]
            exact element_ended
      rw [cString_of_not_mem whole] at same
      exact expanded_ne_package same

section Elements

variable {α β : Type}

/-- A function of the place and the element, for all elements from a place on. -/
def eachAt (f : Nat → α → β) : Nat → List α → List β
  | _, [] => []
  | i, element :: elements => f i element :: eachAt f (i + 1) elements

theorem eachAt_eq_iff (f g : Nat → α → β) {plain : α → Prop}
    (same : ∀ i element, f i element = g i element ↔ plain element) {i : Nat} {elements : List α} :
    eachAt f i elements = eachAt g i elements ↔ ∀ element ∈ elements, plain element := by
  induction elements generalizing i with
  | nil => exact iff_of_true rfl (fun _ member => nomatch member)
  | cons element elements hypothesis =>
      rw [eachAt, eachAt, List.cons_eq_cons, same, hypothesis, List.forall_mem_cons]

theorem mem_eachAt {f : Nat → α → β} {i : Nat} {elements : List α} {value : β}
    (member : value ∈ eachAt f i elements) : ∃ j, ∃ element ∈ elements, value = f j element := by
  induction elements generalizing i with
  | nil => exact nomatch member
  | cons element elements hypothesis =>
      cases member with
      | head => exact ⟨i, element, List.mem_cons_self .., rfl⟩
      | tail _ member =>
          obtain ⟨j, other, listed, same⟩ := hypothesis member
          exact ⟨j, other, List.mem_cons_of_mem _ listed, same⟩

end Elements

section Field

variable (inodes : Nat → Inodes)

/-- The lines that are printed for a list. -/
def printedArgs : Nat → List (List Char) → List (List Char) :=
  eachAt fun i => printed (inodes i)

theorem lines_cons (arg : List Char) (args : List (List Char)) :
    lines (arg :: args) = arg ++ ['\n'] ++ lines args :=
  List.flatMap_cons

variable {inodes} {packageName : List (List Char)} {update : List Char} {i : Nat}

theorem addPkgPath_fits
    (fits : (update ++ lines (printedArgs inodes i packageName)).length < maxUpdateSize) :
    addPkgPath inodes i update packageName =
      .ok (update ++ lines (printedArgs inodes i packageName)) := by
  induction packageName generalizing i update with
  | nil =>
      rw [printedArgs, eachAt, lines, List.flatMap_nil, List.append_nil]
      rfl
  | cons path packageName hypothesis =>
      rw [printedArgs, eachAt, lines_cons, ← List.append_assoc] at fits ⊢
      have front : (update ++ (printed (inodes i) path ++ ['\n'])).length < maxUpdateSize := by
        rw [List.length_append] at fits
        exact Nat.lt_of_le_of_lt (Nat.le_add_right _ _) fits
      rw [List.length_append] at front
      rw [addPkgPath, if_neg (by omega), snprintfS, if_pos (by omega)]
      exact hypothesis fits

theorem addPkgPath_full (room : update.length < maxUpdateSize)
    (full : maxUpdateSize ≤ (update ++ lines (printedArgs inodes i packageName)).length) :
    ∃ code, code ≠ 0 ∧ addPkgPath inodes i update packageName = .error code := by
  induction packageName generalizing i update with
  | nil =>
      rw [printedArgs, eachAt, lines, List.flatMap_nil, List.append_nil] at full
      exact absurd room (Nat.not_lt_of_le full)
  | cons path packageName hypothesis =>
      rw [printedArgs, eachAt, lines_cons, ← List.append_assoc] at full
      rw [addPkgPath, if_neg (by omega), snprintfS]
      by_cases fits : (printed (inodes i) path ++ ['\n']).length < maxUpdateSize - update.length
      case pos =>
        rw [if_pos fits]
        refine hypothesis ?_ full
        rw [List.length_append]
        omega
      case neg =>
        rw [if_neg fits]
        exact ⟨5, by decide, rfl⟩

end Field

section Requests

variable (commandFile : Option UpdateMessage) (readable : List Char → Bool)
  (inodes : Nat → Inodes) (rebootFunc : Option Int) (upgradeType : UpgradeType)

/-- The option of the type, where it has one. -/
def typeOption : UpgradeType → List (List Char)
  | .sd => ["--sdcard_update".toList]
  | .sdIntral => ["--sdcard_intral_update".toList]
  | .otaIntral => ["--ota_intral_update".toList]
  | .subpkgUpdate => ["--subpkg_update".toList]
  | .ota => []
  | .other => []

/-- A list of elements without line feeds. -/
structure Request where
  packageName : List (List Char)
  whole : ∀ element ∈ packageName, '\n' ∉ element

variable (request : Request)

/-- What the updater is to read of a request. -/
def requestedArgs : List (List Char) :=
  typeOption upgradeType ++ eachAt (fun i => requestedArg (inodes i)) 0 request.packageName

/-- What is written into the field for it. -/
def fieldArgs : List (List Char) :=
  typeOption upgradeType ++ printedArgs inodes 0 request.packageName

/-- Nothing keeps a request from being written. -/
structure Accepted : Prop where
  some_ : ¬ (request.packageName = [] ∧ (upgradeType = .ota ∨ upgradeType = .otaIntral))
  readable : ∀ path ∈ request.packageName, isPackagePath path = true →
    readable (cString path) = true
  fits : (lines (fieldArgs inodes upgradeType request)).length < maxUpdateSize

/-- A request that is written is read as it was meant, and one that does not fit is refused before
anything is written. -/
structure Survives : Prop where
  read : ∀ msg, (rebootAndInstallUpgradePackage readable inodes rebootFunc request.packageName
      upgradeType).misc = some msg →
    parseParams commandFile msg = requestedArgs inodes upgradeType request ++ [[]]
  refused : maxUpdateSize ≤ (lines (requestedArgs inodes upgradeType request)).length →
    ∃ code, code ≠ 0 ∧ rebootAndInstallUpgradePackage readable inodes rebootFunc
      request.packageName upgradeType = failed code

variable {commandFile readable inodes rebootFunc upgradeType request}

theorem lines_typeOption : lines (typeOption upgradeType) = typeLine upgradeType := by
  cases upgradeType <;> rfl

theorem lines_append (first second : List (List Char)) :
    lines (first ++ second) = lines first ++ lines second :=
  List.flatMap_append

theorem lines_fieldArgs : lines (fieldArgs inodes upgradeType request) =
    typeLine upgradeType ++ lines (printedArgs inodes 0 request.packageName) := by
  rw [fieldArgs, lines_append, lines_typeOption]

theorem typeLine_short : (typeLine upgradeType).length < maxUpdateSize := by
  cases upgradeType <;> decide

theorem request_sent (rebootFunc : Option Int)
    (accepted : Accepted readable inodes upgradeType request) :
    (rebootAndInstallUpgradePackage readable inodes rebootFunc request.packageName
      upgradeType).misc = some (bootMessage (lines (fieldArgs inodes upgradeType request))) := by
  have fits := accepted.fits
  rw [lines_fieldArgs] at fits ⊢
  have read : ¬ (request.packageName.any fun path =>
      isPackagePath path && !readable (cString path)) = true := by
    rw [List.any_eq_true]
    rintro ⟨path, listed, unread⟩
    obtain ⟨package, unread⟩ := (Bool.and_eq_true _ _).mp unread
    rw [accepted.readable path listed package] at unread
    exact nomatch unread
  unfold rebootAndInstallUpgradePackage
  rw [if_neg accepted.some_, if_neg read, snprintfS, if_pos typeLine_short]
  dsimp only
  rw [addPkgPath_fits fits]
  dsimp only
  split
  · rfl
  · rfl

theorem request_refused (rebootFunc : Option Int)
    (refused : ¬ Accepted readable inodes upgradeType request) :
    ∃ code, code ≠ 0 ∧ rebootAndInstallUpgradePackage readable inodes rebootFunc
      request.packageName upgradeType = failed code := by
  unfold rebootAndInstallUpgradePackage
  split
  · exact ⟨1, by decide, rfl⟩
  case isFalse some_ =>
    split
    · exact ⟨2, by decide, rfl⟩
    case isFalse read =>
      rw [snprintfS, if_pos typeLine_short]
      dsimp only
      have full : maxUpdateSize ≤
          (typeLine upgradeType ++ lines (printedArgs inodes 0 request.packageName)).length := by
        rw [← lines_fieldArgs]
        refine Nat.le_of_not_lt fun fits => refused ⟨some_, ?_, fits⟩
        intro path listed package
        refine eq_true_of_ne_false fun unread => read (List.any_eq_true.mpr ?_)
        exact ⟨path, listed, by rw [package, unread]; rfl⟩
      obtain ⟨code, nonzero, made⟩ := addPkgPath_full typeLine_short full
      rw [made]
      exact ⟨code, nonzero, rfl⟩

theorem mem_typeOption : ∀ arg ∈ typeOption upgradeType, '\n' ∉ arg ∧ nul ∉ arg := by
  cases upgradeType <;> decide

theorem mem_fieldArgs {arg : List Char} (member : arg ∈ fieldArgs inodes upgradeType request) :
    '\n' ∉ arg ∧ nul ∉ arg := by
  cases List.mem_append.mp member with
  | inl own => exact mem_typeOption arg own
  | inr listed =>
      obtain ⟨j, element, given, rfl⟩ := mem_eachAt listed
      have whole := request.whole element given
      rw [printed]
      split
      · refine ⟨fun feed => ?_, fun zero => ?_⟩
        · cases List.mem_append.mp feed with
          | inl feed => exact absurd feed (by decide)
          | inr feed => exact whole ((List.takeWhile_prefix _).subset feed)
        · cases List.mem_append.mp zero with
          | inl zero => exact absurd zero (by decide)
          | inr zero => exact not_mem_cString _ zero
      · refine ⟨fun feed => ?_, not_mem_cString _⟩
        have feed := (List.takeWhile_prefix _).subset feed
        cases updateOptExpand_eq (inodes j) element with
        | inl expanded =>
            rw [expanded.2] at feed
            cases List.mem_append.mp feed with
            | inl feed => exact whole feed
            | inr feed => exact (mem_suffix feed).2 rfl
        | inr plain => exact whole (plain.2 ▸ feed)

theorem splitChars_lines {args : List (List Char)} (whole : ∀ arg ∈ args, '\n' ∉ arg) :
    splitChars ['\n'] (lines args) = args ++ [[]] := by
  have joined_ := joined_concat args []
  rw [List.append_nil] at joined_
  rw [← joined_]
  refine splitChars_joined (List.append_ne_nil_of_right_ne_nil _ (List.cons_ne_nil _ _)) ?_
  intro arg member
  cases List.mem_append.mp member with
  | inl listed => exact whole arg listed
  | inr last => exact List.mem_singleton.mp last ▸ List.not_mem_nil

theorem parseParams_bootMessage (text : List Char) :
    parseParams commandFile (bootMessage text) = parseParams commandFile (zeroMessage.withUpdate text) := by
  have same : (bootMessage text).update = (zeroMessage.withUpdate text).update := rfl
  rw [parseParams, parseParams, same]
  split
  · cases commandFile with
    | none => exact congrArg (fun update : List Char => splitChars ['\n'] (cString (update.take _))) same
    | some file => rfl
  · exact congrArg (fun update : List Char => splitChars ['\n'] (cString (update.take _))) same

/-- What `COMMAND_FILE` holds where no field is written. -/
def commandText (commandFile : Option UpdateMessage) : List Char :=
  match commandFile with
  | none => []
  | some file => cString (file.update.take (maxUpdateSize - 1))

theorem parseParams_empty :
    parseParams commandFile (bootMessage []) = splitChars ['\n'] (commandText commandFile) := by
  have first : (bootMessage []).update.head? = some nul := rfl
  rw [parseParams, if_pos first]
  cases commandFile with
  | none => exact congrArg (splitChars ['\n']) (cString_fillField List.not_mem_nil (by decide))
  | some file => rfl

/-- What is read of a request that is written. -/
theorem parseParams_fieldArgs (commandFile : Option UpdateMessage)
    (accepted : Accepted readable inodes upgradeType request)
    (some_ : fieldArgs inodes upgradeType request ≠ []) :
    parseParams commandFile (bootMessage (lines (fieldArgs inodes upgradeType request))) =
      fieldArgs inodes upgradeType request ++ [[]] := by
  have whole : ∀ arg ∈ fieldArgs inodes upgradeType request, '\n' ∉ arg :=
    fun arg member => (mem_fieldArgs member).1
  have ended : nul ∉ lines (fieldArgs inodes upgradeType request) :=
    not_mem_lines fun arg member => (mem_fieldArgs member).2
  have text : lines (fieldArgs inodes upgradeType request) ≠ [] := by
    cases args : fieldArgs inodes upgradeType request with
    | nil => exact absurd args some_
    | cons arg rest =>
        rw [lines_cons]
        exact List.append_ne_nil_of_left_ne_nil
          (List.append_ne_nil_of_right_ne_nil _ (List.cons_ne_nil _ _)) _
  rw [parseParams_bootMessage, parseParams_withUpdate text ended accepted.fits,
    splitChars_lines whole]

theorem fieldArgs_eq_iff (inodes : Nat → Inodes) (upgradeType : UpgradeType) (request : Request) :
    fieldArgs inodes upgradeType request =
      requestedArgs inodes upgradeType request ↔
    ∀ element ∈ request.packageName, PlainElement element := by
  rw [fieldArgs, requestedArgs, List.append_cancel_left_eq]
  exact eachAt_eq_iff (fun i => printed (inodes i)) (fun i => requestedArg (inodes i))
    fun i element => printed_eq_iff

theorem fieldArgs_eq_nil : fieldArgs inodes upgradeType request = [] ↔
    typeOption upgradeType = [] ∧ request.packageName = [] := by
  rw [fieldArgs, List.append_eq_nil_iff, printedArgs]
  refine and_congr_right fun _ => ?_
  cases request.packageName with
  | nil => exact iff_of_true rfl rfl
  | cons path packageName => exact iff_of_false (List.cons_ne_nil _ _) (List.cons_ne_nil _ _)

/-- When a request survives the reboot: no path in it names an option, no option another one
further in; and where nothing is written, nothing is read of the command file. -/
theorem request_survives_iff :
    Survives commandFile readable inodes rebootFunc upgradeType request ↔
      (Accepted readable inodes upgradeType request →
        (∀ element ∈ request.packageName, PlainElement element) ∧
        (typeOption upgradeType = [] → request.packageName = [] →
          commandText commandFile = [])) := by
  by_cases accepted : Accepted readable inodes upgradeType request
  case neg =>
    refine iff_of_true ?_ (fun made => (accepted made).elim)
    obtain ⟨code, nonzero, refused⟩ := request_refused rebootFunc accepted
    refine ⟨fun msg sent => ?_, fun _ => ⟨code, nonzero, refused⟩⟩
    rw [refused] at sent
    exact nomatch sent
  case pos =>
    have sent := request_sent rebootFunc accepted
    by_cases empty : fieldArgs inodes upgradeType request = []
    case pos =>
      obtain ⟨type, none_⟩ := fieldArgs_eq_nil.mp empty
      have plain : ∀ element ∈ request.packageName, PlainElement element :=
        none_ ▸ fun _ member => nomatch member
      have asked := (fieldArgs_eq_iff inodes upgradeType request).mpr plain
      rw [empty] at asked sent
      constructor
      case mp =>
        intro survives _
        refine ⟨plain, fun _ _ => ?_⟩
        have read := survives.read _ sent
        rw [← asked, lines, List.flatMap_nil, parseParams_empty] at read
        have text := joined_splitChars (commandText commandFile)
        rw [read] at text
        exact text.symm
      case mpr =>
        intro holds
        have silent := (holds accepted).2 type none_
        refine ⟨fun msg made => ?_, fun full => ?_⟩
        · rw [sent] at made
          injection made with made
          rw [← made, ← asked, lines, List.flatMap_nil, parseParams_empty, silent]
          rfl
        · rw [← asked] at full
          exact absurd full (by decide)
    case neg =>
      have parsed := parseParams_fieldArgs commandFile accepted empty
      constructor
      case mp =>
        intro survives _
        have read := (parsed.symm.trans (survives.read _ sent))
        have plain := (fieldArgs_eq_iff inodes upgradeType request).mp (List.append_cancel_right read)
        refine ⟨plain, fun type none_ => ?_⟩
        exact (empty (fieldArgs_eq_nil.mpr ⟨type, none_⟩)).elim
      case mpr =>
        intro holds
        have asked := (fieldArgs_eq_iff inodes upgradeType request).mpr (holds accepted).1
        refine ⟨fun msg made => ?_, fun full => ?_⟩
        · rw [sent] at made
          injection made with made
          rw [← made, parsed, asked]
        · rw [← asked] at full
          exact absurd accepted.fits (Nat.not_lt_of_le full)

end Requests

/-- A package in a directory named like an option. -/
def nightRequest : Request where
  packageName := ["/data/--night_update/ota.zip".toList]
  whole := by decide

/-- The path is written as it is: no package is installed. -/
theorem nightRequest_lost :
    ¬ Survives none (fun _ => true) (fun _ => ⟨none, none⟩) none .ota nightRequest := by
  intro survives
  have run : (rebootAndInstallUpgradePackage (fun _ => true) (fun _ => ⟨none, none⟩) none
      nightRequest.packageName .ota).misc.map (parseParams none) =
      some ["/data/--night_update/ota.zip".toList, []] := by decide +kernel
  obtain ⟨msg, sent, read⟩ := Option.map_eq_some_iff.mp run
  have asked := survives.read msg sent
  rw [read] at asked
  exact absurd asked (by decide)

end Updater.UpdaterKits
