import Mathlib.Algebra.Group.Int.Defs
import Mathlib.Data.List.Induction
import Updater.Utils.MiscArguments

/-! The options of the misc message in which the progress of an update over its packages is
kept, and what a change of one of them does to the others. -/

set_option autoImplicit false

namespace Updater.UpdaterMain

open Utils

/-- The fields of `UpdaterParams` that say how far the packages are. -/
structure UpdaterParams where
  updatePackage : List (List Char) := []
  retryCount : Int := 0
  pkgLocation : Nat := 0
  deriving DecidableEq, Repr

def updatePackageOption : List Char := "update_package".toList

def retryCountOption : List Char := "retry_count".toList

def upgradedPkgNumOption : List Char := "upgraded_pkg_num".toList

def atoi (text : List Char) : Int :=
  let number := text.dropWhile fun char => char = ' ' || ('\t' ≤ char && char ≤ '\r')
  let magnitude (digits : List Char) : Nat := Nat.ofDigitChars 10 (digits.takeWhile Char.isDigit) 0
  let value : Int :=
    match number with
    | '+' :: digits => magnitude digits
    | '-' :: digits => - magnitude digits
    | digits => magnitude digits
  value.bmod (2 ^ 32)

/-- `static_cast<unsigned int>` of an `int`. -/
def unsignedInt (value : Int) : Nat :=
  (value % 2 ^ 32).toNat

/-- `getopt_long` on an argument with the whole name of an option, and its value behind `=`. -/
def longOption : List Char → Option (List Char × List Char)
  | '-' :: '-' :: text => some (text.takeWhile (· ≠ '='), (text.dropWhile (· ≠ '=')).drop 1)
  | _ => none

/-- `InitOptionsFuncTab`, the entries that set these fields. -/
def optionsFunc (params : UpdaterParams) (option optarg : List Char) : UpdaterParams :=
  if option = updatePackageOption then
    { params with updatePackage := params.updatePackage ++ [optarg] }
  else if option = retryCountOption then { params with retryCount := atoi optarg }
  else if option = upgradedPkgNumOption then
    { params with pkgLocation := unsignedInt (atoi optarg) }
  else params

/-- The loop of `StartUpdater`. -/
def startUpdater (args : List (List Char)) : UpdaterParams :=
  args.foldl (fun params arg =>
    match longOption arg with
    | some (option, optarg) => optionsFunc params option optarg
    | none => params) {}

/-- Every value that the arguments give to an option. -/
def optionValues (option : List Char) (args : List (List Char)) : List (List Char) :=
  args.filterMap fun arg =>
    (longOption arg).bind fun given => if given.1 = option then some given.2 else none

theorem optionValues_append (option : List Char) (front back : List (List Char)) :
    optionValues option (front ++ back) = optionValues option front ++ optionValues option back :=
  List.filterMap_append

theorem startUpdater_concat (args : List (List Char)) (arg : List Char) :
    startUpdater (args ++ [arg]) =
      match longOption arg with
      | some (option, optarg) => optionsFunc (startUpdater args) option optarg
      | none => startUpdater args := by
  rw [startUpdater, List.foldl_append]
  rfl

/-- Packages are collected in their order, and of the other options the last one counts. -/
theorem startUpdater_eq (args : List (List Char)) :
    startUpdater args =
      { updatePackage := optionValues updatePackageOption args
        retryCount := ((optionValues retryCountOption args).getLast?.map atoi).getD 0
        pkgLocation := ((optionValues upgradedPkgNumOption args).getLast?.map
          (unsignedInt ∘ atoi)).getD 0 } := by
  induction args using List.reverseRecOn with
  | nil => rfl
  | append_singleton args arg ih =>
      rw [startUpdater_concat, ih, optionValues_append, optionValues_append, optionValues_append]
      cases given : longOption arg with
      | none => simp [optionValues, given]
      | some pair =>
          obtain ⟨option, optarg⟩ := pair
          have retryOther : retryCountOption ≠ updatePackageOption := by decide
          have numOther : upgradedPkgNumOption ≠ updatePackageOption := by decide
          have numRetry : upgradedPkgNumOption ≠ retryCountOption := by decide
          simp only [optionsFunc, optionValues, List.filterMap_cons, given, Option.bind_some,
            List.filterMap_nil]
          split
          · rename_i named
            subst named
            simp [retryOther.symm, numOther.symm]
          · rename_i notPackage
            split
            · rename_i named
              subst named
              simp [numRetry.symm]
            · rename_i notRetry
              split
              · simp
              · simp

theorem atoi_of_digits {text : List Char} (number : ∀ char ∈ text, char.isDigit = true)
    (small : Nat.ofDigitChars 10 text 0 < 2 ^ 31) :
    atoi text = (Nat.ofDigitChars 10 text 0 : Nat) := by
  have whole : text.takeWhile Char.isDigit = text := List.takeWhile_eq_self_iff.mpr number
  have bounded : ((Nat.ofDigitChars 10 text 0 : Nat) : Int).bmod (2 ^ 32) =
      (Nat.ofDigitChars 10 text 0 : Nat) := Int.bmod_eq_of_le (by omega) (by omega)
  cases text with
  | nil => rfl
  | cons first rest =>
      have digit : first.isDigit = true := number first List.mem_cons_self
      have other {char : Char} (blank : char.isDigit = false) : first ≠ char := by
        rintro rfl
        exact Bool.false_ne_true (blank.symm.trans digit)
      have shown : ¬ (decide (first = ' ') || decide ('\t' ≤ first) && decide (first ≤ '\r')) := by
        have low : '0'.val ≤ first.val := by
          rw [Char.isDigit, Bool.and_eq_true] at digit
          exact of_decide_eq_true digit.1
        have above : ¬ first ≤ '\r' := by
          intro below
          exact absurd (UInt32.le_trans low below) (by decide)
        simp [other, above]
      have kept := @List.dropWhile_cons_of_neg _
        (fun char => decide (char = ' ') || decide ('\t' ≤ char) && decide (char ≤ '\r')) first rest shown
      rw [atoi, kept]
      split
      · rename_i same
        exact absurd (List.head_eq_of_cons_eq same) (other (by decide))
      · rename_i same
        exact absurd (List.head_eq_of_cons_eq same) (other (by decide))
      · dsimp only
        rw [whole]
        exact bounded

theorem atoi_formatInt {value : Nat} (small : value < 2 ^ 31) : atoi (formatInt value) = value := by
  have read : Nat.ofDigitChars 10 (Nat.toDigits 10 value) 0 = value := Nat.ofDigitChars_ten_toDigits
  have number := @atoi_of_digits (Nat.toDigits 10 value) fun _ member =>
    Nat.isDigit_of_mem_toDigits (by decide) (by decide) member
  rw [read] at number
  exact number small

theorem take_find_equal (text : List Char) :
    text.take ((find ['='] text).getD text.length) = text.takeWhile (· ≠ '=') := by
  induction text with
  | nil => rfl
  | cons char rest ih =>
      rw [find]
      split
      · rename_i equal
        have same : '=' = char := by simpa using equal
        simp [← same]
      · rename_i other
        have different : char ≠ '=' := fun same => other (by simp [same])
        have later : ((find ['='] rest).map (· + 1)).getD (rest.length + 1) =
            (find ['='] rest).getD rest.length + 1 := by
          cases find ['='] rest with
          | none => rfl
          | some _ => rfl
        rw [List.length_cons, later, List.take_succ_cons, ih]
        simp [different]

/-- The two readings of an argument give its option the same name. -/
theorem trimUpdateMode_of_longOption {arg : List Char} {given : List Char × List Char}
    (read : longOption arg = some given) : trimUpdateMode arg = given.1 := by
  rw [longOption.eq_def] at read
  split at read
  · rename_i text
    obtain rfl := Option.some.inj read
    have equal : (find ['='] ('-' :: '-' :: text)).getD ('-' :: '-' :: text).length =
        (find ['='] text).getD text.length + 2 := by
      have skip : find ['='] ('-' :: '-' :: text) = (find ['='] text).map (· + 1 + 1) := by
        rw [find, if_neg (by simp), find, if_neg (by simp), Option.map_map]
        rfl
      rw [skip]
      cases find ['='] text with
      | none => rfl
      | some _ => rfl
    have dashes : ((find ['-', '-'] ('-' :: '-' :: text)).map (· + 2)).getD 0 = 2 := by
      rw [find, if_pos (by simp)]
      rfl
    rw [trimUpdateMode, equal, dashes, if_neg (List.cons_ne_nil _ _), if_neg (by omega),
      Nat.add_sub_cancel]
    exact take_find_equal text
  · exact absurd read (by simp)

section

variable {headInfo : List Char} (name : IsOptionName headInfo)

/-- The arguments when the option has got its value. -/
def changed (headInfo : List Char) (value : Int) (args : List (List Char)) : List (List Char) :=
  otherArgs headInfo args ++ [headArg headInfo (some value)]

include name

theorem longOption_headArg (value : Int) :
    longOption (headArg headInfo (some value)) = some (headInfo, formatInt value) := by
  have other : ∀ char ∈ headInfo, decide (char ≠ '=') = true :=
    fun char member => decide_eq_true fun (same : char = '=') => name.equal (same ▸ member)
  have front : (headInfo ++ '=' :: formatInt value).takeWhile (· ≠ '=') = headInfo := by
    rw [List.takeWhile_append_of_pos other]
    simp
  have back : (headInfo ++ '=' :: formatInt value).dropWhile (· ≠ '=') = '=' :: formatInt value := by
    rw [List.dropWhile_append_of_pos other]
    simp
  rw [headArg, cString_of_not_mem name.ended]
  dsimp only [List.cons_append]
  rw [longOption, front, back]
  rfl

theorem optionValues_changed_other {option : List Char} (other : option ≠ headInfo) (value : Int)
    (args : List (List Char)) :
    optionValues option (changed headInfo value args) = optionValues option args := by
  have last : optionValues option [headArg headInfo (some value)] = [] := by
    simp [optionValues, longOption_headArg name, other.symm]
  rw [changed, optionValues_append, last, List.append_nil, optionValues, otherArgs,
    List.filterMap_filter]
  refine List.filterMap_congr fun arg _ => ?_
  split
  · rfl
  · rename_i dropped
    have named : trimUpdateMode arg = headInfo := by simpa using dropped
    cases given : longOption arg with
    | none => rfl
    | some pair =>
        have same := (trimUpdateMode_of_longOption given).symm.trans named
        simp [same, other.symm]

theorem getLast?_optionValues_changed (value : Int) (args : List (List Char)) :
    (optionValues headInfo (changed headInfo value args)).getLast? = some (formatInt value) := by
  have last : optionValues headInfo [headArg headInfo (some value)] = [formatInt value] := by
    simp [optionValues, longOption_headArg name]
  rw [changed, optionValues_append, last, List.getLast?_concat]

end

theorem upgradedPkgNum_isOptionName : IsOptionName upgradedPkgNumOption where
  some_ := by decide
  equal := by decide
  line := by decide
  ended := by decide

theorem unsignedInt_natCast {count : Nat} (small : count < 2 ^ 31) : unsignedInt count = count := by
  rw [unsignedInt]
  omega

theorem startUpdater_retryCount {count : Nat} (small : count < 2 ^ 31) (args : List (List Char)) :
    startUpdater (changed retryCountOption count args) =
      { startUpdater args with retryCount := count } := by
  have name : IsOptionName retryCountOption := retryCount_isOptionName
  have package : updatePackageOption ≠ retryCountOption := by decide
  have num : upgradedPkgNumOption ≠ retryCountOption := by decide
  rw [startUpdater_eq, startUpdater_eq, optionValues_changed_other name package,
    optionValues_changed_other name num, getLast?_optionValues_changed name]
  simp [atoi_formatInt small]

theorem startUpdater_upgradedPkgNum {count : Nat} (small : count < 2 ^ 31)
    (args : List (List Char)) :
    startUpdater (changed upgradedPkgNumOption count args) =
      { startUpdater args with pkgLocation := count } := by
  have name := upgradedPkgNum_isOptionName
  have package : updatePackageOption ≠ upgradedPkgNumOption := by decide
  have retry : retryCountOption ≠ upgradedPkgNumOption := by decide
  rw [startUpdater_eq, startUpdater_eq, optionValues_changed_other name package,
    optionValues_changed_other name retry, getLast?_optionValues_changed name]
  simp [atoi_formatInt small, unsignedInt_natCast small]

/-- The message has room for the option with its value, and every argument that contains the
option's name is the option itself. -/
def Keeps (headInfo : List Char) (value : Int) (args : List (List Char)) : Prop :=
  (lines (keptArgs headInfo args) ++ headArg headInfo (some value)).length < maxUpdateSize ∧
    ∀ arg ∈ args, find headInfo arg ≠ none → trimUpdateMode arg = headInfo

instance (headInfo : List Char) (value : Int) (args : List (List Char)) :
    Decidable (Keeps headInfo value args) :=
  inferInstanceAs (Decidable (_ ∧ _))

section

variable {headInfo : List Char} (name : IsOptionName headInfo) {value : Int}

include name

theorem parseParams_changed (commandFile : Option UpdateMessage) {args : List (List Char)}
    (whole : ∀ arg ∈ args, '\n' ∉ arg ∧ nul ∉ arg) (next : UpdateMessage)
    (room : (joined (changed headInfo value args)).length < maxUpdateSize) :
    parseParams commandFile (next.withUpdate (joined (changed headInfo value args))) =
      changed headInfo value args := by
  have last := name.not_mem_headArg (some value)
  have others {arg : List Char} (member : arg ∈ otherArgs headInfo args) : '\n' ∉ arg ∧ nul ∉ arg :=
    whole arg (List.mem_filter.mp member).1
  rw [parseParams_withUpdate ?_ ?_ room, splitChars_joined]
  · rw [changed]
    exact List.append_ne_nil_of_right_ne_nil _ (List.cons_ne_nil _ _)
  · intro arg member
    cases List.mem_append.mp member with
    | inl other => exact (others other).1
    | inr new => exact List.mem_singleton.mp new ▸ last.1
  · rw [changed, joined_concat]
    exact List.append_ne_nil_of_right_ne_nil _ (List.cons_ne_nil _ _)
  · rw [changed, joined_concat, List.mem_append]
    exact fun inside => inside.elim (not_mem_lines fun _ member => (others member).2) last.2

variable {commandFile : Option UpdateMessage} {misc : UpdateMessage}

theorem rewritten_changed (keeps : Keeps headInfo value (parseParams commandFile misc))
    (next : UpdateMessage) (other : Option UpdateMessage) :
    parseParams other (rewritten headInfo (headArg headInfo (some value))
        (parseParams commandFile misc) misc next) =
      changed headInfo value (parseParams commandFile misc) := by
  have same := keptArgs_eq_otherArgs_iff.mpr keeps.2
  have text : lines (keptArgs headInfo (parseParams commandFile misc)) ++
      headArg headInfo (some value) = joined (changed headInfo value (parseParams commandFile misc)) := by
    rw [changed, joined_concat, same]
  have room := keeps.1
  rw [rewritten, if_pos room, text]
  rw [text] at room
  exact parseParams_changed name other (fun _ => parseParams_whole) next room

theorem parseParams_setMessageToMisc (other : headInfo ≠ "sdcard_update".toList)
    {miscCmd : List Char} (command : (cString miscCmd).length < maxCommandSize)
    (short : (headArg headInfo (some value)).length < headBufferSize)
    (keeps : Keeps headInfo value (parseParams commandFile misc)) :
    parseParams commandFile (setMessageToMisc commandFile miscCmd value headInfo misc) =
      changed headInfo value (parseParams commandFile misc) := by
  have given : miscValue headInfo value = some value := if_neg other
  rw [setMessageToMisc_eq name.some_, given, if_pos ⟨command, short⟩]
  exact rewritten_changed name keeps _ _

theorem parseParams_addUpdateInfoToMisc (short : (headArg headInfo (some value)).length < headBufferSize)
    (keeps : Keeps headInfo value (parseParams commandFile misc)) (other : Option UpdateMessage) :
    parseParams other (addUpdateInfoToMisc commandFile headInfo (some value) misc) =
      changed headInfo value (parseParams commandFile misc) := by
  rw [addUpdateInfoToMisc, updateInfoInMisc_eq name.some_, if_pos short]
  exact rewritten_changed name keeps _ _

end

/-- A message has room for so many packages only. -/
theorem length_updatePackage_lt (commandFile : Option UpdateMessage) (misc : UpdateMessage) :
    (startUpdater (parseParams commandFile misc)).updatePackage.length < 2 ^ 31 := by
  have count (args : List (List Char)) : args.length ≤ (lines args).length := by
    induction args with
    | nil => exact Nat.le_refl 0
    | cons arg args ih =>
        rw [length_lines_cons, List.length_cons]
        omega
  have text := length_lines (@parseParams_ne_nil commandFile misc)
  have within := @length_joined_parseParams commandFile misc
  have size : maxUpdateSize = 768 := rfl
  have values : (optionValues updatePackageOption (parseParams commandFile misc)).length ≤
      (parseParams commandFile misc).length := List.length_filterMap_le _ _
  have args := count (parseParams commandFile misc)
  rw [startUpdater_eq]
  exact Nat.lt_of_le_of_lt (values.trans args) (by omega)

/-- The text of an option with a small value fits its buffer. -/
theorem length_headArg_lt {headInfo : List Char} (name : headInfo.length ≤ 32) {value : Nat}
    (small : value < 2 ^ 31) : (headArg headInfo (some (value : Int))).length < headBufferSize := by
  have digits : (Nat.toDigits 10 value).length ≤ 10 :=
    (Nat.length_toDigits_le_iff (by decide) (by decide)).mpr (by omega)
  have text : (cString headInfo).length ≤ headInfo.length := (List.takeWhile_prefix _).length_le
  have size : headBufferSize = 128 := rfl
  have shown : formatInt (value : Int) = Nat.toDigits 10 value := rfl
  rw [headArg, shown, List.length_append, List.length_cons, List.length_cons, List.length_cons]
  omega

end Updater.UpdaterMain
