import Mathlib.Data.List.Basic
import Mathlib.Data.List.TakeWhile
import Updater.Utils.MiscMessage

/-! Which arguments of the misc message are left when one of its options is changed. -/

set_option autoImplicit false

namespace Updater.Utils

theorem splitChars_singleton (sep : Char) (chars : List Char) :
    splitChars [sep] chars = chars.splitOn sep := by
  induction chars with
  | nil => rfl
  | cons char rest ih =>
      rw [splitChars, List.splitOn_cons_eq_if_modifyHead, ih]
      by_cases same : char = sep
      · rw [if_pos (List.mem_singleton.mpr same), if_pos (beq_iff_eq.mpr same)]
      · rw [if_neg (fun member => same (List.mem_singleton.mp member)),
          if_neg (fun equal => same (beq_iff_eq.mp equal))]
        cases found : rest.splitOn sep with
        | nil => exact absurd found (List.splitOn_ne_nil sep rest)
        | cons token tokens => rfl

/-- The arguments, a line for each. -/
def lines (args : List (List Char)) : List Char :=
  args.flatMap (· ++ ['\n'])

theorem length_lines_cons (arg : List Char) (args : List (List Char)) :
    (lines (arg :: args)).length = arg.length + 1 + (lines args).length := by
  rw [lines, List.flatMap_cons, List.length_append, List.length_append]
  rfl

/-- The arguments with a line feed between them. -/
def joined (args : List (List Char)) : List Char :=
  List.intercalate ['\n'] args

theorem joined_concat (args : List (List Char)) (last : List Char) :
    joined (args ++ [last]) = lines args ++ last := by
  induction args with
  | nil => exact List.intercalate_singleton
  | cons arg args ih =>
      rw [joined, List.cons_append, List.intercalate_cons_of_ne_nil (by simp)]
      rw [joined] at ih
      rw [ih, lines, lines, List.flatMap_cons]
      simp only [List.append_assoc]

theorem splitChars_joined {args : List (List Char)} (some_ : args ≠ [])
    (whole : ∀ arg ∈ args, '\n' ∉ arg) : splitChars ['\n'] (joined args) = args := by
  rw [splitChars_singleton]
  exact List.splitOn_intercalate '\n' whole some_

theorem joined_splitChars (chars : List Char) : joined (splitChars ['\n'] chars) = chars := by
  rw [splitChars_singleton]
  exact List.intercalate_splitOn '\n'

theorem mem_splitChars {sep : Char} {chars arg : List Char} (member : arg ∈ splitChars [sep] chars)
    {char : Char} (inside : char ∈ arg) : char ∈ chars ∧ char ≠ sep := by
  induction chars generalizing arg with
  | nil =>
      rw [List.mem_singleton.mp member] at inside
      exact absurd inside List.not_mem_nil
  | cons first rest ih =>
      rw [splitChars] at member
      split at member
      · cases member with
        | head => exact absurd inside List.not_mem_nil
        | tail _ member => exact (ih member inside).imp_left (List.mem_cons_of_mem _)
      · rename_i other
        split at member
        · rw [List.mem_singleton.mp member] at inside
          obtain rfl := List.mem_singleton.mp inside
          exact ⟨List.mem_cons_self, fun same => other (List.mem_singleton.mpr same)⟩
        · rename_i token tokens found
          cases member with
          | head =>
              cases inside with
              | head => exact ⟨List.mem_cons_self, fun same => other (List.mem_singleton.mpr same)⟩
              | tail _ inside =>
                  exact (ih (found ▸ List.mem_cons_self) inside).imp_left (List.mem_cons_of_mem _)
          | tail _ member =>
              exact (ih (found ▸ List.mem_cons_of_mem _ member) inside).imp_left
                (List.mem_cons_of_mem _)

theorem find_of_infix {pattern chars : List Char} (inside : pattern <:+: chars) :
    find pattern chars ≠ none := by
  induction chars with
  | nil =>
      rw [List.infix_nil.mp inside, find, if_pos rfl]
      exact Option.some_ne_none 0
  | cons char rest ih =>
      rw [find]
      split
      · exact Option.some_ne_none 0
      · rename_i other
        rcases List.infix_cons_iff.mp inside with front | later
        · exact absurd (List.isPrefixOf_iff_prefix.mpr front) other
        · intro absent
          exact ih later (Option.map_eq_none_iff.mp absent)

theorem trimUpdateMode_infix (mode : List Char) : trimUpdateMode mode <:+: mode := by
  rw [trimUpdateMode]
  split
  · exact List.nil_infix
  · split
    · exact List.infix_rfl
    · exact (List.take_prefix _ _).isInfix.trans (List.drop_suffix _ _).isInfix

/-- An argument of the option contains the option's name. -/
theorem find_of_trimUpdateMode {headInfo arg : List Char} (named : trimUpdateMode arg = headInfo) :
    find headInfo arg ≠ none :=
  find_of_infix (named ▸ trimUpdateMode_infix arg)

/-- The text of an option's name. -/
structure IsOptionName (headInfo : List Char) : Prop where
  some_ : headInfo ≠ []
  equal : '=' ∉ headInfo
  line : '\n' ∉ headInfo
  ended : nul ∉ headInfo

theorem cString_of_not_mem {chars : List Char} (ended : nul ∉ chars) : cString chars = chars := by
  rw [cString, List.takeWhile_eq_self_iff]
  intro char member
  exact decide_eq_true fun same => ended (same ▸ member)

theorem not_mem_cString (chars : List Char) : nul ∉ cString chars := by
  intro member
  have other := List.mem_takeWhile_imp member
  exact of_decide_eq_true other rfl

theorem mem_formatInt {value : Int} {char : Char} (member : char ∈ formatInt value) :
    char = '-' ∨ char.isDigit = true := by
  cases value with
  | ofNat value => exact .inr (Nat.isDigit_of_mem_toDigits (by decide) (by decide) member)
  | negSucc value =>
      cases member with
      | head => exact .inl rfl
      | tail _ member => exact .inr (Nat.isDigit_of_mem_toDigits (by decide) (by decide) member)

theorem IsOptionName.not_mem_headArg {headInfo : List Char} (name : IsOptionName headInfo)
    (message : Option Int) : '\n' ∉ headArg headInfo message ∧ nul ∉ headArg headInfo message := by
  have number (value : Int) : '\n' ∉ formatInt value ∧ nul ∉ formatInt value :=
    ⟨fun member => (mem_formatInt member).elim (by decide) (by decide),
      fun member => (mem_formatInt member).elim (by decide) (by decide)⟩
  have text := cString_of_not_mem name.ended
  cases message with
  | none =>
      simp only [headArg, text, List.mem_cons]
      exact ⟨by simp [name.line], by simpa [nul] using name.ended⟩
  | some value =>
      simp only [headArg, text, List.mem_append, List.mem_cons]
      exact ⟨by simp [name.line, number value], by simp [name.ended, number value]; simp [nul]⟩

theorem IsOptionName.trimUpdateMode_headArg {headInfo : List Char} (name : IsOptionName headInfo)
    (message : Option Int) : trimUpdateMode (headArg headInfo message) = headInfo := by
  have behind {rest : List Char} : find ['='] (headInfo ++ '=' :: rest) = some headInfo.length := by
    have equal := name.equal
    clear name
    induction headInfo with
    | nil => rfl
    | cons char tail ih =>
        obtain ⟨first, later⟩ := not_or.mp (fun either => equal (List.mem_cons.mpr either))
        rw [List.cons_append, find, ih later]
        rw [if_neg (by simpa using first)]
        rfl
  have absent : find ['='] headInfo = none := by
    have equal := name.equal
    clear name behind
    induction headInfo with
    | nil => rfl
    | cons char tail ih =>
        obtain ⟨first, later⟩ := not_or.mp (fun either => equal (List.mem_cons.mpr either))
        rw [find, ih later, if_neg (by simpa using first)]
        rfl
  have text := cString_of_not_mem name.ended
  have cut : ¬ headInfo.length + 1 + 1 < 2 := by omega
  cases message with
  | none => simp [headArg, text, trimUpdateMode, find, absent, cut]
  | some value => simp [headArg, text, trimUpdateMode, find, behind, cut]

section

variable (headInfo : List Char)

/-- The arguments that the loops keep. -/
def keptArgs (args : List (List Char)) : List (List Char) :=
  args.filter fun arg => find headInfo arg = none

/-- The arguments of other options. -/
def otherArgs (args : List (List Char)) : List (List Char) :=
  args.filter fun arg => trimUpdateMode arg ≠ headInfo

variable {headInfo}

theorem keptArgs_eq_otherArgs_iff {args : List (List Char)} :
    keptArgs headInfo args = otherArgs headInfo args ↔
      ∀ arg ∈ args, find headInfo arg ≠ none → trimUpdateMode arg = headInfo := by
  constructor
  · intro same arg member found
    by_contra other
    have listed : arg ∈ otherArgs headInfo args :=
      List.mem_filter.mpr ⟨member, decide_eq_true other⟩
    rw [← same] at listed
    exact found (by simpa using (List.mem_filter.mp listed).2)
  · intro named
    refine List.filter_congr fun arg member => decide_eq_decide.mpr ⟨fun absent same => ?_, fun other => ?_⟩
    · exact find_of_trimUpdateMode same absent
    · by_contra found
      exact other (named arg member found)

theorem keptArgs_sublist (args : List (List Char)) :
    (keptArgs headInfo args).Sublist (otherArgs headInfo args) := by
  apply List.monotone_filter_right
  intro arg kept
  exact decide_eq_true fun named => find_of_trimUpdateMode named (of_decide_eq_true kept)

theorem appendArgs_eq {update : List Char} {args : List (List Char)}
    (room : update.length < maxUpdateSize) :
    appendArgs headInfo update args =
      if (update ++ lines (keptArgs headInfo args)).length < maxUpdateSize then
        some (update ++ lines (keptArgs headInfo args))
      else none := by
  induction args generalizing update with
  | nil =>
      rw [appendArgs, keptArgs, List.filter_nil, lines, List.flatMap_nil, List.append_nil, if_pos room]
  | cons arg args ih =>
      rw [appendArgs]
      split
      · rename_i absent
        have kept : keptArgs headInfo (arg :: args) = arg :: keptArgs headInfo args :=
          List.filter_cons_of_pos (decide_eq_true absent)
        have text : update ++ lines (keptArgs headInfo (arg :: args)) =
            update ++ arg ++ ['\n'] ++ lines (keptArgs headInfo args) := by
          rw [kept, lines, List.flatMap_cons, lines]
          simp only [List.append_assoc]
        rw [text]
        have longer := @List.length_append _ (update ++ arg ++ ['\n'])
          (lines (keptArgs headInfo args))
        have line := @List.length_append _ (update ++ arg) ['\n']
        have front := @List.length_append _ update arg
        have one : ['\n'].length = 1 := rfl
        rw [strncatS]
        split
        · rename_i first
          rw [Option.bind_eq_bind, Option.bind_some, strncatS]
          split
          · exact ih (by omega)
          · rw [if_neg (by omega)]
            rfl
        · rw [if_neg (by omega)]
          rfl
      · rename_i found
        have kept : keptArgs headInfo (arg :: args) = keptArgs headInfo args :=
          List.filter_cons_of_neg (by simpa using found)
        rw [kept]
        exact ih room

/-- What is stored when the arguments that were kept and `last` fit. -/
def rewritten (headInfo last : List Char) (args : List (List Char)) (misc next : UpdateMessage) :
    UpdateMessage :=
  if (lines (keptArgs headInfo args) ++ last).length < maxUpdateSize then
    next.withUpdate (lines (keptArgs headInfo args) ++ last)
  else misc

theorem appended_eq {args : List (List Char)} {buffer : Option (List Char)}
    {misc next : UpdateMessage} :
    (do
      let update ← appendArgs headInfo [] args
      let buffer ← buffer
      let update ← strncatS maxUpdateSize update buffer
      pure (next.withUpdate update)).getD misc =
    (buffer.map fun last => rewritten headInfo last args misc next).getD misc := by
  rw [appendArgs_eq (by decide), List.nil_append]
  cases buffer with
  | none =>
      split
      · rfl
      · rfl
  | some last =>
      rw [Option.map_some, Option.getD_some, rewritten]
      split
      · rename_i room
        rw [Option.bind_eq_bind, Option.bind_some, Option.bind_some, strncatS, ← List.length_append]
        split
        · rfl
        · rfl
      · rename_i full
        rw [if_neg (fun room => full (Nat.lt_of_le_of_lt
          (List.length_append ▸ Nat.le_add_right _ _) room))]
        rfl

variable {commandFile : Option UpdateMessage} {misc : UpdateMessage}

theorem setMessageToMisc_eq {miscCmd : List Char} {message : Int} (named : headInfo ≠ []) :
    setMessageToMisc commandFile miscCmd message headInfo misc =
      if (cString miscCmd).length < maxCommandSize ∧
          (headArg headInfo (miscValue headInfo message)).length < headBufferSize then
        rewritten headInfo (headArg headInfo (miscValue headInfo message))
          (parseParams commandFile misc) misc (misc.withCommand (cString miscCmd))
      else misc := by
  rw [setMessageToMisc, if_neg named]
  dsimp only
  rw [strncpyS]
  split
  · rename_i fits
    refine (@appended_eq headInfo (parseParams commandFile misc) (snprintfS headBufferSize
      (headArg headInfo (miscValue headInfo message))) misc _).trans ?_
    rw [snprintfS]
    split
    · rename_i short
      rw [if_pos ⟨fits, short⟩]
      rfl
    · rename_i long
      rw [if_neg fun both => long both.2]
      rfl
  · rename_i long
    rw [if_neg fun both => long both.1]
    rfl

theorem updateInfoInMisc_eq {message : Option Int} (named : headInfo ≠ []) :
    updateInfoInMisc commandFile headInfo message false misc =
      if (headArg headInfo message).length < headBufferSize then
        rewritten headInfo (headArg headInfo message) (parseParams commandFile misc) misc misc
      else misc := by
  rw [updateInfoInMisc, if_neg named]
  dsimp only
  simp only [Bool.false_eq_true, if_false]
  rw [appended_eq, snprintfS]
  split
  · rfl
  · rfl

theorem removeUpdateInfoFromMisc_eq (named : headInfo ≠ []) :
    removeUpdateInfoFromMisc commandFile headInfo misc =
      rewritten headInfo [] (parseParams commandFile misc) misc misc := by
  rw [removeUpdateInfoFromMisc, updateInfoInMisc, if_neg named]
  dsimp only
  simp only [if_true]
  rw [appended_eq]
  rfl

theorem mem_keptArgs {args : List (List Char)} {arg : List Char}
    (kept : arg ∈ keptArgs headInfo args) : arg ∈ args ∧ find headInfo arg = none := by
  obtain ⟨listed, absent⟩ := List.mem_filter.mp kept
  exact ⟨listed, of_decide_eq_true absent⟩

theorem otherArgs_keptArgs (args : List (List Char)) :
    otherArgs headInfo (keptArgs headInfo args) = keptArgs headInfo args :=
  List.filter_eq_self.mpr fun _ kept =>
    decide_eq_true fun same => find_of_trimUpdateMode same (mem_keptArgs kept).2

theorem otherArgs_concat {args : List (List Char)} {last : List Char}
    (ofHead : trimUpdateMode last = headInfo) :
    otherArgs headInfo (keptArgs headInfo args ++ [last]) = keptArgs headInfo args := by
  have kept : otherArgs headInfo (keptArgs headInfo args) = keptArgs headInfo args :=
    otherArgs_keptArgs args
  rw [otherArgs] at kept ⊢
  rw [List.filter_append, kept, List.filter_cons_of_neg (by simp [ofHead]), List.filter_nil,
    List.append_nil]

/-! What the stored text parses into. -/

theorem cString_fillField {text : List Char} (ended : nul ∉ text)
    (room : text.length < maxUpdateSize) :
    cString ((fillField maxUpdateSize text).take (maxUpdateSize - 1)) = text := by
  have most : maxUpdateSize = 768 := rfl
  have whole : text.take maxUpdateSize = text := List.take_of_length_le (Nat.le_of_lt room)
  have front : text.take (maxUpdateSize - 1) = text := List.take_of_length_le (Nat.le_pred_of_lt room)
  rw [fillField, whole, List.take_append, front, cString, List.takeWhile_append_of_pos]
  · rw [List.take_replicate]
    cases min (maxUpdateSize - 1 - text.length) (maxUpdateSize - text.length) with
    | zero => exact List.append_nil text
    | succ count => exact List.append_nil text
  · intro char member
    exact decide_eq_true fun same => ended (same ▸ member)

theorem parseParams_withUpdate {next : UpdateMessage} {text : List Char} (some_ : text ≠ [])
    (ended : nul ∉ text) (room : text.length < maxUpdateSize) :
    parseParams commandFile (next.withUpdate text) = splitChars ['\n'] text := by
  have first : (next.withUpdate text).update.head? ≠ some nul := by
    cases text with
    | nil => exact absurd rfl some_
    | cons char rest => exact fun same => ended (Option.some.inj same ▸ List.mem_cons_self)
  rw [parseParams, if_neg first]
  exact congrArg _ (cString_fillField ended room)

theorem parseParams_whole {arg : List Char} (member : arg ∈ parseParams commandFile misc) :
    '\n' ∉ arg ∧ nul ∉ arg := by
  rw [parseParams] at member
  exact ⟨fun inside => (mem_splitChars member inside).2 rfl,
    fun inside => not_mem_cString _ (mem_splitChars member inside).1⟩

theorem length_joined_parseParams : (joined (parseParams commandFile misc)).length < maxUpdateSize := by
  rw [parseParams, joined_splitChars, cString]
  refine Nat.lt_of_le_of_lt (List.takeWhile_prefix _).length_le ?_
  exact Nat.lt_of_le_of_lt (List.length_take_le _ _) (by decide)

theorem parseParams_ne_nil : parseParams commandFile misc ≠ [] :=
  splitChars_ne_nil _ _

/-- The stored message parses into these arguments; it is untouched when they do not fit. -/
def Becomes (commandFile : Option UpdateMessage) (before after : UpdateMessage)
    (result : List (List Char)) : Prop :=
  if (joined result).length < maxUpdateSize then parseParams commandFile after = result
  else after = before

theorem length_lines_le {front all : List (List Char)} (inside : front.Sublist all) :
    (lines front).length ≤ (lines all).length := by
  induction inside with
  | slnil => exact Nat.le_refl 0
  | cons arg _ ih =>
      rw [length_lines_cons]
      exact Nat.le_add_left_of_le ih
  | cons_cons arg _ ih =>
      rw [length_lines_cons, length_lines_cons]
      exact Nat.add_le_add_left ih _

theorem not_mem_lines {args : List (List Char)} (ended : ∀ arg ∈ args, nul ∉ arg) :
    nul ∉ lines args := by
  intro member
  obtain ⟨arg, listed, inside⟩ := List.mem_flatMap.mp member
  cases List.mem_append.mp inside with
  | inl inside => exact ended arg listed inside
  | inr feed => exact absurd (List.mem_singleton.mp feed) (by decide)

/-- Exactly when a rewritten message keeps the arguments of the other options. -/
theorem rewritten_becomes_iff {last : List Char} {next : UpdateMessage}
    (named : headInfo ≠ []) (ofHead : trimUpdateMode last = headInfo) (whole : '\n' ∉ last ∧ nul ∉ last) :
    Becomes commandFile misc (rewritten headInfo last (parseParams commandFile misc) misc next)
        (otherArgs headInfo (parseParams commandFile misc) ++ [last]) ↔
      ((lines (keptArgs headInfo (parseParams commandFile misc)) ++ last).length < maxUpdateSize →
        keptArgs headInfo (parseParams commandFile misc) =
          otherArgs headInfo (parseParams commandFile misc)) := by
  let args := parseParams commandFile misc
  have shorter : (lines (keptArgs headInfo args) ++ last).length ≤
      (joined (otherArgs headInfo args ++ [last])).length := by
    rw [joined_concat, List.length_append, List.length_append]
    exact Nat.add_le_add_right (length_lines_le (keptArgs_sublist args)) _
  have lastNotNil : last ≠ [] := by
    rintro rfl
    exact named ofHead.symm
  rw [rewritten]
  split
  · rename_i room
    rw [forall_prop_of_true room]
    have parsed : parseParams commandFile (next.withUpdate (lines (keptArgs headInfo args) ++ last)) =
        keptArgs headInfo args ++ [last] := by
      rw [parseParams_withUpdate (by simp [lastNotNil]) ?_ room, ← joined_concat,
        splitChars_joined (by simp)]
      · intro arg member
        cases List.mem_append.mp member with
        | inl kept => exact (parseParams_whole (mem_keptArgs kept).1).1
        | inr new => exact List.mem_singleton.mp new ▸ whole.1
      · intro member
        cases List.mem_append.mp member with
        | inl member => exact not_mem_lines (fun _ kept => (parseParams_whole (mem_keptArgs kept).1).2) member
        | inr member => exact whole.2 member
    rw [Becomes]
    split
    · rw [parsed]
      exact ⟨fun same => List.append_cancel_right same, fun same => by rw [same]⟩
    · rename_i long
      constructor
      · intro same
        -- The arguments would be those that are written, which leaves none to be dropped.
        rw [same] at parsed
        have others := congrArg (otherArgs headInfo) parsed
        exact (others.trans (otherArgs_concat ofHead)).symm
      · intro same
        rw [joined_concat, ← same] at long
        exact absurd room long
  · rename_i full
    refine iff_of_true ?_ fun room => absurd room full
    rw [Becomes, if_neg fun room => full (Nat.lt_of_le_of_lt shorter room)]

/-- The other options are safe: those whose arguments contain the name of the option are the
option itself, unless the arguments do not fit, and the command and the new argument have room in
their buffers, unless there is nothing to be changed. -/
def OthersSafe (headInfo last : List Char) (args : List (List Char)) (buffered : Prop) : Prop :=
  (buffered → (lines (keptArgs headInfo args) ++ last).length < maxUpdateSize →
    ∀ arg ∈ args, find headInfo arg ≠ none → trimUpdateMode arg = headInfo) ∧
  (¬ buffered → (joined (otherArgs headInfo args ++ [last])).length < maxUpdateSize →
    args = otherArgs headInfo args ++ [last])

theorem rewritten_buffered_iff {last : List Char} {next : UpdateMessage} {buffered : Prop}
    [Decidable buffered] (named : headInfo ≠ []) (ofHead : trimUpdateMode last = headInfo)
    (whole : '\n' ∉ last ∧ nul ∉ last) :
    Becomes commandFile misc
        (if buffered then rewritten headInfo last (parseParams commandFile misc) misc next else misc)
        (otherArgs headInfo (parseParams commandFile misc) ++ [last]) ↔
      OthersSafe headInfo last (parseParams commandFile misc) buffered := by
  rw [OthersSafe, ← keptArgs_eq_otherArgs_iff]
  split
  · rename_i fits
    rw [rewritten_becomes_iff named ofHead whole]
    exact ⟨fun kept => ⟨fun _ => kept, fun no => absurd fits no⟩, fun safe => safe.1 fits⟩
  · rename_i full
    rw [Becomes]
    split
    · rename_i room
      exact ⟨fun same => ⟨fun yes => absurd yes full, fun _ _ => same⟩, fun safe => safe.2 full room⟩
    · rename_i long
      exact iff_of_true rfl ⟨fun yes => absurd yes full, fun _ room => absurd room long⟩

theorem length_lines {args : List (List Char)} (some_ : args ≠ []) :
    (lines args).length = (joined args).length + 1 := by
  obtain ⟨front, last, rfl⟩ := (List.eq_nil_or_concat' args).resolve_left some_
  rw [joined_concat, lines, List.flatMap_append, List.flatMap_singleton, ← List.append_assoc,
    List.length_append]
  rfl

theorem eq_of_lines_le {front all : List (List Char)} (inside : front.Sublist all)
    (longer : (lines all).length ≤ (lines front).length) : front = all := by
  induction inside with
  | slnil => rfl
  | cons arg inside _ =>
      have shorter := length_lines_le inside
      rw [length_lines_cons] at longer
      omega
  | cons_cons arg _ ih =>
      rw [length_lines_cons, length_lines_cons] at longer
      rw [ih (Nat.le_of_add_le_add_left longer)]

/-- A removal that is written leaves an empty argument behind the others. -/
theorem parseParams_removed {args : List (List Char)} {next : UpdateMessage} (some_ : args ≠ [])
    (whole : ∀ arg ∈ args, '\n' ∉ arg ∧ nul ∉ arg) (room : (lines args).length < maxUpdateSize) :
    parseParams commandFile (next.withUpdate (lines args)) = args ++ [[]] := by
  have text : lines args = joined (args ++ [[]]) := by rw [joined_concat, List.append_nil]
  rw [parseParams_withUpdate ?_ (not_mem_lines fun arg member => (whole arg member).2) room, text,
    splitChars_joined (by simp)]
  · intro arg member
    cases List.mem_append.mp member with
    | inl member => exact (whole arg member).1
    | inr new => exact List.mem_singleton.mp new ▸ List.not_mem_nil
  · cases args with
    | nil => exact absurd rfl some_
    | cons arg args =>
        intro empty
        have length := congrArg List.length empty
        rw [length_lines_cons, List.length_nil] at length
        omega

theorem removeUpdateInfoFromMisc_becomes_iff (named : headInfo ≠ []) :
    Becomes commandFile misc (removeUpdateInfoFromMisc commandFile headInfo misc)
        (otherArgs headInfo (parseParams commandFile misc)) ↔
      ((lines (keptArgs headInfo (parseParams commandFile misc))).length < maxUpdateSize →
        keptArgs headInfo (parseParams commandFile misc) = [] ∧
          parseParams commandFile (misc.withUpdate []) =
            otherArgs headInfo (parseParams commandFile misc)) := by
  let args := parseParams commandFile misc
  have within : (lines args).length ≤ maxUpdateSize :=
    (length_lines parseParams_ne_nil).trans_le length_joined_parseParams
  have othersFit : (joined (otherArgs headInfo args)).length < maxUpdateSize := by
    by_cases none_ : otherArgs headInfo args = []
    · rw [none_]
      decide
    · have shorter : (lines (otherArgs headInfo args)).length ≤ (lines args).length :=
        length_lines_le List.filter_sublist
      rw [length_lines none_] at shorter
      exact shorter.trans within
  rw [removeUpdateInfoFromMisc_eq named, rewritten, List.append_nil, Becomes, if_pos othersFit]
  split
  · rename_i room
    rw [forall_prop_of_true room]
    by_cases none_ : keptArgs headInfo (parseParams commandFile misc) = []
    · rw [and_iff_right none_, none_]
      rfl
    · rw [parseParams_removed none_ (fun arg kept => parseParams_whole (mem_keptArgs kept).1) room]
      refine iff_of_false (fun same => ?_) fun ⟨empty, _⟩ => none_ empty
      -- An empty argument is of no option and contains none, so both lists keep all of them.
      have counts := congrArg (List.count []) same
      have absent : find headInfo [] = none := if_neg named
      have inKept : List.count [] (keptArgs headInfo args) = List.count [] args :=
        List.count_filter (by rw [absent]; rfl)
      have inOther : List.count [] (otherArgs headInfo args) = List.count [] args :=
        List.count_filter (decide_eq_true fun same => named same.symm)
      rw [List.count_append, inKept, inOther] at counts
      exact absurd counts (Nat.succ_ne_self _)
  · rename_i full
    refine iff_of_true ?_ fun room => absurd room full
    have keptAll : keptArgs headInfo args = args :=
      eq_of_lines_le List.filter_sublist (within.trans (Nat.not_lt.mp full))
    have inside : (keptArgs headInfo args).Sublist (otherArgs headInfo args) := keptArgs_sublist args
    rw [keptAll] at inside
    exact inside.antisymm List.filter_sublist

/-- Exactly when a change of one option keeps the others. -/
theorem miscOption_becomes_iff (name : IsOptionName headInfo) (commandFile : Option UpdateMessage)
    (misc : UpdateMessage) :
    (∀ miscCmd message,
      Becomes commandFile misc (setMessageToMisc commandFile miscCmd message headInfo misc)
          (otherArgs headInfo (parseParams commandFile misc) ++
            [headArg headInfo (miscValue headInfo message)]) ↔
        OthersSafe headInfo (headArg headInfo (miscValue headInfo message))
          (parseParams commandFile misc)
          ((cString miscCmd).length < maxCommandSize ∧
            (headArg headInfo (miscValue headInfo message)).length < headBufferSize)) ∧
    (∀ message,
      Becomes commandFile misc (addUpdateInfoToMisc commandFile headInfo message misc)
          (otherArgs headInfo (parseParams commandFile misc) ++ [headArg headInfo message]) ↔
        OthersSafe headInfo (headArg headInfo message) (parseParams commandFile misc)
          ((headArg headInfo message).length < headBufferSize)) ∧
    (Becomes commandFile misc (removeUpdateInfoFromMisc commandFile headInfo misc)
        (otherArgs headInfo (parseParams commandFile misc)) ↔
      ((lines (keptArgs headInfo (parseParams commandFile misc))).length < maxUpdateSize →
        keptArgs headInfo (parseParams commandFile misc) = [] ∧
          parseParams commandFile (misc.withUpdate []) =
            otherArgs headInfo (parseParams commandFile misc))) := by
  refine ⟨fun miscCmd message => ?_, fun message => ?_, ?_⟩
  · rw [setMessageToMisc_eq name.some_]
    exact rewritten_buffered_iff name.some_ (name.trimUpdateMode_headArg _) (name.not_mem_headArg _)
  · rw [addUpdateInfoToMisc, updateInfoInMisc_eq name.some_]
    exact rewritten_buffered_iff name.some_ (name.trimUpdateMode_headArg _) (name.not_mem_headArg _)
  · exact removeUpdateInfoFromMisc_becomes_iff name.some_

end

/-- A message with this text in its `update` field. -/
def updateMessage (text : String) : UpdateMessage :=
  (UpdateMessage.mk (List.replicate 32 nul) [] (List.replicate 768 nul) [] (by decide +kernel)
    (by decide +kernel)).withUpdate text.toList

theorem retryCount_isOptionName : IsOptionName "retry_count".toList where
  some_ := by decide
  equal := by decide
  line := by decide
  ended := by decide

theorem retryCount_becomes :
    Becomes none (updateMessage "--update_package=/a.zip\n--retry_count=1")
      (setMessageToMisc none "boot_updater".toList 2 "retry_count".toList
        (updateMessage "--update_package=/a.zip\n--retry_count=1"))
      ["--update_package=/a.zip".toList, "--retry_count=2".toList] := by
  have becomes := ((miscOption_becomes_iff retryCount_isOptionName none
    (updateMessage "--update_package=/a.zip\n--retry_count=1")).1 "boot_updater".toList 2).mpr
    ⟨fun _ _ => by decide +kernel, fun refused => absurd (by decide +kernel) refused⟩
  have others : otherArgs "retry_count".toList
      (parseParams none (updateMessage "--update_package=/a.zip\n--retry_count=1")) =
      ["--update_package=/a.zip".toList] := by decide +kernel
  have new : headArg "retry_count".toList (miscValue "retry_count".toList 2) =
      "--retry_count=2".toList := by decide +kernel
  rw [others, new] at becomes
  exact becomes

/-- A package whose path contains the name of the option is lost. -/
theorem packagePath_lost :
    ¬ ∀ (commandFile : Option UpdateMessage) (misc : UpdateMessage) (miscCmd : List Char)
      (message : Int) (headInfo : List Char), IsOptionName headInfo →
      Becomes commandFile misc (setMessageToMisc commandFile miscCmd message headInfo misc)
        (otherArgs headInfo (parseParams commandFile misc) ++
          [headArg headInfo (miscValue headInfo message)]) := by
  intro becomes
  have same := becomes none (updateMessage "--update_package=/retry_count.zip")
    "boot_updater".toList 1 "retry_count".toList retryCount_isOptionName
  revert same
  rw [Becomes, if_pos (by decide +kernel)]
  decide +kernel

end Updater.Utils
