import Mathlib.Data.List.Basic

/-! A text cut at pairs of separators, against its runs of lines that are not empty. -/

set_option autoImplicit false

namespace Updater.Base

variable {α : Type} {sep : α}

/-- The pieces between pairs of separators, each pair looked for behind the one before. -/
def splitPairs [DecidableEq α] (sep : α) : List α → List (List α)
  | [] => [[]]
  | [char] => [[char]]
  | first :: second :: rest =>
      if first = sep ∧ second = sep then [] :: splitPairs sep rest
      else (splitPairs sep (second :: rest)).modifyHead (first :: ·)

/-- The lines of the pieces: a piece ends before an empty line, which goes with it if it is the
last. -/
def groupLines : List (List α) → List (List (List α))
  | [] => []
  | [line] => [[line]]
  | [line, []] => [[line, []]]
  | line :: [] :: next :: lines => [line] :: groupLines (next :: lines)
  | line :: next :: lines => (groupLines (next :: lines)).modifyHead (line :: ·)

/-- The lines of the pieces that are not empty, without empty lines. -/
def pieceLines [DecidableEq α] (lines : List (List α)) : List (List (List α)) :=
  ((groupLines lines).filter (· ≠ [[]])).map (List.filter (· ≠ []))

/-- The runs of lines that are not empty. -/
def runsOf [DecidableEq α] (lines : List (List α)) : List (List (List α)) :=
  (lines.splitOn []).filter (· ≠ [])

section Pairs

variable [DecidableEq α] {line : List α}

theorem splitPairs_free (free : sep ∉ line) : splitPairs sep line = [line] := by
  induction line with
  | nil => rfl
  | cons first rest hypothesis =>
      rw [List.mem_cons, not_or] at free
      cases rest with
      | nil => rfl
      | cons second rest =>
          rw [splitPairs, if_neg fun held => free.1 held.1.symm, hypothesis free.2]
          rfl

theorem splitPairs_pair (free : sep ∉ line) (rest : List α) :
    splitPairs sep (line ++ sep :: sep :: rest) = line :: splitPairs sep rest := by
  induction line with
  | nil => rw [List.nil_append, splitPairs, if_pos ⟨rfl, rfl⟩]
  | cons first line hypothesis =>
      rw [List.mem_cons, not_or] at free
      have behind := hypothesis free.2
      obtain ⟨second, more, same⟩ : ∃ second more,
          line ++ sep :: sep :: rest = second :: more := List.exists_cons_of_ne_nil (by simp)
      rw [List.cons_append]
      rw [same] at behind ⊢
      rw [splitPairs, if_neg fun held => free.1 held.1.symm, behind]
      rfl

theorem splitPairs_last (free : sep ∉ line) :
    splitPairs sep (line ++ [sep]) = [line ++ [sep]] := by
  induction line with
  | nil => rfl
  | cons first line hypothesis =>
      rw [List.mem_cons, not_or] at free
      have behind := hypothesis free.2
      obtain ⟨second, more, same⟩ : ∃ second more, line ++ [sep] = second :: more :=
        List.exists_cons_of_ne_nil (by simp)
      rw [List.cons_append]
      rw [same] at behind ⊢
      rw [splitPairs, if_neg fun held => free.1 held.1.symm, behind]
      rfl

theorem splitPairs_single (free : sep ∉ line) {next : α} (other : next ≠ sep) (rest : List α) :
    splitPairs sep (line ++ sep :: next :: rest) =
      (splitPairs sep (next :: rest)).modifyHead (line ++ sep :: ·) := by
  induction line with
  | nil => rw [List.nil_append, splitPairs, if_neg fun held => other held.2]; rfl
  | cons first line hypothesis =>
      rw [List.mem_cons, not_or] at free
      have behind := hypothesis free.2
      obtain ⟨second, more, same⟩ : ∃ second more,
          line ++ sep :: next :: rest = second :: more := List.exists_cons_of_ne_nil (by simp)
      rw [List.cons_append]
      rw [same] at behind ⊢
      rw [splitPairs, if_neg fun held => free.1 held.1.symm, behind, List.modifyHead_modifyHead]
      rfl

end Pairs

section Groups

variable {line next : List α} {lines : List (List α)}

theorem groupLines_filled (filled : next ≠ []) : groupLines (line :: next :: lines) =
    (groupLines (next :: lines)).modifyHead (line :: ·) := by
  cases next with
  | nil => exact absurd rfl filled
  | cons char next => rw [groupLines.eq_def]

/-- The first group begins with the first line. -/
theorem groupLines_cons (line : List α) (lines : List (List α)) :
    ∃ group groups, groupLines (line :: lines) = (line :: group) :: groups := by
  induction lines generalizing line with
  | nil => exact ⟨[], [], rfl⟩
  | cons next lines hypothesis =>
      by_cases filled : next = []
      · subst filled
        cases lines with
        | nil => exact ⟨[[]], [], rfl⟩
        | cons third lines => exact ⟨[], groupLines (third :: lines), by rw [groupLines]⟩
      · obtain ⟨group, groups, same⟩ := hypothesis next
        exact ⟨next :: group, groups, by rw [groupLines_filled filled, same]; rfl⟩

/-- A cut at pairs of separators cuts the lines into groups. -/
theorem splitPairs_intercalate [DecidableEq α] (free : ∀ line ∈ lines, sep ∉ line) (some_ : lines ≠ []) :
    splitPairs sep (List.intercalate [sep] lines) =
      (groupLines lines).map (List.intercalate [sep]) := by
  induction lines using groupLines.induct with
  | case1 => exact absurd rfl some_
  | case2 line =>
      rw [groupLines, List.intercalate_singleton, splitPairs_free (free line (.head _))]
      simp
  | case3 line =>
      rw [groupLines, List.intercalate_cons_cons, List.intercalate_singleton, List.append_nil,
        splitPairs_last (free line (.head _))]
      simp [List.intercalate_cons_cons]
  | case4 line next lines hypothesis =>
      have behind := hypothesis (fun line within => free line (.tail _ (.tail _ within))) nofun
      rw [groupLines, List.intercalate_cons_cons, List.intercalate_cons_cons, List.append_assoc,
        List.nil_append, List.singleton_append, List.singleton_append,
        splitPairs_pair (free line (.head _)), behind]
      simp
  | case5 line next lines notLast notEmpty hypothesis =>
      have filled : next ≠ [] := fun none_ => by
        cases lines with
        | nil => exact notLast none_ rfl
        | cons third lines => exact notEmpty third lines none_ rfl
      have behind := hypothesis (fun line within => free line (.tail _ within)) nofun
      have freeNext := free next (.tail _ (.head _))
      obtain ⟨group, groups, same⟩ := groupLines_cons next lines
      rw [groupLines_filled filled, List.intercalate_cons_cons, List.append_assoc,
        List.singleton_append]
      cases next with
      | nil => exact absurd rfl filled
      | cons char next =>
          rw [List.mem_cons, not_or] at freeNext
          obtain ⟨rest, begins⟩ : ∃ rest,
              List.intercalate [sep] ((char :: next) :: lines) = char :: rest := by
            cases lines with
            | nil => exact ⟨next, by rw [List.intercalate_singleton]⟩
            | cons third lines => exact ⟨_, by rw [List.intercalate_cons_cons]; rfl⟩
          rw [begins] at behind ⊢
          rw [splitPairs_single (free line (.head _)) (Ne.symm freeNext.1), behind, same]
          simp [List.intercalate_cons_cons]

theorem mem_groupLines {group : List (List α)} (within : group ∈ groupLines lines) :
    group ≠ [] ∧ ∀ line ∈ group, line ∈ lines := by
  induction lines using groupLines.induct generalizing group with
  | case1 => exact nomatch within
  | case2 line =>
      rw [groupLines, List.mem_singleton] at within
      subst within
      exact ⟨List.cons_ne_nil _ _, fun _ held => held⟩
  | case3 line =>
      rw [groupLines, List.mem_singleton] at within
      subst within
      exact ⟨List.cons_ne_nil _ _, fun _ held => held⟩
  | case4 line next lines hypothesis =>
      rw [groupLines, List.mem_cons] at within
      cases within with
      | inl first =>
          subst first
          exact ⟨nofun, fun own held => List.mem_singleton.mp held ▸ .head _⟩
      | inr later =>
          obtain ⟨some_, all⟩ := hypothesis later
          exact ⟨some_, fun own held => .tail _ (.tail _ (all own held))⟩
  | case5 line next lines notLast notEmpty hypothesis =>
      obtain ⟨first, groups, same⟩ := groupLines_cons next lines
      have filled : next ≠ [] := fun none_ => by
        cases lines with
        | nil => exact notLast none_ rfl
        | cons third lines => exact notEmpty third lines none_ rfl
      rw [groupLines_filled filled, same, List.modifyHead_cons, List.mem_cons] at within
      rw [same] at hypothesis
      cases within with
      | inl joined =>
          subst joined
          refine ⟨nofun, fun own held => ?_⟩
          rw [List.mem_cons] at held
          cases held with
          | inl line_ => exact line_ ▸ .head _
          | inr behind => exact .tail _ ((hypothesis (.head _)).2 own behind)
      | inr later =>
          obtain ⟨some_, all⟩ := hypothesis (.tail _ later)
          exact ⟨some_, fun own held => .tail _ (all own held)⟩

section Pieces

variable [DecidableEq α]

theorem not_mem_of_mem_splitOn {text : List α} (within : line ∈ text.splitOn sep) :
    sep ∉ line := by
  induction text generalizing line with
  | nil =>
      rw [List.splitOn_nil, List.mem_singleton] at within
      exact within ▸ List.not_mem_nil
  | cons char text hypothesis =>
      rw [List.splitOn_cons_eq_if_modifyHead] at within
      split at within
      · rw [List.mem_cons] at within
        cases within with
        | inl none_ => exact none_ ▸ List.not_mem_nil
        | inr later => exact hypothesis later
      · rename_i other
        obtain ⟨first, rest, same⟩ := List.exists_cons_of_ne_nil (List.splitOn_ne_nil sep text)
        rw [same, List.modifyHead_cons, List.mem_cons] at within
        rw [same] at hypothesis
        cases within with
        | inl longer =>
            rw [longer, List.mem_cons, not_or]
            exact ⟨fun equal => other (by simp [equal]), hypothesis (.head _)⟩
        | inr later => exact hypothesis (.tail _ later)

/-- The pieces of a text that are not empty, by their lines. -/
theorem splitPairs_pieceLines (text : List α) :
    ((splitPairs sep text).filter (· ≠ [])).map
        (fun piece => (piece.splitOn sep).filter (· ≠ [])) =
      pieceLines (text.splitOn sep) := by
  have free : ∀ line ∈ text.splitOn sep, sep ∉ line := fun line within held =>
    not_mem_of_mem_splitOn within held
  have some_ : text.splitOn sep ≠ [] := List.splitOn_ne_nil sep text
  have cut := splitPairs_intercalate free some_
  rw [List.intercalate_splitOn] at cut
  rw [cut, pieceLines, List.filter_map, List.map_map]
  have all := @mem_groupLines _ (text.splitOn sep)
  generalize groupLines (text.splitOn sep) = groups at all
  have same : groups.filter ((fun piece => decide (piece ≠ [])) ∘ List.intercalate [sep]) =
      groups.filter (· ≠ [[]]) := by
    refine List.filter_congr fun group within => ?_
    have some_ := (all within).1
    rw [Function.comp_apply, decide_eq_decide, not_iff_not]
    cases group with
    | nil => exact absurd rfl some_
    | cons line group =>
        cases group with
        | nil => rw [List.intercalate_singleton]; simp
        | cons next group => rw [List.intercalate_cons_cons]; simp
  rw [same]
  refine List.map_congr_left fun group within => ?_
  obtain ⟨some_, lines⟩ := all (List.mem_of_mem_filter within)
  rw [Function.comp_apply, List.splitOn_intercalate sep (fun line held => free line (lines line held))
    some_]

theorem pieceLines_empty_empty : pieceLines ([] :: [] :: next :: lines) =
    pieceLines (next :: lines) := by
  rw [pieceLines, groupLines, List.filter_cons_of_neg (by simp), pieceLines]

/-- An empty line in front of another one changes nothing. -/
theorem pieceLines_empty_cons (filled : next ≠ []) :
    pieceLines ([] :: next :: lines) = pieceLines (next :: lines) := by
  obtain ⟨group, groups, same⟩ := groupLines_cons next lines
  rw [pieceLines, pieceLines, groupLines_filled filled, same, List.modifyHead_cons,
    List.filter_cons_of_pos (by simp), List.filter_cons_of_pos (by simp [filled])]
  simp

theorem pieceLines_run (filled : line ≠ []) :
    pieceLines (line :: [] :: next :: lines) = [line] :: pieceLines (next :: lines) := by
  rw [pieceLines, groupLines, List.filter_cons_of_pos (by simp [filled]), List.map_cons, pieceLines]
  simp [filled]

theorem pieceLines_cons (filled : line ≠ []) (filled' : next ≠ []) :
    pieceLines (line :: next :: lines) = (pieceLines (next :: lines)).modifyHead (line :: ·) := by
  obtain ⟨group, groups, same⟩ := groupLines_cons next lines
  rw [pieceLines, pieceLines, groupLines_filled filled', same, List.modifyHead_cons,
    List.filter_cons_of_pos (by simp), List.filter_cons_of_pos (by simp [filled'])]
  simp [filled]

theorem runsOf_nil : runsOf ([] : List (List α)) = [] := by
  simp [runsOf]

theorem runsOf_empty_cons : runsOf ([] :: lines) = runsOf lines := by
  rw [runsOf, List.splitOn_cons_eq_if_modifyHead]
  simp [runsOf]

theorem runsOf_run (filled : line ≠ []) : runsOf (line :: [] :: lines) = [line] :: runsOf lines := by
  rw [runsOf, List.splitOn_cons_eq_if_modifyHead, List.splitOn_cons_eq_if_modifyHead]
  simp [runsOf, filled]

theorem runsOf_cons (filled : line ≠ []) (filled' : next ≠ []) :
    runsOf (line :: next :: lines) = (runsOf (next :: lines)).modifyHead (line :: ·) ∧
      runsOf (next :: lines) ≠ [] := by
  obtain ⟨first, rest, same⟩ := List.exists_cons_of_ne_nil (List.splitOn_ne_nil [] lines)
  rw [runsOf, runsOf, List.splitOn_cons_eq_if_modifyHead, List.splitOn_cons_eq_if_modifyHead, same]
  simp [filled, filled']

/-- The pieces are the runs, and maybe an empty one behind them. -/
theorem pieceLines_eq_runs (lines : List (List α)) :
    ∃ behind, pieceLines lines = runsOf lines ++ behind := by
  induction lines using groupLines.induct with
  | case1 => exact ⟨[], rfl⟩
  | case2 line =>
      by_cases filled : line = []
      · subst filled
        exact ⟨[], by rw [runsOf_empty_cons, runsOf_nil]; simp [pieceLines, groupLines]⟩
      · exact ⟨[], by simp [pieceLines, groupLines, runsOf, filled,
          List.splitOn_cons_eq_if_modifyHead]⟩
  | case3 line =>
      by_cases filled : line = []
      · subst filled
        exact ⟨[[]], by
          rw [runsOf_empty_cons, runsOf_empty_cons, runsOf_nil]
          simp [pieceLines, groupLines]⟩
      · exact ⟨[], by simp [pieceLines, groupLines, runsOf, filled,
          List.splitOn_cons_eq_if_modifyHead]⟩
  | case4 line next lines hypothesis =>
      obtain ⟨behind, same⟩ := hypothesis
      by_cases filled : line = []
      · subst filled
        exact ⟨behind, by rw [pieceLines_empty_empty, runsOf_empty_cons, runsOf_empty_cons, same]⟩
      · exact ⟨behind, by rw [pieceLines_run filled, runsOf_run filled, same]; rfl⟩
  | case5 line next lines notLast notEmpty hypothesis =>
      obtain ⟨behind, same⟩ := hypothesis
      have filled' : next ≠ [] := fun none_ => by
        cases lines with
        | nil => exact notLast none_ rfl
        | cons third lines => exact notEmpty third lines none_ rfl
      by_cases filled : line = []
      · subst filled
        exact ⟨behind, by rw [pieceLines_empty_cons filled', runsOf_empty_cons, same]⟩
      · obtain ⟨runs, some_⟩ := @runsOf_cons α line next lines _ filled filled'
        refine ⟨behind, ?_⟩
        rw [pieceLines_cons filled filled', runs, same]
        cases first : runsOf (next :: lines) with
        | nil => exact absurd first some_
        | cons run runs => rfl

end Pieces

end Groups

end Updater.Base
