import Mathlib.Tactic.Common
import Updater.HashSignedData.Hsd

/-! Which written lists of signed hashes are read back, and which of their signatures the lookup
gives exactly. -/

set_option autoImplicit false
set_option linter.dupNamespace false

namespace Updater.HashSignedData

open Updater.Base

section Reading

/-- The entry of the lines of a block. -/
def singleOf : List Str → Option SingleSignedData
  | [key, signed] =>
      if keyStr.isPrefixOf key ∧ valueStr.isPrefixOf signed then some {
        name := trim (key.drop keyStr.length)
        signature := trim (signed.drop valueStr.length) }
      else none
  | _ => none

theorem SingleSignedData.tryFrom_toOption (value : Str) :
    (SingleSignedData.tryFrom value).toOption = singleOf (linesOf value) := by
  rw [SingleSignedData.tryFrom]
  generalize linesOf value = lines
  split
  · rename_i key signed
    rw [singleOf]
    split
    · rfl
    · rfl
  · rename_i other
    rw [singleOf.eq_def]
    split
    · exact absurd rfl (other _ _)
    · rfl

theorem mapM_toOption {α β ε : Type} (read : α → Except ε β) (items : List α) :
    (items.mapM read).toOption = items.mapM fun item => (read item).toOption := by
  induction items with
  | nil => rfl
  | cons item items hypothesis =>
      rw [List.mapM_cons, List.mapM_cons, ← hypothesis]
      cases read item with
      | error message => rfl
      | ok value =>
          cases items.mapM read with
          | error message => rfl
          | ok values => rfl

theorem mapM_none {α β : Type} {read : α → Option β} {items : List α} {item : α}
    (within : item ∈ items) (fails : read item = none) : items.mapM read = none := by
  induction items with
  | nil => exact nomatch within
  | cons first items hypothesis =>
      rw [List.mapM_cons]
      rw [List.mem_cons] at within
      cases within with
      | inl same => rw [← same, fails]; rfl
      | inr later => rw [hypothesis later]; cases read first <;> rfl

theorem mapM_some {α β : Type} {read : α → Option β} {items : List α} {value : α → β}
    (all : ∀ item ∈ items, read item = some (value item)) :
    items.mapM read = some (items.map value) := by
  induction items with
  | nil => rfl
  | cons first items hypothesis =>
      rw [List.mapM_cons, all first (.head _),
        hypothesis fun item within => all item (.tail _ within)]
      rfl

/-- What is read depends on the lines of the pieces only. -/
theorem HashSignedData.tryFrom_toOption {value : Str} (some_ : value ≠ []) :
    (HashSignedData.tryFrom value).toOption =
      ((pieceLines (value.splitOn newline)).mapM singleOf).map HashSignedData.mk := by
  have pieces : ((splitBlankLines value).filter (· ≠ [])).map linesOf =
      pieceLines (value.splitOn newline) := splitPairs_pieceLines value
  rw [HashSignedData.tryFrom, if_neg some_, ← pieces, List.mapM_map]
  have same : (singleOf ∘ linesOf) = fun piece => (SingleSignedData.tryFrom piece).toOption :=
    funext fun piece => (SingleSignedData.tryFrom_toOption piece).symm
  rw [same, ← mapM_toOption]
  cases ((splitBlankLines value).filter (· ≠ [])).mapM SingleSignedData.tryFrom with
  | error message => rfl
  | ok data => rfl

theorem toOption_none {ε α : Type} {result : Except ε α} :
    result.toOption = none ↔ ∃ message, result = .error message := by
  cases result with
  | error message => exact ⟨fun _ => ⟨message, rfl⟩, fun _ => rfl⟩
  | ok value => exact ⟨nofun, fun ⟨_, held⟩ => nomatch held⟩

theorem toOption_some {ε α : Type} {result : Except ε α} {value : α} :
    result.toOption = some value ↔ result = .ok value := by
  cases result with
  | error message => exact ⟨nofun, nofun⟩
  | ok own => simp [Except.toOption]

/-- One line for the name and, behind it, one for the signature. -/
def IsBlock (lines : List Str) : Prop :=
  ∃ key signed, lines = [key, signed] ∧ keyStr.isPrefixOf key ∧ valueStr.isPrefixOf signed

theorem singleOf_none {lines : List Str} (other : ¬ IsBlock lines) : singleOf lines = none := by
  rw [singleOf.eq_def]
  split
  · rename_i key signed
    exact if_neg fun held => other ⟨key, signed, rfl, held⟩
  · rfl

/-- A text with another run of lines is rejected. -/
theorem HashSignedData.tryFrom_rejects {value : Str} {run : List Str}
    (within : run ∈ runsOf (value.splitOn newline)) (other : ¬ IsBlock run) :
    ∃ message, HashSignedData.tryFrom value = .error message := by
  by_cases none_ : value = []
  · exact ⟨_, if_pos none_⟩
  · obtain ⟨behind, pieces⟩ := pieceLines_eq_runs (value.splitOn newline)
    rw [← toOption_none, tryFrom_toOption none_, pieces,
      mapM_none (List.mem_append_left _ within) (singleOf_none other)]
    rfl

end Reading

section Writing

/-- A name with its signature. -/
structure Listed where
  name : Str
  signature : Bytes
  trimmed : trim name = name
  named : name ≠ []
  oneLine : newline ∉ name
  signed : signature ≠ []

namespace Listed

variable (listed : Listed)

def nameLine : Str :=
  keyStr ++ ' ' :: listed.name

def signedLine : Str :=
  valueStr ++ ' ' :: Base64.encode listed.signature

def block : Str :=
  listed.nameLine ++ newline :: listed.signedLine

/-- The entry that is read from the block. -/
def single : SingleSignedData where
  name := listed.name
  signature := Base64.encode listed.signature

end Listed

def newlines (count : Nat) : Str :=
  List.replicate count newline

/-- The blocks; with each goes how many blank lines there are behind it, after the first one. -/
def writtenBlocks (trailing : Nat) : List (Listed × Nat) → Str
  | [] => newlines trailing
  | [(listed, _)] => listed.block ++ newlines trailing
  | (listed, blank) :: next :: entries =>
      listed.block ++ newlines (blank + 2) ++ writtenBlocks trailing (next :: entries)

def written (leading trailing : Nat) (entries : List (Listed × Nat)) : Str :=
  newlines leading ++ writtenBlocks trailing entries

variable {leading trailing : Nat} {listed : Listed} {entries : List (Listed × Nat)}

/-- The lines of the pieces of a text. -/
def textPieces (text : Str) : List (List Str) :=
  pieceLines (text.splitOn newline)

theorem newline_notMem_encode (data : Bytes) : newline ∉ Base64.encode data := fun within => by
  have all : newline ∉ Base64.padding :: Base64.alphabet := by decide
  exact all (Base64.mem_encode within)

theorem Listed.newline_notMem_nameLine : newline ∉ listed.nameLine := by
  have key : newline ∉ keyStr := by decide
  have blank : newline ≠ ' ' := by decide
  simp [Listed.nameLine, key, blank, listed.oneLine]

theorem Listed.newline_notMem_signedLine : newline ∉ listed.signedLine := by
  have value : newline ∉ valueStr := by decide
  have blank : newline ≠ ' ' := by decide
  simp [Listed.signedLine, value, blank, newline_notMem_encode]

theorem Listed.nameLine_ne_nil : listed.nameLine ≠ [] := by
  simp [Listed.nameLine]

theorem Listed.signedLine_ne_nil : listed.signedLine ≠ [] := by
  simp [Listed.signedLine]

/-- Two newlines in front change nothing. -/
theorem textPieces_newlines_two (text : Str) :
    textPieces (newline :: newline :: text) = textPieces text := by
  obtain ⟨next, lines, same⟩ := List.exists_cons_of_ne_nil (List.splitOn_ne_nil newline text)
  rw [textPieces, textPieces, ← List.nil_append (newline :: newline :: text),
    List.splitOn_append_cons_self_of_not_mem List.not_mem_nil,
    ← List.nil_append (newline :: text),
    List.splitOn_append_cons_self_of_not_mem List.not_mem_nil, same, pieceLines_empty_empty]

theorem Listed.splitOn_block (rest : Str) : (listed.block ++ newline :: rest).splitOn newline =
    listed.nameLine :: listed.signedLine :: rest.splitOn newline := by
  rw [block, List.append_assoc, List.cons_append,
    List.splitOn_append_cons_self_of_not_mem newline_notMem_nameLine,
    List.splitOn_append_cons_self_of_not_mem newline_notMem_signedLine]

theorem Listed.splitOn_block_end :
    listed.block.splitOn newline = [listed.nameLine, listed.signedLine] := by
  rw [block, List.splitOn_append_cons_self_of_not_mem newline_notMem_nameLine,
    List.splitOn_eq_singleton newline_notMem_signedLine]

theorem textPieces_block (rest : Str) :
    textPieces (listed.block ++ newline :: newline :: rest) =
      [listed.nameLine, listed.signedLine] :: textPieces rest := by
  obtain ⟨next, lines, same⟩ := List.exists_cons_of_ne_nil (List.splitOn_ne_nil newline rest)
  rw [textPieces, textPieces, Listed.splitOn_block, ← List.nil_append (newline :: rest),
    List.splitOn_append_cons_self_of_not_mem List.not_mem_nil, same,
    pieceLines_cons Listed.nameLine_ne_nil Listed.signedLine_ne_nil,
    pieceLines_run Listed.signedLine_ne_nil]
  rfl

theorem pieceLines_single {line : Str} (filled : line ≠ []) : pieceLines [line] = [[line]] := by
  simp [pieceLines, groupLines, filled]

theorem pieceLines_single_empty {line : Str} (filled : line ≠ []) :
    pieceLines [line, []] = [[line]] := by
  simp [pieceLines, groupLines, filled]

theorem textPieces_block_end :
    textPieces listed.block = [[listed.nameLine, listed.signedLine]] := by
  rw [textPieces, Listed.splitOn_block_end,
    pieceLines_cons Listed.nameLine_ne_nil Listed.signedLine_ne_nil,
    pieceLines_single Listed.signedLine_ne_nil]
  rfl

theorem textPieces_block_newline :
    textPieces (listed.block ++ [newline]) = [[listed.nameLine, listed.signedLine]] := by
  rw [textPieces, Listed.splitOn_block, List.splitOn_nil,
    pieceLines_cons Listed.nameLine_ne_nil Listed.signedLine_ne_nil,
    pieceLines_single_empty Listed.signedLine_ne_nil]
  rfl

/-- An odd number of newlines leaves an empty piece. -/
theorem textPieces_newlines (count : Nat) :
    textPieces (newlines count) = if count % 2 = 0 then [] else [[]] := by
  induction count using Nat.twoStepInduction with
  | zero => rfl
  | one => decide
  | more count hypothesis _ =>
      have same : (count + 2) % 2 = count % 2 := by omega
      rw [show newlines (count + 2) = newline :: newline :: newlines count from rfl,
        textPieces_newlines_two, hypothesis, same]

/-- Newlines in front of a block change nothing. -/
theorem textPieces_newlines_block (count : Nat) (rest : Str) :
    textPieces (newlines count ++ (listed.block ++ rest)) = textPieces (listed.block ++ rest) := by
  induction count using Nat.twoStepInduction with
  | zero => rfl
  | one =>
      obtain ⟨first, lines, same, filled⟩ : ∃ first lines,
          (listed.block ++ rest).splitOn newline = first :: lines ∧ first ≠ [] := by
        have begins := List.splitOn_append_cons_self_of_not_mem
          (@Listed.newline_notMem_nameLine listed) (listed.signedLine ++ rest)
        rw [Listed.block, List.append_assoc, List.cons_append, begins]
        exact ⟨_, _, rfl, Listed.nameLine_ne_nil⟩
      rw [textPieces, textPieces, show newlines 1 ++ (listed.block ++ rest) =
        [] ++ newline :: (listed.block ++ rest) from rfl,
        List.splitOn_append_cons_self_of_not_mem List.not_mem_nil, same,
        pieceLines_empty_cons filled]
  | more count hypothesis _ =>
      rw [show newlines (count + 2) ++ (listed.block ++ rest) =
        newline :: newline :: (newlines count ++ (listed.block ++ rest)) from rfl,
        textPieces_newlines_two, hypothesis]

/-- The piece that the newlines at the end leave behind the blocks. -/
def leftOver (trailing : Nat) : List (List Str) :=
  if trailing = 1 ∨ trailing % 2 = 0 then [] else [[]]

def blockLines (entry : Listed × Nat) : List Str :=
  [entry.1.nameLine, entry.1.signedLine]

theorem textPieces_last : textPieces (listed.block ++ newlines trailing) =
    [listed.nameLine, listed.signedLine] :: leftOver trailing := by
  match trailing with
  | 0 => rw [newlines, List.replicate_zero, List.append_nil, textPieces_block_end]; rfl
  | 1 => exact textPieces_block_newline
  | count + 2 =>
      have same : (count + 2 = 1 ∨ (count + 2) % 2 = 0) ↔ count % 2 = 0 := by omega
      rw [show newlines (count + 2) = newline :: newline :: newlines count from rfl,
        textPieces_block, textPieces_newlines, leftOver]
      simp only [same]

theorem writtenBlocks_cons (entry : Listed × Nat) :
    ∃ rest, writtenBlocks trailing (entry :: entries) = entry.1.block ++ rest := by
  cases entries with
  | nil => exact ⟨_, rfl⟩
  | cons next entries => exact ⟨_, List.append_assoc _ _ _⟩

theorem textPieces_writtenBlocks (some_ : entries ≠ []) :
    textPieces (writtenBlocks trailing entries) = entries.map blockLines ++ leftOver trailing := by
  induction entries using writtenBlocks.induct with
  | case1 => exact absurd rfl some_
  | case2 listed blank => exact textPieces_last
  | case3 listed blank next entries hypothesis =>
      obtain ⟨rest, begins⟩ := @writtenBlocks_cons trailing entries next
      rw [writtenBlocks, List.append_assoc, show newlines (blank + 2) =
        newline :: newline :: newlines blank from rfl, List.cons_append, List.cons_append,
        textPieces_block, begins, textPieces_newlines_block, ← begins, hypothesis nofun]
      rfl

/-- The pieces of a written list. -/
theorem textPieces_written (some_ : entries ≠ []) :
    textPieces (written leading trailing entries) =
      entries.map blockLines ++ leftOver trailing := by
  obtain ⟨entry, later, rfl⟩ := List.exists_cons_of_ne_nil some_
  obtain ⟨rest, begins⟩ := @writtenBlocks_cons trailing later entry
  rw [written, begins, textPieces_newlines_block, ← begins, textPieces_writtenBlocks some_]

/-- The list is read back: an empty one from an even number of newlines, another one unless an odd
number of newlines from three on stands at the end. -/
def Spaced (leading trailing : Nat) (entries : List (Listed × Nat)) : Prop :=
  (entries = [] → 0 < leading + trailing ∧ (leading + trailing) % 2 = 0) ∧
    (entries ≠ [] → trailing = 1 ∨ trailing % 2 = 0)

instance : Decidable (Spaced leading trailing entries) :=
  inferInstanceAs (Decidable (_ ∧ _))

theorem trim_blank (text : Str) : trim (' ' :: text) = trim text := by
  rw [trim, List.dropWhile_cons_of_pos (by decide), trim]

theorem forall_mem_of_all {holds : Char → Prop} [DecidablePred holds] {chars : Str}
    (all : (chars.all fun char => decide (holds char)) = true) : ∀ char ∈ chars, holds char :=
  fun char within => of_decide_eq_true (List.all_eq_true.mp all char within)

theorem trim_encode (data : Bytes) : trim (Base64.encode data) = Base64.encode data := by
  have all : ∀ char ∈ Base64.padding :: Base64.alphabet, isWhitespace char = false :=
    forall_mem_of_all (by decide)
  have first : (Base64.encode data).dropWhile isWhitespace = Base64.encode data := by
    rw [List.dropWhile_eq_self_iff]
    intro within held
    rw [all _ (Base64.mem_encode (List.getElem_mem within))] at held
    exact Bool.noConfusion held
  rw [trim, first, List.rdropWhile_eq_self_iff]
  intro within held
  rw [all _ (Base64.mem_encode (List.getLast_mem within))] at held
  exact Bool.noConfusion held

theorem singleOf_blockLines (entry : Listed × Nat) :
    singleOf (blockLines entry) = some entry.1.single := by
  have key : keyStr.isPrefixOf entry.1.nameLine :=
    List.isPrefixOf_iff_prefix.mpr (List.prefix_append _ _)
  have value : valueStr.isPrefixOf entry.1.signedLine :=
    List.isPrefixOf_iff_prefix.mpr (List.prefix_append _ _)
  rw [blockLines, singleOf, if_pos ⟨key, value⟩, Listed.nameLine, Listed.signedLine,
    List.drop_left, List.drop_left, trim_blank, trim_blank, trim_encode, entry.1.trimmed]
  rfl

theorem written_ne_nil (some_ : entries ≠ []) : written leading trailing entries ≠ [] := by
  obtain ⟨entry, later, rfl⟩ := List.exists_cons_of_ne_nil some_
  obtain ⟨rest, begins⟩ := @writtenBlocks_cons trailing later entry
  rw [written, begins, Listed.block]
  simp

theorem HashSignedData.tryFrom_newlines (count : Nat) :
    (HashSignedData.tryFrom (newlines count)).toOption =
      if 0 < count ∧ count % 2 = 0 then some ⟨[]⟩ else none := by
  by_cases some_ : count = 0
  · rw [some_]
    rfl
  · have filled : newlines count ≠ [] := by simpa [newlines] using some_
    have pieces : pieceLines ((newlines count).splitOn newline) = _ := textPieces_newlines count
    rw [tryFrom_toOption filled, pieces]
    by_cases even : count % 2 = 0
    · rw [if_pos even, if_pos ⟨Nat.pos_of_ne_zero some_, even⟩]
      rfl
    · rw [if_neg even, if_neg fun held => even held.2]
      rfl

/-- What is read from a written list. -/
theorem HashSignedData.tryFrom_written :
    (HashSignedData.tryFrom (written leading trailing entries)).toOption =
      if Spaced leading trailing entries then some ⟨entries.map (·.1.single)⟩ else none := by
  by_cases none_ : entries = []
  · subst none_
    have count : written leading trailing [] = newlines (leading + trailing) :=
      List.replicate_append_replicate
    have spaced : Spaced leading trailing [] ↔
        0 < leading + trailing ∧ (leading + trailing) % 2 = 0 :=
      ⟨fun held => held.1 rfl, fun held => ⟨fun _ => held, fun other => absurd rfl other⟩⟩
    rw [count, tryFrom_newlines]
    simp only [spaced]
    rfl
  · have pieces : pieceLines ((written leading trailing entries).splitOn newline) = _ :=
      textPieces_written none_
    have spaced : Spaced leading trailing entries ↔ trailing = 1 ∨ trailing % 2 = 0 :=
      ⟨fun held => held.2 none_, fun held => ⟨fun other => absurd other none_, fun _ => held⟩⟩
    rw [tryFrom_toOption (written_ne_nil none_), pieces, leftOver]
    simp only [spaced]
    split
    · have each : ∀ entry ∈ entries, (singleOf ∘ blockLines) entry = some entry.1.single :=
        fun entry _ => singleOf_blockLines entry
      rw [List.append_nil, List.mapM_map, mapM_some each]
      rfl
    · have fails : singleOf [] = none := rfl
      rw [mapM_none (List.mem_append_right _ (.head _)) fails]
      rfl

end Writing

section Decoding

variable {evp : EvpDecodeBlock} {signature : Bytes}

/-- The text that is written for a signature, as bytes. -/
def encodedBytes (signature : Bytes) : Bytes :=
  (Base64.encode signature).flatMap String.utf8EncodeChar

/-- The signature is decoded from as many characters as its text's length as `i32` says; all bytes
behind those are zero. -/
def Decodes (signature : Bytes) : Prop :=
  let count := (Base64.encode signature).length % 2 ^ 32
  0 < count ∧ count < 2 ^ 31 ∧ ∀ byte ∈ signature.drop (count / 4 * 3), byte = 0

theorem utf8EncodeChar_digit {char : Char} (within : char ∈ Base64.padding :: Base64.alphabet) :
    String.utf8EncodeChar char = [char.toUInt8] := by
  have all : ∀ char ∈ Base64.padding :: Base64.alphabet,
      String.utf8EncodeChar char = [char.toUInt8] :=
    forall_mem_of_all (by decide +kernel)
  exact all char within

theorem encodedBytes_eq_map (signature : Bytes) :
    encodedBytes signature = (Base64.encode signature).map Char.toUInt8 := by
  rw [encodedBytes, List.flatMap_congr fun char within =>
    utf8EncodeChar_digit (Base64.mem_encode within), List.map_eq_flatMap]

@[simp] theorem length_encodedBytes :
    (encodedBytes signature).length = (signature.length + 2) / 3 * 4 := by
  rw [encodedBytes_eq_map, List.length_map, Base64.length_encode]

theorem toUInt8_alphabet {char : Char} (within : char ∈ Base64.alphabet) :
    char.toUInt8 ≠ '='.toUInt8 := by
  have all : ∀ char ∈ Base64.alphabet, char.toUInt8 ≠ '='.toUInt8 :=
    forall_mem_of_all (by decide +kernel)
  exact all char within

/-- The padding is counted right: the rest is as long as the signature. -/
theorem getB64DecodeLen_encodedBytes (some_ : signature ≠ []) :
    ∃ padding, getB64DecodeLen (encodedBytes signature) =
        .ok ((signature.length + 2) / 3 * 3, padding) ∧
      (signature.length + 2) / 3 * 3 - padding = signature.length := by
  have positive := List.length_pos_iff.mpr some_
  obtain ⟨digits, split_, all, two⟩ := Base64.encode_padded signature some_
  have split' : encodedBytes signature = digits.map Char.toUInt8 ++ List.replicate
      ((signature.length + 2) / 3 * 3 - signature.length) '='.toUInt8 := by
    rw [encodedBytes_eq_map, split_, List.map_append, List.map_replicate]
    rfl
  have length := @length_encodedBytes signature
  have total := congrArg List.length split'
  rw [length, List.length_append, List.length_map, List.length_replicate] at total
  -- the characters of padding are those behind the digits
  have padded : ∀ index, index < (signature.length + 2) / 3 * 4 →
      ((encodedBytes signature)[index]? = some '='.toUInt8 ↔ digits.length ≤ index) := by
    intro index within
    rw [split', List.getElem?_append, List.length_map]
    split
    · rename_i inside
      rw [List.getElem?_map, List.getElem?_eq_getElem inside]
      exact ⟨fun same => absurd (Option.some.inj same) (toUInt8_alphabet
        (all _ (List.getElem_mem inside))), fun behind => absurd inside (Nat.not_lt.mpr behind)⟩
    · rename_i behind
      rw [List.getElem?_replicate, if_pos (by omega)]
      exact ⟨fun _ => Nat.not_lt.mp behind, fun _ => rfl⟩
  have groups : (signature.length + 2) / 3 * 4 / 4 = (signature.length + 2) / 3 := by omega
  rw [getB64DecodeLen, length, if_neg (by omega), groups]
  refine ⟨_, rfl, ?_⟩
  simp only [padded ((signature.length + 2) / 3 * 4 - 1) (by omega),
    padded ((signature.length + 2) / 3 * 4 - 2) (by omega)]
  split
  · split
    · omega
    · omega
  · split
    · omega
    · omega

theorem take_encodedBytes {groups : Nat} (within : groups ≤ (signature.length + 2) / 3) :
    (encodedBytes signature).take (groups * 4) = encodedBytes (signature.take (groups * 3)) := by
  rw [encodedBytes_eq_map, encodedBytes_eq_map, ← List.map_take]
  by_cases whole : groups * 3 ≤ signature.length
  · rw [Base64.take_encode _ _ whole]
  · have same : groups = (signature.length + 2) / 3 := by omega
    have length := Base64.length_encode signature
    rw [List.take_of_length_le (by omega), List.take_of_length_le (by omega)]

/-- The bytes that are decoded from the first groups, cut to the length of the signature. -/
theorem take_writeAt_zeros {outLen kept : Nat} (room : signature.length ≤ outLen)
    (within : kept ≤ outLen) :
    (writeAt (List.replicate outLen 0) 0 (signature.take kept ++
        List.replicate (kept - (signature.take kept).length) 0)).take signature.length =
      signature.take kept ++ List.replicate (signature.length - kept) 0 := by
  have kept_ : (signature.take kept).take signature.length = signature.take kept :=
    List.take_of_length_le (List.length_take_le' kept signature)
  rw [writeAt, List.take_zero, List.nil_append, Nat.zero_add, List.drop_replicate,
    List.append_assoc, List.replicate_append_replicate, List.length_append, List.length_replicate,
    List.take_append, kept_, List.length_take, List.take_replicate]
  congr 2
  omega

/-- The decoded bytes are the signature exactly if the length is read as it is, or only zeros are
left out. -/
theorem evpDecodeBlock_encodedBytes_iff (some_ : signature ≠ []) :
    evpDecodeBlock evp (encodedBytes signature) = .ok signature ↔ Decodes signature := by
  obtain ⟨padding, lengths, cut⟩ := getB64DecodeLen_encodedBytes some_
  have count_ : (Base64.encode signature).length % 2 ^ 32 =
      (signature.length + 2) / 3 * 4 % 2 ^ 32 := by rw [Base64.length_encode]
  rw [evpDecodeBlock, lengths, length_encodedBytes, Decodes, count_]
  generalize whole : (signature.length + 2) / 3 = groups at cut
  by_cases positive : 0 < groups * 4 % 2 ^ 32 ∧ groups * 4 % 2 ^ 32 < 2 ^ 31
  · obtain ⟨part, same⟩ : ∃ part, groups * 4 % 2 ^ 32 = part * 4 :=
      ⟨groups * 4 % 2 ^ 32 / 4, by omega⟩
    have within : part ≤ groups := by omega
    have length : asI32 (groups * 4) = ((part * 4 : Nat) : Int) := by
      rw [asI32, if_pos positive.2]
      omega
    have decoded := @evp.decodes (encodedBytes signature) _ (part * 4) (by omega)
      (by rw [length_encodedBytes]; omega) (take_encodedBytes (whole ▸ within))
    have read : part * 4 / 4 * 3 = part * 3 := by omega
    rw [read] at decoded
    have count : ¬ ((part * 3 : Nat) : Int) ≤ 0 := by omega
    simp only [length, decoded, cut, if_neg count]
    rw [take_writeAt_zeros (by omega) (by omega), same, read, Except.ok.injEq]
    have parts : signature.take (part * 3) ++
        List.replicate (signature.length - part * 3) 0 = signature ↔
        ∀ byte ∈ signature.drop (part * 3), byte = 0 := by
      nth_rewrite 3 [← List.take_append_drop (part * 3) signature]
      rw [List.append_cancel_left_eq, eq_comm, List.eq_replicate_iff, List.length_drop]
      exact and_iff_right rfl
    rw [parts]
    exact ⟨fun zeros => ⟨by omega, by omega, zeros⟩, fun held => held.2.2⟩
  · have none_ : asI32 (groups * 4) ≤ 0 := by
      rw [asI32]
      split
      · omega
      · omega
    have failed := evp.nothing (encodedBytes signature) none_
    simp only [if_pos failed]
    exact ⟨nofun, fun held => absurd ⟨held.1, held.2.1⟩ positive⟩

end Decoding

section Lookup

/-- Names with their signatures, and the blank lines behind each of them after the first one. No
name stands twice. -/
structure Listing where
  entries : List (Listed × Nat)
  distinct : (entries.map (·.1.name)).Nodup

variable (evp : EvpDecodeBlock)

/-- The text is read, each listed name gives its own signature, and every other name an error. -/
def Exact (text : Str) (listing : Listing) : Prop :=
  ∃ signed, HashSignedData.tryFrom text = .ok signed ∧
    (∀ entry ∈ listing.entries,
      signed.getSigForFile evp entry.1.name = .ok entry.1.signature) ∧
    ∀ fileName, (∀ entry ∈ listing.entries, entry.1.name ≠ fileName) →
      ∃ message, signed.getSigForFile evp fileName = .error message

variable {evp} {entries : List (Listed × Nat)}

theorem find?_single (distinct : (entries.map (·.1.name)).Nodup) {entry : Listed × Nat}
    (within : entry ∈ entries) :
    (entries.map (·.1.single)).find? (·.name = entry.1.name) = some entry.1.single := by
  induction entries with
  | nil => exact nomatch within
  | cons first entries hypothesis =>
      rw [List.map_cons, List.nodup_cons] at distinct
      rw [List.mem_cons] at within
      cases within with
      | inl same =>
          subst same
          exact List.find?_cons_of_pos (by simp [Listed.single])
      | inr later =>
          have other : first.1.name ≠ entry.1.name := fun same =>
            distinct.1 (same ▸ List.mem_map_of_mem later)
          rw [List.map_cons, List.find?_cons]
          split
          · rename_i held
            exact absurd (of_decide_eq_true held) other
          · exact hypothesis distinct.2 later

theorem HashSignedData.getSigForFile_listed (distinct : (entries.map (·.1.name)).Nodup)
    {entry : Listed × Nat} (within : entry ∈ entries) :
    HashSignedData.getSigForFile evp ⟨entries.map (·.1.single)⟩ entry.1.name =
      evpDecodeBlock evp (encodedBytes entry.1.signature) := by
  rw [getSigForFile, find?_single distinct within]
  rfl

theorem HashSignedData.getSigForFile_other {fileName : Str}
    (other : ∀ entry ∈ entries, entry.1.name ≠ fileName) :
    ∃ message, HashSignedData.getSigForFile evp ⟨entries.map (·.1.single)⟩ fileName =
      .error message := by
  have absent : (entries.map (·.1.single)).find? (·.name = fileName) = none := by
    rw [List.find?_eq_none]
    intro single within
    obtain ⟨entry, held, rfl⟩ := List.mem_map.mp within
    exact decide_eq_true_iff.not.mpr (other entry held)
  rw [getSigForFile, absent]
  exact ⟨_, rfl⟩

/-- A text with a block of other lines is rejected; a written list is looked up exactly unless an odd
number of newlines is left over or the length of a signature's text does not fit `i32`. -/
theorem HashSignedData.lookup_exact_iff (evp : EvpDecodeBlock) :
    (∀ (text : Str), ∀ run ∈ runsOf (text.splitOn newline), ¬ IsBlock run →
      ∃ message, HashSignedData.tryFrom text = .error message) ∧
    ∀ (leading trailing : Nat) (listing : Listing),
      Exact evp (written leading trailing listing.entries) listing ↔
        Spaced leading trailing listing.entries ∧
          ∀ entry ∈ listing.entries, Decodes entry.1.signature := by
  refine ⟨fun text run within other => tryFrom_rejects within other,
    fun leading trailing listing => ?_⟩
  have read := @tryFrom_written leading trailing listing.entries
  constructor
  · rintro ⟨signed, accepted, listed, -⟩
    rw [accepted] at read
    by_cases spaced : Spaced leading trailing listing.entries
    · rw [if_pos spaced] at read
      have data : signed = ⟨listing.entries.map (·.1.single)⟩ := Option.some.inj read
      subst data
      refine ⟨spaced, fun entry within => ?_⟩
      rw [← @evpDecodeBlock_encodedBytes_iff evp _ entry.1.signed,
        ← getSigForFile_listed listing.distinct within]
      exact listed entry within
    · rw [if_neg spaced] at read
      exact nomatch read
  · rintro ⟨spaced, decodes⟩
    rw [if_pos spaced, toOption_some] at read
    refine ⟨_, read, fun entry within => ?_, fun fileName other => getSigForFile_other other⟩
    rw [getSigForFile_listed listing.distinct within, evpDecodeBlock_encodedBytes_iff entry.1.signed]
    exact decodes entry within

/-- A decoder of whole texts. -/
def decodeBlock : EvpDecodeBlock where
  run text n :=
    if n ≤ 0 then (0, [])
    else (((n.toNat / 4 * 3 : Nat) : Int),
      Base64.decode ((text.take n.toNat).map fun byte => Char.ofNat byte.toNat))
  decodes := by
    intro text data n positive within encoded
    have count : ¬ ((n : Nat) : Int) ≤ 0 := by omega
    have chars : (text.take n).map (fun byte => Char.ofNat byte.toNat) = Base64.encode data := by
      have back : ∀ char ∈ Base64.padding :: Base64.alphabet,
          Char.ofNat char.toUInt8.toNat = char :=
        forall_mem_of_all (by decide +kernel)
      rw [encoded, ← encodedBytes, encodedBytes_eq_map, List.map_map]
      exact (List.map_congr_left fun char held => back char (Base64.mem_encode held)).trans
        (List.map_id _)
    have length := congrArg List.length encoded
    rw [List.length_take, Nat.min_eq_left within, ← encodedBytes, length_encodedBytes] at length
    have bytes : (data.length + 2) / 3 * 4 / 4 * 3 = (data.length + 2) / 3 * 3 := by omega
    rw [if_neg count, Int.toNat_natCast, chars, Base64.decode_encode, length, bytes]
  nothing text n none_ := by
    rw [if_pos none_]

/-- One name, and three newlines at the end. -/
def oneListing : Listing where
  entries := [(⟨"a".toList, [1], by decide, by decide, by decide, by decide⟩, 0)]
  distinct := by decide

theorem oneListing_not_exact : ¬ Exact decodeBlock (written 0 3 oneListing.entries) oneListing := by
  rintro ⟨signed, accepted, -⟩
  have read := @HashSignedData.tryFrom_written 0 3 oneListing.entries
  rw [accepted, if_neg (by decide)] at read
  exact nomatch read

end Lookup

end Updater.HashSignedData
