import Updater.ApplyPatch.BlockWriter
import Updater.Utils.Text

/-! The two ways to build a `BlockSet`: from pairs that are checked, and from text. -/

set_option autoImplicit false

namespace Updater.ApplyPatch

open Updater.Utils

/-- A `BlockSet` with the number of blocks that it keeps along with the pairs. -/
structure BlockSetState where
  blocks : BlockSet := []
  blockSize : Nat := 0
  offset : Nat := 0
  deriving DecidableEq, Repr

/-- `second - first` without a bound. -/
def BlockPair.extent (pair : BlockPair) : Nat :=
  pair.2 - pair.1

/-- The blocks of all pairs without a bound. -/
def BlockSet.extent (blocks : BlockSet) : Nat :=
  (blocks.map BlockPair.extent).sum

/-- Every pair ascends. -/
def BlockSet.Ascending (blocks : BlockSet) : Prop :=
  ∀ pair ∈ blocks, pair.1 < pair.2

instance (blocks : BlockSet) : Decidable (BlockSet.Ascending blocks) :=
  inferInstanceAs (Decidable (∀ pair ∈ blocks, pair.1 < pair.2))

namespace BlockSetState

/-- `PushBack`. -/
def pushBack (set : BlockSetState) (pair : BlockPair) : BlockSetState :=
  { set with
    blocks := set.blocks ++ [pair]
    blockSize := (set.blockSize + BlockPair.blocks pair) % sizeMax }

/-- `ClearBlocks`. -/
def clearBlocks (set : BlockSetState) : BlockSetState :=
  { set with blocks := [], blockSize := 0 }

/-- `CheckReliablePair`. -/
def checkReliablePair (set : BlockSetState) (pair : BlockPair) : Bool :=
  if pair.1 ≥ pair.2 then false
  else if set.blockSize ≥ sizeMax - 1 - BlockPair.extent pair then false
  else true

/-- The loop of the constructor from pairs, which ends at the first pair that fails. -/
def pushReliable (set : BlockSetState) : List BlockPair → BlockSetState
  | [] => set
  | pair :: pairs =>
      if set.checkReliablePair pair then pushReliable (set.pushBack pair) pairs else set

/-- The constructor from pairs. -/
def ofPairs (pairs : List BlockPair) : BlockSetState :=
  pushReliable {} pairs

/-- The loop of `ParserAndInsert` over the tokens behind the number. -/
def insertTokens (set : BlockSetState) : List String → BlockSetState
  | first :: second :: tokens =>
      insertTokens (set.pushBack (string2Int first nDec, string2Int second nDec)) tokens
  | _ => set

/-- `ParserAndInsert` of a list of tokens: whether it accepts them. -/
def parserAndInsertTokens (set : BlockSetState) (blockToken : List String) :
    Bool × BlockSetState :=
  let set := set.clearBlocks
  match blockToken with
  | [] => (false, set)
  | number :: tokens =>
      if blockToken.length < 3 then (false, set)
      else
        let blockPairSize := string2Int number nDec
        if blockPairSize = 0 ∨ blockPairSize % 2 ≠ 0 ∨ blockPairSize ≠ blockToken.length - 1 then
          (false, set)
        else (true, set.insertTokens tokens)

/-- `ParserAndInsert` of a text. -/
def parserAndInsert (set : BlockSetState) (blockStr : String) : Bool × BlockSetState :=
  if blockStr = "" then (false, set)
  else set.parserAndInsertTokens (splitString blockStr ",")

/-- What block input and output rests on: every pair ascends, and the number of blocks is that of
all pairs. -/
structure Reliable (set : BlockSetState) : Prop where
  ascending : BlockSet.Ascending set.blocks
  blockSize : set.blockSize = BlockSet.extent set.blocks

end BlockSetState

/-- The pairs that tokens spell. -/
def tokenPairs : List String → BlockSet
  | first :: second :: tokens =>
      (string2Int first nDec, string2Int second nDec) :: tokenPairs tokens
  | _ => []

/-- The first token is the number of the others, and this is even and not zero. -/
def WellCounted (blockToken : List String) : Prop :=
  match blockToken with
  | [] => False
  | number :: tokens =>
      string2Int number nDec = tokens.length ∧ tokens.length ≠ 0 ∧ tokens.length % 2 = 0

/-- The pairs ascend, and their blocks can be counted in 64 bits. -/
def BlockSet.Countable (blocks : BlockSet) : Prop :=
  BlockSet.Ascending blocks ∧ BlockSet.extent blocks < sizeMax

section Numbers

theorem strtoull_lt (chars : List Char) (base : Nat) : strtoull chars base < sizeMax := by
  have bounded : ∀ (value : Nat) (negative : Bool),
      (if 2 ^ 64 ≤ value then 2 ^ 64 - 1
        else if negative then (2 ^ 64 - value) % 2 ^ 64 else value) < sizeMax := by
    intro value negative
    split
    · decide
    · rename_i fits
      split
      · exact Nat.mod_lt _ (by decide)
      · exact Nat.lt_of_not_le fits
  exact bounded _ _

theorem string2Int_lt (str : String) (base : Nat) : string2Int str base < sizeMax := by
  rw [string2Int]
  split
  · decide
  · exact strtoull_lt _ _

theorem lt_of_mem_tokenPairs {tokens : List String} {pair : BlockPair}
    (member : pair ∈ tokenPairs tokens) : pair.1 < sizeMax ∧ pair.2 < sizeMax := by
  fun_induction tokenPairs tokens with
  | case1 first second tokens ih =>
      cases member with
      | head => exact ⟨string2Int_lt _ _, string2Int_lt _ _⟩
      | tail _ member => exact ih member
  | case2 tokens few => exact absurd member List.not_mem_nil

/-- A pair of 64-bit numbers that ascends counts its blocks. -/
theorem BlockPair.blocks_of_lt {pair : BlockPair} (ascending : pair.1 < pair.2)
    (fits : pair.2 < sizeMax) : BlockPair.blocks pair = BlockPair.extent pair := by
  rw [BlockPair.blocks, BlockPair.extent, Nat.mod_eq_of_lt fits,
    Nat.mod_eq_of_lt (Nat.lt_trans ascending fits),
    show pair.2 + sizeMax - pair.1 = pair.2 - pair.1 + sizeMax by omega, Nat.add_mod_right]
  exact Nat.mod_eq_of_lt (Nat.lt_of_le_of_lt (Nat.sub_le _ _) fits)

theorem BlockSet.sum_blocks {blocks : BlockSet} (ascending : BlockSet.Ascending blocks)
    (fits : ∀ pair ∈ blocks, pair.2 < sizeMax) :
    (blocks.map BlockPair.blocks).sum = BlockSet.extent blocks := by
  rw [BlockSet.extent]
  congr 1
  exact List.map_congr_left fun pair member =>
    BlockPair.blocks_of_lt (ascending pair member) (fits pair member)

end Numbers

namespace BlockSetState

section Insert

/-- What the loop over the tokens stores: all their pairs, however they lie. -/
theorem insertTokens_blocks (set : BlockSetState) (tokens : List String) :
    (set.insertTokens tokens).blocks = set.blocks ++ tokenPairs tokens := by
  fun_induction insertTokens set tokens with
  | case1 set first second tokens ih =>
      rw [ih, pushBack, tokenPairs, List.append_assoc]
      rfl
  | case2 set tokens few =>
      rw [tokenPairs, List.append_nil]
      exact few

/-- The number of blocks that it keeps, in 64 bits. -/
theorem insertTokens_blockSize (set : BlockSetState) (tokens : List String)
    (fits : set.blockSize < sizeMax) :
    (set.insertTokens tokens).blockSize =
      (set.blockSize + ((tokenPairs tokens).map BlockPair.blocks).sum) % sizeMax := by
  fun_induction insertTokens set tokens with
  | case1 set first second tokens ih =>
      rw [ih (Nat.mod_lt _ (by decide)), pushBack, tokenPairs, List.map_cons, List.sum_cons,
        ← Nat.add_assoc, Nat.mod_add_mod]
  | case2 set tokens few =>
      rw [tokenPairs, List.map_nil, List.sum_nil, Nat.add_zero, Nat.mod_eq_of_lt fits]
      exact few

/-- A list of tokens is accepted exactly when it is well counted, and then all its pairs are
stored. -/
theorem parserAndInsertTokens_eq (set : BlockSetState) (blockToken : List String) :
    (WellCounted blockToken →
      set.parserAndInsertTokens blockToken =
        (true, set.clearBlocks.insertTokens blockToken.tail)) ∧
    (¬WellCounted blockToken → (set.parserAndInsertTokens blockToken).1 = false) := by
  cases blockToken with
  | nil => exact ⟨nofun, fun _ => rfl⟩
  | cons number tokens =>
      have accepted : WellCounted (number :: tokens) ↔ 3 ≤ (number :: tokens).length ∧
          ¬(string2Int number nDec = 0 ∨ string2Int number nDec % 2 ≠ 0 ∨
            string2Int number nDec ≠ (number :: tokens).length - 1) := by
        rw [WellCounted, List.length_cons]
        omega
      rw [parserAndInsertTokens]
      dsimp only
      constructor
      · intro counted
        obtain ⟨long, number⟩ := accepted.mp counted
        rw [if_neg (Nat.not_lt_of_le long), if_neg number, List.tail_cons]
      · intro uncounted
        split
        · rfl
        · rename_i long
          split
          · rfl
          · rename_i number
            exact absurd (accepted.mpr ⟨Nat.le_of_not_lt long, number⟩) uncounted

theorem not_wellCounted_empty : ¬WellCounted (splitString "" ",") := by
  rintro ⟨-, none, -⟩
  exact none (by decide)

/-- A text is accepted exactly when its tokens are well counted. -/
theorem parserAndInsert_eq (set : BlockSetState) (blockStr : String) :
    (WellCounted (splitString blockStr ",") →
      set.parserAndInsert blockStr =
        (true, set.clearBlocks.insertTokens (splitString blockStr ",").tail)) ∧
    (¬WellCounted (splitString blockStr ",") → (set.parserAndInsert blockStr).1 = false) := by
  rw [parserAndInsert]
  split
  · rename_i empty
    subst empty
    exact ⟨fun counted => absurd counted not_wellCounted_empty, fun _ => rfl⟩
  · exact parserAndInsertTokens_eq set _

/-- The stored pairs can be relied on exactly when they ascend and can be counted. -/
theorem insertTokens_reliable_iff (set : BlockSetState) (tokens : List String) :
    (set.clearBlocks.insertTokens tokens).Reliable ↔ BlockSet.Countable (tokenPairs tokens) := by
  have blocks : (set.clearBlocks.insertTokens tokens).blocks = tokenPairs tokens :=
    insertTokens_blocks set.clearBlocks tokens
  have blockSize : (set.clearBlocks.insertTokens tokens).blockSize =
      ((tokenPairs tokens).map BlockPair.blocks).sum % sizeMax := by
    rw [insertTokens_blockSize set.clearBlocks tokens (Nat.two_pow_pos 64), clearBlocks,
      Nat.zero_add]
  have sum : BlockSet.Ascending (tokenPairs tokens) →
      ((tokenPairs tokens).map BlockPair.blocks).sum = BlockSet.extent (tokenPairs tokens) :=
    fun ascending => BlockSet.sum_blocks ascending
      fun _ member => (lt_of_mem_tokenPairs member).2
  constructor
  · rintro ⟨ascending, count⟩
    rw [blocks] at ascending count
    rw [blockSize, sum ascending] at count
    refine ⟨ascending, ?_⟩
    rw [← count]
    exact Nat.mod_lt _ (by decide)
  · rintro ⟨ascending, fits⟩
    refine ⟨?_, ?_⟩
    · rw [blocks]
      exact ascending
    · rw [blockSize, blocks, sum ascending, Nat.mod_eq_of_lt fits]

end Insert

section Reliable

theorem reliable_empty : ({} : BlockSetState).Reliable :=
  ⟨nofun, rfl⟩

theorem checkReliablePair_iff {set : BlockSetState} {pair : BlockPair} :
    set.checkReliablePair pair = true ↔
      pair.1 < pair.2 ∧ set.blockSize < sizeMax - 1 - BlockPair.extent pair := by
  rw [checkReliablePair]
  split
  · rename_i reversed
    exact ⟨nofun, fun checked => absurd checked.1 (Nat.not_lt_of_le reversed)⟩
  · rename_i ascending
    split
    · rename_i over_
      exact ⟨nofun, fun checked => absurd checked.2 (Nat.not_lt_of_le over_)⟩
    · rename_i fits
      exact ⟨fun _ => ⟨Nat.lt_of_not_le ascending, Nat.lt_of_not_le fits⟩, fun _ => rfl⟩

/-- A pair that passes the check is counted without a wrap. -/
theorem pushBack_blockSize {set : BlockSetState} {pair : BlockPair} (fits : pair.2 < sizeMax)
    (checked : set.checkReliablePair pair = true) :
    (set.pushBack pair).blockSize = set.blockSize + BlockPair.extent pair := by
  obtain ⟨ascending, room⟩ := checkReliablePair_iff.mp checked
  rw [pushBack]
  dsimp only
  rw [BlockPair.blocks_of_lt ascending fits]
  exact Nat.mod_eq_of_lt (by omega)

theorem pushBack_reliable {set : BlockSetState} {pair : BlockPair} (fits : pair.2 < sizeMax)
    (reliable : set.Reliable) (checked : set.checkReliablePair pair = true) :
    (set.pushBack pair).Reliable := by
  refine ⟨?_, ?_⟩
  · intro other member
    rcases List.mem_append.mp member with old | new
    · exact reliable.ascending other old
    · rw [List.mem_singleton.mp new]
      exact (checkReliablePair_iff.mp checked).1
  · rw [pushBack_blockSize fits checked, reliable.blockSize, pushBack, BlockSet.extent,
      BlockSet.extent, List.map_append, List.sum_append]
    rfl

theorem pushReliable_reliable {set : BlockSetState} {pairs : List BlockPair}
    (fits : ∀ pair ∈ pairs, pair.2 < sizeMax) (reliable : set.Reliable) :
    (set.pushReliable pairs).Reliable := by
  induction pairs generalizing set with
  | nil => exact reliable
  | cons pair pairs ih =>
      rw [pushReliable]
      split
      · rename_i checked
        exact ih (fun other member => fits other (.tail _ member))
          (pushBack_reliable (fits pair (.head _)) reliable checked)
      · exact reliable

/-- Whatever pairs the other constructor is given, what it builds can be relied on. -/
theorem ofPairs_reliable {pairs : List BlockPair} (fits : ∀ pair ∈ pairs, pair.2 < sizeMax) :
    (ofPairs pairs).Reliable :=
  pushReliable_reliable fits reliable_empty

/-- On pairs that ascend, and whose blocks stay below the largest number, the loop over the
tokens and the checked loop do the same. -/
theorem insertTokens_eq_pushReliable {set : BlockSetState} {tokens : List String}
    (ascending : BlockSet.Ascending (tokenPairs tokens))
    (room : set.blockSize + BlockSet.extent (tokenPairs tokens) < sizeMax - 1) :
    set.insertTokens tokens = set.pushReliable (tokenPairs tokens) := by
  fun_induction insertTokens set tokens with
  | case1 set first second tokens ih =>
      rw [tokenPairs] at ascending room ⊢
      have total : BlockSet.extent ((string2Int first nDec, string2Int second nDec) ::
          tokenPairs tokens) =
          BlockPair.extent (string2Int first nDec, string2Int second nDec) +
            BlockSet.extent (tokenPairs tokens) := rfl
      rw [total] at room
      have checked : set.checkReliablePair (string2Int first nDec, string2Int second nDec) = true :=
        checkReliablePair_iff.mpr ⟨ascending _ (.head _), by omega⟩
      rw [pushReliable, if_pos checked]
      apply ih
      · exact fun pair member => ascending pair (.tail _ member)
      · rw [pushBack_blockSize (string2Int_lt _ _) checked]
        omega
  | case2 set tokens few =>
      rw [tokenPairs]
      · rfl
      · exact few

/-- The two ways to build a `BlockSet` agree where the pairs pass the check. -/
theorem parserAndInsert_eq_ofPairs {set : BlockSetState} {blockStr : String}
    (counted : WellCounted (splitString blockStr ","))
    (ascending : BlockSet.Ascending (tokenPairs (splitString blockStr ",").tail))
    (room : BlockSet.extent (tokenPairs (splitString blockStr ",").tail) < sizeMax - 1) :
    (set.parserAndInsert blockStr).2.blocks =
        (ofPairs (tokenPairs (splitString blockStr ",").tail)).blocks ∧
      (set.parserAndInsert blockStr).2.blockSize =
        (ofPairs (tokenPairs (splitString blockStr ",").tail)).blockSize := by
  have same := @insertTokens_eq_pushReliable {} _ ascending (by rwa [Nat.zero_add])
  rw [(parserAndInsert_eq set blockStr).1 counted, ofPairs, ← same, insertTokens_blocks,
    insertTokens_blocks, insertTokens_blockSize _ _ (Nat.two_pow_pos 64),
    insertTokens_blockSize _ _ (Nat.two_pow_pos 64)]
  exact ⟨rfl, rfl⟩

end Reliable

/-- A text is accepted just when it is well counted and its pairs can be relied on, and what is
stored can be relied on then. -/
structure Validated (set : BlockSetState) (blockStr : String) : Prop where
  accepted_iff : (set.parserAndInsert blockStr).1 = true ↔
    WellCounted (splitString blockStr ",") ∧
      BlockSet.Countable (tokenPairs (splitString blockStr ",").tail)
  reliable : (set.parserAndInsert blockStr).1 = true → (set.parserAndInsert blockStr).2.Reliable

/-- `ParserAndInsert` looks at the number of the tokens alone: a text is validated exactly when
this number is wrong, or its pairs happen to ascend and not to overflow. -/
theorem parserAndInsert_validated_iff (set : BlockSetState) (blockStr : String) :
    set.Validated blockStr ↔
      (WellCounted (splitString blockStr ",") →
        BlockSet.Countable (tokenPairs (splitString blockStr ",").tail)) := by
  constructor
  · intro validated counted
    have accepted : (set.parserAndInsert blockStr).1 = true := by
      rw [(parserAndInsert_eq set blockStr).1 counted]
    exact (validated.accepted_iff.mp accepted).2
  · intro countable
    by_cases counted : WellCounted (splitString blockStr ",")
    · refine ⟨?_, ?_⟩
      · rw [(parserAndInsert_eq set blockStr).1 counted]
        exact ⟨fun _ => ⟨counted, countable counted⟩, fun _ => rfl⟩
      · intro _
        rw [(parserAndInsert_eq set blockStr).1 counted]
        exact (insertTokens_reliable_iff set _).mpr (countable counted)
    · have rejected := (parserAndInsert_eq set blockStr).2 counted
      refine ⟨?_, ?_⟩
      · rw [rejected]
        exact ⟨nofun, fun both => absurd both.1 counted⟩
      · rw [rejected]
        exact nofun

/-- A pair that runs backwards is stored, and counted as almost all blocks there can be. -/
theorem reversed_accepted :
    (({} : BlockSetState).parserAndInsert "2,9,4").1 = true ∧
      (({} : BlockSetState).parserAndInsert "2,9,4").2.blocks = [(9, 4)] ∧
      (({} : BlockSetState).parserAndInsert "2,9,4").2.blockSize = 2 ^ 64 - 5 ∧
      ¬({} : BlockSetState).Validated "2,9,4" := by
  have accepted : ({} : BlockSetState).parserAndInsert "2,9,4" =
      (true, { blocks := [(9, 4)], blockSize := 2 ^ 64 - 5 }) := by decide +kernel
  rw [accepted]
  refine ⟨rfl, rfl, rfl, ?_⟩
  intro validated
  have reliable := validated.reliable (by rw [accepted])
  rw [accepted] at reliable
  exact absurd (reliable.ascending (9, 4) (.head _)) (by decide)

end BlockSetState

end Updater.ApplyPatch
