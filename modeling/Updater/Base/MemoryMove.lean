import Updater.Base.Memory

/-! Moves of memory one after another, between two memories or within one, and a long range that
is moved in pieces from its beginning on. -/

set_option autoImplicit false

namespace Updater.Base

structure Move where
  dst : Nat
  src : Nat
  size : Nat
  deriving DecidableEq, Repr

namespace Move

/-- `target` with the bytes of a move from `source`. -/
def between (source target : Memory) (move : Move) : Memory :=
  target.write move.dst (source.read move.src move.size)

def allBetween (source target : Memory) (moves : List Move) : Memory :=
  moves.foldl (between source) target

/-- Moves within a memory, each of what the ones before it left. -/
def allWithin (memory : Memory) (moves : List Move) : Memory :=
  moves.foldl (fun memory move => between memory memory move) memory

/-- A range in pieces of at most `limit` bytes, the first one first. -/
def chunks (limit dst src size : Nat) : List Move :=
  if _more : 0 < size ∧ 0 < limit then
    let moveSize := if size > limit then limit else size
    ⟨dst, src, moveSize⟩ :: chunks limit (dst + moveSize) (src + moveSize) (size - moveSize)
  else []
termination_by size
decreasing_by split <;> omega

/-- The byte is read, in its piece, from where a piece before it was written. -/
def Crosses (limit shift i : Nat) : Prop :=
  shift ≤ i ∧ i - shift < i / limit * limit

/-- A move leaves an address alone. -/
def Avoids (move : Move) (address : Nat) : Prop :=
  address < move.dst ∨ move.dst + move.size ≤ address

variable {source target memory : Memory} {address : Nat}

section Frame

theorem between_of_avoids {move : Move} (avoids : move.Avoids address) :
    between source target move address = target address := by
  rcases avoids with before | past
  · exact target.write_of_lt before
  · refine target.write_of_ge ?_
    rw [Memory.length_read]
    exact past

theorem allBetween_of_avoids {moves : List Move} (avoid : ∀ move ∈ moves, move.Avoids address) :
    allBetween source target moves address = target address := by
  induction moves generalizing target with
  | nil => rfl
  | cons move moves ih =>
      rw [allBetween, List.foldl_cons, ← allBetween, ih fun other member => avoid other (.tail _ member)]
      exact between_of_avoids (avoid move (.head _))

theorem allWithin_of_avoids {moves : List Move} (avoid : ∀ move ∈ moves, move.Avoids address) :
    allWithin memory moves address = memory address := by
  induction moves generalizing memory with
  | nil => rfl
  | cons move moves ih =>
      rw [allWithin, List.foldl_cons, ← allWithin, ih fun other member => avoid other (.tail _ member)]
      exact between_of_avoids (avoid move (.head _))

theorem allBetween_append (moves more : List Move) :
    allBetween source target (moves ++ more) =
      allBetween source (allBetween source target moves) more :=
  List.foldl_append

theorem allWithin_append (moves more : List Move) :
    allWithin memory (moves ++ more) = allWithin (allWithin memory moves) more :=
  List.foldl_append

theorem chunks_avoid {limit dst src size : Nat} (avoids : Avoids ⟨dst, src, size⟩ address) :
    ∀ move ∈ chunks limit dst src size, move.Avoids address := by
  fun_induction chunks limit dst src size with
  | case1 dst src size more moveSize ih =>
      have least : moveSize ≤ size := by
        dsimp only [moveSize]
        split
        · omega
        · exact Nat.le_refl size
      have outside : address < dst ∨ dst + size ≤ address := avoids
      intro move member
      cases member with
      | head =>
          rw [Avoids]
          dsimp only
          omega
      | tail _ member =>
          refine ih ?_ move member
          rw [Avoids]
          dsimp only
          omega
  | case2 dst src size none => exact nofun

end Frame

section Chunks

variable {limit : Nat} (positive : 0 < limit)

include positive

/-- The first piece of a range, and the others. -/
theorem chunks_of_pos {dst src size : Nat} (more : 0 < size) :
    chunks limit dst src size = ⟨dst, src, min size limit⟩ ::
      chunks limit (dst + min size limit) (src + min size limit) (size - min size limit) := by
  have least : (if size > limit then limit else size) = min size limit := by
    split
    · rename_i long
      exact (Nat.min_eq_right (Nat.le_of_lt long)).symm
    · rename_i short
      exact (Nat.min_eq_left (Nat.le_of_not_lt short)).symm
  rw [chunks, dif_pos ⟨more, positive⟩]
  dsimp only
  rw [least]

/-- Between two memories the pieces make up the range. -/
theorem allBetween_chunks {dst src size i : Nat} (inside : i < size) :
    allBetween source target (chunks limit dst src size) (dst + i) = source (src + i) := by
  induction size using Nat.strongRecOn generalizing target dst src i with
  | ind size ih =>
      rw [chunks_of_pos positive (Nat.zero_lt_of_lt inside), allBetween, List.foldl_cons, ← allBetween]
      rcases Nat.lt_or_ge i (min size limit) with first | later
      · rw [allBetween_of_avoids (chunks_avoid (.inl (Nat.add_lt_add_left first dst)))]
        exact target.write_read_within source first
      · obtain ⟨rest, rfl⟩ := Nat.exists_eq_add_of_le later
        rw [← Nat.add_assoc, ih _ (by omega) (by omega), Nat.add_assoc]

theorem crosses_next {shift rest : Nat} :
    Crosses limit shift (limit + rest) ↔
      shift ≤ limit + rest ∧ limit + rest - shift < rest / limit * limit + limit := by
  rw [Crosses, Nat.add_div_left rest positive, Nat.succ_mul]

omit positive in
theorem not_crosses_first {shift i : Nat} (first : i < limit) : ¬Crosses limit shift i := by
  rintro ⟨-, below⟩
  rw [Nat.div_eq_of_lt first, Nat.zero_mul] at below
  exact Nat.not_lt_zero _ below

/-- Within a memory, to a place `shift` further on: a byte that is read from where a piece before
it was written is the one that was put there. -/
theorem allWithin_chunks {shift src size i : Nat} (inside : i < size) :
    (Crosses limit shift i →
      allWithin memory (chunks limit (src + shift) src size) (src + shift + i) =
        allWithin memory (chunks limit (src + shift) src size) (src + shift + (i - shift))) ∧
    (¬Crosses limit shift i →
      allWithin memory (chunks limit (src + shift) src size) (src + shift + i) =
        memory (src + i)) := by
  induction size using Nat.strongRecOn generalizing memory src i with
  | ind size ih =>
      -- the first piece is final, as the others go behind it
      have first : ∀ k < min size limit,
          allWithin memory (chunks limit (src + shift) src size) (src + shift + k) =
            memory (src + k) := by
        intro k within
        rw [chunks_of_pos positive (Nat.zero_lt_of_lt inside), allWithin, List.foldl_cons, ← allWithin,
          allWithin_of_avoids (chunks_avoid (.inl (Nat.add_lt_add_left within _)))]
        exact memory.write_read_within memory within
      rcases Nat.lt_or_ge i (min size limit) with within | later
      · have uncrossed : ¬Crosses limit shift i := not_crosses_first (by omega)
        exact ⟨fun crosses => absurd crosses uncrossed, fun _ => first i within⟩
      · have whole : min size limit = limit := by omega
        rw [whole] at first later
        obtain ⟨rest, rfl⟩ := Nat.exists_eq_add_of_le later
        have next : ∀ k, allWithin memory (chunks limit (src + shift) src size)
            (src + shift + (limit + k)) =
            allWithin (between memory memory ⟨src + shift, src, limit⟩)
              (chunks limit (src + limit + shift) (src + limit) (size - limit))
              (src + limit + shift + k) := by
          intro k
          rw [chunks_of_pos positive (Nat.zero_lt_of_lt inside), whole, allWithin, List.foldl_cons,
            ← allWithin, Nat.add_right_comm src shift limit]
          congr 1
          omega
        obtain ⟨crossed, uncrossed⟩ := @ih (size - limit) (by omega)
          (between memory memory ⟨src + shift, src, limit⟩) (src + limit) rest (by omega)
        rw [next rest, crosses_next positive]
        by_cases crosses : Crosses limit shift rest
        · obtain ⟨reach, below⟩ := crosses
          rw [crossed ⟨reach, below⟩, show limit + rest - shift = limit + (rest - shift) by omega,
            next (rest - shift)]
          exact ⟨fun _ => rfl, fun none => absurd ⟨by omega, by omega⟩ none⟩
        · rw [uncrossed crosses]
          by_cases overwritten : shift ≤ limit + rest ∧ rest < shift
          · obtain ⟨reach, near⟩ := overwritten
            have moved : between memory memory ⟨src + shift, src, limit⟩ (src + limit + rest) =
                memory (src + (limit + rest - shift)) := by
              have within : limit + rest - shift < limit := by omega
              rw [show src + limit + rest = src + shift + (limit + rest - shift) by omega]
              exact memory.write_read_within memory within
            rw [moved, first (limit + rest - shift) (by omega)]
            exact ⟨fun _ => rfl, fun none => absurd ⟨reach, by omega⟩ none⟩
          · have kept : between memory memory ⟨src + shift, src, limit⟩ (src + limit + rest) =
                memory (src + limit + rest) := by
              apply between_of_avoids
              rw [Avoids]
              dsimp only
              omega
            rw [kept, Nat.add_assoc]
            refine ⟨fun both => absurd ⟨?_, ?_⟩ crosses, fun _ => rfl⟩
            · omega
            · omega

/-- The range arrives as it was exactly when the bytes that cross are repetitions. -/
theorem allWithin_chunks_iff {shift src size : Nat} :
    (∀ i < size, allWithin memory (chunks limit (src + shift) src size) (src + shift + i) =
      memory (src + i)) ↔
    ∀ i < size, Crosses limit shift i → memory (src + (i - shift)) = memory (src + i) := by
  constructor
  · intro exact_ i inside crosses
    rw [← exact_ i inside, (allWithin_chunks positive inside).1 crosses,
      exact_ (i - shift) (Nat.lt_of_le_of_lt (Nat.sub_le _ _) inside)]
  · intro repeats i inside
    induction i using Nat.strongRecOn with
    | ind i ih =>
        by_cases crosses : Crosses limit shift i
        · have back : i - shift < i := by
            obtain ⟨reach, below⟩ := crosses
            have least := Nat.div_mul_le_self i limit
            omega
          rw [(allWithin_chunks positive inside).1 crosses, ih _ back (Nat.lt_trans back inside),
            repeats i inside crosses]
        · exact (allWithin_chunks positive inside).2 crosses

omit positive in
/-- Nothing crosses in a range of one piece, in place, or past its own length. -/
theorem not_crosses {shift size i : Nat} (inside : i < size)
    (apart : size ≤ limit ∨ shift = 0 ∨ size ≤ shift) : ¬Crosses limit shift i := by
  rcases apart with short | same | far
  · exact not_crosses_first (Nat.lt_of_lt_of_le inside short)
  · rintro ⟨-, below⟩
    rw [same, Nat.sub_zero] at below
    exact Nat.not_lt_of_le (Nat.div_mul_le_self i limit) below
  · rintro ⟨reach, -⟩
    omega

end Chunks

end Move

end Updater.Base
