import Mathlib.Data.List.Chain
import Mathlib.Data.List.Forall2
import Updater.PtableParse.PartitionTable

/-! When a table of ordered partitions is still one after a resize: the partitions behind the
resized one close up, userdata takes the rest, and nothing is left for those behind it. -/

set_option autoImplicit false

namespace Updater.PtableParse

open Updater.Base

instance : DecidableEq Entry := fun left right =>
  decidable_of_iff
    (left.name = right.name ∧ left.firstLba = right.firstLba ∧ left.lastLba = right.lastLba)
    ⟨fun same => Entry.ext same.1 same.2.1 same.2.2, fun same => same ▸ ⟨rfl, rfl, rfl⟩⟩

/-- How many blocks it has. -/
def Entry.size (entry : Entry) : Nat :=
  entry.lastLba + 1 - entry.firstLba

/-- The partitions are in order, apart, and within the blocks that are usable. -/
structure OrderedTable (firstUsable blocks : Nat) (table : List Entry) : Prop where
  apart : table.Pairwise fun entry later => entry.lastLba < later.firstLba
  within : ∀ entry ∈ table, firstUsable ≤ entry.firstLba ∧ entry.firstLba ≤ entry.lastLba ∧
    entry.lastLba < blocks

/-- The partition of a table with another size, and those behind it closed up: each keeps its
size, except for userdata. -/
structure Resize (sectors : Nat) (front : List Entry) (entry : Entry) (later edited : List Entry) :
    Prop where
  parts : ∃ resized closedUp, edited = front ++ resized :: closedUp ∧
    resized.name = entry.name ∧ resized.firstLba = entry.firstLba ∧ resized.size = sectors ∧
    (resized :: closedUp).IsChain (fun left right => right.firstLba = left.lastLba + 1) ∧
    List.Forall₂ (fun new old => new.name = old.name ∧
      (old.name ≠ userdataPartition → new.size = old.size)) closedUp later

/-- `AdjustGpt` accepts each partition where it is put. -/
def AcceptsBehind (deviceLast : Nat) : Nat → List Entry → Prop
  | _, [] => True
  | pre, entry :: later =>
      (entry.name = userdataPartition → (pre + 1) % 2 ^ 64 ≤ deviceLast) ∧
        AcceptsBehind deviceLast (entry.movedBehind deviceLast pre).lastLba later

/-- The partitions in front of the first userdata. -/
def beforeUserdata (later : List Entry) : List Entry :=
  later.takeWhile (·.name ≠ userdataPartition)

def totalSize (entries : List Entry) : Nat :=
  (entries.map Entry.size).sum

/-- There is room behind an LBA: for all partitions, where none is userdata; otherwise nothing is
behind userdata, or the change is refused, as no block is left for it or it is there twice. -/
def RoomBehind (deviceLast pre : Nat) (later : List Entry) : Prop :=
  match later.dropWhile (·.name ≠ userdataPartition) with
  | [] => pre + totalSize later ≤ deviceLast
  | _ :: tail =>
      deviceLast ≤ pre + totalSize (beforeUserdata later) ∨ tail = [] ∨
        ∃ entry ∈ tail, entry.name = userdataPartition

section Entries

variable {deviceLast pre : Nat} {entry : Entry} {later : List Entry}

/-- Sizes in the arithmetic of the source, where no partition is out of range. -/
theorem Entry.sectors_eq (ordered : entry.firstLba ≤ entry.lastLba)
    (small : entry.lastLba < 2 ^ 63) : entry.sectors = entry.size := by
  rw [Entry.sectors, Entry.size, sub64]
  omega

theorem movedBehind_firstLba (fits : pre + 1 < 2 ^ 64) :
    (entry.movedBehind deviceLast pre).firstLba = pre + 1 := by
  rw [Entry.movedBehind]
  exact Nat.mod_eq_of_lt fits

theorem movedBehind_userdata (userdata : entry.name = userdataPartition)
    (small : deviceLast < 2 ^ 63) : (entry.movedBehind deviceLast pre).lastLba = deviceLast := by
  rw [Entry.movedBehind]
  dsimp only
  rw [if_pos userdata, Nat.mod_eq_of_lt (by omega)]

theorem movedBehind_other (other : entry.name ≠ userdataPartition)
    (ordered : entry.firstLba ≤ entry.lastLba) (small : entry.lastLba < 2 ^ 63)
    (fits : pre + entry.size < 2 ^ 64) :
    (entry.movedBehind deviceLast pre).lastLba = pre + entry.size := by
  rw [Entry.movedBehind]
  dsimp only
  rw [if_neg other, Entry.sectors_eq ordered small, Nat.mod_eq_of_lt fits]

theorem size_pos (ordered : entry.firstLba ≤ entry.lastLba) : 0 < entry.size := by
  rw [Entry.size]
  omega

@[simp] theorem totalSize_cons : totalSize (entry :: later) = entry.size + totalSize later := rfl

@[simp] theorem totalSize_nil : totalSize [] = 0 := rfl

/-- Partitions that are apart have no more blocks than there are behind the one before. -/
theorem totalSize_le {blocks low : Nat} {table : List Entry} (above : ∀ entry ∈ table,
      low < entry.firstLba ∧ entry.firstLba ≤ entry.lastLba ∧ entry.lastLba < blocks)
    (apart : table.Pairwise fun entry later => entry.lastLba < later.firstLba)
    (bound : low < blocks) : low + totalSize table < blocks := by
  induction table generalizing low with
  | nil => simpa using bound
  | cons entry table ih =>
      rw [List.pairwise_cons] at apart
      have here := above entry List.mem_cons_self
      have rest := @ih entry.lastLba (fun later member =>
        ⟨apart.1 later member, (above later (List.mem_cons_of_mem _ member)).2⟩) apart.2 here.2.2
      rw [totalSize_cons, Entry.size]
      omega

end Entries

/-- Partitions whose sizes are those of the device, so that no sum wraps. -/
structure Sized (deviceLast pre : Nat) (later : List Entry) : Prop where
  ordered : ∀ entry ∈ later, entry.firstLba ≤ entry.lastLba ∧ entry.lastLba ≤ deviceLast
  device : deviceLast < 2 ^ 63
  total : max pre deviceLast + totalSize later < 2 ^ 64 - 1

namespace Sized

variable {deviceLast pre : Nat} {entry : Entry} {later : List Entry}

theorem head_lt (sized : Sized deviceLast pre (entry :: later)) : entry.lastLba < 2 ^ 63 :=
  Nat.lt_of_le_of_lt (sized.ordered entry List.mem_cons_self).2 sized.device

theorem firstLba_eq (sized : Sized deviceLast pre (entry :: later)) :
    (entry.movedBehind deviceLast pre).firstLba = pre + 1 := by
  refine movedBehind_firstLba ?_
  have total := sized.total
  omega

theorem userdata_eq (sized : Sized deviceLast pre (entry :: later))
    (userdata : entry.name = userdataPartition) :
    (entry.movedBehind deviceLast pre).lastLba = deviceLast :=
  movedBehind_userdata userdata sized.device

theorem other_eq (sized : Sized deviceLast pre (entry :: later))
    (other : entry.name ≠ userdataPartition) :
    (entry.movedBehind deviceLast pre).lastLba = pre + entry.size := by
  refine movedBehind_other other (sized.ordered entry List.mem_cons_self).1 sized.head_lt ?_
  have total := sized.total
  rw [totalSize_cons] at total
  omega

theorem behind_userdata (sized : Sized deviceLast pre (entry :: later)) :
    Sized deviceLast deviceLast later where
  ordered := fun other member => sized.ordered other (List.mem_cons_of_mem _ member)
  device := sized.device
  total := by
    have total := sized.total
    rw [totalSize_cons] at total
    omega

theorem behind_other (sized : Sized deviceLast pre (entry :: later)) :
    Sized deviceLast (pre + entry.size) later where
  ordered := fun other member => sized.ordered other (List.mem_cons_of_mem _ member)
  device := sized.device
  total := by
    have total := sized.total
    rw [totalSize_cons] at total
    omega

/-- The bounds stay behind the partition that is moved. -/
theorem behind (sized : Sized deviceLast pre (entry :: later)) :
    Sized deviceLast (entry.movedBehind deviceLast pre).lastLba later := by
  by_cases userdata : entry.name = userdataPartition
  · rw [sized.userdata_eq userdata]
    exact sized.behind_userdata
  · rw [sized.other_eq userdata]
    exact sized.behind_other

theorem succ_mod (sized : Sized deviceLast pre later) : (pre + 1) % 2 ^ 64 = pre + 1 := by
  have total := sized.total
  exact Nat.mod_eq_of_lt (by omega)

end Sized

section Behind

variable {deviceLast pre : Nat} {entry : Entry} {later : List Entry}

theorem roomBehind_cons_other (other : entry.name ≠ userdataPartition) :
    RoomBehind deviceLast pre (entry :: later) ↔
      RoomBehind deviceLast (pre + entry.size) later := by
  have drop : (entry :: later).dropWhile (·.name ≠ userdataPartition) =
      later.dropWhile (·.name ≠ userdataPartition) := List.dropWhile_cons_of_pos (by simpa using other)
  have take : beforeUserdata (entry :: later) = entry :: beforeUserdata later :=
    List.takeWhile_cons_of_pos (by simpa using other)
  rw [RoomBehind, RoomBehind, drop, take, totalSize_cons, totalSize_cons, Nat.add_assoc,
    Nat.add_assoc]

theorem roomBehind_cons_userdata (userdata : entry.name = userdataPartition) :
    RoomBehind deviceLast pre (entry :: later) ↔
      deviceLast ≤ pre ∨ later = [] ∨ ∃ other ∈ later, other.name = userdataPartition := by
  have drop : (entry :: later).dropWhile (·.name ≠ userdataPartition) = entry :: later :=
    List.dropWhile_cons_of_neg (by simpa using userdata)
  have take : beforeUserdata (entry :: later) = [] :=
    List.takeWhile_cons_of_neg (by simpa using userdata)
  rw [RoomBehind, drop, take, totalSize_nil, Nat.add_zero]

/-- Behind the end of the device no userdata is accepted, but all others are. -/
theorem acceptsBehind_past (sized : Sized deviceLast pre later) (past : deviceLast ≤ pre) :
    AcceptsBehind deviceLast pre later ↔ ∀ entry ∈ later, entry.name ≠ userdataPartition := by
  induction later generalizing pre with
  | nil => exact iff_of_true trivial fun entry member => (List.not_mem_nil member).elim
  | cons entry later ih =>
      rw [AcceptsBehind, List.forall_mem_cons, sized.succ_mod]
      by_cases userdata : entry.name = userdataPartition
      · refine iff_of_false (fun accepts => ?_) fun none => none.1 userdata
        have fits := accepts.1 userdata
        omega
      · rw [sized.other_eq userdata, ih sized.behind_other (Nat.le_add_right_of_le past)]
        exact and_congr_left fun _ => iff_of_true (fun same => absurd same userdata) userdata

/-- There is room exactly where what is accepted ends within the device. -/
theorem roomBehind_iff (sized : Sized deviceLast pre later) :
    RoomBehind deviceLast pre later ↔ (AcceptsBehind deviceLast pre later →
      pre ≤ deviceLast ∧ ∀ entry ∈ shifted deviceLast pre later, entry.lastLba ≤ deviceLast) := by
  induction later generalizing pre with
  | nil =>
      simp only [RoomBehind, List.dropWhile_nil, totalSize_nil, Nat.add_zero, AcceptsBehind,
        true_imp_iff, shifted]
      exact ⟨fun fits => ⟨fits, fun entry member => (List.not_mem_nil member).elim⟩, And.left⟩
  | cons entry later ih =>
      by_cases userdata : entry.name = userdataPartition
      · rw [roomBehind_cons_userdata userdata, AcceptsBehind, shifted, List.forall_mem_cons,
          sized.userdata_eq userdata, sized.succ_mod,
          acceptsBehind_past sized.behind_userdata (Nat.le_refl _)]
        constructor
        · rintro full ⟨fits, none⟩
          have room := fits userdata
          rcases full with full | rfl | ⟨other, member, again⟩
          · omega
          · exact ⟨by omega, Nat.le_refl _, fun entry member => (List.not_mem_nil member).elim⟩
          · exact absurd again (none other member)
        · intro accepted
          by_contra full
          push Not at full
          obtain ⟨room, some, none⟩ := full
          have ends := (accepted ⟨fun _ => room, none⟩).2.2
          cases later with
          | nil => exact some rfl
          | cons next later =>
              have behind := sized.behind_userdata
              have last := ends _ List.mem_cons_self
              rw [behind.other_eq (none next List.mem_cons_self)] at last
              have positive := size_pos (behind.ordered next List.mem_cons_self).1
              omega
      · rw [roomBehind_cons_other userdata, ih sized.behind_other, AcceptsBehind, shifted,
          List.forall_mem_cons, sized.other_eq userdata]
        constructor
        · rintro room ⟨-, accepts⟩
          obtain ⟨fits, ends⟩ := room accepts
          exact ⟨Nat.le_of_add_right_le fits, fits, ends⟩
        · intro room accepts
          exact (room ⟨fun same => absurd same userdata, accepts⟩).2

theorem shifted_isChain {first : Entry} (sized : Sized deviceLast first.lastLba later) :
    (first :: shifted deviceLast first.lastLba later).IsChain
      fun left right => right.firstLba = left.lastLba + 1 := by
  induction later generalizing first with
  | nil => exact .singleton first
  | cons entry later ih => exact .cons_cons sized.firstLba_eq (ih sized.behind)

/-- Each partition keeps its name and, except for userdata, its size. -/
theorem shifted_sizes (sized : Sized deviceLast pre later) :
    List.Forall₂ (fun new old => new.name = old.name ∧
      (old.name ≠ userdataPartition → new.size = old.size)) (shifted deviceLast pre later) later := by
  induction later generalizing pre with
  | nil => exact .nil
  | cons entry later ih =>
      refine .cons ⟨rfl, fun other => ?_⟩ (ih sized.behind)
      rw [Entry.size, sized.firstLba_eq, sized.other_eq other]
      omega

theorem shifted_ordered (sized : Sized deviceLast pre later)
    (accepts : AcceptsBehind deviceLast pre later) :
    (shifted deviceLast pre later).Pairwise (fun entry later => entry.lastLba < later.firstLba) ∧
      ∀ entry ∈ shifted deviceLast pre later,
        pre < entry.firstLba ∧ entry.firstLba ≤ entry.lastLba := by
  induction later generalizing pre with
  | nil => exact ⟨.nil, fun entry member => (List.not_mem_nil member).elim⟩
  | cons entry later ih =>
      obtain ⟨apart, within⟩ := ih sized.behind accepts.2
      have here : pre < (entry.movedBehind deviceLast pre).firstLba ∧
          (entry.movedBehind deviceLast pre).firstLba ≤
            (entry.movedBehind deviceLast pre).lastLba := by
        rw [sized.firstLba_eq]
        refine ⟨Nat.lt_succ_self pre, ?_⟩
        by_cases userdata : entry.name = userdataPartition
        · have fits := accepts.1 userdata
          rw [sized.succ_mod] at fits
          rw [sized.userdata_eq userdata]
          exact fits
        · rw [sized.other_eq userdata]
          have positive := size_pos (sized.ordered entry List.mem_cons_self).1
          omega
      refine ⟨List.pairwise_cons.mpr ⟨fun other member => (within other member).1, apart⟩,
        List.forall_mem_cons.mpr ⟨here, fun other member => ?_⟩⟩
      have behind := within other member
      exact ⟨by omega, behind.2⟩

end Behind

section Tables

variable {firstUsable blocks sectors : Nat} {front later : List Entry} {entry : Entry}

/-- A resized partition begins where it began and ends with its blocks. -/
theorem sized_lastLba (small : entry.firstLba < 2 ^ 63) (positive : 0 < sectors)
    (sectorsSmall : sectors < 2 ^ 63) :
    (entry.sized sectors).lastLba = entry.firstLba + sectors - 1 := by
  simp only [Entry.sized, sub64]
  omega

theorem OrderedTable.sized (ordered : OrderedTable firstUsable blocks (front ++ entry :: later))
    (device : blocks ≤ 2 ^ 63) (positive : 0 < sectors) (sectorsSmall : sectors < 2 ^ 63) :
    Sized (blocks - 1) (entry.sized sectors).lastLba later := by
  have here := ordered.within entry (List.mem_append_right _ List.mem_cons_self)
  have apart := (List.pairwise_cons.mp (List.pairwise_append.mp ordered.apart).2.1)
  have inLater : ∀ other ∈ later, entry.lastLba < other.firstLba ∧
      other.firstLba ≤ other.lastLba ∧ other.lastLba < blocks := fun other member =>
    ⟨apart.1 other member, (ordered.within other
      (List.mem_append_right _ (List.mem_cons_of_mem _ member))).2⟩
  have total := totalSize_le inLater apart.2 here.2.2
  constructor
  case ordered =>
    intro other member
    have within := inLater other member
    exact ⟨within.2.1, Nat.le_sub_one_of_lt within.2.2⟩
  case device => omega
  case total =>
    rw [sized_lastLba (by omega) positive sectorsSmall]
    omega

/-- What is accepted is a resize that keeps the table in order exactly where there is room. -/
theorem resize_ordered_iff (ordered : OrderedTable firstUsable blocks (front ++ entry :: later))
    (device : blocks ≤ 2 ^ 63) (positive : 0 < sectors) (sectorsSmall : sectors < 2 ^ 63) :
    (AcceptsBehind (blocks - 1) (entry.sized sectors).lastLba later →
      OrderedTable firstUsable blocks (front ++ entry.sized sectors ::
          shifted (blocks - 1) (entry.sized sectors).lastLba later) ∧
        Resize sectors front entry later (front ++ entry.sized sectors ::
          shifted (blocks - 1) (entry.sized sectors).lastLba later)) ↔
      RoomBehind (blocks - 1) (entry.sized sectors).lastLba later := by
  have here := ordered.within entry (List.mem_append_right _ List.mem_cons_self)
  have sized := ordered.sized device positive sectorsSmall
  have last : (entry.sized sectors).lastLba = entry.firstLba + sectors - 1 :=
    sized_lastLba (by omega) positive sectorsSmall
  have name : (entry.sized sectors).name = entry.name := by rw [Entry.sized]
  have first : (entry.sized sectors).firstLba = entry.firstLba := by rw [Entry.sized]
  obtain ⟨frontApart, -, across⟩ := List.pairwise_append.mp ordered.apart
  rw [roomBehind_iff sized]
  refine forall_congr' fun accepts => ⟨?_, ?_⟩
  · rintro ⟨edited, -⟩
    have within := fun other member =>
      Nat.le_sub_one_of_lt (edited.within other (List.mem_append_right _ member)).2.2
    exact ⟨within _ List.mem_cons_self, fun other member =>
      within other (List.mem_cons_of_mem _ member)⟩
  · rintro ⟨fits, ends⟩
    obtain ⟨apart, behind⟩ := shifted_ordered sized accepts
    have resizedWithin : ∀ other ∈ entry.sized sectors ::
          shifted (blocks - 1) (entry.sized sectors).lastLba later,
        entry.firstLba ≤ other.firstLba ∧ other.firstLba ≤ other.lastLba ∧
          other.lastLba < blocks := by
      rw [List.forall_mem_cons]
      refine ⟨⟨Nat.le_of_eq first.symm, by omega, by omega⟩, fun other member => ?_⟩
      have low := behind other member
      have high := ends other member
      exact ⟨by omega, low.2, by omega⟩
    refine ⟨⟨?_, ?_⟩, ⟨entry.sized sectors, _, rfl, name, first, ?_, shifted_isChain sized,
      shifted_sizes sized⟩⟩
    · refine List.pairwise_append.mpr ⟨frontApart,
        List.pairwise_cons.mpr ⟨fun other member => (behind other member).1, apart⟩, ?_⟩
      intro earlier inFront other member
      exact Nat.lt_of_lt_of_le (across earlier inFront entry List.mem_cons_self)
        (resizedWithin other member).1
    · intro other member
      rcases List.mem_append.mp member with inFront | behindFront
      · exact ordered.within other (List.mem_append_left _ inFront)
      · have within := resizedWithin other behindFront
        exact ⟨Nat.le_trans here.1 within.1, within.2⟩
    · rw [Entry.size, last, first]
      omega

end Tables

end Updater.PtableParse
