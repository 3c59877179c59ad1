import Updater.Base.Interleaving
import Updater.FactoryReset.SecureErase

/-! What the secure erase leaves over every sequence of power losses. -/

set_option autoImplicit false

namespace Updater.FactoryReset

open Updater.Base

/-- The byte that a place in the list of partitions stands for. -/
def locate : List PartInfo → Nat → Option (Nat × Nat)
  | [], _ => none
  | partInfo :: rest, place =>
      if partInfo.partSize ≤ place then locate rest (place - partInfo.partSize)
      else some (partInfo.devPath, place)

section Places

variable {partInfos : List PartInfo} {partInfo : PartInfo} {place devPath at_ : Nat}

theorem locate_cons_here {rest : List PartInfo} (inside : place < partInfo.partSize) :
    locate (partInfo :: rest) place = some (partInfo.devPath, place) :=
  if_neg (Nat.not_le_of_lt inside)

theorem locate_cons_behind {rest : List PartInfo} (behind : partInfo.partSize ≤ place) :
    locate (partInfo :: rest) place = locate rest (place - partInfo.partSize) :=
  if_pos behind

theorem locate_mem (found : locate partInfos place = some (devPath, at_)) :
    ∃ partInfo ∈ partInfos, partInfo.devPath = devPath ∧ at_ < partInfo.partSize := by
  induction partInfos generalizing place with
  | nil => cases found
  | cons partInfo rest ih =>
      rcases Nat.lt_or_ge place partInfo.partSize with inside | behind
      · rw [locate_cons_here inside] at found
        cases found
        exact ⟨partInfo, List.mem_cons_self, rfl, inside⟩
      · rw [locate_cons_behind behind] at found
        obtain ⟨other, listed, same, inside⟩ := ih found
        exact ⟨other, List.mem_cons_of_mem _ listed, same, inside⟩

/-- Every byte of a partition has a place. -/
theorem locate_exists (listed : partInfo ∈ partInfos) (inside : at_ < partInfo.partSize) :
    ∃ place, locate partInfos place = some (partInfo.devPath, at_) := by
  induction partInfos with
  | nil => cases listed
  | cons head rest ih =>
      rcases List.mem_cons.mp listed with rfl | later
      · exact ⟨at_, locate_cons_here inside⟩
      · obtain ⟨place, found⟩ := ih later
        refine ⟨head.partSize + place, ?_⟩
        rw [locate_cons_behind (Nat.le_add_right _ _), Nat.add_sub_cancel_left]
        exact found

end Places

/-- The byte has a place in the list from a start on. -/
def Ahead (all : List PartInfo) (start devPath at_ : Nat) : Prop :=
  ∃ place ≥ start, locate all place = some (devPath, at_)

theorem Ahead.weaken {all : List PartInfo} {start earlier devPath at_ : Nat}
    (ahead : Ahead all start devPath at_) (before : earlier ≤ start) :
    Ahead all earlier devPath at_ := by
  obtain ⟨place, late, found⟩ := ahead
  exact ⟨place, Nat.le_trans before late, found⟩

section Actions

/-- The actions of a call write bytes of the partitions only, at places from the start on, and
store offsets from the start on. -/
def Beyond (partInfos : List PartInfo) (start : Nat) : Action → Prop
  | .write devPath offset length =>
      (∃ partInfo ∈ partInfos, partInfo.devPath = devPath ∧ offset + length ≤ partInfo.partSize) ∧
        ∀ at_, offset ≤ at_ → at_ < offset + length → Ahead partInfos start devPath at_
  | .fsync _ => True
  | .syncOffsetInMisc offset => start ≤ offset

variable {all : List PartInfo} {fate : Fate} {partInfo : PartInfo}
  {number currentOffset overwriteOffset : Nat}

/-- The bytes of a partition from an offset on have the places from an offset in the list on. -/
def Aligned (all : List PartInfo) (partInfo : PartInfo) (currentOffset overwriteOffset : Nat) :
    Prop :=
  partInfo ∈ all ∧ ∀ count, currentOffset + count < partInfo.partSize →
    locate all (overwriteOffset + count) = some (partInfo.devPath, currentOffset + count)

theorem Aligned.move (aligned : Aligned all partInfo currentOffset overwriteOffset) (size : Nat) :
    Aligned all partInfo (currentOffset + size) (overwriteOffset + size) := by
  refine ⟨aligned.1, fun count inside => ?_⟩
  rw [Nat.add_assoc] at inside ⊢
  rw [Nat.add_assoc]
  exact aligned.2 (size + count) inside

theorem Beyond.weaken {action : Action} {start earlier : Nat} (beyond : Beyond all start action)
    (before : earlier ≤ start) : Beyond all earlier action := by
  cases action with
  | write devPath offset length =>
      exact ⟨beyond.1, fun at_ least most => (beyond.2 at_ least most).weaken before⟩
  | fsync devPath => trivial
  | syncOffsetInMisc offset => exact Nat.le_trans before beyond

/-- A chunk is written from its offset on, or a part of it. -/
theorem overWriteChunk_writes {devPath writeSize : Nat} {action : Action}
    (listed : action ∈
      (overWriteChunk fate devPath currentOffset overwriteOffset writeSize number).1) :
    ∃ length ≤ writeSize, action = .write devPath currentOffset length := by
  induction number with
  | zero => cases listed
  | succ number ih =>
      rw [overWriteChunk] at listed
      split at listed
      · cases listed
      · split at listed
        · cases List.mem_singleton.mp listed
          exact ⟨_, Nat.min_le_right _ _, rfl⟩
        · rcases List.mem_cons.mp listed with rfl | later
          · exact ⟨writeSize, Nat.le_refl _, rfl⟩
          · exact ih later

theorem overWriteChunk_beyond {writeSize : Nat} {action : Action}
    (aligned : Aligned all partInfo currentOffset overwriteOffset)
    (fits : currentOffset + writeSize ≤ partInfo.partSize)
    (listed : action ∈ (overWriteChunk fate partInfo.devPath currentOffset overwriteOffset writeSize
      number).1) : Beyond all overwriteOffset action := by
  obtain ⟨length, short, rfl⟩ := overWriteChunk_writes listed
  refine ⟨⟨partInfo, aligned.1, rfl, by omega⟩, fun at_ least most => ?_⟩
  have found := aligned.2 (at_ - currentOffset) (by omega)
  rw [Nat.add_sub_of_le least] at found
  exact ⟨_, Nat.le_add_right _ _, found⟩

theorem overwriteSinglePartition_beyond {turns : Nat} {action : Action}
    (aligned : Aligned all partInfo currentOffset overwriteOffset)
    (listed : action ∈ (overwriteSinglePartition fate number partInfo turns currentOffset
      overwriteOffset).1) : Beyond all overwriteOffset action := by
  induction turns generalizing currentOffset overwriteOffset with
  | zero => cases listed
  | succ turns ih =>
      rw [overwriteSinglePartition] at listed
      split at listed
      case _ left =>
        have chunk : ∀ action ∈ (overWriteChunk fate partInfo.devPath currentOffset overwriteOffset
            (chunkSize partInfo.partSize currentOffset) number).1,
            Beyond all overwriteOffset action :=
          fun _ listed => overWriteChunk_beyond aligned (chunkSize_le left) listed
        dsimp only at listed
        split at listed
        case _ actions made =>
          rw [made] at chunk
          exact chunk action listed
        case _ actions made =>
          rw [made] at chunk
          rcases List.mem_append.mp listed with now | listed
          · exact chunk action now
          · rcases List.mem_cons.mp listed with rfl | later
            · exact Nat.le_add_right _ _
            · exact (ih (aligned.move _) later).weaken (Nat.le_add_right _ _)
      · cases listed

/-- The rest of a list, from an offset on, has the places from an offset in the list on. -/
structure Rest (all rest : List PartInfo) (currentOffset overwriteOffset : Nat) : Prop where
  listed : ∀ partInfo ∈ rest, partInfo ∈ all
  placed : ∀ count, locate rest (currentOffset + count) = locate all (overwriteOffset + count)

variable {rest : List PartInfo}

theorem Rest.whole (all : List PartInfo) (offset : Nat) : Rest all all offset offset :=
  ⟨fun _ listed => listed, fun _ => rfl⟩

theorem Rest.skip (remaining : Rest all (partInfo :: rest) currentOffset overwriteOffset)
    (behind : partInfo.partSize ≤ currentOffset) :
    Rest all rest (currentOffset - partInfo.partSize) overwriteOffset := by
  refine ⟨fun other listed => remaining.listed other (List.mem_cons_of_mem _ listed), ?_⟩
  intro count
  have placed := remaining.placed count
  rw [locate_cons_behind (Nat.le_trans behind (Nat.le_add_right _ _))] at placed
  rw [← placed, Nat.sub_add_comm behind]

theorem Rest.aligned (remaining : Rest all (partInfo :: rest) currentOffset overwriteOffset) :
    Aligned all partInfo currentOffset overwriteOffset := by
  refine ⟨remaining.listed partInfo List.mem_cons_self, fun count inside => ?_⟩
  rw [← remaining.placed, locate_cons_here inside]

theorem Rest.next (remaining : Rest all (partInfo :: rest) currentOffset overwriteOffset)
    (inside : currentOffset < partInfo.partSize) :
    Rest all rest 0 (overwriteOffset + (partInfo.partSize - currentOffset)) := by
  refine ⟨fun other listed => remaining.listed other (List.mem_cons_of_mem _ listed), ?_⟩
  intro count
  have placed := remaining.placed (partInfo.partSize - currentOffset + count)
  have behind : currentOffset + (partInfo.partSize - currentOffset + count) =
      partInfo.partSize + count := by
    omega
  rw [behind, locate_cons_behind (Nat.le_add_right _ _), Nat.add_sub_cancel_left] at placed
  rw [Nat.zero_add, placed, Nat.add_assoc]

/-- A partition that is overwritten to its end moves the offset in the list by the rest of it. -/
theorem overwriteSinglePartition_reached {turns : Nat}
    (enough : partInfo.partSize - currentOffset ≤ turns)
    (inside : currentOffset ≤ partInfo.partSize)
    (success : (overwriteSinglePartition fate number partInfo turns currentOffset
      overwriteOffset).2.2 = true) :
    (overwriteSinglePartition fate number partInfo turns currentOffset overwriteOffset).2.1 =
      overwriteOffset + (partInfo.partSize - currentOffset) := by
  induction turns generalizing currentOffset overwriteOffset with
  | zero => exact (congrArg (overwriteOffset + ·) (Nat.le_zero.mp enough)).symm
  | succ turns ih =>
      rcases Nat.lt_or_ge currentOffset partInfo.partSize with left | complete
      · have more := chunkSize_pos left
        have fits := chunkSize_le left
        rw [overwriteSinglePartition, if_pos left] at success ⊢
        dsimp only at success ⊢
        split at success
        · cases success
        · have later := ih (by omega) fits success
          refine later.trans ?_
          omega
      · rw [overwriteSinglePartition, if_neg (Nat.not_lt_of_le complete)]
        exact (congrArg (overwriteOffset + ·) (Nat.sub_eq_zero_of_le complete)).symm

theorem overWritePartitions_beyond {action : Action}
    (remaining : Rest all rest currentOffset overwriteOffset)
    (listed : action ∈ (overWritePartitions fate number rest currentOffset overwriteOffset).1) :
    Beyond all overwriteOffset action := by
  induction rest generalizing currentOffset overwriteOffset with
  | nil => cases listed
  | cons partInfo rest ih =>
      rw [overWritePartitions] at listed
      split at listed
      case _ behind => exact ih (remaining.skip behind) listed
      case _ inside =>
        have left := Nat.lt_of_not_le inside
        split at listed
        · cases listed
        · have single : ∀ action ∈ (overwriteSinglePartition fate number partInfo
              (partInfo.partSize - currentOffset) currentOffset overwriteOffset).1,
              Beyond all overwriteOffset action :=
            fun _ listed => overwriteSinglePartition_beyond remaining.aligned listed
          split at listed
          case _ actions reached made =>
            rw [made] at single
            rcases List.mem_append.mp listed with now | sync
            · exact single action now
            · cases List.mem_singleton.mp sync
              trivial
          case _ actions reached made =>
            rw [made] at single
            have moved := overwriteSinglePartition_reached (Nat.le_refl _) (Nat.le_of_lt left)
              (congrArg (·.2.2) made)
            have same : reached = _ := (congrArg (·.2.1) made).symm.trans moved
            rcases List.mem_append.mp listed with now | listed
            · exact single action now
            · rcases List.mem_cons.mp listed with rfl | later
              · trivial
              · rw [same] at later
                exact (ih (remaining.next left) later).weaken (Nat.le_add_right _ _)

end Actions

section Covered

variable {all : List PartInfo} {system : System}

/-- Every byte of the partitions was written and is not lost, or has a place from an offset on. -/
def Covers (all : List PartInfo) (system : System) (offset : Nat) : Prop :=
  ∀ devPath at_, Ahead all 0 devPath at_ →
    system.bytes.Has devPath at_ ∨ Ahead all offset devPath at_

/-- The offset in misc is not ahead of what was written, in any state that the actions come to. -/
def SafeAlong (all : List PartInfo) : System → List Action → Prop
  | system, [] => Covers all system system.stored
  | system, action :: actions =>
      Covers all system system.stored ∧ SafeAlong all (system.perform action) actions

theorem SafeAlong.append {first second : List Action} (safe : SafeAlong all system first)
    (then_ : SafeAlong all (system.performAll first) second) :
    SafeAlong all system (first ++ second) := by
  induction first generalizing system with
  | nil => exact then_
  | cons action first ih => exact ⟨safe.1, ih safe.2 then_⟩

theorem SafeAlong.take {actions : List Action} (safe : SafeAlong all system actions)
    (count : Nat) :
    Covers all (system.performAll (actions.take count))
      (system.performAll (actions.take count)).stored := by
  induction actions generalizing system count with
  | nil =>
      rw [List.take_nil]
      exact safe
  | cons action actions ih =>
      cases count with
      | zero => exact safe.1
      | succ count => exact ih safe.2 count

theorem SafeAlong.last {actions : List Action} (safe : SafeAlong all system actions) :
    Covers all (system.performAll actions) (system.performAll actions).stored := by
  have whole := safe.take actions.length
  rwa [List.take_length] at whole

theorem has_perform {action : Action} {devPath at_ : Nat} (has : system.bytes.Has devPath at_) :
    (system.perform action).bytes.Has devPath at_ := by
  cases action with
  | write other offset length => exact Durability.has_write.mpr (.inl has)
  | fsync other => exact Durability.has_sync.mpr has
  | syncOffsetInMisc offset => exact has

theorem durable_perform {action : Action} {devPath at_ : Nat}
    (durable : system.bytes.durable devPath at_ = true) :
    (system.perform action).bytes.durable devPath at_ = true := by
  cases action with
  | write other offset length => exact durable
  | fsync other => exact Durability.durable_sync_of_durable durable
  | syncOffsetInMisc offset => exact durable

theorem durable_performAll {actions : List Action} {devPath at_ : Nat}
    (durable : system.bytes.durable devPath at_ = true) :
    (system.performAll actions).bytes.durable devPath at_ = true := by
  induction actions generalizing system with
  | nil => exact durable
  | cons action actions ih => exact ih (durable_perform durable)

theorem has_performAll {actions : List Action} {devPath at_ : Nat}
    (has : system.bytes.Has devPath at_) : (system.performAll actions).bytes.Has devPath at_ := by
  induction actions generalizing system with
  | nil => exact has
  | cons action actions ih => exact ih (has_perform has)

theorem Covers.perform {action : Action} {offset : Nat} (covers : Covers all system offset) :
    Covers all (system.perform action) offset := by
  intro devPath at_ placed
  rcases covers devPath at_ placed with has | ahead
  · exact .inl (has_perform has)
  · exact .inr ahead

theorem performAll_append (first second : List Action) :
    system.performAll (first ++ second) = (system.performAll first).performAll second :=
  List.foldl_append

/-- The passes over a chunk leave misc alone. -/
theorem overWriteChunk_safe {fate : Fate}
    {devPath currentOffset overwriteOffset writeSize number : Nat}
    (safe : Covers all system system.stored) :
    SafeAlong all system (overWriteChunk fate devPath currentOffset overwriteOffset writeSize
        number).1 := by
  induction number generalizing system with
  | zero => exact safe
  | succ number ih =>
      rw [overWriteChunk]
      split
      · exact safe
      · split
        · exact ⟨safe, safe.perform⟩
        · exact ⟨safe, ih safe.perform⟩

/-- One pass over a chunk writes all of it. -/
theorem overWriteChunk_has {fate : Fate}
    {devPath currentOffset overwriteOffset writeSize number at_ : Nat} (counted : 1 ≤ number)
    (success : (overWriteChunk fate devPath currentOffset overwriteOffset writeSize number).2 = true)
    (least : currentOffset ≤ at_) (most : at_ < currentOffset + writeSize) :
    (system.performAll (overWriteChunk fate devPath currentOffset overwriteOffset writeSize
      number).1).bytes.Has devPath at_ := by
  cases number with
  | zero => exact absurd counted (by decide)
  | succ number =>
      rw [overWriteChunk] at success ⊢
      split at success
      · cases success
      case _ seeks =>
        rw [if_neg seeks]
        split at success
        · cases success
        · have written : (system.perform (.write devPath currentOffset writeSize)).bytes.Has
              devPath at_ := Durability.has_write.mpr (.inr ⟨rfl, least, most⟩)
          exact (has_performAll written : (System.performAll (system.perform _) _).bytes.Has _ _)

variable {fate : Fate} {partInfo : PartInfo} {number currentOffset overwriteOffset turns : Nat}
  {rest : List PartInfo}

/-- A chunk that succeeds moves the offset that is covered. -/
theorem overWriteChunk_covers {writeSize : Nat} (counted : 1 ≤ number)
    (aligned : Aligned all partInfo currentOffset overwriteOffset)
    (fits : currentOffset + writeSize ≤ partInfo.partSize)
    (covered : Covers all system overwriteOffset)
    (success : (overWriteChunk fate partInfo.devPath currentOffset overwriteOffset writeSize
      number).2 = true) :
    Covers all (system.performAll (overWriteChunk fate partInfo.devPath currentOffset
      overwriteOffset writeSize number).1) (overwriteOffset + writeSize) := by
  intro devPath at_ placed
  rcases covered devPath at_ placed with has | ⟨place, late, found⟩
  · exact .inl (has_performAll has)
  · rcases Nat.lt_or_ge place (overwriteOffset + writeSize) with inside | behind
    · obtain ⟨count, rfl⟩ := Nat.exists_eq_add_of_le late
      have short : count < writeSize := Nat.lt_of_add_lt_add_left inside
      have here := aligned.2 count
        (Nat.lt_of_lt_of_le (Nat.add_lt_add_left short currentOffset) fits)
      rw [found] at here
      cases here
      exact .inl (overWriteChunk_has counted success (Nat.le_add_right _ _)
        (Nat.add_lt_add_left short currentOffset))
    · exact .inr ⟨place, behind, found⟩

theorem overwriteSinglePartition_safe (counted : 1 ≤ number)
    (aligned : Aligned all partInfo currentOffset overwriteOffset)
    (safe : Covers all system system.stored) (covered : Covers all system overwriteOffset) :
    SafeAlong all system (overwriteSinglePartition fate number partInfo turns currentOffset
        overwriteOffset).1 ∧
      ((overwriteSinglePartition fate number partInfo turns currentOffset
          overwriteOffset).2.2 = true →
        Covers all (system.performAll (overwriteSinglePartition fate number partInfo turns
          currentOffset overwriteOffset).1) (overwriteSinglePartition fate number partInfo turns
            currentOffset overwriteOffset).2.1) := by
  induction turns generalizing currentOffset overwriteOffset system with
  | zero => exact ⟨safe, fun _ => covered⟩
  | succ turns ih =>
      rw [overwriteSinglePartition]
      split
      case isFalse => exact ⟨safe, fun _ => covered⟩
      case isTrue left =>
        have chunkSafe := @overWriteChunk_safe all system fate partInfo.devPath currentOffset
          overwriteOffset (chunkSize partInfo.partSize currentOffset) number safe
        have chunkCovers := @overWriteChunk_covers all system fate partInfo number currentOffset
          overwriteOffset _ counted aligned (chunkSize_le left) covered
        dsimp only
        split
        case _ actions made =>
          rw [made] at chunkSafe
          exact ⟨chunkSafe, fun success => absurd success Bool.false_ne_true⟩
        case _ actions made =>
          rw [made] at chunkSafe chunkCovers
          have moved := chunkCovers rfl
          obtain ⟨later, reached⟩ := ih (aligned.move _)
            (moved.perform : Covers all ((system.performAll actions).perform
              (.syncOffsetInMisc (overwriteOffset + chunkSize partInfo.partSize currentOffset)))
              _) moved.perform
          refine ⟨chunkSafe.append ⟨chunkSafe.last, later⟩, fun success => ?_⟩
          rw [performAll_append]
          exact reached success

/-- A list that is overwritten to its end is durable from the offset on. -/
theorem overWritePartitions_safe (counted : 1 ≤ number)
    (remaining : Rest all rest currentOffset overwriteOffset)
    (safe : Covers all system system.stored) (covered : Covers all system overwriteOffset) :
    SafeAlong all system
        (overWritePartitions fate number rest currentOffset overwriteOffset).1 ∧
      ((overWritePartitions fate number rest currentOffset overwriteOffset).2 = true →
        ∀ devPath at_, Ahead all overwriteOffset devPath at_ →
          (system.performAll (overWritePartitions fate number rest currentOffset
            overwriteOffset).1).bytes.durable devPath at_ = true) := by
  induction rest generalizing currentOffset overwriteOffset system with
  | nil =>
      refine ⟨safe, fun _ devPath at_ ahead => ?_⟩
      obtain ⟨place, late, found⟩ := ahead
      obtain ⟨count, rfl⟩ := Nat.exists_eq_add_of_le late
      rw [← remaining.placed count] at found
      cases found
  | cons partInfo rest ih =>
      rw [overWritePartitions]
      split
      case isTrue behind => exact ih (remaining.skip behind) safe covered
      case isFalse inside =>
        have left := Nat.lt_of_not_le inside
        split
        · exact ⟨safe, fun success => absurd success Bool.false_ne_true⟩
        · have single := @overwriteSinglePartition_safe all system fate partInfo number
            currentOffset overwriteOffset (partInfo.partSize - currentOffset) counted
            remaining.aligned safe covered
          split
          case _ actions reached made =>
            rw [made] at single
            refine ⟨single.1.append ⟨single.1.last, single.1.last.perform⟩, fun success => ?_⟩
            exact absurd success Bool.false_ne_true
          case _ actions reached made =>
            have moved := overwriteSinglePartition_reached (Nat.le_refl _) (Nat.le_of_lt left)
              (congrArg (·.2.2) made)
            have same : reached = _ := (congrArg (·.2.1) made).symm.trans moved
            subst same
            rw [made] at single
            have here := single.2 rfl
            obtain ⟨later, durable⟩ := @ih
              ((system.performAll actions).perform (.fsync partInfo.devPath)) 0 _
              (remaining.next left) single.1.last.perform here.perform
            refine ⟨single.1.append ⟨single.1.last, later⟩, fun success devPath at_ ahead => ?_⟩
            rw [performAll_append]
            rcases here devPath at_ (ahead.weaken (Nat.zero_le _)) with has | beyond
            · obtain ⟨place, late, found⟩ := ahead
              obtain ⟨count, rfl⟩ := Nat.exists_eq_add_of_le late
              rcases Nat.lt_or_ge count (partInfo.partSize - currentOffset) with short | behind
              · have same := remaining.aligned.2 count (by omega)
                rw [found] at same
                cases same
                have synced : ((system.performAll actions).perform
                    (.fsync partInfo.devPath)).bytes.durable partInfo.devPath _ = true :=
                  Durability.durable_sync has
                exact (durable_performAll synced : (System.performAll
                  ((system.performAll actions).perform _) _).bytes.durable _ _ = true)
              · exact durable success devPath at_ ⟨_, Nat.add_le_add_left behind _, found⟩
            · exact durable success devPath at_ beyond

end Covered

section Restarts

variable (request : Request)

/-- All bytes of the partitions durably hold the pattern. -/
def Erased (partInfos : List PartInfo) (system : System) : Prop :=
  ∀ partInfo ∈ partInfos, ∀ at_ < partInfo.partSize,
    system.bytes.durable partInfo.devPath at_ = true

namespace Request

/-- The system behind attempts that lose power. -/
def run (attempts : List Attempt) : System :=
  runSchedule request.restart System.initial attempts

/-- Each write of a call stays inside a partition. -/
def Inside (system : System) : Prop :=
  ∀ fate devPath offset length, .write devPath offset length ∈ (request.call fate system).1 →
    ∃ partInfo ∈ request.partInfos, partInfo.devPath = devPath ∧
      offset + length ≤ partInfo.partSize

/-- What the erase must have done when a call behind attempts returns true. -/
structure Secure (attempts : List Attempt) (fate : Fate) : Prop where
  erased : Erased request.partInfos (request.finish fate (request.run attempts))
  inside : ∀ earlier, earlier <+: attempts → request.Inside (request.run earlier)

/-- The loss keeps what was written and is not durable yet, of the bytes that have no place in the
list at or behind the offset in misc. -/
def Keeps (attempt : Attempt) (system : System) : Prop :=
  ∀ devPath at_, Ahead request.partInfos 0 devPath at_ →
    ¬ Ahead request.partInfos (request.reach attempt system).stored devPath at_ →
    (request.reach attempt system).bytes.written devPath at_ = true →
    (request.reach attempt system).bytes.durable devPath at_ = false →
    attempt.kept devPath at_ = true

/-- Every byte of the partitions is durable, or has a place at or behind the offset in misc. -/
def Sound (system : System) : Prop :=
  ∀ devPath at_, Ahead request.partInfos 0 devPath at_ →
    system.bytes.durable devPath at_ = true ∨ Ahead request.partInfos system.stored devPath at_

/-- The byte is lost, and restarts go on from a start or behind it. -/
def Missing (start devPath at_ : Nat) (system : System) : Prop :=
  system.bytes.durable devPath at_ = false ∧ system.bytes.written devPath at_ = false ∧
    start ≤ system.stored

variable {request} {fate : Fate} {system : System} {attempt : Attempt}
  {start devPath at_ : Nat}

theorem call_beyond {action : Action} (listed : action ∈ (request.call fate system).1) :
    Beyond request.partInfos system.stored action := by
  rw [call, overWritePartition] at listed
  split at listed
  · cases listed
  · exact overWritePartitions_beyond (Rest.whole _ _) listed

theorem call_inside : request.Inside system :=
  fun _ _ _ _ listed => (call_beyond listed).1

theorem times_pos : 1 ≤ if request.eraseDataAndOs then 3 else request.eraseTimes := by
  split
  · decide
  · exact request.counted

theorem Sound.covers (sound : request.Sound system) :
    Covers request.partInfos system system.stored :=
  fun devPath at_ placed => (sound devPath at_ placed).imp_left .inl

/-- What a call does from a system that is sound. -/
theorem call_safe (sound : request.Sound system) :
    SafeAlong request.partInfos system (request.call fate system).1 ∧
      ((request.call fate system).2 = true →
        ∀ devPath at_, Ahead request.partInfos system.stored devPath at_ →
          (request.finish fate system).bytes.durable devPath at_ = true) := by
  rw [finish, call, overWritePartition]
  split
  · exact ⟨sound.covers, fun success => absurd success Bool.false_ne_true⟩
  · exact overWritePartitions_safe times_pos (Rest.whole _ _) sound.covers sound.covers

theorem Sound.restart (sound : request.Sound system) (keeps : request.Keeps attempt system) :
    request.Sound (request.restart attempt system) := by
  intro devPath at_ placed
  have covers := (@call_safe request attempt.fate system sound).1.take attempt.actions devPath at_ placed
  by_cases ahead : Ahead request.partInfos (request.reach attempt system).stored devPath at_
  · exact .inr ahead
  · refine .inl (Durability.durable_lose.mpr ?_)
    rcases covers.resolve_right ahead with durable | written
    · exact .inl durable
    · cases lost : (request.reach attempt system).bytes.durable devPath at_ with
      | true => exact .inl rfl
      | false => exact .inr ⟨written, keeps devPath at_ placed ahead written lost⟩

theorem Sound.finish (sound : request.Sound system)
    (returned : (request.call fate system).2 = true) :
    Erased request.partInfos (request.finish fate system) := by
  intro partInfo listed at_ inside
  obtain ⟨place, found⟩ := locate_exists listed inside
  rcases sound partInfo.devPath at_ ⟨place, Nat.zero_le _, found⟩ with durable | ahead
  · exact durable_performAll durable
  · exact (call_safe sound).2 returned _ _ ahead

theorem Missing.perform {action : Action} (missing : Missing start devPath at_ system)
    (gone : ¬ Ahead request.partInfos start devPath at_)
    (beyond : Beyond request.partInfos start action) :
    Missing start devPath at_ (system.perform action) := by
  obtain ⟨volatile, unwritten, late⟩ := missing
  have lost : ¬ system.bytes.Has devPath at_ := by
    rintro (durable | written)
    · exact Bool.false_ne_true (volatile.symm.trans durable)
    · exact Bool.false_ne_true (unwritten.symm.trans written)
  cases action with
  | write other offset length =>
      refine ⟨volatile, ?_, late⟩
      refine Bool.eq_false_iff.mpr fun written => ?_
      rcases Durability.has_write.mp (.inr written) with has | ⟨rfl, least, most⟩
      · exact lost has
      · exact gone (beyond.2 at_ least most)
  | fsync other =>
      refine ⟨Bool.eq_false_iff.mpr fun durable => ?_, Bool.eq_false_iff.mpr fun written => ?_, late⟩
      · exact lost (Durability.has_sync.mp (.inl durable))
      · exact lost (Durability.has_sync.mp (.inr written))
  | syncOffsetInMisc offset => exact ⟨volatile, unwritten, beyond⟩

theorem Missing.performAll {actions : List Action} (missing : Missing start devPath at_ system)
    (gone : ¬ Ahead request.partInfos start devPath at_)
    (beyond : ∀ action ∈ actions, Beyond request.partInfos start action) :
    Missing start devPath at_ (system.performAll actions) := by
  induction actions generalizing system with
  | nil => exact missing
  | cons action actions ih =>
      obtain ⟨now, later⟩ := List.forall_mem_cons.mp beyond
      exact ih (missing.perform gone now) later

theorem Missing.reach (missing : Missing start devPath at_ system)
    (gone : ¬ Ahead request.partInfos start devPath at_) :
    Missing start devPath at_ (request.reach attempt system) :=
  missing.performAll gone fun _ listed =>
    (call_beyond (List.mem_of_mem_take listed)).weaken missing.2.2

theorem Missing.restart (missing : Missing start devPath at_ system)
    (gone : ¬ Ahead request.partInfos start devPath at_) :
    Missing start devPath at_ (request.restart attempt system) := by
  obtain ⟨volatile, unwritten, late⟩ := @Missing.reach request system attempt _ _ _ missing gone
  refine ⟨Bool.eq_false_iff.mpr fun durable => ?_, rfl, late⟩
  rcases Durability.durable_lose.mp durable with durable | ⟨written, _⟩
  · exact Bool.false_ne_true (volatile.symm.trans durable)
  · exact Bool.false_ne_true (unwritten.symm.trans written)

/-- A byte that is lost stays so. -/
theorem Missing.not_erased {attempts : List Attempt} (missing : Missing start devPath at_ system)
    (placed : Ahead request.partInfos 0 devPath at_)
    (gone : ¬ Ahead request.partInfos start devPath at_) :
    ¬ Erased request.partInfos
      (request.finish fate (runSchedule request.restart system attempts)) := by
  intro erased
  have preserved : ∀ attempt system, Missing start devPath at_ system →
      Missing start devPath at_ (request.restart attempt system) :=
    fun _ _ missing => missing.restart gone
  have last := runSchedule_invariant preserved attempts missing
  have finished := last.performAll gone fun _ listed =>
    (@call_beyond request fate _ _ listed).weaken last.2.2
  obtain ⟨place, _, found⟩ := placed
  obtain ⟨partInfo, listed, rfl, inside⟩ := locate_mem found
  exact Bool.false_ne_true (finished.1.symm.trans (erased partInfo listed at_ inside))

theorem along_of_erased {attempts : List Attempt}
    (erased : Erased request.partInfos
      (request.finish fate (runSchedule request.restart system attempts))) :
    Along request.restart request.Keeps system attempts := by
  induction attempts generalizing system with
  | nil => trivial
  | cons attempt attempts ih =>
      refine ⟨fun devPath at_ placed gone written volatile => ?_, ih erased⟩
      cases kept : attempt.kept devPath at_ with
      | true => rfl
      | false =>
          have missing : Missing (request.reach attempt system).stored devPath at_
              (request.restart attempt system) := by
            refine ⟨Bool.eq_false_iff.mpr fun durable => ?_, rfl, Nat.le_refl _⟩
            rcases Durability.durable_lose.mp durable with durable | ⟨_, held⟩
            · exact Bool.false_ne_true (volatile.symm.trans durable)
            · exact Bool.false_ne_true (kept.symm.trans held)
          exact (missing.not_erased placed gone erased).elim

/-- A call that returns true has erased all, if and only if each power loss kept the bytes that
the offset in misc was ahead of. -/
theorem secureErase_iff (request : Request) (attempts : List Attempt) (fate : Fate)
    (returned : (request.call fate (request.run attempts)).2 = true) :
    Along request.restart request.Keeps System.initial attempts ↔ request.Secure attempts fate := by
  constructor
  · intro along
    have start : request.Sound System.initial := fun devPath at_ placed => .inr placed
    have last := along.invariant (fun _ _ => Sound.restart) start
    exact ⟨last.finish returned, fun _ _ => call_inside⟩
  · intro secure
    exact along_of_erased secure.erased

/-- No call fails. -/
def smooth : Fate where
  opens := fun _ => true
  seeks := fun _ _ => true
  writeStops := fun _ _ => none

/-- One partition of one byte. -/
def oneByte : Request where
  eraseDataAndOs := false
  eraseTimes := 1
  partInfos := [{ partSize := 1, devPath := 0 }]
  counted := Nat.le_refl 1
  positive := by decide

theorem oneByte_secure : (oneByte.call smooth (oneByte.run [])).2 = true ∧
    (Along oneByte.restart oneByte.Keeps System.initial [] ↔ oneByte.Secure [] smooth) :=
  ⟨by decide, secureErase_iff oneByte [] smooth (by decide)⟩

/-- The power is lost between the offset in misc and the fsync. -/
def earlyLoss : Attempt where
  fate := smooth
  actions := 2
  kept := fun _ _ => false

/-- The call behind the loss takes the partition for overwritten. -/
theorem earlyLoss_not_erased :
    (oneByte.call smooth (oneByte.run [earlyLoss])).2 = true ∧
      ¬ Erased oneByte.partInfos (oneByte.finish smooth (oneByte.run [earlyLoss])) := by
  refine ⟨by decide, fun erased => ?_⟩
  exact absurd (erased { partSize := 1, devPath := 0 } List.mem_cons_self 0 (by decide)) (by decide)

end Request

end Restarts

end Updater.FactoryReset
