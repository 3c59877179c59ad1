import Updater.StreamUpdate.StreamSafety

/-! When the calls of the parser of a stream return. -/

set_option autoImplicit false

namespace Updater.StreamUpdate

open Updater.Base Updater.Utils

/-- A turn of the loop over a chunk does not begin with a full buffer that already asked for new
data. A hash record has no name that the end of the buffer cuts, and a header that was loaded ends
behind the offset it was loaded at. -/
def Event.Progressive : Event → Prop
  | .turn maxBufSize _ curlen needNewData => ¬ (curlen = maxBufSize ∧ needNewData = true)
  | .record buffer curlen offset =>
      leValue (buffer.read offset 2) = binUpdateHashTip → HashFits buffer curlen 0 0 offset
  | .head offset updateFileHeadLen => offset < updateFileHeadLen
  | _ => True

namespace BinChunkUpdate

variable {World : Type} {services : Services World} {st next last : BinChunkUpdate World}

/-- Nothing of what was noted is forgotten. -/
theorem Agrees.extends {before after : BinChunkUpdate World → Prop}
    (agrees : Agrees before after st next) {event : Event} (listed : event ∈ st.events) :
    event ∈ next.events := by
  obtain ⟨events, made, _⟩ := agrees
  rw [made]
  exact List.mem_append_left _ listed

/-- The same bytes are in the buffer, and the offset has moved on in them. -/
structure Advances (st next : BinChunkUpdate World) : Prop where
  buffer : next.buffer = st.buffer
  curlen : next.curlen = st.curlen
  maxBufSize : next.maxBufSize = st.maxBufSize
  later : st.offset ≤ next.offset
  within : next.offset ≤ next.curlen

theorem Advances.trans (first : Advances st next) (second : Advances next last) :
    Advances st last where
  buffer := second.buffer.trans first.buffer
  curlen := second.curlen.trans first.curlen
  maxBufSize := second.maxBufSize.trans first.maxBufSize
  later := Nat.le_trans first.later second.later
  within := second.within

/-- The offset is in the received bytes. -/
structure Bounded (st : BinChunkUpdate World) : Prop where
  within : st.offset ≤ st.curlen
  small : st.curlen < uint32Count

theorem Bounded.advances (bounded : st.Bounded) (same : next.buffer = st.buffer)
    (sameCurlen : next.curlen = st.curlen) (sameMax : next.maxBufSize = st.maxBufSize)
    (sameOffset : next.offset = st.offset) : Advances st next where
  buffer := same
  curlen := sameCurlen
  maxBufSize := sameMax
  later := Nat.le_of_eq sameOffset.symm
  within := by
    rw [sameOffset, sameCurlen]
    exact bounded.within

theorem Advances.bounded (advances : Advances st next) (bounded : st.Bounded) : next.Bounded where
  within := advances.within
  small := advances.curlen ▸ bounded.small

/-- How far a step is from the end of `UpdateBinData`, when no record is left. -/
def stepRank : ChunkInstallStep → Nat
  | .pre => 2
  | .do_ => 1
  | .post => 0

theorem stepRank_le (step : ChunkInstallStep) : stepRank step ≤ 2 := by
  cases step with
  | pre => exact Nat.le_refl 2
  | do_ => exact Nat.le_succ 1
  | post => exact Nat.zero_le 2

/-- What is left for the loop of `UpdateBinData`. -/
def installWork (st : BinChunkUpdate World) : Nat :=
  3 * (st.curlen - st.offset) + stepRank st.updateStep

/-- New data is needed, or the update has failed. -/
def Halted (result : UpdateResultCode × BinChunkUpdate World) : Prop :=
  result.2.needNewData = true ∨ result.1 = .failure

theorem not_halted {ret : UpdateResultCode} (going : ret ≠ .failure)
    (fed : next.needNewData = false) : ¬ Halted (ret, next) := by
  rintro (asked | failed)
  · exact Bool.false_ne_true (fed.symm.trans asked)
  · exact going failed

theorem chunkInstallPreWrite_step (bounded : st.Bounded) :
    Advances st (st.chunkInstallPreWrite services).2 ∧
      (Halted (st.chunkInstallPreWrite services) ∨
        (st.chunkInstallPreWrite services).2.updateStep = .do_ ∧
          (st.chunkInstallPreWrite services).2.offset = st.offset ∧
            (readPartitionData st.buffer st.curlen st.offset).result =
              some (st.chunkInstallPreWrite services).2.curPartition) := by
  rw [chunkInstallPreWrite]
  dsimp only
  split
  · exact ⟨bounded.advances rfl rfl rfl rfl, .inl (.inl rfl)⟩
  case _ curPartition found =>
    split
    · exact ⟨bounded.advances rfl rfl rfl rfl, .inr ⟨rfl, rfl, found⟩⟩
    · exact ⟨bounded.advances rfl rfl rfl rfl, .inl (.inr rfl)⟩

theorem chunkInstallDoWrite_step (bounded : st.Bounded) (doing : st.updateStep = .do_) :
    Advances st (st.chunkInstallDoWrite services).2 ∧
      (Halted (st.chunkInstallDoWrite services) ∨
        (st.chunkInstallDoWrite services).2.updateStep = .post ∧
          (readInstall st.buffer st.curlen st.curPartition st.offset).result = some none ∨
        (st.chunkInstallDoWrite services).2.updateStep = .do_ ∧
          st.offset < (st.chunkInstallDoWrite services).2.offset) := by
  rw [chunkInstallDoWrite]
  dsimp only
  split
  · exact ⟨bounded.advances rfl rfl rfl rfl, .inl (.inl rfl)⟩
  case _ found => exact ⟨bounded.advances rfl rfl rfl rfl, .inr (.inl ⟨rfl, found⟩)⟩
  case _ install found =>
    obtain ⟨later, within⟩ := readInstall_some bounded.small bounded.within found
    split
    · exact ⟨⟨rfl, rfl, rfl, Nat.le_of_lt later, within⟩, .inr (.inr ⟨doing, later⟩)⟩
    · exact ⟨bounded.advances rfl rfl rfl rfl, .inl (.inr rfl)⟩

theorem chunkInstallProcess_advances (bounded : st.Bounded) :
    Advances st (st.chunkInstallProcess services).2 := by
  rw [chunkInstallProcess]
  cases step : st.updateStep with
  | pre => exact (chunkInstallPreWrite_step bounded).1
  | do_ => exact (chunkInstallDoWrite_step bounded step).1
  | post => exact bounded.advances rfl rfl rfl rfl

/-- Each step of `UpdateBinData` ends it or leaves less to do. -/
theorem chunkInstallProcess_work (bounded : st.Bounded) :
    Halted (st.chunkInstallProcess services) ∨
      (st.chunkInstallProcess services).2.updateStep = .pre ∨
        (st.chunkInstallProcess services).2.installWork < st.installWork := by
  have advances := @chunkInstallProcess_advances World services st bounded
  have within := bounded.within
  rw [chunkInstallProcess] at advances ⊢
  cases step : st.updateStep with
  | pre =>
      rw [step] at advances
      rcases (@chunkInstallPreWrite_step World services st bounded).2 with halted | ⟨doing, same, _⟩
      · exact .inl halted
      · refine .inr (.inr ?_)
        rw [installWork, installWork, doing, same, advances.curlen, step]
        exact Nat.add_lt_add_left (by decide) _
  | do_ =>
      rw [step] at advances
      rcases (@chunkInstallDoWrite_step World services st bounded step).2 with
        halted | ⟨posted, _⟩ | ⟨doing, later⟩
      · exact .inl halted
      · refine .inr (.inr ?_)
        have ahead := advances.later
        dsimp only at ahead ⊢
        rw [installWork, installWork, posted, advances.curlen, step, stepRank, stepRank]
        omega
      · refine .inr (.inr ?_)
        have inside := advances.within
        rw [advances.curlen] at inside
        rw [installWork, installWork, doing, advances.curlen, step]
        dsimp only at inside ⊢
        omega
  | post => exact .inr (.inl rfl)

theorem updateBinData_returns {turns : Nat} (bounded : st.Bounded)
    (enough : st.installWork < turns) : (updateBinData services turns st).1 ≠ none := by
  induction turns generalizing st with
  | zero => exact absurd enough (Nat.not_lt_zero _)
  | succ turns ih =>
      rw [updateBinData]
      dsimp only
      split
      · exact Option.some_ne_none _
      case isFalse unsettled =>
        obtain ⟨fed, going, behind⟩ := not_or.mp unsettled |>.imp_right not_or.mp
        have less := ((chunkInstallProcess_work bounded).resolve_left
          (not_or.mpr ⟨fed, going⟩)).resolve_left behind
        exact ih ((chunkInstallProcess_advances bounded).bounded bounded)
          (Nat.lt_of_lt_of_le less (Nat.le_of_lt_succ enough))

theorem updateBinData_advances {turns : Nat} (bounded : st.Bounded) :
    Advances st (updateBinData services turns st).2 := by
  induction turns generalizing st with
  | zero => exact bounded.advances rfl rfl rfl rfl
  | succ turns ih =>
      have step := @chunkInstallProcess_advances World services st bounded
      rw [updateBinData]
      dsimp only
      split
      · exact step
      · exact step.trans (ih (step.bounded bounded))

/-- `UpdateBinData` that wants no new data has ended a partition. -/
theorem updateBinData_pre {turns : Nat} {ret : UpdateResultCode}
    (made : updateBinData services turns st = (some ret, next)) (going : ret ≠ .failure)
    (fed : next.needNewData = false) : next.updateStep = .pre := by
  induction turns generalizing st with
  | zero => cases made
  | succ turns ih =>
      rw [updateBinData] at made
      dsimp only at made
      split at made
      case isTrue settled =>
        cases made
        rcases settled with asked | failed | begun
        · exact (not_halted going fed (.inl asked)).elim
        · exact (going failed).elim
        · exact begun
      case isFalse => exact ih made

/-- Begun before a partition, it has installed a command of it by then. -/
theorem updateBinData_later {turns : Nat} {ret : UpdateResultCode} (bounded : st.Bounded)
    (begun : st.updateStep = .pre) (type : leValue (st.buffer.read st.offset 2) ≠ binUpdateHashTip)
    (made : updateBinData services turns st = (some ret, next)) (going : ret ≠ .failure)
    (fed : next.needNewData = false) : st.offset < next.offset := by
  cases turns with
  | zero => cases made
  | succ turns =>
      have first := @chunkInstallPreWrite_step World services st bounded
      rw [updateBinData, chunkInstallProcess, begun] at made
      dsimp only at made
      generalize st.chunkInstallPreWrite services = result at first made
      obtain ⟨ret', between⟩ := result
      obtain ⟨advances, moved⟩ := first
      dsimp only at made moved
      have doing : ¬ Halted (ret', between) → between.updateStep = .do_ ∧ between.offset = st.offset ∧
          (readPartitionData st.buffer st.curlen st.offset).result = some between.curPartition :=
        moved.resolve_left
      split at made
      case isTrue settled =>
        cases made
        have step := (doing (not_halted going fed)).1
        rcases settled with asked | failed | before
        · exact (not_halted going fed (.inl asked)).elim
        · exact (going failed).elim
        · cases step.symm.trans before
      case isFalse unsettled =>
        obtain ⟨fed', going', _⟩ := not_or.mp unsettled |>.imp_right not_or.mp
        obtain ⟨step, same, found⟩ := doing (not_or.mpr ⟨fed', going'⟩)
        cases turns with
        | zero => cases made
        | succ turns =>
            have bounded' := advances.bounded bounded
            obtain ⟨moving, second⟩ := @chunkInstallDoWrite_step World services between bounded' step
            rw [updateBinData, chunkInstallProcess, step] at made
            dsimp only at made
            have later : ¬ Halted (between.chunkInstallDoWrite services) →
                between.offset < (between.chunkInstallDoWrite services).2.offset := by
              intro running
              rcases second.resolve_left running with ⟨_, ended⟩ | ⟨_, later⟩
              · rw [advances.buffer, advances.curlen, same] at ended
                exact (readInstall_same bounded.small bounded.within type found ended).elim
              · exact later
            rw [same] at later
            split at made
            case isTrue settled =>
              cases made
              exact later (not_halted going fed)
            case isFalse unsettled =>
              obtain ⟨fed'', going'', _⟩ := not_or.mp unsettled |>.imp_right not_or.mp
              have rest := @updateBinData_advances World services _ turns (moving.bounded bounded')
              rw [made] at rest
              exact Nat.lt_of_lt_of_le (later (not_or.mpr ⟨fed'', going''⟩)) rest.later

/-- What is left for the loop of `ProcessBufferData`. -/
def recordWork (st : BinChunkUpdate World) : Nat :=
  2 * (st.curlen - st.offset) + if st.updateStep = .pre then 0 else 1

theorem recordWork_lt (advances : Advances st next) (later : st.offset < next.offset) :
    next.recordWork < st.recordWork := by
  have within := advances.within
  rw [advances.curlen] at within
  rw [recordWork, recordWork, advances.curlen]
  split
  · split
    · omega
    · omega
  · split
    · omega
    · omega

theorem updateBinData_work {turns : Nat} {ret : UpdateResultCode} (bounded : st.Bounded)
    (type : leValue (st.buffer.read st.offset 2) ≠ binUpdateHashTip)
    (made : updateBinData services turns st = (some ret, next)) (going : ret ≠ .failure)
    (fed : next.needNewData = false) : next.recordWork < st.recordWork := by
  have advances := @updateBinData_advances World services st turns bounded
  rw [made] at advances
  by_cases begun : st.updateStep = .pre
  · exact recordWork_lt advances (updateBinData_later bounded begun type made going fed)
  · have ended := updateBinData_pre made going fed
    have later : st.offset ≤ next.offset := advances.later
    rw [recordWork, recordWork, if_neg begun, if_pos ended, advances.curlen]
    omega

theorem updateBinHead_step {ret : UpdateResultCode}
    (made : st.updateBinHead services = (ret, next)) (going : ret ≠ .failure)
    (progressive : ∀ event ∈ next.events, event.Progressive) :
    Advances st next ∧ st.offset < next.offset := by
  rw [updateBinHead] at made
  dsimp only at made
  split at made
  · cases made
    exact (going rfl).elim
  · split at made
    · cases made
      exact (going rfl).elim
    case _ possible =>
      cases made
      have later := progressive _ (List.mem_append_right _ List.mem_cons_self)
      exact ⟨⟨rfl, rfl, rfl, Nat.le_of_lt later, Nat.le_of_not_lt (not_or.mp possible).2⟩, later⟩

theorem updateBinHash_step {ret : UpdateResultCode} (bounded : st.Bounded)
    (fits : HashFits st.buffer st.curlen 0 0 st.offset)
    (made : st.updateBinHash services = (ret, next)) :
    Advances st next ∧ (next.needNewData = true ∨ st.offset < next.offset) := by
  rw [updateBinHash] at made
  dsimp only at made
  split at made
  · cases made
    exact ⟨bounded.advances rfl rfl rfl rfl, .inl rfl⟩
  case _ hashes found =>
    obtain ⟨later, within⟩ := readHashSection_some bounded.small bounded.within fits found
    split at made
    · split at made
      · cases made
        exact ⟨⟨rfl, rfl, rfl, Nat.le_of_lt later, within⟩, .inr later⟩
      · cases made
        exact ⟨⟨rfl, rfl, rfl, Nat.le_of_lt later, within⟩, .inr later⟩
    · cases made
      exact ⟨⟨rfl, rfl, rfl, Nat.le_of_lt later, within⟩, .inr later⟩

theorem updateBinHash_extends {event : Event} (listed : event ∈ st.events) :
    event ∈ (st.updateBinHash services).2.events := by
  have noted : event ∈ (st.traced (readHashSection st.buffer st.curlen st.offset)).events :=
    List.mem_append_left _ listed
  rw [updateBinHash]
  dsimp only
  split
  · exact noted
  · split
    · split
      · exact noted
      · exact noted
    · exact noted

theorem processRecord_extends {turns type : Nat} {event : Event} (listed : event ∈ st.events) :
    event ∈ (st.processRecord services turns type).2.events := by
  rw [processRecord]
  split
  · exact updateBinHead_agrees.extends listed
  · split
    · exact updateBinData_agrees.extends listed
    · split
      · exact updateBinHash_extends listed
      · exact listed

/-- A record that is processed leaves less to do, if it does not ask for new data. -/
theorem nextRecord_step {turns : Nat} {ret : UpdateResultCode} (bounded : st.Bounded)
    (made : st.nextRecord services turns = (some ret, next)) (going : ret ≠ .failure)
    (progressive : ∀ event ∈ next.events, event.Progressive) :
    Advances st next ∧ (next.needNewData = true ∨ next.recordWork < st.recordWork) := by
  have noted := @processRecord_extends World services ((st.emit
    [.record st.buffer st.curlen st.offset]).traced (readLE st.buffer st.curlen 2 st.offset)) turns
    (leValue (st.buffer.read st.offset 2)) (.record st.buffer st.curlen st.offset)
    (List.mem_append_left _ (List.mem_append_right _ List.mem_cons_self))
  rw [nextRecord] at made
  rw [made] at noted
  have fits := progressive _ noted
  have begun : Advances st ((st.emit [.record st.buffer st.curlen st.offset]).traced
      (readLE st.buffer st.curlen 2 st.offset)) := bounded.advances rfl rfl rfl rfl
  have bounded' := begun.bounded bounded
  rw [processRecord] at made
  split at made
  · cases head : ((st.emit [.record st.buffer st.curlen st.offset]).traced
        (readLE st.buffer st.curlen 2 st.offset)).updateBinHead services with
    | mk ret' next' =>
        rw [head] at made
        cases made
        obtain ⟨advances, later⟩ := updateBinHead_step head going progressive
        exact ⟨begun.trans advances, .inr (recordWork_lt (begun.trans advances) later)⟩
  · split at made
    case _ type =>
      have advances := @updateBinData_advances World services _ turns bounded'
      rw [made] at advances
      refine ⟨begun.trans advances, ?_⟩
      cases fed : next.needNewData with
      | true => exact .inl rfl
      | false =>
          have other : leValue (st.buffer.read st.offset 2) ≠ binUpdateHashTip := by
            rw [type]
            decide
          have less := @updateBinData_work World services _ _ _ _ bounded' other made going fed
          exact .inr less
    · split at made
      case _ type =>
        cases hash : ((st.emit [.record st.buffer st.curlen st.offset]).traced
            (readLE st.buffer st.curlen 2 st.offset)).updateBinHash services with
        | mk ret' next' =>
            rw [hash] at made
            cases made
            obtain ⟨advances, step⟩ := updateBinHash_step bounded' (fits type) hash
            have moved := begun.trans advances
            exact ⟨moved, step.imp_right fun later => recordWork_lt moved later⟩
      · cases made
        exact (going rfl).elim

theorem nextRecord_returns {turns : Nat} (bounded : st.Bounded)
    (inner : 3 * st.curlen + 2 < turns) : (st.nextRecord services turns).1 ≠ none := by
  rw [nextRecord, processRecord]
  split
  · exact Option.some_ne_none _
  · split
    · refine updateBinData_returns ⟨bounded.within, bounded.small⟩ (Nat.lt_of_le_of_lt ?_ inner)
      exact Nat.add_le_add (Nat.mul_le_mul_left 3 (Nat.sub_le _ _)) (stepRank_le _)
    · split
      · exact Option.some_ne_none _
      · exact Option.some_ne_none _

theorem processBufferData_next {turns left : Nat} {ret ret' : UpdateResultCode}
    (more : 0 < remaining st.curlen st.offset ∧ st.needNewData = false)
    (made : st.nextRecord services turns = (some ret', next)) (going : ret' ≠ .failure) :
    processBufferData services turns (left + 1) ret st =
      processBufferData services turns left ret' next := by
  rw [processBufferData, if_pos more, made]
  cases ret' with
  | success => rfl
  | failure => exact (going rfl).elim
  | complete => rfl

theorem processBufferData_failed {turns left : Nat} {ret : UpdateResultCode}
    (more : 0 < remaining st.curlen st.offset ∧ st.needNewData = false)
    (made : st.nextRecord services turns = (some .failure, next)) :
    processBufferData services turns (left + 1) ret st = (some .failure, next) := by
  rw [processBufferData, if_pos more, made]

theorem processBufferData_over {turns left : Nat} {ret : UpdateResultCode}
    (over_ : ¬ (0 < remaining st.curlen st.offset ∧ st.needNewData = false)) :
    processBufferData services turns (left + 1) ret st = (some ret, st) :=
  if_neg over_

/-- The loop of `ProcessBufferData` returns, and ends behind all records or asks for new data. -/
theorem processBufferData_returns {turns left : Nat} {ret : UpdateResultCode} (bounded : st.Bounded)
    (inner : 3 * st.curlen + 2 < turns) (enough : st.recordWork < left)
    (progressive : ∀ event ∈ (processBufferData services turns left ret st).2.events,
      event.Progressive) :
    (processBufferData services turns left ret st).1 ≠ none ∧
      ((processBufferData services turns left ret st).1 ≠ some .failure →
        Advances st (processBufferData services turns left ret st).2 ∧
          ((processBufferData services turns left ret st).2.needNewData = true ∨
            (processBufferData services turns left ret st).2.offset = st.curlen)) := by
  induction left generalizing st ret with
  | zero => exact absurd enough (Nat.not_lt_zero _)
  | succ left ih =>
      by_cases more : 0 < remaining st.curlen st.offset ∧ st.needNewData = false
      · have some_ : st.offset < st.curlen := by
          rw [remaining_of_le bounded.within] at more
          exact Nat.lt_of_sub_pos more.1
        have returned := @nextRecord_returns World services st turns bounded inner
        cases made : st.nextRecord services turns with
        | mk result between =>
            rw [made] at returned
            cases result with
            | none => exact (returned rfl).elim
            | some ret' =>
                by_cases going : ret' = .failure
                · rw [going] at made
                  rw [processBufferData_failed more made]
                  exact ⟨Option.some_ne_none _, fun running => (running rfl).elim⟩
                · rw [processBufferData_next more made going] at progressive ⊢
                  have noted : ∀ event ∈ between.events, event.Progressive := fun event listed =>
                    progressive event (processBufferData_agrees.extends listed)
                  obtain ⟨advances, step⟩ := nextRecord_step bounded made going noted
                  cases fed : between.needNewData with
                  | true =>
                      have least : 2 ≤ st.recordWork := Nat.le_trans
                        (Nat.mul_le_mul_left 2 (Nat.sub_pos_of_lt some_)) (Nat.le_add_right _ _)
                      cases left with
                      | zero => exact absurd (Nat.le_trans least (Nat.le_of_lt_succ enough)) (by decide)
                      | succ left =>
                          have over_ : ¬ (0 < remaining between.curlen between.offset ∧
                              between.needNewData = false) := by
                            rw [fed]
                            exact fun wants => Bool.false_ne_true wants.2.symm
                          rw [processBufferData_over over_]
                          exact ⟨Option.some_ne_none _, fun _ => ⟨advances, .inl fed⟩⟩
                  | false =>
                      have less : between.recordWork < st.recordWork :=
                        step.resolve_left (by rw [fed]; exact Bool.false_ne_true)
                      have inner' : 3 * between.curlen + 2 < turns := advances.curlen ▸ inner
                      obtain ⟨returns, ended⟩ := ih (advances.bounded bounded) inner'
                        (Nat.lt_of_lt_of_le less (Nat.le_of_lt_succ enough)) progressive
                      refine ⟨returns, fun running => ?_⟩
                      obtain ⟨further, last⟩ := ended running
                      rw [advances.curlen] at last
                      exact ⟨advances.trans further, last⟩
      · rw [processBufferData_over more]
        refine ⟨Option.some_ne_none _, fun _ => ⟨bounded.advances rfl rfl rfl rfl, ?_⟩⟩
        cases fed : st.needNewData with
        | true => exact .inl rfl
        | false =>
            have none : ¬ 0 < remaining st.curlen st.offset := fun some_ => more ⟨some_, fed⟩
            rw [remaining_of_le bounded.within] at none
            have over_ := Nat.le_of_sub_eq_zero (Nat.eq_zero_of_not_pos none)
            exact .inr (Nat.le_antisymm bounded.within over_)

theorem advance_lt {offset size : Nat} (small : offset < uint32Count) (small' : size < uint32Count) :
    advance offset size < uint32Count := by
  rw [advance]
  split
  · assumption
  · omega

/-- What is left for the loop of `StartBinChunkUpdate` in a buffer. -/
def bufferWork (st : BinChunkUpdate World) : Nat :=
  2 * st.curlen + if st.needNewData = true then 0 else 1

/-- What is left for it, with the rest of a chunk. -/
def chunkWork (remainLen : Nat) (st : BinChunkUpdate World) : Nat :=
  remainLen * (2 * uint32Count) + st.bufferWork

theorem bufferWork_lt (small : st.curlen < uint32Count) : st.bufferWork < 2 * uint32Count := by
  rw [bufferWork]
  split
  · omega
  · omega

/-- Some bytes of the chunk are taken. -/
theorem chunkWork_taken {remainLen taken : Nat} (positive : 0 < taken) (most : taken ≤ remainLen)
    (small : next.curlen < uint32Count) :
    chunkWork (remainLen - taken) next < chunkWork remainLen st := by
  have fewer : remainLen - taken + 1 ≤ remainLen := by omega
  have bound := Nat.mul_le_mul_right (2 * uint32Count) fewer
  rw [Nat.add_mul, Nat.one_mul] at bound
  have less := Nat.add_lt_add_left (bufferWork_lt small) ((remainLen - taken) * (2 * uint32Count))
  exact Nat.lt_of_lt_of_le less (Nat.le_trans bound (Nat.le_add_right _ _))

theorem addRemainData_made {data : Memory} {remainLen : Nat}
    (made : st.addRemainData data remainLen = (true, next)) :
    st.maxBufSize ≠ 0 ∧ next.maxBufSize = st.maxBufSize ∧
      next.curlen = advance st.curlen (st.copySize remainLen) ∧ next.offset = 0 := by
  rw [addRemainData] at made
  split at made
  · cases made
  case isFalse allowed =>
    cases made
    refine ⟨fun empty => allowed ?_, rfl, rfl, rfl⟩
    rw [empty, refused]
    rfl

theorem moveRemainingData_made (bounded : st.offset ≤ st.curlen)
    (made : st.moveRemainingData = (true, next)) :
    next.maxBufSize = st.maxBufSize ∧ next.needNewData = st.needNewData ∧
      next.curlen = st.curlen - st.offset := by
  rw [moveRemainingData] at made
  dsimp only at made
  split at made
  · split at made
    · cases made
    · cases made
      exact ⟨rfl, rfl, remaining_of_le bounded⟩
  case isFalse none =>
    rw [remaining_of_le bounded] at none
    split at made
    · cases made
    · cases made
      exact ⟨rfl, rfl, (Nat.eq_zero_of_not_pos none).symm⟩

theorem copySize_le {remainLen : Nat} : st.copySize remainLen ≤ remainLen :=
  Nat.min_le_left _ _

/-- Nothing is taken of a chunk only when the buffer is full. -/
theorem full_of_copySize_zero {remainLen : Nat} (some_ : 0 < remainLen)
    (small : st.curlen < uint32Count) (none : st.copySize remainLen = 0) :
    st.curlen = st.maxBufSize := by
  have room : remaining st.maxBufSize st.curlen = 0 := by
    rw [copySize] at none
    omega
  rw [remaining] at room
  split at room
  · omega
  · omega

/-- The buffer is ready to be processed when bytes were added. -/
theorem addRemainData_ready {remainLen turns : Nat} {data : Memory}
    (short : remainLen < uint32Count) (small : st.curlen < uint32Count)
    (inner : 3 * uint32Count + 2 < turns)
    (added : st.addRemainData data remainLen = (true, next)) :
    Bounded { next with needNewData := false } ∧ 3 * next.curlen + 2 < turns ∧
      recordWork { next with needNewData := false } < turns := by
  obtain ⟨_, _, sameLen, sameOffset⟩ := addRemainData_made added
  have grown : next.curlen < uint32Count := by
    rw [sameLen]
    exact advance_lt small (Nat.lt_of_le_of_lt copySize_le short)
  refine ⟨⟨sameOffset ▸ Nat.zero_le _, grown⟩, by omega, ?_⟩
  rw [recordWork]
  dsimp only
  split
  · omega
  · omega

/-- A turn of the loop over a chunk leaves less to do. -/
theorem turn_work {remainLen turns : Nat} {data : Memory} {ret : UpdateResultCode}
    {filled processed moved : BinChunkUpdate World} (some_ : 0 < remainLen)
    (short : remainLen < uint32Count) (small : st.curlen < uint32Count)
    (open_ : ¬ (st.curlen = st.maxBufSize ∧ st.needNewData = true))
    (added : st.addRemainData data remainLen = (true, filled))
    (inner : 3 * uint32Count + 2 < turns)
    (made : processBufferData services turns turns .success { filled with needNewData := false } =
      (some ret, processed)) (going : ret ≠ .failure)
    (progressive : ∀ event ∈ processed.events, event.Progressive)
    (done_ : processed.moveRemainingData = (true, moved)) :
    moved.curlen < uint32Count ∧
      chunkWork (remainLen - st.copySize remainLen) moved < chunkWork remainLen st := by
  obtain ⟨positive, sameMax, sameLen, sameOffset⟩ := addRemainData_made added
  obtain ⟨bounded, inside, enough⟩ := addRemainData_ready short small inner added
  have grown : filled.curlen < uint32Count := bounded.small
  have returned := @processBufferData_returns World services _ turns turns .success bounded inside
    enough
  rw [made] at returned
  obtain ⟨advances, ended⟩ := (returned progressive).2 fun failed => going (Option.some.inj failed)
  dsimp only at advances ended
  have sameCurlen : processed.curlen = filled.curlen := advances.curlen
  have within : processed.offset ≤ filled.curlen := sameCurlen ▸ advances.within
  obtain ⟨_, sameNeed, left⟩ := moveRemainingData_made advances.within done_
  rw [sameCurlen] at left
  have small' : moved.curlen < uint32Count := by omega
  refine ⟨small', ?_⟩
  rcases Nat.eq_zero_or_pos (st.copySize remainLen) with none | taken
  · have full := full_of_copySize_zero some_ small none
    have sameSize : filled.curlen = st.curlen := by
      rw [sameLen, none]
      exact advance_of_le small (Nat.le_refl _)
    have fed : st.needNewData = false := by
      cases asked : st.needNewData with
      | true => exact (open_ ⟨full, asked⟩).elim
      | false => rfl
    rw [none, Nat.sub_zero]
    refine Nat.add_lt_add_left ?_ _
    rw [bufferWork, bufferWork, fed, left, sameSize, sameNeed, if_neg Bool.false_ne_true]
    rcases Nat.eq_zero_or_pos processed.offset with start | later
    · have asked : processed.needNewData = true := by
        refine ended.resolve_right fun over_ => positive ?_
        rw [← full, ← sameSize]
        exact over_.symm.trans start
      rw [asked, start]
      exact Nat.lt_succ_self _
    · rw [sameSize] at within
      split
      · omega
      · omega
  · exact chunkWork_taken taken copySize_le small'

theorem processChunk_next {turns left remainLen : Nat} {chunk : Chunk} {ret ret' : UpdateResultCode}
    {filled processed moved : BinChunkUpdate World} (some_ : 0 < remainLen)
    (added : (st.emit [.turn st.maxBufSize st.buffer st.curlen st.needNewData]).addRemainData
      (chunk.data.behind (chunk.len - remainLen)) remainLen = (true, filled))
    (made : processBufferData services turns turns .success { filled with needNewData := false } =
      (some ret', processed)) (going : ret' ≠ .failure)
    (done_ : processed.moveRemainingData = (true, moved)) :
    processChunk services turns chunk (left + 1) remainLen ret st =
      processChunk services turns chunk left (remainLen - st.copySize remainLen) ret' moved := by
  rw [processChunk, if_pos some_]
  dsimp only
  rw [added]
  dsimp only
  rw [made]
  cases ret' with
  | success =>
      dsimp only
      rw [done_]
      rfl
  | failure => exact (going rfl).elim
  | complete =>
      dsimp only
      rw [done_]
      rfl

/-- The loop of `StartBinChunkUpdate` returns. -/
theorem processChunk_returns {turns left remainLen : Nat} {chunk : Chunk} {ret : UpdateResultCode}
    (short : remainLen < uint32Count) (small : st.curlen < uint32Count)
    (inner : 3 * uint32Count + 2 < turns) (enough : chunkWork remainLen st < left)
    (progressive : ∀ event ∈ (processChunk services turns chunk left remainLen ret st).2.events,
      event.Progressive) :
    (processChunk services turns chunk left remainLen ret st).1 ≠ none := by
  induction left generalizing st remainLen ret with
  | zero => exact absurd enough (Nat.not_lt_zero _)
  | succ left ih =>
      rcases Nat.eq_zero_or_pos remainLen with none | some_
      · rw [none, processChunk, if_neg (Nat.lt_irrefl 0)]
        exact Option.some_ne_none _
      · cases added : (st.emit [.turn st.maxBufSize st.buffer st.curlen
            st.needNewData]).addRemainData (chunk.data.behind (chunk.len - remainLen)) remainLen with
        | mk ok filled =>
            cases ok with
            | false =>
                rw [processChunk, if_pos some_]
                dsimp only
                rw [added]
                exact Option.some_ne_none _
            | true =>
                have noted : .turn st.maxBufSize st.buffer st.curlen st.needNewData ∈
                    filled.events := (addRemainData_agrees added).extends
                  (List.mem_append_right _ List.mem_cons_self)
                cases made : processBufferData services turns turns .success
                    { filled with needNewData := false } with
                | mk result processed =>
                    have kept := @processBufferData_agrees World services
                      { filled with needNewData := false } turns turns .success
                    rw [made] at kept
                    have begun : (st.emit [.turn st.maxBufSize st.buffer st.curlen
                        st.needNewData]).curlen < uint32Count := small
                    obtain ⟨bounded, inside, ready⟩ := addRemainData_ready short begun inner added
                    have returned := @processBufferData_returns World services _ turns turns .success
                      bounded inside ready
                    rw [made] at returned
                    cases result with
                    | none =>
                        rw [processChunk, if_pos some_] at progressive
                        dsimp only at progressive
                        rw [added] at progressive
                        dsimp only at progressive
                        rw [made] at progressive
                        exact ((returned progressive).1 rfl).elim
                    | some ret' =>
                        by_cases going : ret' = .failure
                        · rw [processChunk, if_pos some_]
                          dsimp only
                          rw [added]
                          dsimp only
                          rw [made, going]
                          exact Option.some_ne_none _
                        · cases done_ : processed.moveRemainingData with
                          | mk ok moved =>
                              have movedKept := @moveRemainingData_agrees World processed
                              rw [done_] at movedKept
                              cases ok with
                              | false =>
                                  rw [processChunk, if_pos some_]
                                  dsimp only
                                  rw [added]
                                  dsimp only
                                  rw [made]
                                  cases ret' with
                                  | success =>
                                      dsimp only
                                      rw [done_]
                                      exact Option.some_ne_none _
                                  | failure => exact (going rfl).elim
                                  | complete =>
                                      dsimp only
                                      rw [done_]
                                      exact Option.some_ne_none _
                              | true =>
                                  rw [processChunk_next some_ added made going done_] at progressive ⊢
                                  have all : ∀ event ∈ processed.events, event.Progressive :=
                                    fun event listed => progressive event
                                      (processChunk_agrees.extends (movedKept.extends listed))
                                  have open_ := all _ (kept.extends noted)
                                  obtain ⟨small', less⟩ := turn_work some_ short begun open_ added inner
                                    made going all done_
                                  exact ih (Nat.lt_of_le_of_lt (Nat.sub_le _ _) short) small'
                                    (Nat.lt_of_lt_of_le less (Nat.le_of_lt_succ enough)) progressive

/-- What processing a buffer leaves alone. -/
structure Frame (st next : BinChunkUpdate World) : Prop where
  maxBufSize : next.maxBufSize = st.maxBufSize
  curlen : next.curlen = st.curlen
  skipLength : next.skipLength = st.skipLength
  firstBuffer : next.firstBuffer = st.firstBuffer

theorem Frame.trans (first : Frame st next) (second : Frame next last) : Frame st last where
  maxBufSize := second.maxBufSize.trans first.maxBufSize
  curlen := second.curlen.trans first.curlen
  skipLength := second.skipLength.trans first.skipLength
  firstBuffer := second.firstBuffer.trans first.firstBuffer

theorem chunkInstallProcess_frame : Frame st (st.chunkInstallProcess services).2 := by
  rw [chunkInstallProcess]
  cases st.updateStep with
  | pre =>
      dsimp only [chunkInstallPreWrite]
      split
      · exact ⟨rfl, rfl, rfl, rfl⟩
      · split
        · exact ⟨rfl, rfl, rfl, rfl⟩
        · exact ⟨rfl, rfl, rfl, rfl⟩
  | do_ =>
      dsimp only [chunkInstallDoWrite]
      split
      · exact ⟨rfl, rfl, rfl, rfl⟩
      · exact ⟨rfl, rfl, rfl, rfl⟩
      · split
        · exact ⟨rfl, rfl, rfl, rfl⟩
        · exact ⟨rfl, rfl, rfl, rfl⟩
  | post => exact ⟨rfl, rfl, rfl, rfl⟩

theorem updateBinData_frame {turns : Nat} : Frame st (updateBinData services turns st).2 := by
  induction turns generalizing st with
  | zero => exact ⟨rfl, rfl, rfl, rfl⟩
  | succ turns ih =>
      rw [updateBinData]
      dsimp only
      split
      · exact chunkInstallProcess_frame
      · exact chunkInstallProcess_frame.trans ih

theorem updateBinHead_frame : Frame st (st.updateBinHead services).2 := by
  rw [updateBinHead]
  dsimp only
  split
  · exact ⟨rfl, rfl, rfl, rfl⟩
  · split
    · exact ⟨rfl, rfl, rfl, rfl⟩
    · exact ⟨rfl, rfl, rfl, rfl⟩

theorem updateBinHash_frame : Frame st (st.updateBinHash services).2 := by
  rw [updateBinHash]
  dsimp only
  split
  · exact ⟨rfl, rfl, rfl, rfl⟩
  · split
    · split
      · exact ⟨rfl, rfl, rfl, rfl⟩
      · exact ⟨rfl, rfl, rfl, rfl⟩
    · exact ⟨rfl, rfl, rfl, rfl⟩

theorem nextRecord_frame {turns : Nat} : Frame st (st.nextRecord services turns).2 := by
  have read : Frame st ((st.emit [.record st.buffer st.curlen st.offset]).traced
      (readLE st.buffer st.curlen 2 st.offset)) := ⟨rfl, rfl, rfl, rfl⟩
  rw [nextRecord, processRecord]
  split
  · exact read.trans updateBinHead_frame
  · split
    · exact read.trans updateBinData_frame
    · split
      · exact read.trans updateBinHash_frame
      · exact read

theorem processBufferData_frame {turns left : Nat} {ret : UpdateResultCode} :
    Frame st (processBufferData services turns left ret st).2 := by
  induction left generalizing st ret with
  | zero => exact ⟨rfl, rfl, rfl, rfl⟩
  | succ left ih =>
      have record := @nextRecord_frame World services st turns
      rw [processBufferData]
      split
      · split
        case _ made =>
          rw [made] at record
          exact record
        case _ made =>
          rw [made] at record
          exact record
        case _ made =>
          rw [made] at record
          exact record.trans ih
      · exact ⟨rfl, rfl, rfl, rfl⟩

theorem remaining_lt {len offset : Nat} (small : len < uint32Count) :
    remaining len offset < uint32Count := by
  rw [remaining]
  split
  · exact Nat.lt_of_le_of_lt (Nat.sub_le _ _) small
  · omega

theorem moveRemainingData_curlen (small : st.curlen < uint32Count) :
    st.moveRemainingData.2.curlen < uint32Count := by
  rw [moveRemainingData]
  dsimp only
  split
  · split
    · exact small
    · exact remaining_lt small
  · split
    · exact small
    · exact Nat.lt_of_le_of_lt (Nat.zero_le _) small

theorem processChunk_curlen {turns left remainLen : Nat} {chunk : Chunk} {ret : UpdateResultCode}
    (short : remainLen < uint32Count) (small : st.curlen < uint32Count) :
    (processChunk services turns chunk left remainLen ret st).2.curlen < uint32Count := by
  induction left generalizing st remainLen ret with
  | zero => exact small
  | succ left ih =>
      rw [processChunk]
      split
      · dsimp only
        split
        case _ failed =>
          rw [addRemainData_failed failed]
          exact small
        case _ filled added =>
          have grown : filled.curlen < uint32Count := by
            rw [(addRemainData_made added).2.2.1]
            exact advance_lt small (Nat.lt_of_le_of_lt copySize_le short)
          have same := (@processBufferData_frame World services
            { filled with needNewData := false } turns turns .success).curlen
          split
          case _ made =>
            rw [made] at same
            exact same ▸ grown
          case _ made =>
            rw [made] at same
            exact same ▸ grown
          case _ ret processed _ made =>
            rw [made] at same
            have moved := moveRemainingData_curlen (same ▸ grown : processed.curlen < uint32Count)
            split
            case _ done_ =>
              rw [done_] at moved
              exact moved
            case _ done_ =>
              rw [done_] at moved
              exact ih (Nat.lt_of_le_of_lt (Nat.sub_le _ _) short) moved
      · exact small

theorem processHeader_curlen {data : Memory} : (st.processHeader data).curlen = st.curlen := by
  rw [processHeader]
  split
  · split
    · rfl
    · rfl
  · rfl

theorem skipTargetData_curlen {chunk : Chunk} (small : st.curlen < uint32Count) :
    (st.skipTargetData chunk).2.curlen < uint32Count := by
  rw [skipTargetData]
  split
  · exact small
  · split
    · dsimp only
      split
      · exact small
      · exact Nat.lt_of_le_of_lt (Nat.sub_le _ _) chunk.short
    · exact small

/-- So many turns suffice for every call. -/
def enoughTurns : Nat :=
  uint32Count * (2 * uint32Count) + 3 * uint32Count + 3

theorem chunkWork_lt {chunk : Chunk} (small : st.curlen < uint32Count) :
    chunkWork chunk.len st < enoughTurns := by
  have bound := Nat.mul_le_mul_right (2 * uint32Count) (Nat.le_of_lt chunk.short)
  have rest := bufferWork_lt small
  rw [chunkWork, enoughTurns]
  generalize chunk.len * (2 * uint32Count) = taken at bound ⊢
  generalize uint32Count * (2 * uint32Count) = most at bound ⊢
  omega

theorem inner_lt : 3 * uint32Count + 2 < enoughTurns := by
  rw [enoughTurns, Nat.add_assoc]
  exact Nat.lt_of_lt_of_le (Nat.lt_succ_self _) (Nat.le_add_left _ _)

/-- A call returns. -/
theorem startBinChunkUpdate_returns {turns : Nat} {chunk : Chunk} (small : st.curlen < uint32Count)
    (enough : enoughTurns ≤ turns)
    (progressive : ∀ event ∈ (st.startBinChunkUpdate services turns chunk).2.events,
      event.Progressive) : (st.startBinChunkUpdate services turns chunk).1 ≠ none := by
  rw [startBinChunkUpdate] at progressive ⊢
  split
  · exact Option.some_ne_none _
  case isFalse some_ =>
    rw [if_neg some_] at progressive
    have started := @skipTargetData_curlen World (st.processHeader chunk.data) chunk
      (by
        rw [processHeader_curlen]
        exact small)
    cases skipped : (st.processHeader chunk.data).skipTargetData chunk with
    | mk dealLen ready =>
        rw [skipped] at started progressive
        cases dealLen with
        | some dealLen => exact Option.some_ne_none _
        | none =>
            dsimp only at progressive ⊢
            have returned := @processChunk_returns World services ready turns turns chunk.len chunk
              .success chunk.short started (Nat.lt_of_lt_of_le inner_lt enough)
              (Nat.lt_of_lt_of_le (chunkWork_lt started) enough)
            cases made : processChunk services turns chunk turns chunk.len .success ready with
            | mk result processed =>
                rw [made] at returned progressive
                cases result with
                | none => exact (returned progressive rfl).elim
                | some ret =>
                    cases ret with
                    | success => exact Option.some_ne_none _
                    | failure => exact Option.some_ne_none _
                    | complete => exact Option.some_ne_none _

theorem startBinChunkUpdate_curlen {turns : Nat} {chunk : Chunk} (small : st.curlen < uint32Count) :
    (st.startBinChunkUpdate services turns chunk).2.curlen < uint32Count := by
  rw [startBinChunkUpdate]
  split
  · exact small
  · have started := @skipTargetData_curlen World (st.processHeader chunk.data) chunk (by
      rw [processHeader_curlen]
      exact small)
    split
    case _ skipped =>
      rw [skipped] at started
      exact started
    case _ ready skipped =>
      rw [skipped] at started
      have processed := @processChunk_curlen World services ready turns turns chunk.len chunk
        .success chunk.short started
      split
      case _ made =>
        rw [made] at processed
        exact processed
      case _ made =>
        rw [made] at processed
        exact processed
      case _ made =>
        rw [made] at processed
        exact processed

/-- All calls with chunks return. -/
def returns (services : Services World) (turns : Nat) :
    List Chunk → BinChunkUpdate World → Bool
  | [], _ => true
  | chunk :: chunks, st =>
      match st.startBinChunkUpdate services turns chunk with
      | (none, _) => false
      | (some _, st) => returns services turns chunks st

theorem feed_returns {turns : Nat} {chunks : List Chunk} (small : st.curlen < uint32Count)
    (enough : enoughTurns ≤ turns)
    (progressive : ∀ event ∈ (feed services turns chunks st).events, event.Progressive) :
    returns services turns chunks st = true := by
  induction chunks generalizing st with
  | nil => rfl
  | cons chunk chunks ih =>
      have returned := @startBinChunkUpdate_returns World services st turns chunk small enough
      have next := @startBinChunkUpdate_curlen World services st turns chunk small
      rw [feed] at progressive
      rw [returns]
      cases made : st.startBinChunkUpdate services turns chunk with
      | mk result called =>
          rw [made] at returned next progressive
          cases result with
          | none => exact (returned progressive rfl).elim
          | some result =>
              have noted : ∀ event ∈ called.events, event.Progressive := fun event listed =>
                progressive event (feed_agrees.extends listed)
              exact ih next progressive

/-- Over every sequence of chunks all calls return, if no turn begins with a buffer that is full of
a record that is not complete, and the header and hash records lead on. -/
theorem calls_return (services : Services World) (chunks : List Chunk) (maxBufSize : UInt32)
    (buffer : Memory) (world : World)
    (progressive : ∀ turns, ∀ event ∈
      (feed services turns chunks (create maxBufSize buffer world)).events, event.Progressive) :
    ∃ turns, returns services turns chunks (create maxBufSize buffer world) = true := by
  have empty : (create maxBufSize buffer world).curlen < uint32Count :=
    (by decide : 0 < uint32Count)
  exact ⟨enoughTurns, feed_returns empty (Nat.le_refl _) (progressive enoughTurns)⟩

/-- A record of a type that is not known. -/
def unknownType : Chunk where
  data := fun address => [0x77, 0].getD address 0
  len := 2
  short := by decide

theorem unknownType_returns :
    ∃ turns, returns smooth turns [unknownType] (create 4 (fun _ => 0) ()) = true := by
  refine calls_return smooth [unknownType] 4 (fun _ => 0) () fun turns event listed => ?_
  cases turns with
  | zero => cases listed
  | succ turns =>
      rcases List.mem_cons.mp listed with rfl | listed
      · exact fun full => Bool.false_ne_true full.2
      · rcases List.mem_cons.mp listed with rfl | listed
        · trivial
        · rcases List.mem_cons.mp listed with rfl | listed
          · exact fun type => absurd type (by decide)
          · cases List.mem_singleton.mp listed
            trivial

section LongRecords

/-- The buffer is full of the beginning of a data record whose name does not fit into it. -/
structure Stuck (st : BinChunkUpdate World) : Prop where
  full : st.curlen = st.maxBufSize
  positive : 0 < st.maxBufSize
  allowed : st.maxBufSize ≤ securecMemMaxLen
  begun : st.updateStep = .pre
  type : leValue (st.buffer.read 0 2) = binUpdateDataTip
  long : st.maxBufSize < fieldEnd st.buffer 2 0

theorem Stuck.small (stuck : st.Stuck) : st.curlen < uint32Count := by
  rw [stuck.full]
  exact Nat.lt_of_le_of_lt stuck.allowed (by decide)

/-- A step before its partition asks for new data. -/
theorem Stuck.updateBinData {turns : Nat} (stuck : st.Stuck) (start : st.offset = 0) :
    updateBinData services (turns + 1) st = (some .success,
      { st.traced (readPartitionData st.buffer st.curlen st.offset) with needNewData := true }) := by
  have cut : (readPartitionData st.buffer st.curlen st.offset).result = none := by
    rw [start, readPartitionData_result stuck.small (Nat.zero_le _), stuck.full]
    exact if_neg (Nat.not_le_of_lt stuck.long)
  have step : st.chunkInstallProcess services = (.success,
      { st.traced (readPartitionData st.buffer st.curlen st.offset) with needNewData := true }) := by
    rw [chunkInstallProcess, stuck.begun]
    dsimp only [chunkInstallPreWrite]
    rw [cut]
  rw [BinChunkUpdate.updateBinData, step]
  exact if_pos (.inl rfl)

theorem Stuck.nextRecord {turns : Nat} (stuck : st.Stuck) (start : st.offset = 0) :
    ∃ next, st.nextRecord services (turns + 1) = (some .success, next) ∧
      next.needNewData = true ∧ next.offset = 0 ∧ next.Stuck := by
  have type : leValue (st.buffer.read st.offset 2) = binUpdateDataTip := start ▸ stuck.type
  have stuck' : ((st.emit [.record st.buffer st.curlen st.offset]).traced
      (readLE st.buffer st.curlen 2 st.offset)).Stuck :=
    ⟨stuck.full, stuck.positive, stuck.allowed, stuck.begun, stuck.type, stuck.long⟩
  have noHead : binUpdateDataTip ≠ binUpdateHeadTip := by decide
  refine ⟨{ ((st.emit [.record st.buffer st.curlen st.offset]).traced
    (readLE st.buffer st.curlen 2 st.offset)).traced
      (readPartitionData st.buffer st.curlen st.offset) with needNewData := true }, ?_, rfl, start,
    stuck.full, stuck.positive, stuck.allowed, stuck.begun, stuck.type, stuck.long⟩
  rw [BinChunkUpdate.nextRecord, processRecord, type, if_neg noHead, if_pos rfl]
  exact stuck'.updateBinData start

theorem Stuck.processBufferData {turns : Nat} (stuck : st.Stuck) (start : st.offset = 0)
    (fed : st.needNewData = false) :
    (processBufferData services turns turns .success st).1 = none ∨
      ∃ next, processBufferData services turns turns .success st = (some .success, next) ∧
        next.offset = 0 ∧ next.Stuck := by
  cases turns with
  | zero => exact .inl rfl
  | succ turns =>
      have more : 0 < remaining st.curlen st.offset ∧ st.needNewData = false := by
        refine ⟨?_, fed⟩
        rw [start, remaining_of_le (Nat.zero_le _), stuck.full]
        exact stuck.positive
      obtain ⟨next, made, asked, again, still⟩ := @Stuck.nextRecord World services st turns stuck start
      rw [processBufferData_next more made (fun failed => nomatch failed)]
      cases turns with
      | zero => exact .inl rfl
      | succ turns =>
          rw [processBufferData_over (fun wants => Bool.false_ne_true (wants.2.symm.trans asked))]
          exact .inr ⟨next, rfl, again, still⟩

theorem Stuck.refused (stuck : st.Stuck) {count : Nat} (fits : count ≤ st.maxBufSize) :
    refused st.maxBufSize count = false := by
  have positive := stuck.positive
  have allowed := stuck.allowed
  simp only [BinChunkUpdate.refused, Bool.or_eq_false_iff, decide_eq_false_iff_not]
  omega

theorem Stuck.moveRemainingData (stuck : st.Stuck) (start : st.offset = 0) :
    ∃ next, st.moveRemainingData = (true, next) ∧ next.Stuck := by
  have rest : remaining st.curlen st.offset = st.curlen := by
    rw [start]
    exact remaining_of_le (Nat.zero_le _)
  have allowed := stuck.refused (Nat.le_refl _)
  have positive := stuck.positive
  rw [← stuck.full] at allowed positive
  rw [BinChunkUpdate.moveRemainingData, rest, start]
  dsimp only
  rw [if_pos positive, if_neg (by rw [allowed]; exact Bool.false_ne_true), st.buffer.write_read]
  exact ⟨_, rfl, stuck.full, stuck.positive, stuck.allowed, stuck.begun, stuck.type, stuck.long⟩

theorem Stuck.copySize (stuck : st.Stuck) (remainLen : Nat) : st.copySize remainLen = 0 := by
  rw [BinChunkUpdate.copySize, stuck.full, remaining_of_le (Nat.le_refl _), Nat.sub_self,
    Nat.min_zero]

theorem Stuck.addRemainData {data : Memory} {remainLen : Nat} (stuck : st.Stuck) :
    ∃ next, st.addRemainData data remainLen = (true, next) ∧ next.offset = 0 ∧ next.Stuck := by
  have nothing := stuck.copySize remainLen
  have allowed := stuck.refused (Nat.zero_le _)
  have same : advance st.curlen 0 = st.curlen := advance_of_le stuck.small (Nat.le_refl _)
  rw [BinChunkUpdate.addRemainData, nothing, if_neg (by rw [allowed]; exact Bool.false_ne_true)]
  dsimp only
  rw [same]
  refine ⟨_, rfl, rfl, stuck.full, stuck.positive, stuck.allowed, stuck.begun, ?_, ?_⟩
  · exact (congrArg (fun buffer => leValue (Memory.read buffer 0 2)) (Memory.write_nil _ _)).trans
      stuck.type
  · exact Nat.lt_of_lt_of_eq stuck.long
      (congrArg (fun buffer => fieldEnd buffer 2 0) (Memory.write_nil _ _)).symm

/-- A turn that fills the buffer with the beginning of such a record leaves it there. -/
theorem stuck_turn {turns left remainLen : Nat} {chunk : Chunk} {ret : UpdateResultCode}
    {filled : BinChunkUpdate World} (some_ : 0 < remainLen)
    (added : (st.emit [.turn st.maxBufSize st.buffer st.curlen st.needNewData]).addRemainData
      (chunk.data.behind (chunk.len - remainLen)) remainLen = (true, filled))
    (start : filled.offset = 0) (still : filled.Stuck) :
    (processChunk services turns chunk (left + 1) remainLen ret st).1 = none ∨
      ∃ moved, moved.Stuck ∧ processChunk services turns chunk (left + 1) remainLen ret st =
        processChunk services turns chunk left (remainLen - st.copySize remainLen) .success
          moved := by
  have ready : Stuck { filled with needNewData := false } :=
    ⟨still.full, still.positive, still.allowed, still.begun, still.type, still.long⟩
  rcases @Stuck.processBufferData World services _ turns ready start rfl with
    none | ⟨processed, made, again, stuck⟩
  · left
    rw [processChunk, if_pos some_]
    dsimp only
    rw [added]
    dsimp only
    cases made : processBufferData services turns turns .success
        { filled with needNewData := false } with
    | mk result processed =>
        rw [made] at none
        rw [show result = Option.none from none]
  · obtain ⟨moved, done_, stuck'⟩ := stuck.moveRemainingData again
    exact .inr ⟨moved, stuck', processChunk_next some_ added made (fun failed => by cases failed) done_⟩

/-- The loop of `StartBinChunkUpdate` takes nothing of the chunk for ever. -/
theorem Stuck.processChunk {turns left remainLen : Nat} {chunk : Chunk} {ret : UpdateResultCode}
    (stuck : st.Stuck) (some_ : 0 < remainLen) :
    (processChunk services turns chunk left remainLen ret st).1 = none := by
  induction left generalizing st ret with
  | zero => rfl
  | succ left ih =>
      have begun : (st.emit [.turn st.maxBufSize st.buffer st.curlen st.needNewData]).Stuck :=
        ⟨stuck.full, stuck.positive, stuck.allowed, stuck.begun, stuck.type, stuck.long⟩
      obtain ⟨filled, added, start, still⟩ := @Stuck.addRemainData World _
        (chunk.data.behind (chunk.len - remainLen)) remainLen begun
      rcases @stuck_turn World services st turns left remainLen chunk ret filled some_ added start
        still with none | ⟨moved, stuck', same⟩
      · exact none
      · rw [same, stuck.copySize, Nat.sub_zero]
        exact ih stuck'

end LongRecords

theorem startBinChunkUpdate_none {turns : Nat} {chunk : Chunk} (some_ : chunk.len ≠ 0)
    (skipped : (st.processHeader chunk.data).skipTargetData chunk = (none, next))
    (spins : (processChunk services turns chunk turns chunk.len .success next).1 = none) :
    (st.startBinChunkUpdate services turns chunk).1 = none := by
  rw [startBinChunkUpdate, if_neg some_, skipped]
  dsimp only
  cases made : processChunk services turns chunk turns chunk.len .success next with
  | mk result processed =>
      rw [made] at spins
      rw [show result = none from spins]

/-- The beginning of a data record, of a partition name of 65535 bytes. -/
def longName : Chunk where
  data := fun address => [0x12, 0, 0xff, 0xff, 0, 0].getD address 0
  len := 6
  short := by decide

/-- A parser behind the header of its first chunk, with a buffer of four bytes. -/
def small : BinChunkUpdate Unit :=
  { create 4 (fun _ => 0) () with firstBuffer := false }

/-- It with the first four bytes of the record. -/
def smallFilled : BinChunkUpdate Unit :=
  ((small.emit [.turn 4 (fun _ => 0) 0 false]).addRemainData (longName.data.behind 0) 6).2

theorem longName_returns (turns : Nat) :
    returns smooth turns [longName] (create 4 (fun _ => 0) ()) = false := by
  have stuck : smallFilled.Stuck :=
    ⟨rfl, by decide +kernel, by decide +kernel, rfl, by decide +kernel, by decide +kernel⟩
  have spins : (processChunk smooth turns longName turns 6 .success small).1 = none := by
    cases turns with
    | zero => rfl
    | succ turns =>
        rcases @stuck_turn Unit smooth small (turns + 1) turns 6 longName .success smallFilled
          (by decide) rfl rfl stuck with none | ⟨moved, stuck', same⟩
        · exact none
        · rw [same]
          exact stuck'.processChunk (by decide)
  have call : (startBinChunkUpdate smooth (create 4 (fun _ => 0) ()) turns longName).1 = none :=
    startBinChunkUpdate_none (by decide) rfl spins
  cases made : startBinChunkUpdate smooth (create 4 (fun _ => 0) ()) turns longName with
  | mk result called =>
      rw [made] at call
      rw [returns, made, show result = none from call]

/-- A parser with a buffer of four bytes never returns from a record that does not fit. -/
theorem longName_spins :
    ¬ ∃ turns, returns smooth turns [longName] (create 4 (fun _ => 0) ()) = true := by
  rintro ⟨turns, returned⟩
  exact Bool.false_ne_true ((longName_returns turns).symm.trans returned)

end BinChunkUpdate

end Updater.StreamUpdate
