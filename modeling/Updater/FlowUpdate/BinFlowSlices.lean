import Updater.FlowUpdate.BinFlowUpdate

/-! However the stream is cut, each component gets the bytes that one run over all of
them would give it; these are its slice unless a component is empty or found by another's
name. -/

set_option autoImplicit false

namespace Updater.FlowUpdate

open Updater.Base Updater.Utils Updater.Package

namespace BinFlowUpdate

variable {st next : BinFlowUpdate} {info : UpgradeEntry} {written : Bytes}

/-- The part of a component that fits is written, and that completes it. -/
theorem binUpdateDoWrite_complete (found : st.info = some info) (opened : st.writer = some written)
    (positive : 0 < info.packedSize - st.imageWriteLen)
    (enough : info.packedSize - st.imageWriteLen ≤ st.buffer.length) :
    st.binUpdateDoWrite = (0, { st with
      writer := some (written ++ st.buffer.take (info.packedSize - st.imageWriteLen))
      buffer := st.buffer.drop (info.packedSize - st.imageWriteLen)
      imageWriteLen := info.packedSize
      updateStep := .stepPost }) := by
  have nonempty : st.buffer.take (info.packedSize - st.imageWriteLen) ≠ [] := by
    apply List.length_pos_iff.mp
    rw [List.length_take, Nat.min_eq_left enough]
    exact positive
  have total : st.imageWriteLen + (info.packedSize - st.imageWriteLen) = info.packedSize := by
    omega
  simp only [binUpdateDoWrite, found, opened, Nat.min_eq_left enough, rawWrite, if_neg nonempty,
    total, if_true]

/-- All of the buffer goes to a component that needs more. -/
theorem binUpdateDoWrite_incomplete (found : st.info = some info) (opened : st.writer = some written)
    (nonempty : st.buffer ≠ []) (short : st.buffer.length < info.packedSize - st.imageWriteLen) :
    st.binUpdateDoWrite = (0, { st with
      writer := some (written ++ st.buffer)
      buffer := []
      imageWriteLen := st.imageWriteLen + st.buffer.length }) := by
  have least := Nat.min_eq_right (Nat.le_of_lt short)
  have unequal : st.imageWriteLen + st.buffer.length ≠ info.packedSize := by omega
  have below : ¬ st.imageWriteLen + st.buffer.length > info.packedSize := by omega
  simp only [binUpdateDoWrite, found, opened, least, rawWrite, List.take_length, if_neg nonempty,
    List.drop_length, if_neg unequal, if_neg below]

theorem binUpdateDoWrite_nothing (found : st.info = some info) (opened : st.writer = some written)
    (nothing : info.packedSize - st.imageWriteLen = 0) : st.binUpdateDoWrite = (-1, st) := by
  simp only [binUpdateDoWrite, found, opened, nothing, Nat.zero_min, List.take_zero, rawWrite,
    if_true]

theorem processData_nil (empty : st.buffer = []) : st.processData = (0, st) := by
  rw [processData, if_pos empty]

theorem processData_step (nonempty : st.buffer ≠ []) (stepped : st.updateBinData = (0, next)) :
    st.processData = next.processData := by
  rw [processData, if_neg nonempty]
  split
  · rename_i again
    rw [stepped] at again
    cases again
    rfl
  · rename_i failed
    exact absurd stepped (failed next)

theorem processData_failed {ret : Int} (nonempty : st.buffer ≠ [])
    (failed : st.updateBinData = (ret, next)) (nonzero : ret ≠ 0) :
    st.processData = (ret, next) := by
  rw [processData, if_neg nonempty]
  split
  · rename_i again
    rw [failed] at again
    cases again
    exact absurd rfl nonzero
  · exact failed

/-- More bytes behind those in the buffer. -/
def appended (st : BinFlowUpdate) (more : Bytes) : BinFlowUpdate :=
  { st with buffer := st.buffer ++ more }

theorem binUpdatePreWrite_appended (st : BinFlowUpdate) (more : Bytes) :
    (st.appended more).binUpdatePreWrite =
      (st.binUpdatePreWrite.1, st.binUpdatePreWrite.2.appended more) := by
  have same : (st.appended more).entries[(st.appended more).procCompIndex]? =
      st.entries[st.procCompIndex]? := rfl
  unfold binUpdatePreWrite
  rw [same]
  cases st.entries[st.procCompIndex]? with
  | none => rfl
  | some component =>
      have lookup : findPkgEntry (st.appended more).entries component.identity =
          findPkgEntry st.entries component.identity := rfl
      dsimp only
      rw [lookup]
      cases findPkgEntry st.entries component.identity with
      | none => rfl
      | some info => rfl

/-- Writing all of the buffer and then more is writing both at once. -/
theorem binUpdateDoWrite_resumed (found : st.info = some info) (opened : st.writer = some written)
    (short : st.buffer.length < info.packedSize - st.imageWriteLen) {more : Bytes}
    (follows : more ≠ []) :
    (st.appended more).binUpdateDoWrite = ({ st with
      writer := some (written ++ st.buffer)
      buffer := more
      imageWriteLen := st.imageWriteLen + st.buffer.length } : BinFlowUpdate).binUpdateDoWrite := by
  let resumed : BinFlowUpdate := { st with
    writer := some (written ++ st.buffer)
    buffer := more
    imageWriteLen := st.imageWriteLen + st.buffer.length }
  have length : (st.appended more).buffer.length = st.buffer.length + more.length :=
    List.length_append
  have room : info.packedSize - st.imageWriteLen =
      st.buffer.length + (info.packedSize - (st.imageWriteLen + st.buffer.length)) := by
    omega
  rcases Nat.lt_or_ge more.length (info.packedSize - (st.imageWriteLen + st.buffer.length)) with
    least | enough
  · have nonempty : (st.appended more).buffer ≠ [] := by
      simp only [appended, ne_eq, List.append_eq_nil_iff, follows, and_false, not_false_eq_true]
    rw [@binUpdateDoWrite_incomplete (st.appended more) info written found opened nonempty
        (by rw [length]; simp only [appended]; omega),
      @binUpdateDoWrite_incomplete resumed info (written ++ st.buffer) found rfl follows least]
    simp only [resumed, appended, List.append_assoc, List.length_append, Nat.add_assoc]
  · rw [@binUpdateDoWrite_complete (st.appended more) info written found opened
        (by simp only [appended]; omega) (by rw [length]; simp only [appended]; omega),
      @binUpdateDoWrite_complete resumed info (written ++ st.buffer) found rfl
        (by simp only [resumed]; omega) enough]
    simp only [resumed, appended]
    rw [room, List.take_length_add_append, List.drop_length_add_append, List.append_assoc]

/-- A step either does not see what is behind the buffer, or writes all of the buffer
and with more there would write on. -/
theorem updateBinData_appended (nonempty : st.buffer ≠ []) (more : Bytes) :
    (st.appended more).updateBinData = (st.updateBinData.1, st.updateBinData.2.appended more) ∨
      st.updateBinData.1 = 0 ∧ st.updateBinData.2.buffer = [] ∧ (more ≠ [] →
        (st.appended more).updateBinData = (st.updateBinData.2.appended more).updateBinData) := by
  have sameStep : (st.appended more).updateStep = st.updateStep := rfl
  unfold updateBinData
  rw [sameStep]
  cases step : st.updateStep with
  | stepPre =>
      left
      exact binUpdatePreWrite_appended st more
  | stepPost =>
      left
      rfl
  | stepDo =>
      dsimp only
      cases found : st.info with
      | none =>
          left
          simp only [binUpdateDoWrite, appended, found]
      | some info =>
          cases opened : st.writer with
          | none =>
              left
              simp only [binUpdateDoWrite, appended, found, opened]
          | some written =>
              rcases Nat.eq_zero_or_pos (info.packedSize - st.imageWriteLen) with nothing | positive
              · left
                rw [binUpdateDoWrite_nothing found opened nothing,
                  @binUpdateDoWrite_nothing (st.appended more) info written found opened nothing]
              · rcases Nat.lt_or_ge st.buffer.length (info.packedSize - st.imageWriteLen) with
                  short | enough
                · right
                  rw [binUpdateDoWrite_incomplete found opened nonempty short]
                  refine ⟨rfl, rfl, ?_⟩
                  intro follows
                  rw [binUpdateDoWrite_resumed found opened short follows]
                  simp only [appended, List.nil_append, step]
                · left
                  rw [binUpdateDoWrite_complete found opened positive enough,
                    @binUpdateDoWrite_complete (st.appended more) info written found opened
                      positive (by simp only [appended, List.length_append]; omega)]
                  simp only [appended, List.take_append_of_le_length enough,
                    List.drop_append_of_le_length enough]

/-- Run lemma: bytes that come later might as well have been there from the start. -/
theorem processData_appended (st : BinFlowUpdate) (more : Bytes) :
    if st.processData.1 = 0 then
      st.processData.2.buffer = [] ∧
        (st.appended more).processData = (st.processData.2.appended more).processData
    else (st.appended more).processData =
      (st.processData.1, st.processData.2.appended more) := by
  generalize measure : st.work = work
  induction work using Nat.strongRecOn generalizing st with
  | ind work ih =>
      by_cases empty : st.buffer = []
      · rw [processData_nil empty]
        exact ⟨empty, rfl⟩
      · have longer : (st.appended more).buffer ≠ [] := by
          simp only [appended, ne_eq, List.append_eq_nil_iff, empty, false_and, not_false_eq_true]
        rcases stepped : st.updateBinData with ⟨ret, next⟩
        have options := updateBinData_appended empty more
        rw [stepped] at options
        dsimp only at options
        by_cases done : ret = 0
        · subst done
          rw [processData_step empty stepped]
          have following := ih next.work (measure ▸ updateBinData_work stepped) next rfl
          rcases options with same | ⟨-, drained, resumed⟩
          · rw [processData_step longer same]
            exact following
          · rw [processData_nil drained]
            refine ⟨drained, ?_⟩
            by_cases nothing : more = []
            · have unchanged (st : BinFlowUpdate) : st.appended [] = st := by
                simp only [appended, List.append_nil]
              rw [nothing, unchanged, unchanged, processData_step empty stepped]
            · have follows : (next.appended more).buffer ≠ [] := by
                simp only [appended, drained, List.nil_append]
                exact nothing
              rw [processData, processData, if_neg longer, if_neg follows, resumed nothing]
        · rw [processData_failed empty stepped done, if_neg done]
          rcases options with same | ⟨zero, -⟩
          · exact processData_failed longer same done
          · exact absurd zero done

/-- The size that is used for a component: that of the entry found by its name. -/
def foundSize (entries : List UpgradeEntry) (component : UpgradeEntry) : Nat :=
  match findPkgEntry entries component.identity with
  | none => 0
  | some info => info.packedSize

/-- What one run over components of these sizes gives to each, and whether it succeeds. -/
def delivered : List Nat → Bytes → Bool × List Bytes
  | [], data => (data = [], [])
  | size :: sizes, data =>
      if data = [] then (true, [])
      else if size = 0 then (false, [[]])
      else if data.length ≤ size then (true, [data])
      else ((delivered sizes (data.drop size)).1,
        data.take size :: (delivered sizes (data.drop size)).2)

theorem findPkgEntry_isSome {entries : List UpgradeEntry} {component : UpgradeEntry}
    (member : component ∈ entries) : ∃ info, findPkgEntry entries component.identity = some info := by
  apply Option.isSome_iff_exists.mp
  rw [findPkgEntry, List.find?_isSome]
  exact ⟨component, member, decide_eq_true rfl⟩

/-- A run from the beginning of a component. -/
theorem processData_delivered (step : st.updateStep = .stepPre) {components : List UpgradeEntry}
    (rest : st.entries.drop st.procCompIndex = components) :
    (st.processData.1 = 0 ↔
        (delivered (components.map (foundSize st.entries)) st.buffer).1 = true) ∧
      st.processData.2.writers =
        st.writers ++ (delivered (components.map (foundSize st.entries)) st.buffer).2 := by
  induction components generalizing st with
  | nil =>
      have ended : st.entries[st.procCompIndex]? = none := by
        rw [← List.head?_drop, rest]
        rfl
      by_cases empty : st.buffer = []
      · rw [processData_nil empty]
        simp only [List.map_nil, delivered, empty, decide_true, List.append_nil, and_self]
      · have failed : st.updateBinData = (-1, st) := by
          simp only [updateBinData, step, binUpdatePreWrite, ended]
        rw [processData_failed empty failed (by decide)]
        simp [delivered, empty]
  | cons component components ih =>
      have current : st.entries[st.procCompIndex]? = some component := by
        rw [← List.head?_drop, rest]
        rfl
      obtain ⟨info, lookup⟩ := findPkgEntry_isSome (List.mem_of_getElem? current)
      have size : foundSize st.entries component = info.packedSize := by
        simp only [foundSize, lookup]
      by_cases empty : st.buffer = []
      · rw [processData_nil empty]
        simp only [List.map_cons, delivered, empty, if_true, List.append_nil, and_self]
      · let opened : BinFlowUpdate := { st with
          imageWriteLen := 0
          released := st.writers
          writer := some []
          info := some info
          updateStep := .stepDo }
        have entered : st.updateBinData = (0, opened) := by
          simp only [updateBinData, step, binUpdatePreWrite, current, lookup, opened]
        have writes : opened.updateBinData = opened.binUpdateDoWrite := rfl
        rw [processData_step empty entered, List.map_cons, delivered, if_neg empty, size]
        rcases Nat.eq_zero_or_pos info.packedSize with nothing | positive
        · rw [if_pos nothing]
          have failed := @binUpdateDoWrite_nothing opened info [] rfl rfl
            (by rw [nothing]; exact Nat.zero_sub _)
          rw [@processData_failed opened _ _ empty (writes.trans failed) (by decide)]
          simp [opened, writers]
        · rw [if_neg (Nat.ne_of_gt positive)]
          rcases Nat.lt_or_ge st.buffer.length info.packedSize with short | enough
          · rw [if_pos (Nat.le_of_lt short)]
            have wrote := @binUpdateDoWrite_incomplete opened info [] rfl rfl empty short
            rw [@processData_step opened _ empty (writes.trans wrote), processData_nil rfl]
            simp [opened, writers]
          · have wrote := @binUpdateDoWrite_complete opened info [] rfl rfl positive enough
            rw [@processData_step opened _ empty (writes.trans wrote)]
            simp only [opened, Nat.sub_zero, List.nil_append]
            rcases Nat.eq_or_lt_of_le enough with exact | beyond
            · rw [if_pos (Nat.le_of_eq exact.symm), processData_nil
                (by rw [exact]; exact List.drop_length)]
              rw [exact, List.take_length]
              simp [writers]
            · rw [if_neg (Nat.not_le.mpr beyond)]
              have remains : st.buffer.drop info.packedSize ≠ [] := by
                apply List.length_pos_iff.mp
                rw [List.length_drop]
                omega
              let closed : BinFlowUpdate := { opened with
                writer := some (st.buffer.take info.packedSize)
                buffer := st.buffer.drop info.packedSize
                imageWriteLen := info.packedSize
                procCompIndex := st.procCompIndex + 1
                updateStep := .stepPre }
              rw [@processData_step _ closed remains rfl]
              have following : closed.entries.drop closed.procCompIndex = components := by
                have later := congrArg List.tail rest
                rw [List.tail_drop] at later
                exact later
              obtain ⟨ret, gets⟩ := @ih closed rfl following
              refine ⟨ret, ?_⟩
              rw [gets]
              simp [closed, opened, writers]

/-- Calls that end like one run: with the same result, and in the same state if they
succeed. -/
structure RunsLike (calls run : Int × BinFlowUpdate) : Prop where
  ret : calls.1 = run.1
  writers : calls.2.writers = run.2.writers
  state : calls.1 = 0 → calls.2 = run.2

/-- What no step changes. -/
structure SamePackage (st st' : BinFlowUpdate) : Prop where
  maxBufSize : st'.maxBufSize = st.maxBufSize
  headInit : st'.headInit = st.headInit
  entries : st'.entries = st.entries

theorem updateBinData_package (st : BinFlowUpdate) : SamePackage st st.updateBinData.2 := by
  unfold updateBinData
  cases st.updateStep with
  | stepPre =>
      dsimp only [binUpdatePreWrite]
      cases st.entries[st.procCompIndex]? with
      | none => exact ⟨rfl, rfl, rfl⟩
      | some component =>
          dsimp only
          cases findPkgEntry st.entries component.identity with
          | none => exact ⟨rfl, rfl, rfl⟩
          | some info => exact ⟨rfl, rfl, rfl⟩
  | stepDo =>
      dsimp only [binUpdateDoWrite]
      split
      · split
        · exact ⟨rfl, rfl, rfl⟩
        · split
          · exact ⟨rfl, rfl, rfl⟩
          · split
            · exact ⟨rfl, rfl, rfl⟩
            · exact ⟨rfl, rfl, rfl⟩
      · exact ⟨rfl, rfl, rfl⟩
  | stepPost => exact ⟨rfl, rfl, rfl⟩

theorem processData_package (st : BinFlowUpdate) : SamePackage st st.processData.2 := by
  generalize measure : st.work = work
  induction work using Nat.strongRecOn generalizing st with
  | ind work ih =>
      by_cases empty : st.buffer = []
      · rw [processData_nil empty]
        exact ⟨rfl, rfl, rfl⟩
      · have first := updateBinData_package st
        rcases stepped : st.updateBinData with ⟨ret, next⟩
        rw [stepped] at first
        by_cases done : ret = 0
        · subst done
          rw [processData_step empty stepped]
          have later := ih next.work (measure ▸ updateBinData_work stepped) next rfl
          exact ⟨later.maxBufSize.trans first.maxBufSize, later.headInit.trans first.headInit,
            later.entries.trans first.entries⟩
        · rw [processData_failed empty stepped done]
          exact first

theorem RunsLike.refl (run : Int × BinFlowUpdate) : RunsLike run run :=
  ⟨rfl, rfl, fun _ => rfl⟩

/-- Going on behind what is like a run is like the run with more behind it. -/
theorem RunsLike.andThen {call : Int × BinFlowUpdate} {more : Bytes}
    (one : RunsLike call st.processData) (continuation : BinFlowUpdate → Int × BinFlowUpdate)
    (others : ∀ next : BinFlowUpdate, SamePackage st next → next.buffer = [] →
      RunsLike (continuation next) (next.appended more).processData) :
    RunsLike (if call.1 = 0 then continuation call.2 else call)
      (st.appended more).processData := by
  have split := processData_appended st more
  by_cases done : call.1 = 0
  · have ran := one.ret.symm.trans done
    rw [if_pos ran] at split
    obtain ⟨drained, later⟩ := split
    rw [if_pos done, one.state done, later]
    exact others _ (processData_package st) drained
  · have ran : st.processData.1 ≠ 0 := by
      rw [← one.ret]
      exact done
    rw [if_neg ran] at split
    rw [if_neg done, split]
    exact ⟨one.ret, one.writers, fun zero => absurd zero done⟩

section

variable {loadPackage : Bytes → Option UpgradeInput.LoadedPackage}

theorem addRemainData_room (empty : st.buffer = []) (positive : 0 < st.maxBufSize)
    (small : st.maxBufSize ≤ securecMemMaxLen) (data : Bytes) :
    st.addRemainData data =
      some ({ st with buffer := data.take st.maxBufSize }, data.drop st.maxBufSize) := by
  have copied : memcpyS [] st.maxBufSize (data.take (min data.length st.maxBufSize)) =
      some (data.take (min data.length st.maxBufSize)) := by
    rw [memcpyS, if_neg, List.drop_nil, List.append_nil]
    rw [List.length_take]
    omega
  have added : st.addRemainData data = some ({ st with
      buffer := data.take (min data.length st.maxBufSize) },
      data.drop (min data.length st.maxBufSize)) := by
    simp only [addRemainData, empty, List.length_nil, Nat.sub_zero, copied, Option.map_some,
      List.nil_append]
    exact if_neg (Nat.not_le.mpr positive)
  rw [added]
  rcases Nat.le_total data.length st.maxBufSize with whole | longer
  · rw [Nat.min_eq_left whole, List.take_length, List.drop_length, List.take_of_length_le whole,
      List.drop_of_length_le whole]
  · rw [Nat.min_eq_right longer]

/-- One turn of the loop of a call. -/
theorem feedBuffer_turn {filled ready : BinFlowUpdate} {remain rest : Bytes} (more : remain ≠ [])
    (added : st.addRemainData remain = some (filled, rest))
    (headed : (if filled.headInit then some filled else filled.updateBinHead loadPackage) =
      some ready) :
    st.feedBuffer loadPackage remain =
      if ready.processData.1 = 0 then ready.processData.2.feedBuffer loadPackage rest
      else ready.processData := by
  rw [feedBuffer, dif_neg more]
  split
  · rename_i none
    rw [added] at none
    cases none
  · rename_i again
    rw [added] at again
    cases again
    rw [headed]
    dsimp only
    rcases ready.processData with ⟨ret, next⟩
    by_cases done : ret = 0
    · subst done
      rfl
    · rw [if_neg done]
      split
      · rename_i again
        exact absurd (congrArg Prod.fst again) done
      · rfl

/-- The loop of one call, from a state that the head was read in. -/
theorem feedBuffer_runsLike (ready : st.headInit = true) (empty : st.buffer = [])
    (positive : 0 < st.maxBufSize) (small : st.maxBufSize ≤ securecMemMaxLen) (remain : Bytes) :
    RunsLike (st.feedBuffer loadPackage remain) (st.appended remain).processData := by
  generalize length : remain.length = count
  induction count using Nat.strongRecOn generalizing st remain with
  | ind count ih =>
      by_cases none : remain = []
      · have unchanged : st.appended remain = st := by
          rw [none]
          simp only [appended, List.append_nil]
        rw [feedBuffer, dif_pos none, unchanged, processData_nil empty]
        exact ⟨rfl, rfl, fun _ => rfl⟩
      · let filled : BinFlowUpdate := { st with buffer := remain.take st.maxBufSize }
        have whole : st.appended remain = filled.appended (remain.drop st.maxBufSize) := by
          simp only [filled, appended, empty, List.nil_append, List.take_append_drop]
        rw [feedBuffer_turn none (addRemainData_room empty positive small remain)
          (if_pos ready), whole]
        refine (RunsLike.refl filled.processData).andThen
          (fun next => next.feedBuffer loadPackage _) ?_
        intro next same drained
        have shorter : (remain.drop st.maxBufSize).length < count := by
          have some := List.length_pos_iff.mpr none
          rw [List.length_drop]
          omega
        exact ih _ shorter (same.headInit.trans ready) drained
          (by rw [same.maxBufSize]; exact positive) (by rw [same.maxBufSize]; exact small) _ rfl

theorem startAll_cons {data : Bytes} (nonempty : data ≠ []) (calls : List Bytes) :
    st.startAll loadPackage (data :: calls) =
      if (st.feedBuffer loadPackage data).1 = 0 then
        (st.feedBuffer loadPackage data).2.startAll loadPackage calls
      else st.feedBuffer loadPackage data := by
  rw [startAll, startBinFlowUpdate, if_neg nonempty]
  rcases st.feedBuffer loadPackage data with ⟨ret, next⟩
  by_cases done : ret = 0
  · subst done
    rfl
  · rw [if_neg done]
    split
    · rename_i again
      exact absurd (congrArg Prod.fst again) done
    · rfl

/-- Calls, none of them empty, from such a state. -/
theorem startAll_runsLike (ready : st.headInit = true) (empty : st.buffer = [])
    (positive : 0 < st.maxBufSize) (small : st.maxBufSize ≤ securecMemMaxLen) {calls : List Bytes}
    (nonempty : [] ∉ calls) :
    RunsLike (st.startAll loadPackage calls) (st.appended calls.flatten).processData := by
  induction calls generalizing st with
  | nil =>
      have unchanged : st.appended [] = st := by
        simp only [appended, List.append_nil]
      rw [List.flatten_nil, unchanged, processData_nil empty]
      exact ⟨rfl, rfl, fun _ => rfl⟩
  | cons data calls ih =>
      obtain ⟨some, others⟩ := List.ne_and_not_mem_of_not_mem_cons nonempty
      have one := @feedBuffer_runsLike st loadPackage ready empty positive small data
      have whole : st.appended (data :: calls).flatten = (st.appended data).appended calls.flatten := by
        simp only [appended, List.flatten_cons, List.append_assoc]
      rw [startAll_cons (Ne.symm some), whole]
      refine one.andThen (fun next => next.startAll loadPackage calls) ?_
      intro next same drained
      exact ih (same.headInit.trans ready) drained (by rw [same.maxBufSize]; exact positive)
        (by rw [same.maxBufSize]; exact small) others

/-- The header is accepted in the first call: it comes with it and fits the buffer. -/
structure HeadAccepted (loadPackage : Bytes → Option UpgradeInput.LoadedPackage)
    (maxBufSize : Nat) (first : Bytes) (loaded : UpgradeInput.LoadedPackage) : Prop where
  addressable : (create maxBufSize).maxBufSize ≤ securecMemMaxLen
  loads : loadPackage (first.take (create maxBufSize).maxBufSize) = some loaded
  some : loaded.updateFileHeadLen ≠ 0
  inside : loaded.updateFileHeadLen ≤ (first.take (create maxBufSize).maxBufSize).length

/-- Behind the header, nothing installed yet. -/
def opened (maxBufSize : Nat) (loaded : UpgradeInput.LoadedPackage) : BinFlowUpdate :=
  { create maxBufSize with headInit := true, entries := loaded.st.entries }

variable {maxBufSize : Nat} {first : Bytes} {loaded : UpgradeInput.LoadedPackage}

theorem HeadAccepted.runsLike (head : HeadAccepted loadPackage maxBufSize first loaded)
    {calls : List Bytes} (nonempty : [] ∉ calls) :
    RunsLike ((create maxBufSize).startAll loadPackage (first :: calls))
      ((opened maxBufSize loaded).appended
        (first.drop loaded.updateFileHeadLen ++ calls.flatten)).processData := by
  obtain ⟨addressable, loads, some, inside⟩ := head
  have positive : 0 < (create maxBufSize).maxBufSize := by
    simp only [create]
    split
    · decide
    · omega
  have short := List.length_take_le (create maxBufSize).maxBufSize first
  have all := List.length_take_le' (create maxBufSize).maxBufSize first
  have more : first ≠ [] := by
    intro empty
    rw [empty, List.take_nil, List.length_nil] at inside
    omega
  let ready := (opened maxBufSize loaded).appended
    ((first.take (create maxBufSize).maxBufSize).drop loaded.updateFileHeadLen)
  have added := @addRemainData_room (create maxBufSize) rfl positive addressable first
  have headed : updateBinHead loadPackage
      { create maxBufSize with buffer := first.take (create maxBufSize).maxBufSize } =
        Option.some ready := by
    simp only [updateBinHead, loads]
    rw [if_neg (not_or.mpr ⟨some, Nat.not_lt.mpr inside⟩)]
    rfl
  have whole : (opened maxBufSize loaded).appended
      (first.drop loaded.updateFileHeadLen ++ calls.flatten) =
        (ready.appended (first.drop (create maxBufSize).maxBufSize)).appended calls.flatten := by
    have joined : (first.take (create maxBufSize).maxBufSize).drop loaded.updateFileHeadLen ++
        first.drop (create maxBufSize).maxBufSize = first.drop loaded.updateFileHeadLen := by
      rw [← List.drop_append_of_le_length inside, List.take_append_drop]
    simp only [ready, appended, opened, create, List.nil_append, ← joined]
  rw [startAll_cons more, feedBuffer_turn more added headed, whole]
  refine RunsLike.andThen ?_ (fun next => next.startAll loadPackage calls) ?_
  · refine (RunsLike.refl ready.processData).andThen
      (fun next => next.feedBuffer loadPackage _) ?_
    intro next same drained
    exact feedBuffer_runsLike same.headInit drained (by rw [same.maxBufSize]; exact positive)
      (by rw [same.maxBufSize]; exact addressable) _
  · intro next same drained
    exact startAll_runsLike same.headInit drained (by rw [same.maxBufSize]; exact positive)
      (by rw [same.maxBufSize]; exact addressable) nonempty

end

/-- Calls take all data up to the end of the last component, fail on more, and give each
component its slice. -/
structure SlicesDelivered (sizes : List Nat) (data : Bytes) (run : Int × BinFlowUpdate) : Prop where
  accepted : run.1 = 0 ↔ data.length ≤ sizes.sum
  slices : ∀ index, run.2.writers.getD index [] = (pieces data sizes).getD index []

/-- Components with their own size and the one found by name: unless the data ends before
it makes a difference, these agree, and no component is empty with a nonempty one behind. -/
def SlicesFit : List (Nat × Nat) → Nat → Prop
  | [], _ => True
  | (own, found) :: rest, left =>
      left ≤ min own found ∨ own = found ∧
        if own = 0 then (rest.map Prod.fst).sum = 0 else SlicesFit rest (left - own)

theorem getD_cons_iff {first first' : Bytes} {rest rest' : List Bytes} :
    (∀ index, (first :: rest).getD index [] = (first' :: rest').getD index []) ↔
      first = first' ∧ ∀ index, rest.getD index [] = rest'.getD index [] := by
  constructor
  · intro same
    exact ⟨same 0, fun index => same (index + 1)⟩
  · rintro ⟨same, others⟩ index
    cases index with
    | zero => exact same
    | succ index => exact others index

theorem pieces_nothing (sizes : List Nat) (index : Nat) : (pieces [] sizes).getD index [] = [] := by
  induction sizes generalizing index with
  | nil => rfl
  | cons size sizes ih =>
      rw [pieces, List.take_nil, List.drop_nil]
      cases index with
      | zero => rfl
      | succ index => exact ih index

theorem pieces_empty_iff {data : Bytes} (nonempty : data ≠ []) {sizes : List Nat} :
    (∀ index, ([] : List Bytes).getD index [] = (pieces data sizes).getD index []) ↔
      sizes.sum = 0 := by
  induction sizes with
  | nil => exact ⟨fun _ => rfl, fun _ _ => rfl⟩
  | cons size sizes ih =>
      have one : (∀ index, ([] : List Bytes).getD index [] =
          (pieces data (size :: sizes)).getD index []) ↔
            ∀ index, ([[]] : List Bytes).getD index [] =
              (pieces data (size :: sizes)).getD index [] := by
        apply forall_congr'
        intro index
        cases index with
        | zero => exact Iff.rfl
        | succ index => exact Iff.rfl
      rw [one, pieces, getD_cons_iff, List.sum_cons, Nat.add_eq_zero_iff]
      constructor
      · rintro ⟨first, others⟩
        have zero : size = 0 := by
          rcases List.take_eq_nil_iff.mp first.symm with zero | none
          · exact zero
          · exact absurd none nonempty
        rw [zero, List.drop_zero] at others
        exact ⟨zero, ih.mp others⟩
      · rintro ⟨rfl, zero⟩
        exact ⟨rfl, ih.mpr zero⟩

/-- One run gives each component its slice just when the components fit. -/
theorem delivered_iff (components : List (Nat × Nat)) (data : Bytes) :
    (((delivered (components.map Prod.snd) data).1 = true ↔
        data.length ≤ (components.map Prod.fst).sum) ∧
      ∀ index, (delivered (components.map Prod.snd) data).2.getD index [] =
        (pieces data (components.map Prod.fst)).getD index []) ↔
      SlicesFit components data.length := by
  induction components generalizing data with
  | nil => simp [delivered, SlicesFit, pieces]
  | cons component components ih =>
      obtain ⟨own, found⟩ := component
      rw [SlicesFit, List.map_cons, List.map_cons, delivered, List.sum_cons]
      by_cases empty : data = []
      · rw [if_pos empty, empty]
        refine ⟨fun _ => .inl (Nat.zero_le _), fun _ => ⟨?_, ?_⟩⟩
        · exact ⟨fun _ => Nat.zero_le _, fun _ => rfl⟩
        · intro index
          rw [pieces_nothing]
          rfl
      · have some := List.length_pos_iff.mpr empty
        rw [if_neg empty]
        by_cases zero : found = 0
        · rw [if_pos zero, pieces, getD_cons_iff]
          constructor
          · rintro ⟨-, first, others⟩
            have none : own = 0 := by
              rcases List.take_eq_nil_iff.mp first.symm with none | nothing
              · exact none
              · exact absurd nothing empty
            rw [none, List.drop_zero] at others
            right
            refine ⟨none.trans zero.symm, ?_⟩
            rw [if_pos none]
            exact (pieces_empty_iff empty).mp others
          · rintro (least | ⟨same, rest⟩)
            · omega
            · have none := same.trans zero
              rw [if_pos none] at rest
              rw [none, rest, List.drop_zero]
              refine ⟨⟨fun impossible => absurd impossible (by decide), fun short => ?_⟩, rfl,
                (pieces_empty_iff empty).mpr rest⟩
              omega
        · rw [if_neg zero]
          by_cases last : data.length ≤ found
          · rw [if_pos last, pieces, getD_cons_iff]
            constructor
            · rintro ⟨-, first, -⟩
              have short := congrArg List.length first
              rw [List.length_take] at short
              left
              omega
            · intro fit
              have short : data.length ≤ own := by
                rcases fit with least | ⟨same, -⟩
                · omega
                · omega
              rw [List.take_of_length_le short, List.drop_of_length_le short]
              refine ⟨⟨fun _ => by omega, fun _ => rfl⟩, rfl, ?_⟩
              intro index
              rw [pieces_nothing]
              rfl
          · rw [if_neg last, pieces, getD_cons_iff]
            have following := ih (data.drop found)
            rw [List.length_drop] at following
            constructor
            · rintro ⟨accepted, first, others⟩
              have same : own = found := by
                have lengths := congrArg List.length first
                rw [List.length_take, List.length_take] at lengths
                omega
              right
              refine ⟨same, ?_⟩
              rw [if_neg (by omega), same]
              rw [same] at accepted others
              refine following.mp ⟨accepted.trans ?_, others⟩
              omega
            · rintro (least | ⟨same, rest⟩)
              · omega
              · rw [if_neg (by omega), same] at rest
                obtain ⟨accepted, others⟩ := following.mpr rest
                rw [same]
                refine ⟨accepted.trans ?_, rfl, others⟩
                omega

theorem SlicesFit.shorter {components : List (Nat × Nat)} {left less : Nat}
    (fit : SlicesFit components left) (least : less ≤ left) : SlicesFit components less := by
  induction components generalizing left less with
  | nil => trivial
  | cons component components ih =>
      obtain ⟨own, found⟩ := component
      rcases fit with short | ⟨same, rest⟩
      · left
        omega
      · right
        refine ⟨same, ?_⟩
        split
        · rename_i none
          rw [if_pos none] at rest
          exact rest
        · rename_i some
          rw [if_neg some] at rest
          exact ih rest (by omega)

/-- Behind the last component nothing more is asked. -/
theorem SlicesFit.longer {components : List (Nat × Nat)} {left more : Nat}
    (fit : SlicesFit components left) (beyond : (components.map Prod.fst).sum < left) :
    SlicesFit components more := by
  induction components generalizing left more with
  | nil => trivial
  | cons component components ih =>
      obtain ⟨own, found⟩ := component
      rw [List.map_cons, List.sum_cons] at beyond
      rcases fit with short | ⟨same, rest⟩
      · dsimp only at beyond
        omega
      · right
        refine ⟨same, ?_⟩
        dsimp only at beyond
        split
        · rename_i none
          rw [if_pos none] at rest
          exact rest
        · rename_i some
          rw [if_neg some] at rest
          exact ih rest (by omega)

theorem pieces_append {data : Bytes} {sizes : List Nat} (enough : sizes.sum ≤ data.length)
    (more : Bytes) : pieces (data ++ more) sizes = pieces data sizes := by
  induction sizes generalizing data with
  | nil => rfl
  | cons size sizes ih =>
      rw [List.sum_cons] at enough
      have first : size ≤ data.length := by omega
      rw [pieces, pieces, List.take_append_of_le_length first, List.drop_append_of_le_length first,
        ih (by rw [List.length_drop]; omega)]

section

variable {loadPackage : Bytes → Option UpgradeInput.LoadedPackage} {maxBufSize : Nat}
  {first : Bytes} {loaded : UpgradeInput.LoadedPackage}

/-- The components' own sizes, each with the one found by its name. -/
def componentSlices (loaded : UpgradeInput.LoadedPackage) : List (Nat × Nat) :=
  loaded.st.entries.map fun entry => (entry.packedSize, foundSize loaded.st.entries entry)

/-- The data behind the header. -/
def received (loaded : UpgradeInput.LoadedPackage) (first : Bytes) (calls : List Bytes) : Bytes :=
  first.drop loaded.updateFileHeadLen ++ calls.flatten

theorem received_append (before after : List Bytes) :
    received loaded first (before ++ after) = received loaded first before ++ after.flatten := by
  rw [received, received, List.flatten_append, List.append_assoc]

theorem startAll_append (st : BinFlowUpdate) (before after : List Bytes) :
    st.startAll loadPackage (before ++ after) =
      if (st.startAll loadPackage before).1 = 0 then
        (st.startAll loadPackage before).2.startAll loadPackage after
      else st.startAll loadPackage before := by
  induction before generalizing st with
  | nil => rfl
  | cons data before ih =>
      rw [List.cons_append, startAll, startAll]
      split
      · exact ih _
      · rename_i failed
        rcases called : st.startBinFlowUpdate loadPackage data with ⟨ret, next⟩
        rw [if_neg]
        intro zero
        exact failed next (called.trans (Prod.ext zero rfl))

/-- Calls that are not empty, however the data is cut. -/
theorem startAll_slices (head : HeadAccepted loadPackage maxBufSize first loaded)
    {calls : List Bytes} (nonempty : [] ∉ calls) :
    SlicesDelivered ((componentSlices loaded).map Prod.fst) (received loaded first calls)
        ((create maxBufSize).startAll loadPackage (first :: calls)) ↔
      SlicesFit (componentSlices loaded) (received loaded first calls).length := by
  obtain ⟨ret, writers, -⟩ := head.runsLike nonempty
  obtain ⟨succeeds, gets⟩ := @processData_delivered
    ((opened maxBufSize loaded).appended (received loaded first calls)) rfl loaded.st.entries rfl
  have sizes : loaded.st.entries.map (foundSize loaded.st.entries) =
      (componentSlices loaded).map Prod.snd := by
    simp only [componentSlices, List.map_map]
    rfl
  have buffer : ((opened maxBufSize loaded).appended (received loaded first calls)).buffer =
      received loaded first calls := rfl
  have entries : ((opened maxBufSize loaded).appended (received loaded first calls)).entries =
      loaded.st.entries := rfl
  have none : ((opened maxBufSize loaded).appended (received loaded first calls)).writers = [] := rfl
  rw [entries, buffer, sizes] at succeeds gets
  rw [none, List.nil_append] at gets
  rw [← delivered_iff]
  change _ = (((opened maxBufSize loaded).appended (received loaded first calls)).processData).1
    at ret
  change _ = (((opened maxBufSize loaded).appended (received loaded first calls)).processData).2.writers
    at writers
  rw [gets] at writers
  constructor
  · rintro ⟨accepted, slices⟩
    rw [ret, succeeds] at accepted
    rw [writers] at slices
    exact ⟨accepted, slices⟩
  · rintro ⟨accepted, slices⟩
    rw [← succeeds, ← ret] at accepted
    rw [← writers] at slices
    exact ⟨accepted, slices⟩

/-- However the stream is cut, after every call: the slices are delivered just when no
call is empty before the end and the components fit. -/
theorem startAll_slices_iff (head : HeadAccepted loadPackage maxBufSize first loaded)
    (calls : List Bytes) :
    (∀ count, SlicesDelivered (loaded.st.entries.map UpgradeEntry.packedSize)
        (received loaded first (calls.take count))
        ((create maxBufSize).startAll loadPackage (first :: calls.take count))) ↔
      (∀ count, calls[count]? = some [] → (loaded.st.entries.map UpgradeEntry.packedSize).sum <
        (received loaded first (calls.take count)).length) ∧
      SlicesFit (componentSlices loaded) (received loaded first calls).length := by
  have sizes : loaded.st.entries.map UpgradeEntry.packedSize =
      (componentSlices loaded).map Prod.fst := by
    simp only [componentSlices, List.map_map]
    rfl
  rw [sizes]
  constructor
  · intro always
    have noEmpty (count : Nat) (empty : calls[count]? = some []) :
        ((componentSlices loaded).map Prod.fst).sum <
          (received loaded first (calls.take count)).length := by
      have later := (always (count + 1)).accepted
      have one : calls.take (count + 1) = calls.take count ++ [[]] := by
        rw [List.take_add_one, empty]
        rfl
      rw [one, ← List.cons_append, startAll_append, received_append, List.flatten_singleton,
        List.append_nil] at later
      by_contra short
      have zero := later.mpr (Nat.not_lt.mp short)
      split at zero
      · cases zero
      · rename_i failed
        exact failed zero
    refine ⟨noEmpty, ?_⟩
    by_cases member : [] ∈ calls
    · obtain ⟨before, after, split, nonempty⟩ := List.eq_append_cons_of_mem member
      have taken : calls.take before.length = before := by
        rw [split, List.take_left]
      have empty : calls[before.length]? = some [] := by
        rw [split, List.getElem?_append_right (Nat.le_refl _), Nat.sub_self]
        rfl
      have beyond := noEmpty _ empty
      have fit := always before.length
      rw [taken] at beyond fit
      exact ((startAll_slices head nonempty).mp fit).longer beyond
    · have fit := always calls.length
      rw [List.take_length] at fit
      exact (startAll_slices head member).mp fit
  · rintro ⟨noEmpty, fit⟩ count
    have prefixFit {before : List Bytes} {after : List Bytes} (split : calls = before ++ after) :
        SlicesFit (componentSlices loaded) (received loaded first before).length := by
      apply fit.shorter
      rw [split, received_append, List.length_append]
      exact Nat.le_add_right _ _
    by_cases member : [] ∈ calls.take count
    · obtain ⟨before, after, split, nonempty⟩ := List.eq_append_cons_of_mem member
      have whole : calls = before ++ [] :: (after ++ calls.drop count) := by
        rw [← List.cons_append, ← List.append_assoc, ← split, List.take_append_drop]
      have taken : calls.take before.length = before := by
        rw [whole, List.take_left]
      have empty : calls[before.length]? = some [] := by
        rw [whole, List.getElem?_append_right (Nat.le_refl _), Nat.sub_self]
        rfl
      have beyond := noEmpty _ empty
      rw [taken] at beyond
      obtain ⟨accepted, slices⟩ := (startAll_slices head nonempty).mpr (prefixFit whole)
      have failed : ¬ ((create maxBufSize).startAll loadPackage (first :: before)).1 = 0 := by
        rw [accepted]
        exact Nat.not_le.mpr beyond
      rw [split, ← List.cons_append, startAll_append, if_neg failed, received_append]
      constructor
      · rw [accepted, List.length_append]
        constructor
        · intro short
          omega
        · intro short
          omega
      · rw [pieces_append (Nat.le_of_lt beyond)]
        exact slices
    · exact (startAll_slices head member).mpr (prefixFit (List.take_append_drop count calls).symm)

end

/-- A package of version 2 with two components, named `a` and `b`, up to their data. -/
def twoComponents (first second : Nat) : Bytes :=
  [1, 0, 136, 0, 0, 0, 0, 0, 2, 0] ++ List.replicate 130 0 ++ [2, 0, 32, 0] ++
    List.replicate 32 0 ++ [5, 0, 174, 0] ++
    [97] ++ List.replicate 46 0 ++ leBytes 8 first ++ List.replicate 32 0 ++
    [98] ++ List.replicate 46 0 ++ leBytes 8 second ++ List.replicate 32 0 ++
    List.replicate 16 0 ++ [8, 0, 0, 1, 0, 0] ++ List.replicate 256 1

/-- `LoadPackage` on a buffer, with verifiers that accept. -/
def loadBuffer (buffer : Bytes) : Option UpgradeInput.LoadedPackage :=
  ({ file := buffer, heap := fun _ => 0, checksImgHash := false, parsesImgHash := fun _ _ => true } :
    UpgradeInput).loadPackage (fun _ _ => true) fun _ _ => true

theorem twoComponents_accepted {first second : Nat} {data : Bytes}
    (found : (loadBuffer (twoComponents first second ++ data)).map (fun loaded =>
      (loaded.updateFileHeadLen, loaded.st.entries.map UpgradeEntry.packedSize,
        componentSlices loaded)) = some (632, [first, second], [(first, first), (second, second)]))
    (fits : (twoComponents first second ++ data).length ≤ binFlowDefaultSize) :
    ∃ loaded, HeadAccepted loadBuffer 0 (twoComponents first second ++ data) loaded ∧
      loaded.updateFileHeadLen = 632 ∧
      loaded.st.entries.map UpgradeEntry.packedSize = [first, second] ∧
      componentSlices loaded = [(first, first), (second, second)] := by
  obtain ⟨loaded, loads, values⟩ := Option.map_eq_some_iff.mp found
  simp only [Prod.mk.injEq] at values
  obtain ⟨headLen, sizes, slices⟩ := values
  have whole : (twoComponents first second ++ data).take (create 0).maxBufSize =
      twoComponents first second ++ data := List.take_of_length_le fits
  have long : 632 ≤ (twoComponents first second ++ data).length := by
    rw [List.length_append]
    simp only [twoComponents, List.length_append, List.length_replicate, List.length_cons,
      List.length_nil, length_leBytes]
    omega
  refine ⟨loaded, ⟨?_, ?_, ?_, ?_⟩, headLen, sizes, slices⟩
  · decide
  · rw [whole]
    exact loads
  · rw [headLen]
    decide
  · rw [whole, headLen]
    exact long

theorem startAll_slices_two :
    ∃ loaded, HeadAccepted loadBuffer 0 (twoComponents 300 2 ++ List.replicate 295 7) loaded ∧
      SlicesDelivered [300, 2] (List.replicate 295 7 ++ [7, 7, 7, 7, 7, 8, 9])
        ((create 0).startAll loadBuffer
          [twoComponents 300 2 ++ List.replicate 295 7, [7, 7], [7, 7, 7, 8], [9]]) := by
  obtain ⟨loaded, head, headLen, sizes, slices⟩ :=
    @twoComponents_accepted 300 2 (List.replicate 295 7) (by decide +kernel) (by decide +kernel)
  have delivered := (startAll_slices_iff head [[7, 7], [7, 7, 7, 8], [9]]).mpr (by
    constructor
    · intro count empty
      have member := List.mem_of_getElem? empty
      simp at member
    · rw [slices]
      right
      refine ⟨rfl, ?_⟩
      rw [if_neg (by decide)]
      left
      simp only [received, headLen]
      decide +kernel)
  have last := delivered 3
  rw [sizes] at last
  have data : received loaded (twoComponents 300 2 ++ List.replicate 295 7)
      (List.take 3 [[7, 7], [7, 7, 7, 8], [9]]) =
        List.replicate 295 7 ++ [7, 7, 7, 7, 7, 8, 9] := by
    simp only [received, headLen]
    decide +kernel
  rw [data] at last
  exact ⟨loaded, head, last⟩

/-- An empty component in front of another is taken as a failed write. -/
theorem emptyComponent_fails :
    ¬ ∀ (loadPackage : Bytes → Option UpgradeInput.LoadedPackage) (maxBufSize : Nat)
      (first : Bytes) (loaded : UpgradeInput.LoadedPackage) (calls : List Bytes),
      HeadAccepted loadPackage maxBufSize first loaded → [] ∉ calls →
        SlicesDelivered (loaded.st.entries.map UpgradeEntry.packedSize)
          (received loaded first calls)
          ((create maxBufSize).startAll loadPackage (first :: calls)) := by
  intro always
  obtain ⟨loaded, head, headLen, sizes, -⟩ :=
    @twoComponents_accepted 0 300 (List.replicate 300 7) (by decide +kernel) (by decide +kernel)
  have accepted := (always _ _ _ _ [] head List.not_mem_nil).accepted
  rw [sizes, received, headLen] at accepted
  have failed : ((create 0).startAll loadBuffer
      [twoComponents 0 300 ++ List.replicate 300 7]).1 = -1 := by
    decide +kernel
  rw [failed] at accepted
  have zero := accepted.mpr (by decide +kernel)
  cases zero

end BinFlowUpdate

end Updater.FlowUpdate
