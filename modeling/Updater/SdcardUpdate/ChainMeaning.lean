import Updater.SdcardUpdate.UpdateChain
import Mathlib.Data.List.Forall2

/-! However a chain is built, it tries its groups in order. -/

set_option autoImplicit false

namespace Updater.SdcardUpdate

open Updater.Base

variable {σ : Type}

section Handle

variable {steps : List (UpdateStep σ)} {groups : List UpdateGroup}

theorem runActions_singleton (action : Action σ) (upParams : σ) :
    runActions [action] upParams = action upParams := by
  rw [runActions]
  split
  · rename_i ran
    rw [ran, runActions]
  · rfl

/-- Linked steps are executed in their order. -/
theorem UpdateStep.handle_linked {pointers : List Nat} {actions : List (Action σ)}
    (linked : Linked steps pointers actions) {fuel pointer : Nat} (first : pointers.head? = some pointer)
    (enough : actions.length ≤ fuel) (upParams : σ) :
    UpdateStep.handle steps fuel pointer upParams = some (runActions actions upParams) := by
  induction linked generalizing fuel pointer upParams with
  | nil => exact absurd first (by simp)
  | @cons own later action actions found rest ih =>
      obtain rfl : own = pointer := Option.some.inj first
      cases fuel with
      | zero => exact absurd enough (by simp)
      | succ fuel =>
          rw [UpdateStep.handle, found]
          cases rest with
          | nil =>
              rw [runActions_singleton]
              dsimp only [List.head?_nil]
              split
              · rename_i _ last
                exact absurd last (by simp)
              · rename_i ran _
                rw [ran]
          | @cons second later next actions secondFound rest =>
              have behind := fun upParams => ih rfl (Nat.le_of_succ_le_succ enough) upParams
              rw [runActions]
              dsimp only [List.head?_cons]
              cases ran : action upParams with
              | mk after status =>
                  cases status <;> first | exact behind after | rfl

/-- Linked groups are tried in their order. -/
theorem UpdateGroup.handle_linked {pointers : List Nat} {stepPointers : List (List Nat)}
    {plans : List (List (Action σ))} (linked : Linked groups pointers stepPointers)
    (contents : List.Forall₂ (Linked steps) stepPointers plans) (filled : [] ∉ plans)
    {fuel pointer : Nat} (first : pointers.head? = some pointer)
    (enough : ∀ plan ∈ plans, plans.length + plan.length ≤ fuel) (upParams : σ) :
    UpdateGroup.handle steps groups fuel pointer upParams = some (runGroups plans upParams) := by
  induction linked generalizing plans fuel pointer upParams with
  | nil => exact absurd first (by simp)
  | @cons own later ids stepPointers found rest ih =>
      obtain rfl : own = pointer := Option.some.inj first
      cases contents with
      | @cons _ plan _ plans stepsLinked contents =>
          obtain ⟨some_, laterFilled⟩ := not_or.mp (mt List.mem_cons.mpr filled)
          have room := enough plan List.mem_cons_self
          cases fuel with
          | zero => exact absurd room (by simp)
          | succ fuel =>
              have behind : ∀ next, later.head? = some next → ∀ upParams,
                  UpdateGroup.handle steps groups fuel next upParams =
                    some (runGroups plans upParams) := fun next second upParams =>
                ih contents laterFilled second (fun other member => by
                  have := enough other (List.mem_cons_of_mem _ member)
                  rw [List.length_cons] at this
                  omega) upParams
              rw [UpdateGroup.handle, found]
              cases stepsLinked with
              | nil => exact absurd rfl some_
              | @cons front ids action actions frontFound restLinked =>
                  have short : (action :: actions).length ≤ fuel := by
                    rw [List.length_cons] at room
                    omega
                  have ran := UpdateStep.handle_linked (.cons frontFound restLinked) rfl short upParams
                  dsimp only
                  rw [ran, runGroups]
                  cases runActions (action :: actions) upParams with
                  | mk after status =>
                      cases second : later.head? with
                      | some next => cases status <;> first | exact behind next second after | rfl
                      | none =>
                          obtain rfl := List.head?_eq_none_iff.mp second
                          cases rest
                          cases contents
                          cases status <;> rfl

end Handle

section Builder

/-- The groups that are closed, and the steps of the group that is not. -/
structure Parts (builder : UpdateChainBuilder σ) (plan : Plan σ) (stepPointers : List (List Nat))
    (bound : Nat) : Prop where
  chained : Linked builder.groups (List.range plan.groups.length) stepPointers
  older : List.Forall₂ (Linked builder.steps) stepPointers plan.groups
  below : ∀ pointers ∈ stepPointers, ∀ pointer ∈ pointers, pointer < bound
  newest : Linked builder.steps (List.range' bound plan.current.length) plan.current
  stepCount : builder.steps.length = bound + plan.current.length
  head : builder.head = (List.range plan.groups.length).head?
  tail : builder.tail = (List.range plan.groups.length).getLast?
  filled : [] ∉ plan.groups

/-- A group is open. -/
structure Opened (builder : UpdateChainBuilder σ) (plan : Plan σ) (stepPointers : List (List Nat))
    (bound : Nat) : Prop extends Parts builder plan stepPointers bound where
  currentGroup : builder.currentGroup = some plan.groups.length
  groupCount : builder.groups.length = plan.groups.length + 1
  currentSteps :
    builder.groups[plan.groups.length]? = some ⟨List.range' bound plan.current.length, none⟩

/-- The chain in memory is the one of the plan. -/
inductive Represents (builder : UpdateChainBuilder σ) (plan : Plan σ) : Prop where
  | closed {stepPointers : List (List Nat)} {bound : Nat}
      (parts : Parts builder plan stepPointers bound) (none_ : builder.currentGroup = none)
      (empty : plan.current = []) (count : builder.groups.length = plan.groups.length)
  | opened {stepPointers : List (List Nat)} {bound : Nat}
      (parts : Opened builder plan stepPointers bound) (some_ : plan.current ≠ [])

variable {builder : UpdateChainBuilder σ} {plan : Plan σ} {stepPointers : List (List Nat)}
  {bound : Nat}

theorem represents_new : Represents (.new : UpdateChainBuilder σ) ⟨[], []⟩ :=
  @Represents.closed σ _ _ [] 0 ⟨.nil, .nil, by simp, .nil, rfl, rfl, rfl, by simp⟩ rfl rfl rfl

theorem initGroup_opened (represents : Represents builder plan) :
    ∃ stepPointers bound, Opened builder.initGroup.1 plan stepPointers bound ∧
      builder.initGroup.2 = plan.groups.length := by
  cases represents with
  | @closed stepPointers bound parts none_ empty count =>
      refine ⟨stepPointers, bound, ?_, ?_⟩
      · rw [UpdateChainBuilder.initGroup, none_]
        refine ⟨⟨parts.chained.alloc _, parts.older, parts.below, parts.newest, parts.stepCount,
          parts.head, parts.tail, parts.filled⟩, congrArg some count, ?_, ?_⟩
        · simp [count]
        · simp [← count, empty]
      · rw [UpdateChainBuilder.initGroup, none_]
        exact count
  | @opened stepPointers bound parts some_ =>
      refine ⟨stepPointers, bound, ?_, ?_⟩
      · rw [UpdateChainBuilder.initGroup, parts.currentGroup]
        exact parts
      · rw [UpdateChainBuilder.initGroup, parts.currentGroup]

/-- A step that is added gets the newest cell, linked behind the last step of its group. -/
theorem addStep_steps (opened : Opened builder plan stepPointers bound) (action : Action σ)
    {added : UpdateChainBuilder σ}
    (ran : UpdateChainBuilder.addStep { builder with steps := builder.steps ++ [⟨action, none⟩] }
      plan.groups.length builder.steps.length = added) :
    List.Forall₂ (Linked added.steps) stepPointers plan.groups ∧
      Linked added.steps (List.range' bound (plan.current.length + 1)) (plan.current ++ [action]) ∧
      added.steps.length = builder.steps.length + 1 := by
  have next : List.range' bound (plan.current.length + 1) =
      List.range' bound plan.current.length ++ [builder.steps.length] := by
    rw [List.range'_concat, opened.stepCount, Nat.one_mul]
  have found : (builder.steps ++ [(⟨action, none⟩ : UpdateStep σ)])[builder.steps.length]? =
      some ⟨action, none⟩ := by simp
  have fresh : builder.steps.length ∉ List.range' bound plan.current.length := by
    rw [List.mem_range'_1, opened.stepCount]
    omega
  subst ran
  simp only [UpdateChainBuilder.addStep, opened.currentSteps, Option.bind_some]
  rw [next]
  cases back : (List.range' bound plan.current.length).getLast? with
  | none =>
      have empty : plan.current = [] := by simpa using back
      refine ⟨opened.older.imp fun _ _ linked => linked.alloc _, ?_, by simp⟩
      rw [empty]
      exact .cons found .nil
  | some last =>
      have member := List.mem_of_getLast? back
      have behind : bound ≤ last := (List.mem_range'_1.mp member).1
      refine ⟨?_, (opened.newest.alloc _).push back List.nodup_range' found fresh, by simp⟩
      have apart : ∀ pointers ∈ stepPointers, last ∉ pointers := fun pointers old inside =>
        absurd (opened.below pointers old last inside) (Nat.not_lt.mpr behind)
      exact List.forall₂_iff_zip.mpr ⟨opened.older.length_eq, fun both => by
        have linked := (List.forall₂_iff_zip.mp opened.older).2 both
        exact (linked.alloc _).setNext_of_notMem (apart _ (List.of_mem_zip both).1)⟩

theorem addStep_opened (opened : Opened builder plan stepPointers bound) (action : Action σ)
    {added : UpdateChainBuilder σ}
    (ran : UpdateChainBuilder.addStep { builder with steps := builder.steps ++ [⟨action, none⟩] }
      plan.groups.length builder.steps.length = added) :
    Opened added { plan with current := plan.current ++ [action] } stepPointers bound := by
  have outside : plan.groups.length ∉ List.range plan.groups.length := by simp
  have length : (plan.current ++ [action]).length = plan.current.length + 1 := by simp
  obtain ⟨older, newest, count⟩ := addStep_steps opened action ran
  have groups : added.groups = Cell.setValue builder.groups plan.groups.length
      (· ++ [builder.steps.length]) := ran ▸ rfl
  refine ⟨⟨?_, older, opened.below, ?_, ?_, ran ▸ opened.head, ran ▸ opened.tail, opened.filled⟩,
    ran ▸ opened.currentGroup, ?_, ?_⟩
  · rw [groups]
    exact opened.chained.setValue_of_notMem outside
  · rw [length]
    exact newest
  · rw [count, length, opened.stepCount]
    omega
  · rw [groups, Cell.length_setValue, opened.groupCount]
  · rw [groups, Cell.setValue_same opened.currentSteps, length, List.range'_concat,
      opened.stepCount, Nat.one_mul]

theorem add_represents (represents : Represents builder plan) (action : Action σ) :
    Represents (builder.add action) (plan.call (.add action)) := by
  obtain ⟨stepPointers, bound, opened, group⟩ := initGroup_opened represents
  have some_ : plan.current ++ [action] ≠ [] := by simp
  rw [UpdateChainBuilder.add]
  split
  rename_i middle pointer same
  rw [same] at opened group
  obtain rfl : pointer = plan.groups.length := group
  exact .opened (addStep_opened opened action rfl) some_

theorem close_represents (opened : Opened builder plan stepPointers bound)
    (some_ : plan.current ≠ []) {next : UpdateChainBuilder σ} (steps : next.steps = builder.steps)
    (chained : Linked next.groups (List.range (plan.groups.length + 1))
      (stepPointers ++ [List.range' bound plan.current.length]))
    (count : next.groups.length = builder.groups.length) (head : next.head = some 0)
    (tail : next.tail = some plan.groups.length) (none_ : next.currentGroup = none) :
    Represents next plan.close := by
  have older : List.Forall₂ (Linked builder.steps)
      (stepPointers ++ [List.range' bound plan.current.length]) (plan.groups ++ [plan.current]) :=
    List.rel_append opened.older (.cons opened.newest .nil)
  have below : ∀ pointers ∈ stepPointers ++ [List.range' bound plan.current.length],
      ∀ pointer ∈ pointers, pointer < builder.steps.length := by
    intro pointers member pointer inside
    rw [opened.stepCount]
    obtain old | new := List.mem_append.mp member
    · exact Nat.lt_of_lt_of_le (opened.below pointers old pointer inside) (Nat.le_add_right ..)
    · rw [List.mem_singleton.mp new] at inside
      exact (List.mem_range'_1.mp inside).2
  have filled : [] ∉ plan.groups ++ [plan.current] := by
    rw [List.mem_append, List.mem_singleton, not_or]
    exact ⟨opened.filled, Ne.symm some_⟩
  have length : (plan.groups ++ [plan.current]).length = plan.groups.length + 1 := by simp
  have parts : Parts next ⟨plan.groups ++ [plan.current], []⟩
      (stepPointers ++ [List.range' bound plan.current.length]) builder.steps.length := by
    refine ⟨?_, ?_, below, .nil, ?_, ?_, ?_, filled⟩
    · rwa [length]
    · rwa [steps]
    · exact congrArg _ steps
    · rw [head, length, List.range_succ_eq_map]
      rfl
    · rw [tail, length, List.range_succ, List.getLast?_concat]
  rw [Plan.close, if_neg some_]
  exact .closed parts none_ rfl (by rw [count, length, opened.groupCount])

/-- A group that is closed is linked behind the last one. -/
theorem nextGroup_represents (represents : Represents builder plan) :
    Represents builder.nextGroup plan.close := by
  cases represents with
  | @closed stepPointers bound parts none_ empty count =>
      rw [UpdateChainBuilder.nextGroup, none_, Plan.close, if_pos empty]
      exact .closed parts none_ empty count
  | @opened stepPointers bound opened some_ =>
      have head := opened.head
      have tail := opened.tail
      have chained := opened.chained
      have found := opened.currentSteps
      rw [UpdateChainBuilder.nextGroup, opened.currentGroup]
      cases count : plan.groups.length with
      | zero =>
          rw [count] at head chained found
          cases chained
          rw [head]
          refine close_represents opened some_ rfl ?_ rfl rfl (congrArg some count.symm) rfl
          rw [count]
          exact .cons found .nil
      | succ before =>
          rw [count, List.range_succ, List.getLast?_concat] at tail
          rw [count, List.range_succ_eq_map] at head
          rw [head, tail]
          have fresh : before + 1 ∉ List.range (before + 1) := by simp
          rw [count] at chained found
          have linked := chained.push (by rw [List.range_succ, List.getLast?_concat])
            List.nodup_range found fresh
          refine close_represents opened some_ rfl ?_ (Cell.length_setNext ..) rfl
            (congrArg some count.symm) rfl
          rw [count, List.range_succ]
          exact linked

theorem represents_after (calls : List (Call σ)) :
    Represents (UpdateChainBuilder.after calls) (Plan.after calls) := by
  have run : ∀ {builder : UpdateChainBuilder σ} {plan : Plan σ}, Represents builder plan →
      Represents (calls.foldl UpdateChainBuilder.call builder) (calls.foldl Plan.call plan) := by
    induction calls with
    | nil => exact fun represents => represents
    | cons call calls ih =>
        intro builder plan represents
        refine ih ?_
        cases call with
        | add action => exact add_represents represents action
        | nextGroup => exact nextGroup_represents represents
        | build => exact nextGroup_represents represents
  exact run represents_new

end Builder

section Plans

/-- The action that a call adds. -/
def Call.added : Call σ → Option (Action σ)
  | .add action => some action
  | .nextGroup => none
  | .build => none

theorem Plan.close_actions (plan : Plan σ) :
    plan.close.groups.flatten ++ plan.close.current = plan.groups.flatten ++ plan.current := by
  rw [Plan.close]
  split
  · rfl
  · simp

/-- No action is lost, and they keep their order. -/
theorem Plan.after_actions (calls : List (Call σ)) :
    (Plan.after calls).groups.flatten ++ (Plan.after calls).current = calls.filterMap Call.added := by
  have run : ∀ plan : Plan σ, (calls.foldl Plan.call plan).groups.flatten ++
      (calls.foldl Plan.call plan).current =
        plan.groups.flatten ++ plan.current ++ calls.filterMap Call.added := by
    induction calls with
    | nil => simp
    | cons call calls ih =>
        intro plan
        rw [List.foldl_cons, ih]
        cases call with
        | add action => simp [Plan.call, Call.added]
        | nextGroup => rw [List.filterMap_cons_none rfl, Plan.call, Plan.close_actions]
        | build => rw [List.filterMap_cons_none rfl, Plan.call, Plan.close_actions]
  exact run ⟨[], []⟩

theorem Plan.after_build (calls : List (Call σ)) :
    (Plan.after (calls ++ [.build])).current = [] := by
  rw [Plan.after, List.foldl_append, List.foldl_cons, List.foldl_nil, Plan.call, Plan.close]
  split
  · assumption
  · rfl

theorem Plan.groups_length_le (plan : Plan σ) (calls : List (Call σ)) :
    plan.groups.length ≤ (calls.foldl Plan.call plan).groups.length := by
  induction calls generalizing plan with
  | nil => exact Nat.le_refl _
  | cons call calls ih =>
      refine Nat.le_trans ?_ (ih (plan.call call))
      have closed : plan.groups.length ≤ plan.close.groups.length := by
        rw [Plan.close]
        split
        · exact Nat.le_refl _
        · simp
      cases call with
      | add action => exact Nat.le_refl _
      | nextGroup => exact closed
      | build => exact closed

theorem length_add_le_flatten {groups : List (List (Action σ))} (filled : [] ∉ groups)
    {group : List (Action σ)} (member : group ∈ groups) :
    groups.length + group.length ≤ groups.flatten.length + 1 := by
  have count : ∀ groups : List (List (Action σ)), [] ∉ groups →
      groups.length ≤ groups.flatten.length := by
    intro groups
    induction groups with
    | nil => exact fun _ => Nat.le_refl _
    | cons first rest ih =>
        intro filled
        obtain ⟨some_, filled⟩ := not_or.mp (mt List.mem_cons.mpr filled)
        have size := List.length_pos_iff.mpr (Ne.symm some_)
        have := ih filled
        rw [List.length_cons, List.flatten_cons, List.length_append]
        omega
  induction groups with
  | nil => exact absurd member (by simp)
  | cons first rest ih =>
      obtain ⟨some_, restFilled⟩ := not_or.mp (mt List.mem_cons.mpr filled)
      have size := List.length_pos_iff.mpr (Ne.symm some_)
      rw [List.length_cons, List.flatten_cons, List.length_append]
      cases member with
      | head =>
          have := count rest restFilled
          omega
      | tail _ member =>
          have := ih restFilled member
          omega

end Plans

theorem Represents.head_eq {builder : UpdateChainBuilder σ} {plan : Plan σ}
    (represents : Represents builder plan) :
    builder.head = (List.range plan.groups.length).head? ∧ [] ∉ plan.groups := by
  cases represents with
  | closed parts => exact ⟨parts.head, parts.filled⟩
  | opened opened => exact ⟨opened.head, opened.filled⟩

theorem head?_range_of_le {count more : Nat} (some_ : count ≠ 0) (grows : count ≤ more) :
    (List.range more).head? = (List.range count).head? := by
  obtain ⟨before, rfl⟩ := Nat.exists_eq_succ_of_ne_zero some_
  obtain ⟨behind, rfl⟩ := Nat.exists_eq_add_of_le grows
  rw [Nat.succ_eq_add_one, List.range_succ_eq_map, Nat.add_right_comm, List.range_succ_eq_map]
  rfl

/-- Whatever calls a builder got, `Build` has a group to return unless nothing was added, every later
`Build` returns the same group, and to handle it is to try the groups of the calls in their order. -/
theorem build_handle (calls : List (Call σ)) :
    ((UpdateChainBuilder.after (calls ++ [.build])).head = none ↔
      ∀ action, Call.add action ∉ calls) ∧
    ∀ head, (UpdateChainBuilder.after (calls ++ [.build])).head = some head →
      (∀ later, (UpdateChainBuilder.after (calls ++ [.build] ++ later)).head = some head) ∧
      ∀ fuel upParams, calls.length < fuel →
        UpdateGroup.handle (UpdateChainBuilder.after (calls ++ [.build])).steps
          (UpdateChainBuilder.after (calls ++ [.build])).groups fuel head upParams =
            some (runGroups (Plan.after (calls ++ [.build])).groups upParams) := by
  have represents := represents_after (calls ++ [.build])
  obtain ⟨headEq, filled⟩ := represents.head_eq
  have actions := Plan.after_actions (calls ++ [.build])
  rw [Plan.after_build, List.append_nil, List.filterMap_append] at actions
  have actions : (Plan.after (calls ++ [.build])).groups.flatten = calls.filterMap Call.added :=
    actions.trans (List.append_nil _)
  refine ⟨?_, fun head found => ⟨fun later => ?_, fun fuel upParams enough => ?_⟩⟩
  · have flat : (Plan.after (calls ++ [.build])).groups.flatten = [] ↔
        (Plan.after (calls ++ [.build])).groups = [] := by
      refine ⟨fun empty => ?_, fun empty => by rw [empty]; rfl⟩
      refine List.eq_nil_iff_forall_not_mem.mpr fun group member => ?_
      rw [List.flatten_eq_nil_iff.mp empty group member] at member
      exact filled member
    rw [headEq, List.head?_eq_none_iff, List.range_eq_nil, List.length_eq_zero_iff, ← flat, actions,
      List.filterMap_eq_nil_iff]
    constructor
    · intro none_ action member
      exact absurd (none_ _ member) (by simp [Call.added])
    · intro none_ call member
      cases call with
      | add action => exact absurd member (none_ action)
      | nextGroup => rfl
      | build => rfl
  · have grows := (Plan.after (calls ++ [.build])).groups_length_le later
    have whole : (Plan.after (calls ++ [.build] ++ later)).groups =
        (later.foldl Plan.call (Plan.after (calls ++ [.build]))).groups := by
      rw [Plan.after, List.foldl_append]
      rfl
    have again := (represents_after (calls ++ [.build] ++ later)).head_eq.1
    rw [whole] at again
    rw [headEq] at found
    rw [again, ← found]
    exact head?_range_of_le (fun none_ => absurd (none_ ▸ found) (by simp)) grows
  · cases represents with
    | opened opened some_ => exact absurd (Plan.after_build calls) some_
    | closed parts none_ empty count =>
        refine UpdateGroup.handle_linked parts.chained parts.older filled (parts.head ▸ found)
          (fun plan member => ?_) upParams
        have room := length_add_le_flatten filled member
        have short := List.length_filterMap_le Call.added calls
        rw [actions] at room
        omega

/-- A step that fails, and an alternative that goes on with its parameters. -/
def twoGroups : List (Call Nat) :=
  [.add fun upParams => (upParams + 1, .retry), .build, .nextGroup,
    .add fun upParams => (upParams + 2, .success)]

theorem twoGroups_handle :
    (UpdateChainBuilder.after (twoGroups ++ [.build])).head = some 0 ∧
      UpdateGroup.handle (UpdateChainBuilder.after (twoGroups ++ [.build])).steps
        (UpdateChainBuilder.after (twoGroups ++ [.build])).groups 5 0 0 = some (3, .success) :=
  ⟨rfl, ((build_handle twoGroups).2 0 rfl).2 5 0 (by decide)⟩

end Updater.SdcardUpdate
