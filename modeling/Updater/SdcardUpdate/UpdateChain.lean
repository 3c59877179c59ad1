import Updater.Base.LinkedCells

/-! The chain of an update from an SD card: steps in groups, each group an alternative to the groups
before it. -/

set_option autoImplicit false

namespace Updater.SdcardUpdate

open Updater.Base

variable {σ : Type}

inductive UpdaterStatus where
  | error
  | success
  | corrupt
  | skip
  | retry
  | retryFail
  | spaceNotEnough
  | unknown
  deriving DecidableEq, Repr

/-- `Execute` of an `ISdcardUpdateAction`, on the parameters of the update. -/
abbrev Action (σ : Type) := σ → σ × UpdaterStatus

/-- An action and `nextStep_`. -/
abbrev UpdateStep (σ : Type) := Cell (Action σ)

/-- `steps_` and `nextGroup_`. -/
abbrev UpdateGroup := Cell (List Nat)

/-- `UpdateStep::Handle`; without fuel, or on a step that does not exist, there is no result. -/
def UpdateStep.handle (steps : List (UpdateStep σ)) : Nat → Nat → σ → Option (σ × UpdaterStatus)
  | 0, _, _ => none
  | fuel + 1, pointer, upParams =>
      match steps[pointer]? with
      | none => none
      | some step =>
          match step.value upParams, step.next with
          | (upParams, .success), some nextStep => handle steps fuel nextStep upParams
          | (upParams, status), _ => some (upParams, status)

/-- `UpdateGroup::Handle`. -/
def UpdateGroup.handle (steps : List (UpdateStep σ)) (groups : List UpdateGroup) :
    Nat → Nat → σ → Option (σ × UpdaterStatus)
  | 0, _, _ => none
  | fuel + 1, pointer, upParams =>
      match groups[pointer]? with
      | none => none
      | some group =>
          match group.value, group.next with
          | [], none => some (upParams, .error)
          | [], some nextGroup => handle steps groups fuel nextGroup upParams
          | front :: _, nextGroup =>
              match UpdateStep.handle steps fuel front upParams with
              | none => none
              | some (upParams, .success) => some (upParams, .success)
              | some (upParams, _) =>
                  match nextGroup with
                  | none => some (upParams, .error)
                  | some nextGroup => handle steps groups fuel nextGroup upParams

/-- The builder, and all the steps and groups that exist. -/
structure UpdateChainBuilder (σ : Type) where
  steps : List (UpdateStep σ)
  groups : List UpdateGroup
  head : Option Nat
  tail : Option Nat
  currentGroup : Option Nat

namespace UpdateChainBuilder

def new : UpdateChainBuilder σ where
  steps := []
  groups := []
  head := none
  tail := none
  currentGroup := none

variable (builder : UpdateChainBuilder σ)

/-- `InitGroup`, and the group that is there then. -/
def initGroup : UpdateChainBuilder σ × Nat :=
  match builder.currentGroup with
  | some group => (builder, group)
  | none =>
      let group := builder.groups.length
      ({ builder with
          groups := builder.groups ++ [⟨[], none⟩]
          currentGroup := some group }, group)

/-- `AddStep`. -/
def addStep (group step : Nat) : UpdateChainBuilder σ :=
  let steps :=
    match builder.groups[group]?.bind (·.value.getLast?) with
    | none => builder.steps
    | some back => Cell.setNext builder.steps back (some step)
  { builder with
    steps := steps
    groups := Cell.setValue builder.groups group (· ++ [step]) }

/-- `Add`. -/
def add (action : Action σ) : UpdateChainBuilder σ :=
  match builder.initGroup with
  | (builder, group) =>
      let step := builder.steps.length
      addStep { builder with steps := builder.steps ++ [⟨action, none⟩] } group step

/-- `NextGroup`; there is a tail when there is a head. -/
def nextGroup : UpdateChainBuilder σ :=
  match builder.currentGroup with
  | none => builder
  | some group =>
      let builder :=
        match builder.head, builder.tail with
        | none, _ => { builder with head := some group }
        | some _, none => builder
        | some _, some tail =>
            { builder with groups := Cell.setNext builder.groups tail (some group) }
      { builder with tail := some group, currentGroup := none }

end UpdateChainBuilder

/-- A call on a builder; what `Build` returns is `head`. -/
inductive Call (σ : Type) where
  | add (action : Action σ)
  | nextGroup
  | build

/-- `Build` is `NextGroup`, and then the head. -/
def UpdateChainBuilder.call (builder : UpdateChainBuilder σ) : Call σ → UpdateChainBuilder σ
  | .add action => builder.add action
  | .nextGroup => builder.nextGroup
  | .build => builder.nextGroup

/-- A builder after the calls. -/
def UpdateChainBuilder.after (calls : List (Call σ)) : UpdateChainBuilder σ :=
  calls.foldl UpdateChainBuilder.call .new

/-- What a chain is for: the groups are tried in their order. -/
structure Plan (σ : Type) where
  groups : List (List (Action σ))
  current : List (Action σ)

namespace Plan

/-- A group without steps is none. -/
def close (plan : Plan σ) : Plan σ :=
  if plan.current = [] then plan else ⟨plan.groups ++ [plan.current], []⟩

def call (plan : Plan σ) : Call σ → Plan σ
  | .add action => { plan with current := plan.current ++ [action] }
  | .nextGroup => plan.close
  | .build => plan.close

def after (calls : List (Call σ)) : Plan σ :=
  calls.foldl Plan.call ⟨[], []⟩

end Plan

/-- Actions one after another, up to the first that does not succeed. -/
def runActions : List (Action σ) → σ → σ × UpdaterStatus
  | [], upParams => (upParams, .success)
  | action :: later, upParams =>
      match action upParams with
      | (upParams, .success) => runActions later upParams
      | failed => failed

/-- Groups one after another, up to the first that succeeds; each begins with the parameters that
the group before it left. -/
def runGroups : List (List (Action σ)) → σ → σ × UpdaterStatus
  | [], upParams => (upParams, .error)
  | group :: later, upParams =>
      match runActions group upParams with
      | (upParams, .success) => (upParams, .success)
      | (upParams, _) => runGroups later upParams

end Updater.SdcardUpdate
