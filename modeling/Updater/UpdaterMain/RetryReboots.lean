import Updater.UpdaterMain.PackageProgress

/-! How often a device reboots to try an update again: through crashes, failures and restarts in any
order, and with the packages still asked for after each of them. -/

set_option autoImplicit false

namespace Updater.UpdaterMain

open Utils ApplyPatch
open Base (Bytes runSchedule countAlong countAlong_invariant)

theorem infix_of_find {pattern chars : List Char} (found : find pattern chars ≠ none) :
    pattern <:+: chars := by
  induction chars with
  | nil =>
      rw [find] at found
      split at found
      · rename_i empty
        subst empty
        exact List.nil_infix
      · exact absurd rfl found
  | cons char rest ih =>
      rw [find] at found
      split at found
      · rename_i front
        exact (List.isPrefixOf_iff_prefix.mp front).isInfix
      · have later : find pattern rest ≠ none := fun absent => found (by rw [absent]; rfl)
        exact (ih later).trans (List.suffix_cons char rest).isInfix

/-- A text is not found where one of its characters does not occur. -/
theorem find_eq_none {pattern chars : List Char} {char : Char} (inside : char ∈ pattern)
    (outside : char ∉ chars) : find pattern chars = none := by
  by_contra found
  exact outside ((infix_of_find found).subset inside)

section

variable {option other : List Char} {plain size : Nat} {args : List (List Char)}

/-- The option can be changed: every argument that contains its name is the option itself, and
without the other option the arguments leave room for it. -/
structure Changeable (plain size : Nat) (option other : List Char) (args : List (List Char)) : Prop where
  named : ∀ arg ∈ args, find option arg ≠ none → trimUpdateMode arg = option
  room : (lines (otherArgs option args)).length ≤ plain + size
  both : (lines (otherArgs option (otherArgs other args))).length ≤ plain

theorem otherArgs_comm (args : List (List Char)) :
    otherArgs option (otherArgs other args) = otherArgs other (otherArgs option args) := by
  simp only [otherArgs, List.filter_filter, Bool.and_comm]

theorem otherArgs_changed_self (name : IsOptionName option) (value : Int) :
    otherArgs option (changed option value args) = otherArgs option args := by
  have dropped : otherArgs option [headArg option (some value)] = [] := by
    simp [otherArgs, name.trimUpdateMode_headArg]
  rw [changed, otherArgs, List.filter_append]
  rw [otherArgs] at dropped
  rw [dropped, List.append_nil, otherArgs, List.filter_filter]
  simp only [Bool.and_self]

theorem otherArgs_changed_other (name : IsOptionName option) (distinct : option ≠ other) (value : Int) :
    otherArgs other (changed option value args) =
      otherArgs option (otherArgs other args) ++ [headArg option (some value)] := by
  have kept : otherArgs other [headArg option (some value)] = [headArg option (some value)] := by
    simp [otherArgs, name.trimUpdateMode_headArg, distinct]
  rw [otherArgs_comm, changed, otherArgs, List.filter_append]
  rw [otherArgs] at kept
  rw [kept]
  rfl

theorem length_lines_concat (args : List (List Char)) (last : List Char) :
    (lines (args ++ [last])).length = (lines args).length + (last.length + 1) := by
  rw [lines, lines, List.flatMap_append, List.length_append, List.flatMap_singleton,
    List.length_append]
  rfl

/-- The change keeps room for the next one of the same option. -/
theorem Changeable.again (changeable : Changeable plain size option other args)
    (name : IsOptionName option) (value : Int) :
    Changeable plain size option other (changed option value args) where
  named arg member found := by
    cases List.mem_append.mp member with
    | inl old => exact changeable.named arg (List.mem_filter.mp old).1 found
    | inr new =>
        rw [List.mem_singleton.mp new]
        exact name.trimUpdateMode_headArg _
  room := by
    rw [otherArgs_changed_self name]
    exact changeable.room
  both := by
    rw [otherArgs_comm, otherArgs_changed_self name, ← otherArgs_comm]
    exact changeable.both

/-- A change of the other option keeps room for it as well. -/
theorem Changeable.beside (changeable : Changeable plain size option other args)
    (name : IsOptionName other) (distinct : other ≠ option) {value : Int}
    (short : (headArg other (some value)).length + 1 ≤ size)
    (apart : find option (headArg other (some value)) = none) :
    Changeable plain size option other (changed other value args) where
  named arg member found := by
    cases List.mem_append.mp member with
    | inl old => exact changeable.named arg (List.mem_filter.mp old).1 found
    | inr new =>
        rw [List.mem_singleton.mp new] at found
        exact absurd apart found
  room := by
    have both := changeable.both
    rw [otherArgs_comm] at both
    rw [otherArgs_changed_other name distinct, length_lines_concat]
    omega
  both := by
    rw [otherArgs_changed_self name]
    exact changeable.both

theorem Changeable.keeps (changeable : Changeable plain size option other args) {value : Int}
    (short : plain + size + (headArg option (some value)).length < maxUpdateSize) :
    Keeps option value args := by
  have same := keptArgs_eq_otherArgs_iff.mpr changeable.named
  have room := changeable.room
  refine ⟨?_, changeable.named⟩
  rw [same, List.length_append]
  omega

end

theorem length_retryArg {count : Nat} (small : count < 10) :
    (headArg retryCountOption (some (count : Int))).length = 15 ∧
      find upgradedPkgNumOption (headArg retryCountOption (some (count : Int))) = none := by
  revert count
  decide

theorem length_numArg {count : Nat} (small : count < 10 ^ 3) :
    (headArg upgradedPkgNumOption (some (count : Int))).length ≤ 22 ∧
      find retryCountOption (headArg upgradedPkgNumOption (some (count : Int))) = none := by
  have digits : (Nat.toDigits 10 count).length ≤ 3 :=
    (Nat.length_toDigits_le_iff (by decide) (by decide)).mpr small
  have text : headArg upgradedPkgNumOption (some (count : Int)) =
      "--upgraded_pkg_num=".toList ++ Nat.toDigits 10 count := rfl
  have name : "--upgraded_pkg_num=".toList.length = 19 := by decide
  refine ⟨?_, @find_eq_none _ _ 'y' (by decide) fun member => ?_⟩
  · rw [text, List.length_append, name]
    omega
  · rw [text] at member
    cases List.mem_append.mp member with
    | inl front => exact absurd front (by decide)
    | inr digit => exact absurd (Nat.isDigit_of_mem_toDigits (by decide) (by decide) digit) (by decide)

/-- The two options in which the progress is kept can both be changed. -/
structure Leaves (args : List (List Char)) : Prop where
  room : ∃ plain, plain + 38 < maxUpdateSize ∧
    Changeable plain 23 retryCountOption upgradedPkgNumOption args ∧
    Changeable plain 16 upgradedPkgNumOption retryCountOption args

theorem retryCount_ne_upgradedPkgNum : retryCountOption ≠ upgradedPkgNumOption := by decide

section

variable {args : List (List Char)} (leaves : Leaves args) {count : Nat}
include leaves

theorem Leaves.keepsRetry (small : count < 10) : Keeps retryCountOption count args := by
  obtain ⟨plain, room, retry, -⟩ := leaves.room
  exact retry.keeps (by rw [(length_retryArg small).1]; exact room)

theorem Leaves.keepsNum (small : count < 10 ^ 3) : Keeps upgradedPkgNumOption count args := by
  obtain ⟨plain, room, -, num⟩ := leaves.room
  have short := (length_numArg small).1
  exact num.keeps (by omega)

theorem Leaves.retry (small : count < 10) : Leaves (changed retryCountOption count args) := by
  obtain ⟨plain, room, retry, num⟩ := leaves.room
  obtain ⟨short, apart⟩ := length_retryArg small
  exact ⟨plain, room, retry.again retryCount_isOptionName _,
    num.beside retryCount_isOptionName retryCount_ne_upgradedPkgNum (by omega) apart⟩

theorem Leaves.num (small : count < 10 ^ 3) :
    Leaves (changed upgradedPkgNumOption count args) := by
  obtain ⟨plain, room, retry, num⟩ := leaves.room
  obtain ⟨short, apart⟩ := length_numArg small
  exact ⟨plain, room, retry.beside upgradedPkgNum_isOptionName retryCount_ne_upgradedPkgNum.symm
    (by omega) apart, num.again upgradedPkgNum_isOptionName _⟩

end

/-- A request that has room for the two options, and names them nowhere. -/
structure Roomy (device : Device) : Prop where
  room : (lines device.args).length + 38 < maxUpdateSize
  retry : ∀ arg ∈ device.args, find retryCountOption arg = none
  num : ∀ arg ∈ device.args, find upgradedPkgNumOption arg = none

theorem Roomy.leaves {device : Device} (roomy : Roomy device) : Leaves device.args := by
  have shorter (option : List Char) (args : List (List Char)) :
      (lines (otherArgs option args)).length ≤ (lines args).length :=
    length_lines_le List.filter_sublist
  refine ⟨(lines device.args).length, roomy.room, ⟨fun arg member found =>
    absurd (roomy.retry arg member) found, ?_, ?_⟩, ⟨fun arg member found =>
    absurd (roomy.num arg member) found, ?_, ?_⟩⟩
  · exact Nat.le_add_right_of_le (shorter _ _)
  · exact (shorter _ _).trans (shorter _ _)
  · exact Nat.le_add_right_of_le (shorter _ _)
  · exact (shorter _ _).trans (shorter _ _)

/-- A step of the installation, or its end by `PostUpdater`, after a failure or a key. -/
inductive Turn where
  | move (move : Move)
  | post (clearMisc : Bool)
  deriving DecidableEq, Repr

/-- What `PostUpdater` does to the message and the record. -/
def Device.postUpdater (clears : Bool) (device : Device) : Device :=
  { device with
    commandFile := none
    misc := if clears then clearMisc device.misc else device.misc
    record := if clears then (clearRecordPartitionOffset device.record).2 else device.record
    running := none }

def Device.turn (contents : List Char → List Bytes) (turn : Turn) (device : Device) : Device :=
  match turn with
  | .move move => device.step contents move
  | .post clears => device.postUpdater clears

/-- The step is a fault for which the device reboots to try again. -/
def Device.reboots (turn : Turn) (device : Device) : Bool :=
  match turn, device.running with
  | .move .fault, some run => decide (unsignedInt run.params.retryCount < maxRetryCount)
  | _, _ => false

/-- The message still asks for the packages, at this place and after so many retries. -/
structure AsksFor (packages : List (List Char)) (location retryCount : Nat) (args : List (List Char)) :
    Prop where
  params : startUpdater args = { updatePackage := packages, retryCount, pkgLocation := location }
  most : retryCount ≤ maxRetryCount
  within : location ≤ packages.length
  leaves : Leaves args

/-- A run of the update, in which the device has rebooted so often. -/
structure Attempt (packages : List (List Char)) (location count : Nat) (run : Run) : Prop where
  params : ∃ retryCount : Nat, count ≤ retryCount ∧ retryCount ≤ maxRetryCount ∧
    run.params = { updatePackage := packages, retryCount, pkgLocation := location }
  marking : run.phase = .marking → run.params.retryCount = 0
  inside : run.phase ≠ .entering → location < packages.length

/-- The update is over, or asked for with a retry count that no reboot is missing from. -/
inductive Retries (packages : List (List Char)) (left : Prop) (count : Nat) (device : Device) : Prop where
  | ended (off : device.running = none) (params : startUpdater device.args = {})
      (past : .finished ∈ device.history ∨ left) (most : count ≤ maxRetryCount)
  | asking (location retryCount : Nat) (asks : AsksFor packages location retryCount device.args)
      (counted : count ≤ retryCount)
      (attempt : ∀ run, device.running = some run → Attempt packages location count run)

section

variable {contents : List Char → List Bytes} {packages : List (List Char)} {device : Device}
  {location retryCount count : Nat} {run : Run} {left : Prop}

theorem AsksFor.retry {args : List (List Char)} (asks : AsksFor packages location retryCount args)
    {later : Nat} (most : later ≤ maxRetryCount) :
    AsksFor packages location later (changed retryCountOption later args) where
  params := by
    rw [startUpdater_retryCount (Nat.lt_of_le_of_lt most (by decide)), asks.params]
  most := most
  within := asks.within
  leaves := asks.leaves.retry (Nat.lt_of_le_of_lt most (by decide))

theorem AsksFor.next {args : List (List Char)} (asks : AsksFor packages location retryCount args)
    (few : packages.length < 10 ^ 3) (inside : location < packages.length) :
    AsksFor packages (location + 1) retryCount (changed upgradedPkgNumOption (location + 1 : Nat) args) where
  params := by
    rw [startUpdater_upgradedPkgNum (by omega), asks.params]
  most := asks.most
  within := inside
  leaves := asks.leaves.num (by omega)

theorem Attempt.tried (attempt : Attempt packages location count run) :
    ∃ retryCount ≤ maxRetryCount, count ≤ retryCount ∧ run.params.retryCount = (retryCount : Nat) ∧
      unsignedInt run.params.retryCount = retryCount := by
  obtain ⟨retryCount, counted, most, params⟩ := attempt.params
  refine ⟨retryCount, most, counted, by rw [params], ?_⟩
  rw [params]
  exact unsignedInt_natCast (Nat.lt_of_le_of_lt most (by decide))

/-- The run at another place. -/
theorem Attempt.at_ (attempt : Attempt packages location count run) {phase : Phase}
    (other : phase ≠ .marking) (inside : location < packages.length) :
    Attempt packages location count (run.at_ phase) where
  params := attempt.params
  marking same := absurd same other
  inside _ := inside

variable (asks : AsksFor packages location retryCount device.args) (counted : count ≤ retryCount)
include asks counted

theorem AsksFor.stop : Retries packages left count device.stop :=
  .asking location retryCount asks counted fun _ running => absurd running.symm (Option.some_ne_none _)

theorem AsksFor.running (attempt : Attempt packages location count run) :
    Retries packages left count (device.run run) :=
  .asking location retryCount asks counted fun _ running => Option.some.inj running ▸ attempt

theorem AsksFor.start (off : device.running = none) : Retries packages left count device.start := by
  rw [Device.start, off]
  dsimp only
  split
  · refine .asking location retryCount asks counted fun run running => ?_
    rw [off] at running
    exact absurd running.symm (Option.some_ne_none run)
  · exact asks.running counted ⟨⟨retryCount, counted, asks.most, asks.params⟩,
      fun same => absurd same (by simp), fun other => absurd rfl other⟩

/-- A reboot is counted in the message, before the device restarts. -/
theorem AsksFor.rebootRetry (attempt : Attempt packages location count run)
    (running : device.running = some run) :
    Retries packages left (count + (device.reboots (.move .fault)).toNat) (device.rebootRetry run) := by
  obtain ⟨tried, most, counted', -, unsigned⟩ := attempt.tried
  have kind : device.reboots (.move .fault) = decide (tried < maxRetryCount) := by
    rw [Device.reboots.eq_def, running]
    dsimp only
    rw [unsigned]
  rw [kind, Device.rebootRetry, unsigned]
  dsimp only
  split
  · rename_i enough
    rw [decide_eq_false (Nat.not_lt.mpr enough)]
    exact asks.stop counted
  · rename_i again
    have below := Nat.lt_of_not_le again
    have small : (tried + 1) % 2 ^ 32 = tried + 1 :=
      Nat.mod_eq_of_lt (Nat.lt_of_le_of_lt below (by decide))
    have short := @length_headArg_lt retryCountOption (by decide) (tried + 1)
      (Nat.lt_of_le_of_lt below (by decide))
    have stored := parseParams_addUpdateInfoToMisc retryCount_isOptionName short
      (asks.leaves.keepsRetry (Nat.lt_of_le_of_lt below (by decide))) none
    rw [decide_eq_true below, small]
    refine .asking location (tried + 1) ?_ (Nat.succ_le_succ counted') fun _ running =>
      absurd running.symm (Option.some_ne_none _)
    rw [Device.args]
    exact stored ▸ asks.retry below

theorem AsksFor.enter (attempt : Attempt packages location count run) :
    Retries packages left count (device.enter contents run) := by
  obtain ⟨tried, counted', most, params⟩ := attempt.params
  have package : run.package = packages[location]? := by rw [Run.package, params]
  rw [Device.enter, package]
  cases found : packages[location]? with
  | none =>
      dsimp only
      split
      · exact .ended rfl (startUpdater_clearMisc device.misc)
          (.inl (List.mem_append_right _ List.mem_cons_self)) (counted'.trans most)
      · exact asks.stop counted
  | some path =>
      have inside : location < packages.length := (List.getElem?_eq_some_iff.mp found).1
      dsimp only
      split
      · rename_i first
        exact .asking location retryCount asks counted fun _ running => Option.some.inj running ▸
          { params := attempt.params
            marking := fun _ => first
            inside := fun _ => inside }
      · exact .asking location retryCount asks counted fun _ running => Option.some.inj running ▸
          attempt.at_ (by simp) inside

omit counted in
/-- The first run marks the message as a retry of it. -/
theorem AsksFor.mark (attempt : Attempt packages location count run)
    (first : run.params.retryCount = 0) (inside : location < packages.length) :
    Retries packages left count
      ((device.setMessage (run.params.retryCount + 1) retryCountOption).run
        (run.at_ (.installing ((run.package.map contents).getD [])))) := by
  obtain ⟨tried, -, counted', same, -⟩ := attempt.tried
  have none : tried = 0 := by omega
  rw [first]
  have short := @length_headArg_lt retryCountOption (by decide) 1 (by decide)
  have keeps := @Leaves.keepsRetry _ asks.leaves 1 (by decide)
  have stored := parseParams_setMessageToMisc retryCount_isOptionName (by decide)
    (by decide : (cString miscCmd).length < maxCommandSize) short keeps
  have marked := @AsksFor.retry _ _ _ _ asks 1 (by decide)
  refine .asking location 1 ?_ (by omega) fun _ running => Option.some.inj running ▸
    attempt.at_ (by simp) inside
  rw [Device.args]
  exact stored ▸ marked

theorem AsksFor.install (few : packages.length < 10 ^ 3)
    (attempt : Attempt packages location count run) (inside : location < packages.length) :
    Retries packages left count
      ((device.setMessage (run.params.pkgLocation + 1 : Nat) upgradedPkgNumOption).run
        { params := { run.params with pkgLocation := run.params.pkgLocation + 1 }
          phase := .entering }) := by
  obtain ⟨tried, counted', most, params⟩ := attempt.params
  have located : run.params.pkgLocation = location := by rw [params]
  rw [located]
  have short := @length_headArg_lt upgradedPkgNumOption (by decide) (location + 1) (by omega)
  have keeps := @Leaves.keepsNum _ asks.leaves (location + 1) (by omega)
  have stored := parseParams_setMessageToMisc upgradedPkgNum_isOptionName (by decide)
    (by decide : (cString miscCmd).length < maxCommandSize) short keeps
  refine .asking (location + 1) retryCount ?_ counted fun _ running => Option.some.inj running ▸
    { params := ⟨tried, counted', most, by rw [params]⟩
      marking := fun same => absurd same (by simp)
      inside := fun other => absurd rfl other }
  rw [Device.args]
  exact stored ▸ asks.next few inside

/-- What one step of a run keeps. -/
theorem AsksFor.advance (few : packages.length < 10 ^ 3)
    (attempt : Attempt packages location count run) :
    Retries packages left count (device.advance contents run) := by
  rw [Device.advance]
  cases phase : run.phase with
  | entering => exact asks.enter counted attempt
  | marking =>
      exact asks.mark attempt (attempt.marking phase) (attempt.inside (by simp [phase]))
  | installing todo =>
      have inside := attempt.inside (by simp [phase])
      cases todo with
      | nil =>
          exact .asking location retryCount asks counted fun _ running =>
            Option.some.inj running ▸ attempt.at_ (by simp) inside
      | cons partition todo =>
          dsimp only
          rw [Device.update]
          split
          · exact .asking location retryCount asks counted fun _ running =>
              Option.some.inj running ▸ attempt.at_ (by simp) inside
          · exact .asking location retryCount asks counted fun _ running =>
              Option.some.inj running ▸ attempt.at_ (by simp) inside
  | recording partition todo =>
      have inside := attempt.inside (by simp [phase])
      dsimp only
      split
      · exact .asking location retryCount asks counted fun _ running =>
          Option.some.inj running ▸ attempt.at_ (by simp) inside
      · exact asks.running counted (attempt.at_ (by simp) inside)
  | moving todo =>
      have inside := attempt.inside (by simp [phase])
      exact .asking location retryCount asks counted fun _ running =>
        Option.some.inj running ▸ attempt.at_ (by simp) inside
  | installed => exact asks.install counted few attempt (attempt.inside (by simp [phase]))

end

section

variable {contents : List Char → List Bytes} {packages : List (List Char)} {device : Device}
  {left : Prop} {count : Nat}

theorem startUpdater_empty {misc : UpdateMessage} (first : misc.update.head? = some nul) :
    startUpdater (parseParams none misc) = {} := by
  have text : cString (misc.update.take (maxUpdateSize - 1)) = [] := by
    cases update : misc.update with
    | nil => rfl
    | cons char rest =>
        rw [update] at first
        rw [Option.some.inj first]
        rfl
  rw [parseParams, Option.getD_none, ite_self, text]
  rfl

/-- After `PostUpdater` the packages are asked for as before, unless the request is gone. -/
theorem Retries.post (retries : Retries packages left count device) (given : left) (clears : Bool) :
    Retries packages left count (device.postUpdater clears) := by
  have most : count ≤ maxRetryCount := by
    cases retries with
    | ended _ _ _ most => exact most
    | asking _ _ asks counted _ => exact counted.trans asks.most
  cases clears with
  | true => exact .ended rfl (startUpdater_clearMisc device.misc) (.inr given) most
  | false =>
      by_cases gone : device.misc.update.head? = some nul
      · exact .ended rfl (startUpdater_empty gone) (.inr given) most
      · have same : (device.postUpdater false).args = device.args := by
          have kept : (device.postUpdater false).misc = device.misc := rfl
          rw [Device.args, Device.args, parseParams, parseParams, kept, if_neg gone, if_neg gone]
        cases retries with
        | ended _ params _ _ => exact .ended rfl (same ▸ params) (.inr given) most
        | asking location retryCount asks counted _ =>
            exact .asking location retryCount (same ▸ asks) counted fun _ running =>
              absurd running.symm (Option.some_ne_none _)

/-- Step lemma: a reboot is counted, and nothing else changes the count. -/
theorem Retries.step (few : packages.length < 10 ^ 3) (retries : Retries packages left count device)
    (move : Move) :
    Retries packages left (count + (device.reboots (.move move)).toNat) (device.step contents move) := by
  have off (none : device.running = none) : device.reboots (.move move) = false := by
    rw [Device.reboots.eq_def, none]
    cases move with
    | start => rfl
    | advance => rfl
    | fault => rfl
    | stop => rfl
  cases retries with
  | ended none params finished most =>
      rw [off none, Device.step.eq_def, none]
      cases move with
      | start =>
          rw [Device.start.eq_def, none]
          dsimp only
          rw [params, if_pos rfl]
          exact .ended none params finished most
      | advance => exact .ended none params finished most
      | fault => exact .ended none params finished most
      | stop => exact .ended none params finished most
  | asking location retryCount asks counted attempt =>
      rw [Device.step.eq_def]
      cases running : device.running with
      | none =>
          rw [off running]
          cases move with
          | start => exact asks.start counted running
          | advance => exact .asking location retryCount asks counted attempt
          | fault => exact .asking location retryCount asks counted attempt
          | stop => exact .asking location retryCount asks counted attempt
      | some run =>
          cases move with
          | start =>
              dsimp only
              rw [Device.start.eq_def, running]
              exact .asking location retryCount asks counted attempt
          | advance => exact asks.advance counted few (attempt run running)
          | fault => exact asks.rebootRetry counted (attempt run running) running
          | stop => exact asks.stop counted

theorem Roomy.retries (roomy : Roomy device) (off : device.running = none)
    (params : startUpdater device.args = { updatePackage := packages }) :
    Retries packages left 0 device := by
  refine .asking 0 0 ⟨params, Nat.zero_le _, Nat.zero_le _, roomy.leaves⟩ (Nat.le_refl 0)
    fun run running => ?_
  rw [off] at running
  exact absurd running.symm (Option.some_ne_none run)

theorem Roomy.few (roomy : Roomy device)
    (params : startUpdater device.args = { updatePackage := packages }) :
    packages.length < 10 ^ 3 := by
  have values : packages.length ≤ device.args.length := by
    have read : optionValues updatePackageOption device.args = packages := by
      rw [startUpdater_eq] at params
      exact congrArg UpdaterParams.updatePackage params
    rw [← read]
    exact List.length_filterMap_le _ _
  have count (args : List (List Char)) : args.length ≤ (lines args).length := by
    induction args with
    | nil => exact Nat.le_refl 0
    | cons arg args ih =>
        rw [length_lines_cons, List.length_cons]
        omega
  have room := roomy.room
  have lines := count device.args
  have size : maxUpdateSize = 768 := rfl
  omega

end

end Updater.UpdaterMain
