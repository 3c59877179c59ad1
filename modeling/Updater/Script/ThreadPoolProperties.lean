import Updater.Script.ThreadPool

/-! Every script of the list is run once, and when its failure is not lost. -/

set_option autoImplicit false

namespace Updater.Script

open Updater.Base

namespace PoolState

variable (job : ScriptJob) (st : PoolState) (threadIndex : Nat)

/-- The task was given to the thread. -/
def marked : Bool :=
  match st.caller with
  | .called | .acquiring => false
  | .marking i => threadIndex < i
  | .polling _ | .releasing | .returned _ => threadIndex < job.num

/-- The scripts of the thread that were run are those in front of this index. -/
def upTo : Nat :=
  match st.workers threadIndex with
  | .waiting =>
      if st.marked job threadIndex && !st.subTaskFlag threadIndex then job.codes.length
      else threadIndex
  | .loop i => i
  | .executed i _ | .stored i | .failed i | .saving i _ => i + job.threadNumber
  | .finished => job.codes.length

end PoolState

/-- Where the worker of the index can be. -/
def WorkerAt (job : ScriptJob) (threadIndex : Nat) : WorkerState → Prop
  | .waiting | .finished => True
  | .loop i => i % job.threadNumber = threadIndex
  | .executed i code => i % job.threadNumber = threadIndex ∧ job.codes[i]? = some code
  | .stored i | .failed i | .saving i _ =>
      i % job.threadNumber = threadIndex ∧ i < job.codes.length

/-- Where the caller can be, with the flags that it has seen. -/
def CallerAt (job : ScriptJob) (available : Bool) (flags : Nat → Bool) : CallerState → Prop
  | .called | .acquiring => available = true
  | .marking i => i ≤ job.num
  | .polling i => ∀ t < i, flags t = false
  | .releasing | .returned _ => ∀ t < job.num, flags t = false

/-- Flags that are taken away leave the caller where it is. -/
theorem CallerAt.lowered {job : ScriptJob} {available : Bool} {flags lower : Nat → Bool}
    {caller : CallerState} (at_ : CallerAt job available flags caller)
    (fewer : ∀ t, flags t = false → lower t = false) : CallerAt job available lower caller := by
  cases caller with
  | called => exact at_
  | acquiring => exact at_
  | marking i => exact at_
  | polling i => exact fun t within => fewer t (at_ t within)
  | releasing => exact fun t within => fewer t (at_ t within)
  | returned code => exact fun t within => fewer t (at_ t within)

/-- What holds in every state of a run: who was given the task, and what was run. -/
structure Dispatched (job : ScriptJob) (st : PoolState) : Prop where
  caller : CallerAt job st.available st.subTaskFlag st.caller
  marked : ∀ t, st.subTaskFlag t = true → st.marked job t = true
  waiting : ∀ t, st.subTaskFlag t = false → st.workers t = .waiting
  worker : ∀ t, WorkerAt job t (st.workers t)
  once : st.ran.Nodup
  ran : ∀ i, i ∈ st.ran ↔ i < job.codes.length ∧ i < st.upTo job (i % job.threadNumber)

variable {job : ScriptJob} {st next : PoolState} {t : Nat} {worker : WorkerState}

theorem Dispatched.start (job : ScriptJob) : Dispatched job { available := true } where
  caller := rfl
  marked := nofun
  waiting _ _ := rfl
  worker _ := trivial
  once := List.nodup_nil
  ran i := by
    refine iff_of_false List.not_mem_nil fun ⟨_, before⟩ => ?_
    exact absurd (Nat.mod_le i job.threadNumber) (Nat.not_le.mpr before)

/-- A worker's move, and what it leaves alone. -/
structure Moves (st next : PoolState) (t : Nat) (worker : WorkerState) : Prop where
  caller : next.caller = st.caller
  available : next.available = st.available
  flags : next.subTaskFlag = st.subTaskFlag
  workers : next.workers = Function.update st.workers t worker

theorem Moves.marked (moves : Moves st next t worker) (other : Nat) :
    next.marked job other = st.marked job other := by
  rw [PoolState.marked, PoolState.marked, moves.caller]

theorem Moves.self (moves : Moves st next t worker) : next.workers t = worker := by
  rw [moves.workers, Function.update_self]

theorem Moves.upTo_other (moves : Moves st next t worker) {other : Nat} (differs : other ≠ t) :
    next.upTo job other = st.upTo job other := by
  rw [PoolState.upTo, PoolState.upTo, moves.workers, Function.update_of_ne differs, moves.marked,
    moves.flags]

/-- A move of a worker with the task; what was run is to be shown. -/
theorem Dispatched.moved (dispatched : Dispatched job st) (moves : Moves st next t worker)
    (flagged : st.subTaskFlag t = true) (at_ : WorkerAt job t worker) (once : next.ran.Nodup)
    (ran : ∀ i, i ∈ next.ran ↔ i < job.codes.length ∧ i < next.upTo job (i % job.threadNumber)) :
    Dispatched job next where
  caller := by
    rw [moves.caller, moves.flags, moves.available]
    exact dispatched.caller
  marked other given := by
    rw [moves.marked]
    exact dispatched.marked other (moves.flags ▸ given)
  waiting other free := by
    rw [moves.flags] at free
    have differs : other ≠ t := by
      rintro rfl
      exact absurd (flagged.symm.trans free) Bool.noConfusion
    rw [moves.workers, Function.update_of_ne differs]
    exact dispatched.waiting other free
  worker other := by
    rw [moves.workers]
    by_cases same : other = t
    · rw [same, Function.update_self]
      exact at_
    · rw [Function.update_of_ne same]
      exact dispatched.worker other
  once := once
  ran := ran

/-- A move that runs nothing. -/
theorem Dispatched.movedOn (dispatched : Dispatched job st) (moves : Moves st next t worker)
    (flagged : st.subTaskFlag t = true) (at_ : WorkerAt job t worker) (same : next.ran = st.ran)
    (front : ∀ i < job.codes.length, i < next.upTo job t ↔ i < st.upTo job t) :
    Dispatched job next := by
  refine dispatched.moved moves flagged at_ (same ▸ dispatched.once) fun i => ?_
  rw [same, dispatched.ran]
  refine and_congr_right fun inside => ?_
  by_cases own : i % job.threadNumber = t
  · rw [own]
    exact (front i inside).symm
  · rw [moves.upTo_other own]

/-- The worker has the task wherever it is behind its flag. -/
theorem Dispatched.flagged (dispatched : Dispatched job st) (away : st.workers t ≠ .waiting) :
    st.subTaskFlag t = true :=
  Bool.of_not_eq_false fun free => away (dispatched.waiting t free)

/-- Of the scripts of a thread, none lies between one and the next. -/
theorem eq_of_lt_add {i j threads : Nat} (same : j % threads = i % threads) (below : j < i + threads)
    (least : i ≤ j) : j = i := by
  have zero := Nat.sub_mod_eq_zero_of_mod_eq same
  rw [Nat.mod_eq_of_lt (Nat.sub_lt_left_of_lt_add least below)] at zero
  exact Nat.le_antisymm (Nat.sub_eq_zero_iff_le.mp zero) least

/-- A script is run. -/
theorem Dispatched.executes (dispatched : Dispatched job st) {i : Nat} {code : Int}
    (position : st.workers t = .loop i) (moves : Moves st next t (.executed i code))
    (found : job.codes[i]? = some code) (logged : next.ran = st.ran ++ [i]) (some_ : 0 < job.threadNumber) :
    Dispatched job next := by
  have at_ := dispatched.worker t
  rw [position] at at_
  have own : i % job.threadNumber = t := at_
  have before : st.upTo job t = i := by rw [PoolState.upTo, position]
  have after : next.upTo job t = i + job.threadNumber := by rw [PoolState.upTo, moves.self]
  obtain ⟨inside, -⟩ := List.getElem?_eq_some_iff.mp found
  have fresh : i ∉ st.ran := by
    rw [dispatched.ran, own, before]
    exact fun both => Nat.lt_irrefl i both.2
  refine dispatched.moved moves (dispatched.flagged (by rw [position]; exact nofun)) ⟨own, found⟩ ?_
    fun j => ?_
  · rw [logged]
    exact List.nodup_append.mpr ⟨dispatched.once, List.nodup_cons.mpr ⟨List.not_mem_nil, List.nodup_nil⟩, fun j listed k new =>
      fun same => fresh (List.mem_singleton.mp new ▸ same ▸ listed)⟩
  · rw [logged, List.mem_append, List.mem_singleton, dispatched.ran]
    by_cases mine : j % job.threadNumber = t
    · rw [mine, before, after]
      constructor
      · rintro (⟨short, front⟩ | rfl)
        · exact ⟨short, Nat.lt_add_right _ front⟩
        · exact ⟨inside, Nat.lt_add_of_pos_right some_⟩
      · rintro ⟨short, below⟩
        rcases Nat.lt_or_ge j i with front | least
        · exact .inl ⟨short, front⟩
        · exact .inr (eq_of_lt_add (mine.trans own.symm) below least)
    · rw [moves.upTo_other mine]
      have differs : j ≠ i := by
        rintro rfl
        exact mine own
      exact or_iff_left differs

/-- The worker takes its flag away. -/
theorem Dispatched.finishes (dispatched : Dispatched job st) (position : st.workers t = .finished)
    (given : st.marked job t = true) :
    Dispatched job (ScriptJob.moved
      { st with subTaskFlag := Function.update st.subTaskFlag t false } t .waiting) where
  caller := by
    refine CallerAt.lowered dispatched.caller fun other free => ?_
    change Function.update st.subTaskFlag t false other = false
    by_cases same : other = t
    · rw [same, Function.update_self]
    · rw [Function.update_of_ne same, free]
  marked other flagged := by
    by_cases same : other = t
    · rw [same]
      exact given
    · dsimp only [ScriptJob.moved] at flagged
      rw [Function.update_of_ne same] at flagged
      exact dispatched.marked other flagged
  waiting other free := by
    dsimp only [ScriptJob.moved] at free ⊢
    by_cases same : other = t
    · rw [same, Function.update_self]
    · rw [Function.update_of_ne same] at free ⊢
      exact dispatched.waiting other free
  worker other := by
    dsimp only [ScriptJob.moved]
    by_cases same : other = t
    · rw [same, Function.update_self]
      trivial
    · rw [Function.update_of_ne same]
      exact dispatched.worker other
  once := dispatched.once
  ran i := by
    refine (dispatched.ran i).trans (and_congr_right fun _ => ?_)
    by_cases mine : i % job.threadNumber = t
    · rw [mine]
      have after : (ScriptJob.moved { st with subTaskFlag := Function.update st.subTaskFlag t false } t
          .waiting).marked job t = true := given
      rw [PoolState.upTo, PoolState.upTo, position, after]
      simp [ScriptJob.moved]
    · rw [PoolState.upTo, PoolState.upTo, ScriptJob.moved]
      simp only [Function.update_of_ne mine]
      rfl

theorem Dispatched.stepWorker (dispatched : Dispatched job st) (threads : t < job.threadNumber) :
    Dispatched job (job.stepWorker t st) := by
  rw [ScriptJob.stepWorker]
  have at_ := dispatched.worker t
  have moves (next : PoolState) (worker : WorkerState) (caller : next.caller = st.caller)
      (available : next.available = st.available) (flags : next.subTaskFlag = st.subTaskFlag)
      (workers : next.workers = st.workers) : Moves st (ScriptJob.moved next t worker) t worker :=
    ⟨caller, available, flags, by rw [ScriptJob.moved, workers]⟩
  cases position : st.workers t with
  | waiting =>
      dsimp only
      split
      · rename_i flagged
        refine dispatched.movedOn (moves st _ rfl rfl rfl rfl) flagged (Nat.mod_eq_of_lt threads) rfl
          fun i _ => ?_
        rw [PoolState.upTo, PoolState.upTo, position, (moves st _ rfl rfl rfl rfl).self]
        simp [flagged]
      · exact dispatched
  | loop i =>
      have flagged := dispatched.flagged (by rw [position]; exact nofun)
      rw [position] at at_
      dsimp only
      split
      · rename_i inside
        exact dispatched.executes position (moves { st with ran := st.ran ++ [i] } _ rfl rfl rfl rfl)
          (List.getElem?_eq_getElem inside) rfl (Nat.zero_lt_of_lt threads)
      · rename_i beyond
        refine dispatched.movedOn (moves st _ rfl rfl rfl rfl) flagged trivial rfl fun j inside => ?_
        rw [PoolState.upTo, PoolState.upTo, position, (moves st _ rfl rfl rfl rfl).self]
        exact iff_of_true inside (Nat.lt_of_lt_of_le inside (Nat.not_lt.mp beyond))
  | executed i code =>
      have flagged := dispatched.flagged (by rw [position]; exact nofun)
      rw [position] at at_
      obtain ⟨inside, -⟩ := List.getElem?_eq_some_iff.mp at_.2
      have moved := moves { st with ret := code } (.stored i) rfl rfl rfl rfl
      refine dispatched.movedOn moved flagged ⟨at_.1, inside⟩ rfl fun j _ => ?_
      rw [PoolState.upTo, PoolState.upTo, position, moved.self]
  | stored i =>
      have flagged := dispatched.flagged (by rw [position]; exact nofun)
      rw [position] at at_
      dsimp only
      split
      · refine dispatched.movedOn (moves st _ rfl rfl rfl rfl) flagged at_ rfl fun j _ => ?_
        rw [PoolState.upTo, PoolState.upTo, position, (moves st _ rfl rfl rfl rfl).self]
      · refine dispatched.movedOn (moves st _ rfl rfl rfl rfl) flagged
          ((Nat.add_mod_right i _).trans at_.1) rfl fun j _ => ?_
        rw [PoolState.upTo, PoolState.upTo, position, (moves st _ rfl rfl rfl rfl).self]
  | failed i =>
      have flagged := dispatched.flagged (by rw [position]; exact nofun)
      rw [position] at at_
      refine dispatched.movedOn (moves st _ rfl rfl rfl rfl) flagged at_ rfl fun j _ => ?_
      rw [PoolState.upTo, PoolState.upTo, position, (moves st _ rfl rfl rfl rfl).self]
  | saving i code =>
      have flagged := dispatched.flagged (by rw [position]; exact nofun)
      rw [position] at at_
      have moved := moves { st with retCode := code } (.loop (i + job.threadNumber)) rfl rfl rfl rfl
      refine dispatched.movedOn moved flagged ((Nat.add_mod_right i _).trans at_.1) rfl fun j _ => ?_
      rw [PoolState.upTo, PoolState.upTo, position, moved.self]
  | finished =>
      have flagged := dispatched.flagged (by rw [position]; exact nofun)
      exact dispatched.finishes position (dispatched.marked t flagged)

/-- A caller that goes on while the same threads have the task. -/
theorem Dispatched.callerGoesOn (dispatched : Dispatched job st) (workers : next.workers = st.workers)
    (flags : next.subTaskFlag = st.subTaskFlag) (log : next.ran = st.ran)
    (caller : CallerAt job next.available next.subTaskFlag next.caller)
    (same : ∀ t, next.marked job t = st.marked job t) : Dispatched job next where
  caller := caller
  marked other flagged := by
    rw [same]
    exact dispatched.marked other (flags ▸ flagged)
  waiting other free := by
    rw [workers]
    exact dispatched.waiting other (flags ▸ free)
  worker other := by
    rw [workers]
    exact dispatched.worker other
  once := log ▸ dispatched.once
  ran i := by
    rw [log, dispatched.ran, PoolState.upTo, PoolState.upTo, workers, flags, same]

/-- A flag is set. -/
theorem Dispatched.marks (dispatched : Dispatched job st) {i : Nat} (position : st.caller = .marking i)
    (more : i < job.num) (caller : next.caller = .marking (i + 1))
    (flags : next.subTaskFlag = Function.update st.subTaskFlag i true)
    (workers : next.workers = st.workers) (log : next.ran = st.ran) : Dispatched job next := by
  have unmarked : st.marked job i = false := by
    rw [PoolState.marked, position]
    exact decide_eq_false (Nat.lt_irrefl i)
  have free : st.subTaskFlag i = false :=
    Bool.of_not_eq_true fun set => absurd (unmarked.symm.trans (dispatched.marked i set)) nofun
  have idle := dispatched.waiting i free
  have others (t : Nat) (differs : t ≠ i) : next.marked job t = st.marked job t := by
    rw [PoolState.marked, PoolState.marked, position, caller]
    exact decide_eq_decide.mpr ⟨fun within => Nat.lt_of_le_of_ne (Nat.le_of_lt_succ within) differs,
      Nat.lt_succ_of_lt⟩
  refine ⟨caller ▸ more, fun t flagged => ?_, fun t unset => ?_, workers ▸ dispatched.worker,
    log ▸ dispatched.once, fun j => ?_⟩
  · by_cases same : t = i
    · rw [same, PoolState.marked, caller]
      exact decide_eq_true (Nat.lt_succ_self i)
    · rw [flags, Function.update_of_ne same] at flagged
      exact (others t same).trans (dispatched.marked t flagged)
  · rw [workers]
    by_cases same : t = i
    · rw [same]
      exact idle
    · rw [flags, Function.update_of_ne same] at unset
      exact dispatched.waiting t unset
  · rw [log, dispatched.ran]
    refine and_congr_right fun _ => ?_
    rw [PoolState.upTo, PoolState.upTo, workers, flags]
    by_cases same : j % job.threadNumber = i
    · rw [same, idle, unmarked, Function.update_self, Bool.not_true, Bool.and_false]
      rfl
    · rw [Function.update_of_ne same, others _ same]

theorem ScriptJob.num_of_nil (job : ScriptJob) (empty : job.codes = []) : job.num = 0 := by
  have size : job.workSize = 0 := by
    unfold workSize
    rw [empty]
    exact Int.zero_bmod
  rw [num, size, if_neg (Int.not_lt.mpr (Int.natCast_nonneg _))]
  rfl

theorem Dispatched.stepCaller (dispatched : Dispatched job st) :
    Dispatched job (job.stepCaller st) := by
  have at_ := dispatched.caller
  rw [ScriptJob.stepCaller]
  cases position : st.caller with
  | called =>
      rw [position] at at_
      dsimp only
      split
      · rename_i empty
        have none_ := job.num_of_nil empty
        refine dispatched.callerGoesOn rfl rfl rfl (fun t within => ?_) fun t => ?_
        · exact absurd (none_ ▸ within) (Nat.not_lt_zero t)
        · rw [PoolState.marked, PoolState.marked, position]
          exact decide_eq_false (none_ ▸ Nat.not_lt_zero t)
      · refine dispatched.callerGoesOn rfl rfl rfl at_ fun t => ?_
        rw [PoolState.marked, PoolState.marked, position]
  | acquiring =>
      rw [position] at at_
      dsimp only
      have free : st.available = true := at_
      rw [if_pos free]
      refine dispatched.callerGoesOn rfl rfl rfl (Nat.zero_le _) fun t => ?_
      rw [PoolState.marked, PoolState.marked, position]
      exact decide_eq_false (Nat.not_lt_zero t)
  | marking i =>
      rw [position] at at_
      dsimp only
      split
      · rename_i more
        exact dispatched.marks position more rfl rfl rfl rfl
      · rename_i last
        refine dispatched.callerGoesOn rfl rfl rfl (fun t within => absurd within (Nat.not_lt_zero t))
          fun t => ?_
        rw [PoolState.marked, PoolState.marked, position, Nat.le_antisymm at_ (Nat.not_lt.mp last)]
  | polling i =>
      rw [position] at at_
      dsimp only
      split
      · split
        · refine dispatched.callerGoesOn rfl rfl rfl
            (fun t within => absurd within (Nat.not_lt_zero t)) fun t => ?_
          rw [PoolState.marked, PoolState.marked, position]
        · rename_i seen
          refine dispatched.callerGoesOn rfl rfl rfl (fun t within => ?_) fun t => ?_
          · rcases Nat.lt_succ_iff_lt_or_eq.mp within with before | rfl
            · exact at_ t before
            · exact Bool.of_not_eq_true seen
          · rw [PoolState.marked, PoolState.marked, position]
      · rename_i all
        refine dispatched.callerGoesOn rfl rfl rfl
          (fun t within => at_ t (Nat.lt_of_lt_of_le within (Nat.not_lt.mp all))) fun t => ?_
        rw [PoolState.marked, PoolState.marked, position]
  | releasing =>
      rw [position] at at_
      refine dispatched.callerGoesOn rfl rfl rfl at_ fun t => ?_
      rw [PoolState.marked, PoolState.marked, position]
  | returned code => exact dispatched

theorem Dispatched.step (dispatched : Dispatched job st) (actor : Actor) :
    Dispatched job (job.step actor st) := by
  cases actor with
  | caller => exact dispatched.stepCaller
  | worker threadIndex =>
      rw [ScriptJob.step]
      split
      · rename_i threads
        exact dispatched.stepWorker threads
      · exact dispatched

theorem ScriptJob.num_eq (job : ScriptJob) (small : job.codes.length < 2 ^ 31) :
    job.num = min job.codes.length job.threadNumber := by
  have size : job.workSize = job.codes.length := by
    unfold workSize
    rw [Int.bmod_eq_of_le]
    · omega
    · omega
  rw [num, size]
  split
  · omega
  · omega

/-- When the flags are taken away, every script was run once. -/
theorem Dispatched.complete (dispatched : Dispatched job st) (some_ : 0 < job.threadNumber)
    (small : job.codes.length < 2 ^ 31) (given : ∀ t < job.num, st.marked job t = true)
    (free : ∀ t < job.num, st.subTaskFlag t = false) (i : Nat) :
    i ∈ st.ran ↔ i < job.codes.length := by
  refine (dispatched.ran i).trans (and_iff_left_of_imp fun inside => ?_)
  have within : i % job.threadNumber < job.num := by
    have least := Nat.mod_le i job.threadNumber
    have below := Nat.mod_lt i some_
    rw [job.num_eq small]
    exact Nat.lt_min.mpr ⟨Nat.lt_of_le_of_lt least inside, below⟩
  rw [PoolState.upTo, dispatched.waiting _ (free _ within), given _ within, free _ within]
  exact inside

/-! Failures. -/

/-- The script has failed. -/
def Failing (job : ScriptJob) (i : Nat) : Prop :=
  job.codes.getD i uscriptSuccess ≠ uscriptSuccess

instance (job : ScriptJob) (i : Nat) : Decidable (Failing job i) :=
  inferInstanceAs (Decidable (_ ≠ _))

/-- The script that is in the hands of a worker. -/
def WorkerState.script : WorkerState → Option Nat
  | .executed i _ | .stored i | .failed i | .saving i _ => some i
  | .waiting | .loop _ | .finished => none

/-- The worker relies on the failure in `ret`: it has still to test it, or to read it again. -/
def Exposed (job : ScriptJob) : WorkerState → Prop
  | .stored i => Failing job i
  | .failed _ => True
  | _ => False

instance (job : ScriptJob) : ∀ worker, Decidable (Exposed job worker)
  | .stored i => inferInstanceAs (Decidable (Failing job i))
  | .failed _ => .isTrue trivial
  | .waiting | .loop _ | .executed _ _ | .saving _ _ | .finished => .isFalse id

/-- A step does not overwrite a failure in `ret` with a success before the worker that relies
on it has read it. -/
def StoreSafe (job : ScriptJob) : Actor → PoolState → Prop
  | .caller, _ => True
  | .worker t, st =>
      ∀ other < job.threadNumber, other ≠ t → Exposed job (st.workers other) →
        ∀ i < job.codes.length, st.workers t ≠ .executed i uscriptSuccess

instance (job : ScriptJob) : ∀ actor st, Decidable (StoreSafe job actor st)
  | .caller, _ => .isTrue trivial
  | .worker t, st =>
      inferInstanceAs (Decidable (∀ other < job.threadNumber, other ≠ t →
        Exposed job (st.workers other) →
        ∀ i < job.codes.length, st.workers t ≠ .executed i uscriptSuccess))

/-- Failures are on their way to `retCode`, or there. -/
structure FailuresKept (job : ScriptJob) (st : PoolState) : Prop where
  exposed : ∀ t, Exposed job (st.workers t) → st.ret ≠ uscriptSuccess
  saving : ∀ t i code, st.workers t = .saving i code → code ≠ uscriptSuccess
  recorded : ∀ i ∈ st.ran, Failing job i →
    st.retCode ≠ uscriptSuccess ∨ (st.workers (i % job.threadNumber)).script = some i

theorem FailuresKept.start (job : ScriptJob) (available : Bool) :
    FailuresKept job { available } where
  exposed _ relies := nomatch relies
  saving _ _ _ position := nomatch position
  recorded _ member := nomatch member

theorem FailuresKept.moved (kept : FailuresKept job st)
    (workers : next.workers = Function.update st.workers t worker)
    (relies : Exposed job worker → next.ret ≠ uscriptSuccess)
    (others : ∀ other, other ≠ t → Exposed job (st.workers other) → next.ret ≠ uscriptSuccess)
    (saving : ∀ i code, worker = .saving i code → code ≠ uscriptSuccess)
    (log : ∀ i ∈ next.ran, i ∈ st.ran ∨ worker.script = some i ∧ i % job.threadNumber = t)
    (result : st.retCode ≠ uscriptSuccess → next.retCode ≠ uscriptSuccess)
    (hand : ∀ i, (st.workers t).script = some i → Failing job i →
      next.retCode ≠ uscriptSuccess ∨ worker.script = some i) : FailuresKept job next where
  exposed other at_ := by
    rw [workers] at at_
    by_cases same : other = t
    · rw [same, Function.update_self] at at_
      exact relies at_
    · rw [Function.update_of_ne same] at at_
      exact others other same at_
  saving other i code position := by
    rw [workers] at position
    by_cases same : other = t
    · rw [same, Function.update_self] at position
      exact saving i code position
    · rw [Function.update_of_ne same] at position
      exact kept.saving other i code position
  recorded i member failing := by
    rw [workers]
    rcases log i member with before | ⟨taken, own⟩
    · rcases kept.recorded i before failing with saved | held
      · exact .inl (result saved)
      · by_cases same : i % job.threadNumber = t
        · rw [same] at held ⊢
          rw [Function.update_self]
          exact hand i held failing
        · rw [Function.update_of_ne same]
          exact .inr held
    · rw [own, Function.update_self]
      exact .inr taken

theorem Dispatched.exposed_lt (dispatched : Dispatched job st) {threads : Nat}
    (some_ : threads < job.threadNumber) (relies : Exposed job (st.workers t)) :
    t < job.threadNumber := by
  have at_ := dispatched.worker t
  have below (i : Nat) : i % job.threadNumber < job.threadNumber :=
    Nat.mod_lt i (Nat.zero_lt_of_lt some_)
  cases position : st.workers t with
  | stored i =>
      rw [position] at at_
      exact at_.1 ▸ below i
  | failed i =>
      rw [position] at at_
      exact at_.1 ▸ below i
  | waiting => exact (position ▸ relies).elim
  | loop i => exact (position ▸ relies).elim
  | executed i code => exact (position ▸ relies).elim
  | saving i code => exact (position ▸ relies).elim
  | finished => exact (position ▸ relies).elim

theorem FailuresKept.stepWorker (kept : FailuresKept job st) (dispatched : Dispatched job st)
    (threads : t < job.threadNumber) (safe : StoreSafe job (.worker t) st) :
    FailuresKept job (job.stepWorker t st) := by
  rw [ScriptJob.stepWorker]
  have at_ := dispatched.worker t
  have others (other : Nat) (_ : other ≠ t) := kept.exposed other
  have own := kept.exposed t
  have nowhere (i : Nat) (inHand : (none : Option Nat) = some i) : False := nomatch inHand
  cases position : st.workers t with
  | waiting =>
      dsimp only
      split
      · refine kept.moved rfl nofun others nofun (fun i before => .inl before) id fun i held => ?_
        rw [position] at held
        exact (nowhere i held).elim
      · exact kept
  | loop i =>
      rw [position] at at_
      have loose (j : Nat) (held : (st.workers t).script = some j) : False := by
        rw [position] at held
        exact nowhere j held
      dsimp only
      split
      · refine @FailuresKept.moved _ _ (ScriptJob.moved _ _ _) _ _ kept rfl nofun others nofun
          (fun j member => ?_) id fun j held => (loose j held).elim
        rcases List.mem_append.mp member with before | new
        · exact .inl before
        · obtain rfl := List.mem_singleton.mp new
          exact .inr ⟨rfl, at_⟩
      · exact kept.moved rfl nofun others nofun (fun j before => .inl before) id
          fun j held => (loose j held).elim
  | executed i code =>
      rw [position] at at_
      refine @FailuresKept.moved _ _ (ScriptJob.moved _ _ _) _ _ kept rfl ?_ ?_ nofun
        (fun j before => .inl before) id fun j held _ => ?_
      · intro failing
        change Failing job i at failing
        rwa [Failing, List.getD_eq_getElem?_getD, at_.2] at failing
      · intro other differs relies
        rintro rfl
        exact safe other (dispatched.exposed_lt threads relies) differs relies i
          (List.getElem?_eq_some_iff.mp at_.2).1 position
      · rw [position] at held
        exact .inr held
  | stored i =>
      dsimp only
      split
      · rename_i found
        refine kept.moved rfl (fun _ => found) others nofun (fun j before => .inl before) id
          fun j held _ => ?_
        rw [position] at held
        exact .inr held
      · rename_i succeeded
        refine kept.moved rfl nofun others nofun (fun j before => .inl before) id
          fun j held failing => ?_
        rw [position] at held own
        obtain rfl := Option.some.inj held
        exact absurd (own failing) succeeded
  | failed i =>
      rw [position] at own
      refine kept.moved rfl nofun others ?_ (fun j before => .inl before) id fun j held _ => ?_
      · rintro j code saved
        obtain ⟨-, rfl⟩ := WorkerState.saving.inj saved
        exact own trivial
      · rw [position] at held
        exact .inr held
  | saving i code =>
      have failure := kept.saving t i code position
      exact @FailuresKept.moved _ _ (ScriptJob.moved _ _ _) _ _ kept rfl nofun others nofun
        (fun j before => .inl before) (fun _ => failure) fun j _ _ => .inl failure
  | finished =>
      refine @FailuresKept.moved _ _ (ScriptJob.moved _ _ _) _ _ kept rfl nofun others nofun
        (fun j before => .inl before) id fun j held => ?_
      rw [position] at held
      exact (nowhere j held).elim

/-- The caller leaves all of this alone. -/
theorem ScriptJob.stepCaller_frame (job : ScriptJob) (st : PoolState) :
    (job.stepCaller st).ret = st.ret ∧ (job.stepCaller st).retCode = st.retCode ∧
      (job.stepCaller st).workers = st.workers ∧ (job.stepCaller st).ran = st.ran := by
  rw [stepCaller]
  cases st.caller with
  | called => dsimp only; split <;> exact ⟨rfl, rfl, rfl, rfl⟩
  | acquiring => dsimp only; split <;> exact ⟨rfl, rfl, rfl, rfl⟩
  | marking i => dsimp only; split <;> exact ⟨rfl, rfl, rfl, rfl⟩
  | polling i =>
      dsimp only
      split
      · split <;> exact ⟨rfl, rfl, rfl, rfl⟩
      · exact ⟨rfl, rfl, rfl, rfl⟩
  | releasing => exact ⟨rfl, rfl, rfl, rfl⟩
  | returned code => exact ⟨rfl, rfl, rfl, rfl⟩

theorem FailuresKept.stepCaller (kept : FailuresKept job st) :
    FailuresKept job (job.stepCaller st) := by
  obtain ⟨ret, retCode, workers, log⟩ := job.stepCaller_frame st
  constructor
  · rw [ret, workers]
    exact kept.exposed
  · rw [workers]
    exact kept.saving
  · rw [log, retCode, workers]
    exact kept.recorded

/-- The result is not a success once a script has failed. -/
def ReturnsFailure (job : ScriptJob) (st : PoolState) : Prop :=
  ∀ code, st.caller = .returned code → ∀ i, Failing job i → code ≠ uscriptSuccess

theorem Failing.lt {i : Nat} (failing : Failing job i) : i < job.codes.length := by
  by_contra beyond
  refine failing ?_
  rw [List.getD_eq_getElem?_getD, List.getElem?_eq_none (Nat.not_lt.mp beyond)]
  rfl

theorem ReturnsFailure.stepCaller (returns : ReturnsFailure job st) (dispatched : Dispatched job st)
    (kept : FailuresKept job st) (some_ : 0 < job.threadNumber)
    (small : job.codes.length < 2 ^ 31) : ReturnsFailure job (job.stepCaller st) := by
  have at_ := dispatched.caller
  rw [ScriptJob.stepCaller]
  cases position : st.caller with
  | called =>
      dsimp only
      split
      · rename_i empty
        intro code _ i failing
        have below := failing.lt
        rw [empty] at below
        exact absurd below (Nat.not_lt_zero i)
      · exact nofun
  | acquiring =>
      rw [position] at at_
      have free : st.available = true := at_
      dsimp only
      rw [if_pos free]
      exact nofun
  | marking i => dsimp only; split <;> exact nofun
  | polling i =>
      dsimp only
      split
      · split <;> exact nofun
      · exact nofun
  | releasing =>
      rw [position] at at_
      rintro code ⟨⟩ i failing
      have given (t : Nat) (within : t < job.num) : st.marked job t = true := by
        rw [PoolState.marked, position]
        exact decide_eq_true within
      have member := (dispatched.complete some_ small given at_ i).mpr failing.lt
      rcases kept.recorded i member failing with saved | held
      · exact saved
      · have within : i % job.threadNumber < job.num := by
          have least := Nat.mod_le i job.threadNumber
          have below := Nat.mod_lt i some_
          rw [job.num_eq small]
          exact Nat.lt_min.mpr ⟨Nat.lt_of_le_of_lt least failing.lt, below⟩
        rw [dispatched.waiting _ (at_ _ within)] at held
        exact nomatch held
  | returned code => exact returns

theorem ScriptJob.stepWorker_caller (job : ScriptJob) (st : PoolState) (t : Nat) :
    (job.stepWorker t st).caller = st.caller := by
  rw [stepWorker]
  cases st.workers t with
  | waiting => dsimp only; split <;> rfl
  | loop i => dsimp only; split <;> rfl
  | executed i code => rfl
  | stored i => dsimp only; split <;> rfl
  | failed i => rfl
  | saving i code => rfl
  | finished => rfl

/-- All that is kept along a safe run. -/
structure Kept (job : ScriptJob) (st : PoolState) : Prop where
  dispatched : Dispatched job st
  failures : FailuresKept job st
  returns : ReturnsFailure job st

theorem FailuresKept.step (kept : FailuresKept job st) (dispatched : Dispatched job st)
    {actor : Actor} (safe : StoreSafe job actor st) : FailuresKept job (job.step actor st) := by
  cases actor with
  | caller => exact kept.stepCaller
  | worker t =>
      rw [ScriptJob.step]
      split
      · rename_i threads
        exact kept.stepWorker dispatched threads safe
      · exact kept

theorem Kept.step (kept : Kept job st) (some_ : 0 < job.threadNumber)
    (small : job.codes.length < 2 ^ 31) {actor : Actor} (safe : StoreSafe job actor st) :
    Kept job (job.step actor st) := by
  refine ⟨kept.dispatched.step actor, kept.failures.step kept.dispatched safe, ?_⟩
  cases actor with
  | caller => exact kept.returns.stepCaller kept.dispatched kept.failures some_ small
  | worker t =>
      rw [ScriptJob.step]
      split
      · exact fun code returned => kept.returns code (job.stepWorker_caller st t ▸ returned)
      · exact kept.returns

/-- What `ExecuteScript` promises once it returns: every script was run once, and a failure of
one is not taken for a success. -/
def Faithful (job : ScriptJob) (st : PoolState) : Prop :=
  ∀ code, st.caller = .returned code →
    (st.ran.Nodup ∧ ∀ i, i ∈ st.ran ↔ i < job.codes.length) ∧
      ((∃ i, Failing job i) → code ≠ uscriptSuccess)

theorem Dispatched.ranOnce (dispatched : Dispatched job st) (some_ : 0 < job.threadNumber)
    (small : job.codes.length < 2 ^ 31) {code : Int} (returned : st.caller = .returned code) :
    st.ran.Nodup ∧ ∀ i, i ∈ st.ran ↔ i < job.codes.length := by
  have free := dispatched.caller
  rw [returned] at free
  have given (t : Nat) (within : t < job.num) : st.marked job t = true := by
    rw [PoolState.marked, returned]
    exact decide_eq_true within
  exact ⟨dispatched.once, dispatched.complete some_ small given free⟩

/-- Whatever the schedule, every script is run once before the pool's task is done. -/
theorem runSchedule_ranOnce (some_ : 0 < job.threadNumber) (small : job.codes.length < 2 ^ 31)
    (schedule : List Actor) {code : Int}
    (returned : (runSchedule job.step { available := true } schedule).caller = .returned code) :
    (runSchedule job.step { available := true } schedule).ran.Nodup ∧
      ∀ i, i ∈ (runSchedule job.step { available := true } schedule).ran ↔ i < job.codes.length :=
  (@runSchedule_invariant _ _ job.step (Dispatched job)
    (fun actor _ dispatched => dispatched.step actor) _ schedule (Dispatched.start job)).ranOnce
    some_ small returned

theorem Kept.faithful (kept : Kept job st) (some_ : 0 < job.threadNumber)
    (small : job.codes.length < 2 ^ 31) : Faithful job st := by
  intro code returned
  exact ⟨kept.dispatched.ranOnce some_ small returned,
    fun ⟨i, failing⟩ => kept.returns code returned i failing⟩

/-- In a run of a pool with a thread and a free slot that never overwrites a failure before it
was read, every script is run once and no failure is lost. -/
theorem executeScript_faithful (some_ : 0 < job.threadNumber) (small : job.codes.length < 2 ^ 31)
    {schedule : List Actor}
    (safe : Along job.step (StoreSafe job) { available := true } schedule) :
    Faithful job (runSchedule job.step { available := true } schedule) := by
  have start : Kept job { available := true } :=
    ⟨Dispatched.start job, FailuresKept.start job true, nofun⟩
  have kept := @Along.invariant _ _ job.step (StoreSafe job) (Kept job)
    (fun _ _ kept safe => kept.step some_ small safe) _ _ start safe
  exact kept.faithful some_ small

/-- Two scripts of which the first fails, and two threads. -/
def twoScripts : ScriptJob where
  codes := [508, 0]
  threadNumber := 2

/-- The caller sets both flags and turns to its poll. -/
def dispatchTwo : List Actor :=
  List.replicate 5 .caller

/-- The first worker reads its failure before the second stores its success. -/
def failureRead : List Actor :=
  dispatchTwo ++ List.replicate 7 (.worker 0) ++ List.replicate 6 (.worker 1) ++
    [.worker 0, .worker 0] ++ List.replicate 4 .caller

theorem twoScripts_faithful :
    (runSchedule twoScripts.step { available := true } failureRead).caller = .returned 508 ∧
      Faithful twoScripts (runSchedule twoScripts.step { available := true } failureRead) :=
  ⟨by decide +kernel, executeScript_faithful (by decide) (by decide) (by decide +kernel)⟩

/-- The second worker stores its success between the store and the test of the first. -/
def failureOverwritten : List Actor :=
  dispatchTwo ++ List.replicate 3 (.worker 0) ++ List.replicate 6 (.worker 1) ++
    List.replicate 4 (.worker 0) ++ List.replicate 4 .caller

/-- The failure of the first script is lost. -/
theorem twoScripts_failureLost :
    ¬ ∀ (job : ScriptJob) (schedule : List Actor),
      Faithful job (runSchedule job.step { available := true } schedule) := by
  intro faithful
  have returned : (runSchedule twoScripts.step { available := true } failureOverwritten).caller =
      .returned uscriptSuccess := by
    decide +kernel
  exact (faithful twoScripts failureOverwritten _ returned).2 ⟨0, by decide⟩ rfl

end Updater.Script
