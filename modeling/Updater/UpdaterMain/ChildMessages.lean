import Mathlib.Data.List.Induction
import Updater.UpdaterMain.ChildProcess
import Updater.Utils.MiscArguments

/-! What the threads of the child post arrives in the parent, each message once and in its order,
and decides what the installation returns. -/

set_option autoImplicit false

namespace Updater.UpdaterMain

open Utils
open Base (readLine readLine_of_fits runSchedule runSchedule_invariant)

theorem splitChars_append {sep : Char} {front : List Char} (whole : sep ∉ front) (back : List Char) :
    splitChars [sep] (front ++ sep :: back) = front :: splitChars [sep] back := by
  induction front with
  | nil =>
      rw [List.nil_append, splitChars, if_pos (List.mem_singleton.mpr rfl)]
  | cons char front ih =>
      obtain ⟨other, later⟩ := not_or.mp fun either => whole (List.mem_cons.mpr either)
      rw [List.cons_append, splitChars, if_neg (fun same => other (List.mem_singleton.mp same).symm),
        ih later]

theorem cString_append {front : List Char} (whole : nul ∉ front) (back : List Char) :
    cString (front ++ back) = front ++ cString back := by
  rw [cString, List.takeWhile_append_of_pos]
  · rfl
  · intro char member
    exact decide_eq_true fun same => whole (same ▸ member)

theorem bufferText_line {text : List Char} (ended : nul ∉ text) :
    bufferText (text ++ ['\n']) = text := by
  have newline : cString ['\n'] = ['\n'] := by decide
  rw [bufferText, cString_append ended, newline,
    if_pos (List.mem_append_right _ List.mem_cons_self), List.reverse_append,
    List.reverse_singleton, List.singleton_append, List.dropWhile_cons_of_neg (by simp),
    List.drop_one, List.tail_cons, List.reverse_reverse]

/-- The text in front stays, when a buffer is cut. -/
theorem prefix_bufferText {front : List Char} (line : '\n' ∉ front) (ended : nul ∉ front)
    (back : List Char) : front <+: bufferText (front ++ back) := by
  rw [bufferText, cString_append ended]
  split
  · rename_i cut
    have inside : '\n' ∈ cString back := (List.mem_append.mp cut).resolve_left line
    have stops : (cString back).reverse.dropWhile (· ≠ '\n') ≠ [] := by
      intro empty
      have all := List.dropWhile_eq_nil_iff.mp empty '\n' (List.mem_reverse.mpr inside)
      exact absurd all (by decide)
    rw [List.reverse_append, List.dropWhile_append]
    rw [if_neg (by simpa [List.isEmpty_iff] using stops)]
    cases rest : (cString back).reverse.dropWhile (· ≠ '\n') with
    | nil => exact absurd rest stops
    | cons first rest =>
        rw [List.cons_append, List.drop_one, List.tail_cons, List.reverse_append,
          List.reverse_reverse]
        exact List.prefix_append _ _
  · exact List.prefix_append _ _

/-- The text in front is read in one piece. -/
theorem prefix_readLine {front : List Char} (line : '\n' ∉ front) {room : Nat}
    (fits : front.length ≤ room) (back : List Char) :
    ∃ more, (readLine '\n' room (front ++ back)).1 = front ++ more := by
  induction front generalizing room with
  | nil => exact ⟨_, rfl⟩
  | cons first front ih =>
      obtain ⟨other, later⟩ := not_or.mp fun either => line (List.mem_cons.mpr either)
      cases room with
      | zero => exact absurd fits (Nat.not_succ_le_zero _)
      | succ room =>
          obtain ⟨more, read⟩ := ih later (Nat.le_of_succ_le_succ fits)
          refine ⟨more, ?_⟩
          rw [List.cons_append, readLine, if_neg fun same => other same.symm]
          dsimp only
          rw [read]
          rfl

/-- However long the result is, the parent finds it at the head of the pipe. -/
theorem find_resultText (ret : Int) (rest : List Char) :
    find subProcessResult (bufferText (readLine '\n' (maxBufferSize - 2)
      (resultText ret ++ '\n' :: rest)).1) ≠ none := by
  obtain ⟨more, read⟩ := @prefix_readLine subProcessResult (by decide) (maxBufferSize - 2) (by decide)
    (':' :: formatInt ret ++ '\n' :: rest)
  rw [resultText, List.append_assoc, read]
  exact find_of_infix (prefix_bufferText (by decide) (by decide) more).isInfix

namespace Post

/-- A message that is one line of the pipe, and not the last one. -/
structure Clean (post : Post) : Prop where
  cmd : ':' ∉ post.cmd
  line : '\n' ∉ post.text
  ended : nul ∉ post.text
  short : post.text.length < maxBufferSize - 2
  other : find subProcessResult post.text = none

instance (post : Post) : Decidable post.Clean :=
  decidable_of_iff (':' ∉ post.cmd ∧ '\n' ∉ post.text ∧ nul ∉ post.text ∧
      post.text.length < maxBufferSize - 2 ∧ find subProcessResult post.text = none)
    ⟨fun all => ⟨all.1, all.2.1, all.2.2.1, all.2.2.2.1, all.2.2.2.2⟩,
      fun clean => ⟨clean.cmd, clean.line, clean.ended, clean.short, clean.other⟩⟩

/-- The line in the pipe. -/
def line (post : Post) : List Char :=
  post.text ++ ['\n']

def asksRetry (post : Post) : Bool :=
  decide (trim post.cmd = updaterRetryTag)

/-- The fault that a `retry_update` names: the content up to its first colon. -/
def fault (post : Post) : List Char :=
  trim ((splitChars [':'] post.content).headD [])

end Post

/-- What the parent makes of a message. -/
def receive (parent : Parent) (post : Post) : Parent :=
  handleChildOutput post.text parent

theorem receive_retry {post : Post} (clean : post.Clean) (parent : Parent) :
    (receive parent post).retryUpdate = (parent.retryUpdate || post.asksRetry) ∧
      (receive parent post).faultInfo = if post.asksRetry then post.fault else parent.faultInfo := by
  have tags : updaterRetryTag ≠ "write_log".toList := by decide
  rw [receive, Post.text, handleChildOutput, splitChars_append clean.cmd, Post.asksRetry, Post.fault]
  cases content : splitChars [':'] post.content with
  | nil => exact absurd content (splitChars_ne_nil _ _)
  | cons info rest =>
      dsimp only [List.headD_cons]
      by_cases retry : trim post.cmd = updaterRetryTag
      · rw [if_neg (retry ▸ tags), if_pos retry, decide_eq_true retry, Bool.or_true]
        exact ⟨rfl, rfl⟩
      · rw [if_neg retry, decide_eq_false retry, Bool.or_false]
        split
        · exact ⟨rfl, rfl⟩
        · split
          · exact ⟨rfl, rfl⟩
          · split
            · split
              · exact ⟨rfl, rfl⟩
              · exact ⟨rfl, rfl⟩
            · split
              · exact ⟨rfl, rfl⟩
              · split
                · exact ⟨rfl, rfl⟩
                · exact ⟨rfl, rfl⟩

/-- The last message that asks for a retry names the fault. -/
theorem foldl_receive {posts : List Post} (clean : ∀ post ∈ posts, post.Clean) :
    (posts.foldl receive {}).retryUpdate = posts.any Post.asksRetry ∧
      (posts.foldl receive {}).faultInfo =
        ((posts.filter Post.asksRetry).getLast?.map Post.fault).getD [] := by
  induction posts using List.reverseRecOn with
  | nil => exact ⟨rfl, rfl⟩
  | append_singleton posts last ih =>
      obtain ⟨retry, fault⟩ := ih fun post member => clean post (List.mem_append_left _ member)
      have received := @receive_retry last (clean last (List.mem_append_right _ List.mem_cons_self))
        (posts.foldl receive {})
      rw [List.foldl_append, List.foldl_cons, List.foldl_nil, received.1, received.2, retry, fault,
        List.any_append, List.filter_append]
      refine ⟨by simp, ?_⟩
      cases asks : last.asksRetry with
      | true => simp [asks]
      | false => simp [asks]

/-- What is on its way to the parent. -/
inductive Flight (session : Session) : Prop where
  | open_ (handled waiting : List Post) (rest : List Char)
      (posted : session.posted.map (·.2) = handled ++ waiting)
      (reading : session.reading = true)
      (parent : session.parent = handled.foldl receive {})
      (pipe : session.pipe = waiting.flatMap Post.line ++ rest)
      (unreported : session.reported = none → rest = [])
      (reported : ∀ code, session.reported = some code → ∃ ret, rest = resultText ret ++ ['\n'])
  | closed (reading : session.reading = false)
      (parent : session.parent = (session.posted.map (·.2)).foldl receive {})
      (past : session.ended = none → session.reported ≠ none)

/-- What the threads have posted and still post are their messages, and no result is printed before
the last of them. -/
structure Posting (threads : List (List Post)) (session : Session) : Prop where
  ordered : ∀ thread, (session.posted.filter (·.1 = thread)).map (·.2) ++
    (session.threads[thread]?).getD [] = (threads[thread]?).getD []
  done : session.reported ≠ none → session.threads.flatten = []
  exited : ∀ status, session.ended = some (.exited status) →
    ∃ code, session.reported = some code ∧ status = (code % 256).toNat
  flight : Flight session

variable {threads : List (List Post)} {session : Session}

theorem Posting.start (threads : List (List Post)) : Posting threads { threads } where
  ordered _ := rfl
  done printed := absurd rfl printed
  exited _ ended := absurd ended.symm (Option.some_ne_none _)
  flight := .open_ [] [] [] rfl rfl rfl rfl (fun _ => rfl) fun _ reported =>
    absurd reported.symm (Option.some_ne_none _)

/-- A message that was posted is one of its thread's. -/
theorem Posting.mem_thread (posting : Posting threads session) {post : Post}
    (member : post ∈ session.posted.map (·.2)) : ∃ thread ∈ threads, post ∈ thread := by
  obtain ⟨⟨thread, message⟩, inside, rfl⟩ := List.mem_map.mp member
  have own : message ∈ (threads[thread]?).getD [] := by
    rw [← posting.ordered thread]
    refine List.mem_append_left _ (List.mem_map.mpr ⟨(thread, message), ?_, rfl⟩)
    exact List.mem_filter.mpr ⟨inside, decide_eq_true rfl⟩
  cases found : threads[thread]? with
  | none =>
      rw [found] at own
      exact absurd own List.not_mem_nil
  | some messages =>
      rw [found] at own
      exact ⟨messages, List.mem_of_getElem? found, own⟩

/-- A thread's next message goes to the end of what was posted. -/
theorem Posting.ordered_post (posting : Posting threads session) {thread : Nat} {message : Post}
    {later : List Post} (next : session.threads[thread]? = some (message :: later)) (other : Nat) :
    ((session.posted ++ [(thread, message)]).filter (·.1 = other)).map (·.2) ++
      ((session.threads.set thread later)[other]?).getD [] = (threads[other]?).getD [] := by
  rw [← posting.ordered other, List.filter_append, List.map_append]
  have inside : thread < session.threads.length := (List.getElem?_eq_some_iff.mp next).1
  by_cases same : thread = other
  · subst same
    rw [next, List.getElem?_set_self inside]
    simp
  · rw [List.getElem?_set_ne same, List.filter_cons_of_neg (by simpa using same)]
    simp

theorem Posting.post (posting : Posting threads session) (thread : Nat) :
    Posting threads (session.post thread) := by
  rw [Session.post]
  split
  · rename_i message later ended reported next
    split
    · rename_i reading
      refine ⟨posting.ordered_post next, fun printed => absurd reported printed,
        fun status exits => absurd (ended.symm.trans exits) (Option.some_ne_none _).symm, ?_⟩
      cases posting.flight with
      | open_ handled waiting rest posted _ parent pipe unreported _ =>
          refine .open_ handled (waiting ++ [message]) [] ?_ reading parent ?_ (fun _ => rfl)
            fun code printed => absurd (reported.symm.trans printed) (Option.some_ne_none _).symm
          · dsimp only
            rw [List.map_append, posted, List.append_assoc]
            rfl
          · dsimp only
            rw [pipe, unreported reported, List.append_nil, List.append_nil, List.flatMap_append,
              List.flatMap_singleton, Post.line, List.append_assoc]
      | closed closed _ _ => exact absurd (reading.symm.trans closed) (by decide)
    · rename_i reading
      cases posting.flight with
      | open_ handled waiting rest posted open_ _ _ _ _ => exact absurd open_ reading
      | closed _ _ past => exact absurd reported (past ended)
  · exact posting

theorem Posting.report (posting : Posting threads session) (ret code : Int) :
    Posting threads (session.report ret code) := by
  rw [Session.report]
  split
  · rename_i ended reported
    split
    · rename_i done
      split
      · rename_i reading
        refine ⟨posting.ordered, fun _ => done,
          fun status exits => absurd (ended.symm.trans exits) (Option.some_ne_none _).symm, ?_⟩
        cases posting.flight with
        | open_ handled waiting rest posted _ parent pipe unreported _ =>
            refine .open_ handled waiting (resultText ret ++ ['\n']) posted reading parent ?_
              (fun none => absurd none.symm (Option.some_ne_none _).symm) fun _ _ => ⟨ret, rfl⟩
            dsimp only
            rw [pipe, unreported reported, List.append_nil, List.append_assoc]
        | closed closed _ _ => exact absurd (reading.symm.trans closed) (by decide)
      · rename_i reading
        cases posting.flight with
        | open_ handled waiting rest posted open_ _ _ _ _ => exact absurd open_ reading
        | closed _ _ past => exact absurd reported (past ended)
    · exact posting
  · exact posting

/-- The end of the child leaves alone what is on its way. -/
theorem Posting.ending (posting : Posting threads session) (status : WaitStatus)
    (exited : ∀ code, status = .exited code →
      ∃ returned, session.reported = some returned ∧ code = (returned % 256).toNat) :
    Posting threads { session with ended := some status } where
  ordered := posting.ordered
  done := posting.done
  exited code ended := exited code (Option.some.inj ended)
  flight := by
    cases posting.flight with
    | open_ handled waiting rest posted reading parent pipe unreported reported =>
        exact .open_ handled waiting rest posted reading parent pipe unreported reported
    | closed reading parent past =>
        exact .closed reading parent fun none => absurd none (Option.some_ne_none _)

theorem Posting.exit (posting : Posting threads session) : Posting threads session.exit := by
  rw [Session.exit]
  split
  · rename_i code _ reported
    exact posting.ending _ fun status same => ⟨code, reported, (WaitStatus.exited.inj same).symm⟩
  · exact posting

theorem Posting.kill (posting : Posting threads session) (signal : Nat) :
    Posting threads (session.kill signal) := by
  rw [Session.kill]
  split
  · exact posting.ending _ fun status same => by cases same
  · exact posting

/-- The parent takes the first message that is on its way, and after the last one the result. -/
theorem Posting.read (posting : Posting threads session)
    (clean : ∀ thread ∈ threads, ∀ post ∈ thread, post.Clean) : Posting threads session.read := by
  rw [Session.read]
  split
  · rename_i reading
    cases posting.flight with
    | closed closed _ _ => exact absurd (reading.symm.trans closed) (by decide)
    | open_ handled waiting rest posted _ parent pipe unreported reported =>
        split
        · rename_i empty
          split
          · rename_i ended
            refine ⟨posting.ordered, posting.done, posting.exited, .closed rfl ?_ fun none => ?_⟩
            · have nothing : waiting.flatMap Post.line = [] :=
                (List.append_eq_nil_iff.mp (pipe.symm.trans empty)).1
              have none : waiting = [] := by
                cases waiting with
                | nil => rfl
                | cons message later => exact absurd nothing (by simp [Post.line])
              rw [none, List.append_nil] at posted
              exact parent.trans (congrArg _ posted.symm)
            · exact absurd ended (by simp only at none; simp [none])
          · exact posting
        · split
          · cases waiting with
            | nil =>
                rw [List.flatMap_nil, List.nil_append] at pipe
                rename_i some_ _
                obtain ⟨code, printed⟩ := Option.ne_none_iff_exists'.mp
                  fun none => some_ (pipe.trans (unreported none))
                obtain ⟨ret, result⟩ := reported code printed
                have found := find_resultText ret []
                rw [pipe, result]
                dsimp only
                rw [if_pos found]
                rw [List.append_nil] at posted
                exact ⟨posting.ordered, posting.done, posting.exited,
                  .closed rfl (parent.trans (congrArg _ posted.symm)) fun _ none =>
                    absurd (printed.symm.trans none) (Option.some_ne_none _)⟩
            | cons message later =>
                have member : message ∈ session.posted.map (·.2) := by
                  rw [posted]
                  exact List.mem_append_right _ List.mem_cons_self
                obtain ⟨thread, listed, inside⟩ := posting.mem_thread member
                have good := clean thread listed message inside
                have stream : session.pipe =
                    message.text ++ '\n' :: (later.flatMap Post.line ++ rest) := by
                  rw [pipe, List.flatMap_cons, Post.line]
                  simp only [List.append_assoc, List.cons_append, List.nil_append]
                rw [stream, readLine_of_fits good.line good.short]
                dsimp only
                rw [bufferText_line good.ended, good.other, if_neg (fun different => different rfl)]
                refine ⟨posting.ordered, posting.done, posting.exited,
                  .open_ (handled ++ [message]) later rest ?_ reading ?_ rfl unreported reported⟩
                · dsimp only
                  rw [posted, List.append_assoc]
                  rfl
                · dsimp only
                  rw [List.foldl_append, parent]
                  rfl
          · exact posting
  · exact posting

/-- Step lemma, one case for each action. -/
theorem Posting.step (posting : Posting threads session)
    (clean : ∀ thread ∈ threads, ∀ post ∈ thread, post.Clean) (action : Action) :
    Posting threads (session.step action) := by
  cases action with
  | post thread => exact posting.post thread
  | report ret code => exact posting.report ret code
  | exit => exact posting.exit
  | kill signal => exact posting.kill signal
  | read => exact posting.read clean

theorem Posting.run (clean : ∀ thread ∈ threads, ∀ post ∈ thread, post.Clean) (actions : List Action) :
    Posting threads (runSchedule Session.step { threads } actions) :=
  runSchedule_invariant (fun action _ posting => posting.step clean action) actions (.start threads)

/-- What is known when the installation returns. -/
theorem Posting.status (posting : Posting threads session)
    (clean : ∀ thread ∈ threads, ∀ post ∈ thread, post.Clean) {status : UpdaterStatus}
    (returned : session.status = some status) :
    session.parent = (session.posted.map (·.2)).foldl receive {} ∧
      ∃ ended, session.ended = some ended ∧
        status = checkProcStatus ((session.posted.map (·.2)).any Post.asksRetry) ended := by
  rw [Session.status] at returned
  cases posting.flight with
  | open_ handled waiting rest posted reading parent pipe unreported reported =>
      rw [if_pos reading] at returned
      exact absurd returned.symm (Option.some_ne_none _)
  | closed reading parent past =>
      rw [reading, if_neg (by decide)] at returned
      obtain ⟨ended, found, same⟩ := Option.map_eq_some_iff.mp returned
      have asked := (foldl_receive fun post member => by
        obtain ⟨thread, listed, inside⟩ := posting.mem_thread member
        exact clean thread listed post inside).1
      rw [parent, asked] at same
      exact ⟨parent, ended, found, same.symm⟩

theorem checkProcStatus_retry {retryUpdate : Bool} {ended : WaitStatus} :
    checkProcStatus retryUpdate ended = .retry ↔
      retryUpdate = true ∨ ended = .signaled sigsegv := by
  cases retryUpdate with
  | true => exact iff_of_true rfl (.inl rfl)
  | false =>
      cases ended with
      | exited code =>
          rw [checkProcStatus]
          split
          · rename_i asked
            exact absurd asked (by decide)
          · split
            · exact iff_of_false (by simp) (by simp)
            · exact iff_of_false (by simp) (by simp)
      | signaled signal =>
          rw [checkProcStatus]
          split
          · rename_i asked
            exact absurd asked (by decide)
          · split
            · rename_i crashed
              exact iff_of_true rfl (.inr (crashed ▸ rfl))
            · rename_i other
              exact iff_of_false (by simp) (by simpa using other)

theorem checkProcStatus_success {retryUpdate : Bool} {ended : WaitStatus} :
    checkProcStatus retryUpdate ended = .success ↔ retryUpdate = false ∧ ended = .exited 0 := by
  cases retryUpdate with
  | true => exact iff_of_false (by simp [checkProcStatus]) (by simp)
  | false =>
      cases ended with
      | exited code => simp [checkProcStatus]
      | signaled signal =>
          refine iff_of_false ?_ (by simp)
          rw [checkProcStatus, if_neg (by decide)]
          split
          · simp
          · simp

/-- In every interleaving of the threads with the parent the messages arrive once and in order; the
installation returns after the last of them, and asks for a retry if one of them did. -/
theorem messages_delivered (clean : ∀ thread ∈ threads, ∀ post ∈ thread, post.Clean)
    (actions : List Action) :
    let session := runSchedule Session.step { threads } actions
    let posted := session.posted.map (·.2)
    (∃ handled waiting, posted = handled ++ waiting ∧ session.parent = handled.foldl receive {}) ∧
      (∀ thread, (session.posted.filter (·.1 = thread)).map (·.2) ++
        (session.threads[thread]?).getD [] = (threads[thread]?).getD []) ∧
      ∀ status, session.status = some status →
        session.parent = posted.foldl receive {} ∧
        (status = .retry ↔
          (∃ post ∈ posted, post.asksRetry = true) ∨ session.ended = some (.signaled sigsegv)) ∧
        (status = .success ↔
          (∀ post ∈ posted, post.asksRetry = false) ∧ session.threads.flatten = [] ∧
            session.ended = some (.exited 0) ∧
            ∃ code, session.reported = some code ∧ code % 256 = 0) ∧
        (session.retries ↔
          ∃ last ∈ (posted.filter Post.asksRetry).getLast?, last.fault ∈ retryMap) := by
  intro session posted
  have posting : Posting threads session := Posting.run clean actions
  have allClean : ∀ post ∈ posted, post.Clean := fun post member => by
    obtain ⟨thread, listed, inside⟩ := posting.mem_thread member
    exact clean thread listed post inside
  refine ⟨?_, posting.ordered, fun status returned => ?_⟩
  · cases posting.flight with
    | open_ handled waiting rest posted reading parent pipe unreported reported =>
        exact ⟨handled, waiting, posted, parent⟩
    | closed reading parent past => exact ⟨posted, [], (List.append_nil _).symm, parent⟩
  · obtain ⟨parent, ended, ends, same⟩ := posting.status clean returned
    obtain ⟨-, fault⟩ := foldl_receive allClean
    have retry : status = .retry ↔
        (∃ post ∈ posted, post.asksRetry = true) ∨ session.ended = some (.signaled sigsegv) := by
      rw [same, checkProcStatus_retry, List.any_eq_true, ends, Option.some_inj]
    refine ⟨parent, retry, ?_, ?_⟩
    · rw [same, checkProcStatus_success, List.any_eq_false, ends, Option.some_inj]
      constructor
      · rintro ⟨none, rfl⟩
        obtain ⟨code, reported, low⟩ := posting.exited 0 ends
        exact ⟨fun post member => by simpa using none post member,
          posting.done (by rw [reported]; exact Option.some_ne_none _), rfl, code, reported, by omega⟩
      · rintro ⟨none, -, rfl, -⟩
        exact ⟨fun post member => by simpa using none post member, rfl⟩
    · rw [Session.retries, returned, Option.some_inj, retry, parent, fault]
      constructor
      · rintro ⟨-, named⟩
        cases last : (posted.filter Post.asksRetry).getLast? with
        | none =>
            rw [last] at named
            exact absurd named (by decide)
        | some message =>
            rw [last] at named
            exact ⟨message, rfl, named⟩
      · rintro ⟨message, last, named⟩
        have member := List.mem_of_getLast? last
        obtain ⟨inside, asks⟩ := List.mem_filter.mp member
        rw [Option.mem_def.mp last]
        exact ⟨.inl ⟨message, inside, asks⟩, named⟩

/-- One thread asks for a retry while another one shows progress. -/
def twoThreads : List (List Post) :=
  [[⟨"set_progress".toList, "0.5".toList⟩],
    [⟨"retry_update".toList, "reboot_IO_failed".toList⟩]]

theorem twoThreads_retries :
    (runSchedule Session.step { threads := twoThreads }
      [.post 1, .read, .post 0, .report 508 508, .read, .exit, .read]).retries := by
  have delivered := @messages_delivered twoThreads (by decide +kernel)
    [.post 1, .read, .post 0, .report 508 508, .read, .exit, .read]
  have returned : (runSchedule Session.step { threads := twoThreads }
      [.post 1, .read, .post 0, .report 508 508, .read, .exit, .read]).status = some .retry := by
    decide +kernel
  exact ((delivered.2.2 .retry returned).2.2.2).mpr
    ⟨⟨"retry_update".toList, "reboot_IO_failed".toList⟩, by decide +kernel, by decide +kernel⟩

end Updater.UpdaterMain
