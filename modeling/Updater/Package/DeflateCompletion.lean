import Updater.Package.InflateTermination

/-! What `PkgAlgoDeflate` has written when it reports success. -/

set_option autoImplicit false

namespace Updater.Package

open Updater.Base

theorem writesPlaced_read {destOffset srcOffset needRead : Nat} {bytes : Option Bytes} :
    WritesPlaced destOffset [.read srcOffset needRead bytes] := by
  intro i bytes offset accepted found
  match i with
  | 0 => cases found
  | _ + 1 => cases found

theorem writesPlaced_write {destOffset : Nat} {bytes : Bytes} {accepted : Bool}
    (small : destOffset < 2 ^ 64) : WritesPlaced destOffset [.write bytes destOffset accepted] := by
  intro i bytes' offset accepted' found
  match i with
  | 0 =>
      cases found
      exact (Nat.mod_eq_of_lt small).symm
  | _ + 1 => cases found

@[simp] theorem written_read (srcOffset needRead : Nat) (bytes : Option Bytes) :
    written [.read srcOffset needRead bytes] = [] := rfl

@[simp] theorem written_write (bytes : Bytes) (destOffset : Nat) :
    written [.write bytes destOffset true] = bytes := List.append_nil bytes

@[simp] theorem written_refused (bytes : Bytes) (destOffset : Nat) :
    written [.write bytes destOffset false] = [] := rfl

/-- The last call of a log is a write that was refused. -/
def LastRefused (log : List CopyEvent) : Prop :=
  ∃ front bytes destOffset, log = front ++ [.write bytes destOffset false]

theorem not_lastRefused_append {log : List CopyEvent} {event : CopyEvent}
    (accepted : ∀ bytes destOffset, event ≠ .write bytes destOffset false) :
    ¬ LastRefused (log ++ [event]) := by
  rintro ⟨front, bytes, destOffset, same⟩
  exact accepted bytes destOffset (List.cons.inj (List.append_inj_right' same rfl)).1

namespace OutBuffer

/-- What the accepted writes have written are the bytes that were put into the buffer, but for
those that it holds, and each write goes behind the ones before. -/
structure InOrder (start : Nat) (out : OutBuffer) : Prop where
  whole : written out.log ++ out.held = out.produced
  dest : out.destOffset = size64 (start + (written out.log).length)
  placed : WritesPlaced start out.log

variable {start : Nat} {accepts : Accepts} {out next : OutBuffer}

theorem inOrder_start (small : start < 2 ^ 64) : InOrder start ⟨[], start, [], []⟩ where
  whole := rfl
  dest := (Nat.mod_eq_of_lt small).symm
  placed := fun i bytes offset accepted found => by cases found

theorem InOrder.put (order : InOrder start out) (bytes : Bytes) : InOrder start (out.put bytes) := by
  refine ⟨?_, order.dest, order.placed⟩
  rw [OutBuffer.put, ← List.append_assoc, order.whole]

theorem InOrder.noteRead (order : InOrder start out) (srcOffset needRead : Nat)
    (bytes : Option Bytes) : InOrder start (out.noteRead srcOffset needRead bytes) := by
  have same : written (out.noteRead srcOffset needRead bytes).log = written out.log := by
    rw [OutBuffer.noteRead, written_append, written_read, List.append_nil]
  refine ⟨same.symm ▸ order.whole, same.symm ▸ order.dest, ?_⟩
  exact order.placed.append writesPlaced_read

theorem InOrder.destSmall (order : InOrder start out) : out.destOffset < 2 ^ 64 :=
  order.dest ▸ Nat.mod_lt _ (by decide)

theorem InOrder.write_true (order : InOrder start out)
    (accepted : out.write accepts = (true, next)) : InOrder start next := by
  obtain rfl := OutBuffer.write_true accepted
  have log : written (out.log ++ [.write out.held out.destOffset true]) =
      written out.log ++ out.held := by
    rw [written_append, written_write]
  constructor
  · rw [log, List.append_nil]
    exact order.whole
  · dsimp only
    rw [log, order.dest, size64_add, List.length_append, Nat.add_assoc]
  · refine order.placed.append ?_
    rw [← order.dest]
    exact writesPlaced_write order.destSmall

theorem InOrder.write_false (order : InOrder start out)
    (refused : out.write accepts = (false, next)) : InOrder start next := by
  obtain rfl := OutBuffer.write_false refused
  have log : written (out.log ++ [.write out.held out.destOffset false]) = written out.log := by
    rw [written_append, written_refused, List.append_nil]
  refine ⟨log.symm ▸ order.whole, log.symm ▸ order.dest, order.placed.append ?_⟩
  rw [← order.dest]
  exact writesPlaced_write order.destSmall

/-- All of the output is written if and only if the buffer is empty. -/
theorem InOrder.written_iff (order : InOrder start out) :
    written out.log = out.produced ↔ out.held = [] := by
  rw [← order.whole, List.self_eq_append_right]

end OutBuffer

section Unpack

/-- A complete `Unpack`: `inflate` came to the end of the stream, all that it gave is written
in order, and the context holds the CRC-32 of it. -/
structure InflateUnpacked.Complete {z : Inflater} (crc32 : Crc32) (context : PkgAlgorithmContext)
    (unpacked : InflateUnpacked z) (last : InflateRun z) : Prop where
  left : unpacked.last = some last
  ended : last.unpackRet = zStreamEnd
  whole : written last.out.log = last.out.produced
  placed : WritesPlaced context.destOffset last.out.log
  crc : unpacked.context.crc = (crc32.ofBytes last.out.produced).toNat

namespace InflateRun

variable {z : Inflater} {crc32 : Crc32} {updaterMode : Bool} {accepts : Accepts}
  {context : PkgAlgorithmContext}

/-- No write was refused, and a read failed at the end of the packed stream at most. -/
def Undisturbed (last : InflateRun z) : Prop :=
  ∀ event ∈ last.out.log, event.Failed →
    last.unpackRet = zStreamEnd ∧ ∀ bytes destOffset, event ≠ .write bytes destOffset false

/-- The loop at its head. -/
structure Ordered (crc32 : Crc32) (context : PkgAlgorithmContext) (st : InflateRun z) : Prop where
  order : st.out.InOrder context.destOffset
  accepted : ∀ event ∈ st.out.log, ¬ event.Failed
  crc : st.crc = calculateCrc crc32 context.digestMethod 0 (written st.out.log)
  emptied : st.unpackRet = zStreamEnd → st.out.held = []

theorem ordered_start {source : SourceStream} {stream : z.Stream} :
    Ordered crc32 context (inflateRunStart z source context stream) where
  order := OutBuffer.inOrder_start context.destSmall
  accepted := fun event member => by cases member
  crc := by
    rw [calculateCrc]
    split
    · exact (crc32.update_nil 0).symm
    · rfl
  emptied := fun _ => rfl

/-- What a turn has before it writes. -/
structure Ready (crc32 : Crc32) (context : PkgAlgorithmContext) (st : InflateRun z) : Prop where
  order : st.out.InOrder context.destOffset
  accepted : ∀ event ∈ st.out.log, ¬ event.Failed
  crc : st.crc = calculateCrc crc32 context.digestMethod 0 (written st.out.log)

theorem Ordered.inflate {st ready : InflateRun z} (ordered : Ordered crc32 context st)
    (refills : Refills updaterMode st ready) : Ready crc32 context ready.inflate := by
  cases refills with
  | kept _ => exact ⟨ordered.order.put _, ordered.accepted, ordered.crc⟩
  | filled _ _ =>
      refine ⟨(ordered.order.noteRead _ _ _).put _, fun event member => ?_, ?_⟩
      · dsimp only [InflateRun.inflate, OutBuffer.put, OutBuffer.noteRead] at member
        rw [List.mem_append, List.mem_singleton] at member
        rcases member with before | rfl
        · exact ordered.accepted event before
        · exact fun failed => by cases failed
      · dsimp only [InflateRun.inflate, OutBuffer.put, OutBuffer.noteRead]
        rw [written_append, written_read, List.append_nil, ordered.crc]

theorem calculateCrc_append (digestMethod : Nat) (front back : Bytes) :
    calculateCrc crc32 digestMethod (calculateCrc crc32 digestMethod 0 front) back =
      calculateCrc crc32 digestMethod 0 (front ++ back) := by
  rw [calculateCrc, calculateCrc, calculateCrc]
  split
  · exact (crc32.update_append 0 front back).symm
  · rfl

/-- Step lemma: a turn that goes on. -/
theorem Ordered.step {st next : InflateRun z} (ordered : Ordered crc32 context st)
    (went : st.turn crc32 updaterMode accepts context.digestMethod = .went next) :
    Ordered crc32 context next := by
  obtain ⟨ready, refills, -, ⟨notDue, rfl⟩ | ⟨due, write⟩⟩ := turn_went went
  · obtain ⟨order, accepted, crc⟩ := ordered.inflate refills
    refine ⟨order, accepted, crc, fun ended => ?_⟩
    by_contra some
    exact Bool.false_ne_true (notDue.symm.trans (due_iff.mpr (.inr ⟨ended, some⟩)))
  · obtain ⟨order, accepted, crc⟩ := ordered.inflate refills
    obtain ⟨out, taken, rfl⟩ := writeHeld_went write
    refine ⟨order.write_true taken, ?_, ?_, fun _ => ?_⟩
    · intro event member
      rw [OutBuffer.write_true taken, List.mem_append, List.mem_singleton] at member
      rcases member with before | rfl
      · exact accepted event before
      · exact fun failed => by cases failed
    · rw [OutBuffer.write_true taken, written_append, written_write, crc, calculateCrc_append]
    · rw [OutBuffer.write_true taken]

theorem ordered_reached {source : SourceStream} {stream : z.Stream} {st : InflateRun z}
    (reaches : TurnLoop.Reaches goesOn (turn crc32 updaterMode accepts context.digestMethod)
      (inflateRunStart z source context stream) st) : Ordered crc32 context st :=
  reaches.keeps (Ordered crc32 context) ordered_start fun _ _ ordered _ went => ordered.step went

/-- The state in which the loop is left: what it has of the output, and that it has all of it
where nothing has failed too early. -/
structure Left (crc32 : Crc32) (context : PkgAlgorithmContext) (last : InflateRun z) : Prop where
  order : last.out.InOrder context.destOffset
  crc : last.crc = calculateCrc crc32 context.digestMethod 0 (written last.out.log)
  undisturbed : zOk ≤ last.unpackRet →
    (last.Undisturbed ↔ last.unpackRet = zStreamEnd ∧ last.out.held = [])

theorem Ordered.left_head {st : InflateRun z} (ordered : Ordered crc32 context st)
    (done : st.goesOn = false) : Left crc32 context st := by
  have ended : st.unpackRet = zStreamEnd := by
    by_contra before
    exact Bool.false_ne_true (done.symm.trans (goesOn_iff.mpr (.inr before)))
  refine ⟨ordered.order, ordered.crc, fun _ => ?_⟩
  refine iff_of_true ?_ ⟨ended, ordered.emptied ended⟩
  exact fun event member failed => absurd failed (ordered.accepted event member)

theorem Ordered.left_read {st : InflateRun z} (ordered : Ordered crc32 context st)
    (srcOffset needRead : Nat) :
    Left crc32 context { st with out := st.out.noteRead srcOffset needRead none } := by
  refine ⟨ordered.order.noteRead _ _ _, ?_, fun _ => ?_⟩
  · dsimp only [OutBuffer.noteRead]
    rw [written_append, written_read, List.append_nil, ordered.crc]
  · constructor
    · intro undisturbed
      have ended := (undisturbed (.read srcOffset needRead none)
        (List.mem_append_right _ (List.mem_singleton_self _)) rfl).1
      exact ⟨ended, ordered.emptied ended⟩
    · rintro ⟨ended, -⟩ event member failed
      rw [OutBuffer.noteRead, List.mem_append, List.mem_singleton] at member
      rcases member with before | rfl
      · exact absurd failed (ordered.accepted event before)
      · exact ⟨ended, fun bytes destOffset same => by cases same⟩

/-- A write that is due writes something. -/
theorem held_of_due {st : InflateRun z} (due : st.due = true) : st.out.held ≠ [] := by
  intro empty
  rcases due_iff.mp due with full | ⟨-, some⟩
  · have room : inflateOutBufferSize ≠ 0 := by decide
    rw [empty] at full
    exact room full.symm
  · exact some empty

theorem Ready.left_write {st last : InflateRun z} (ready : Ready crc32 context st)
    (due : st.due = true)
    (broke : st.writeHeld crc32 accepts context.digestMethod = .broke last) :
    Left crc32 context last := by
  obtain ⟨out, refused, rfl⟩ := writeHeld_broke broke
  refine ⟨ready.order.write_false refused, ?_, fun _ => ?_⟩
  · dsimp only
    rw [OutBuffer.write_false refused, written_append, written_refused, List.append_nil, ready.crc]
  · refine iff_of_false (fun undisturbed => ?_) ?_
    · have member : CopyEvent.write st.out.held st.out.destOffset false ∈ out.log := by
        rw [OutBuffer.write_false refused]
        exact List.mem_append_right _ (List.mem_singleton_self _)
      exact (undisturbed _ member rfl).2 _ _ rfl
    · rw [OutBuffer.write_false refused]
      exact fun complete => held_of_due due complete.2

theorem Ordered.left {before last : InflateRun z} (ordered : Ordered crc32 context before)
    (leaves : TurnLoop.Leaves goesOn (turn crc32 updaterMode accepts context.digestMethod)
      before last) : Left crc32 context last := by
  cases leaves with
  | head done same =>
      subst same
      exact ordered.left_head done
  | broke more broke =>
      rcases turn_broke broke with rfl | ⟨ready, refills, ⟨failed, rfl⟩ | ⟨fine, due, write⟩⟩
      · exact ordered.left_read _ _
      · obtain ⟨order, accepted, crc⟩ := ordered.inflate refills
        exact ⟨order, crc, fun fine => absurd failed (Int.not_lt.mpr fine)⟩
      · exact (ordered.inflate refills).left_write due write

/-- `CalculateUnpackData` succeeds at the end of the packed stream, and also before it, where
`Z_OK` is taken for `PKG_SUCCESS`. -/
theorem calculateUnpackData_success {last : InflateRun z}
    (success : (last.calculateUnpackData context).ret = pkgSuccess) :
    zOk ≤ last.unpackRet ∧ (last.calculateUnpackData context).context.crc = last.crc.toNat ∧
      (last.calculateUnpackData context).last = some last := by
  rw [calculateUnpackData] at success ⊢
  dsimp only at success ⊢
  split at success
  · cases success
  · rename_i checked
    rw [if_neg checked]
    refine ⟨?_, rfl, rfl⟩
    dsimp only at success
    split at success
    · rename_i ended
      rw [ended]
      decide
    · rw [success]
      exact Int.le_refl _

/-- The digest whose result `Unpack` puts into the context is the CRC-32 of the output. -/
theorem calculateCrc_iff (digestMethod : Nat) (bytes : Bytes) :
    calculateCrc crc32 digestMethod 0 bytes = crc32.ofBytes bytes ↔
      digestMethod = pkgDigestTypeCrc ∨ crc32.ofBytes bytes = 0 := by
  rw [calculateCrc]
  split
  · rename_i crc
    exact iff_of_true rfl (.inl crc)
  · rename_i other
    rw [or_iff_right other, eq_comm]

end InflateRun

/-- A successful `Unpack` is complete if and only if no write was refused and no read failed
before the end of the packed stream, with the CRC as digest. -/
theorem inflateUnpack_complete_iff {z : Inflater} {crc32 : Crc32} {updaterMode : Bool}
    {accepts : Accepts} {fuel : Nat} {source : SourceStream} {context : PkgAlgorithmContext}
    {unpacked : InflateUnpacked z}
    (run : inflateUnpack z crc32 updaterMode accepts fuel source context = some unpacked)
    (success : unpacked.ret = pkgSuccess) :
    ∃ last, unpacked.last = some last ∧
      (unpacked.Complete crc32 context last ↔ last.Undisturbed ∧
        (context.digestMethod = pkgDigestTypeCrc ∨ crc32.ofBytes last.out.produced = 0)) := by
  rw [inflateUnpack] at run
  split at run
  · cases run
    cases success
  rename_i stream init
  obtain ⟨last, loop, rfl⟩ := Option.map_eq_some_iff.mp run
  obtain ⟨before, reaches, leaves⟩ := TurnLoop.run_left loop
  obtain ⟨order, crc, undisturbed⟩ := (InflateRun.ordered_reached reaches).left leaves
  obtain ⟨fine, contextCrc, left_⟩ := InflateRun.calculateUnpackData_success success
  refine ⟨last, left_, ?_⟩
  rw [undisturbed fine]
  constructor
  · rintro ⟨-, ended, whole, -, same⟩
    refine ⟨⟨ended, order.written_iff.mp whole⟩, ?_⟩
    rw [contextCrc, crc, whole] at same
    exact (InflateRun.calculateCrc_iff _ _).mp (UInt32.toNat_inj.mp same)
  · rintro ⟨⟨ended, empty⟩, digest⟩
    have whole := order.written_iff.mpr empty
    refine ⟨left_, ended, whole, order.placed, ?_⟩
    rw [contextCrc, crc, whole, (InflateRun.calculateCrc_iff _ _).mpr digest]

end Unpack

section Pack

/-- `deflate` as zlib describes it: a call that does not fail goes on or is at the end of the
stream. -/
structure LawfulDeflater extends Deflater where
  answers : ∀ stream flush next room, zOk ≤ (deflate stream flush next room).ret →
    (deflate stream flush next room).ret = zOk ∨
      (deflate stream flush next room).ret = zStreamEnd

/-- A complete `Pack`: `deflate` came to the end of its stream, and all that it gave is written
in order. -/
structure DeflatePacked.Complete {d : Deflater} (context : PkgAlgorithmContext)
    (packed : DeflatePacked d) (last : DeflateRun d) : Prop where
  left : packed.last = some last
  ended : last.deflateRet = zStreamEnd
  whole : written last.out.log = last.out.produced
  placed : WritesPlaced context.destOffset last.out.log

namespace DeflateRun

variable {d : LawfulDeflater} {crc32 : Crc32} {accepts : Accepts} {context : PkgAlgorithmContext}

theorem writeHeld_cases {d : Deflater} {st next : DeflateRun d} {accepted : Bool}
    (write : st.writeHeld accepts = (accepted, next)) :
    st.out.held = [] ∧ accepted = true ∧ next = st ∨
      st.out.held ≠ [] ∧ ∃ out, st.out.write accepts = (accepted, out) ∧ next = { st with out } := by
  rw [writeHeld] at write
  split at write
  · rename_i empty
    cases write
    exact .inl ⟨empty, rfl, rfl⟩
  · rename_i some
    cases write
    exact .inr ⟨some, _, rfl, rfl⟩

/-- What a `DeflateData` that succeeds leaves. -/
structure Flushed {d : Deflater} (context : PkgAlgorithmContext) (flush : Int)
    (st next : DeflateRun d) : Prop where
  order : next.out.InOrder context.destOffset
  refused : next.out.held = [] ↔ ¬ LastRefused next.out.log
  remain : next.remainSize = st.remainSize
  ended : flush = zFinish → next.deflateRet = zStreamEnd ∨ next.out.held ≠ []

/-- Run lemma of the loop of `DeflateData`. -/
theorem deflateData_flushed {fuel : Nat} {flush : Int} {st next : DeflateRun d.toDeflater}
    (order : st.out.InOrder context.destOffset)
    (calm : st.out.held = [] → ¬ LastRefused st.out.log)
    (run : st.deflateData accepts flush fuel = some (pkgSuccess, next)) :
    Flushed context flush st next := by
  induction fuel generalizing st with
  | zero => cases run
  | succ fuel ih =>
      rw [deflateData] at run
      have deflated : (st.deflate flush).out.InOrder context.destOffset := order.put _
      have quiet : (st.deflate flush).out.held = [] → ¬ LastRefused (st.deflate flush).out.log :=
        fun empty => calm (List.append_eq_nil_iff.mp empty).1
      split at run
      · cases run
      rename_i fine
      rw [Int.not_lt] at fine
      split at run
      · rename_i refused
        cases run
        obtain ⟨-, same, -⟩ | ⟨some, out, write, rfl⟩ := writeHeld_cases refused
        · cases same
        · have refused : LastRefused out.log := by
            rw [OutBuffer.write_false write]
            exact ⟨_, _, _, rfl⟩
          have held : out.held ≠ [] := by
            rw [OutBuffer.write_false write]
            exact some
          exact ⟨deflated.write_false write, iff_of_false held (not_not.mpr refused), rfl,
            fun _ => .inr held⟩
      · rename_i after write
        have step : after.out.InOrder context.destOffset ∧ after.out.held = [] ∧
            ¬ LastRefused after.out.log ∧ after.remainSize = st.remainSize ∧
            after.deflateRet = (st.deflate flush).deflateRet := by
          obtain ⟨empty, -, rfl⟩ | ⟨some, out, taken, rfl⟩ := writeHeld_cases write
          · exact ⟨deflated, empty, quiet empty, rfl, rfl⟩
          · refine ⟨deflated.write_true taken, ?_, ?_, rfl, rfl⟩
            · rw [OutBuffer.write_true taken]
            · rw [OutBuffer.write_true taken]
              exact not_lastRefused_append fun bytes destOffset same => by cases same
        obtain ⟨inOrder, empty, last, remain, ret⟩ := step
        split at run
        · rename_i noFlush
          cases run
          refine ⟨inOrder, iff_of_true empty last, remain, fun finish => ?_⟩
          cases noFlush.symm.trans finish
        split at run
        · obtain ⟨order, refused, kept, ended⟩ := ih inOrder (fun _ => last) run
          exact ⟨order, refused, kept.trans remain, ended⟩
        · rename_i done
          cases run
          refine ⟨inOrder, iff_of_true empty last, remain, fun finish => ?_⟩
          refine .inl (ret.trans ((d.answers _ _ _ _ fine).resolve_left fun ok => ?_))
          exact done ⟨ret.trans ok, finish⟩

/-- The loop at its head. -/
structure Ordered {d : Deflater} (context : PkgAlgorithmContext) (st : DeflateRun d) : Prop where
  order : st.out.InOrder context.destOffset
  refused : st.out.held = [] ↔ ¬ LastRefused st.out.log
  nothing : context.unpackedSize = 0 → st.goesOn = false ∧ st.deflateRet = zOk
  ended : context.unpackedSize ≠ 0 → st.remainSize = 0 →
    st.deflateRet = zStreamEnd ∨ st.out.held ≠ []

theorem ordered_start {source : SourceStream} {stream : d.Stream} :
    Ordered context (deflateRunStart d.toDeflater source context stream) where
  order := OutBuffer.inOrder_start context.destSmall
  refused := by
    refine iff_of_true rfl ?_
    rintro ⟨front, bytes, destOffset, same⟩
    have length := congrArg List.length same
    rw [List.length_append] at length
    cases length
  nothing := by
    intro none
    refine ⟨?_, rfl⟩
    rw [goesOn, deflateRunStart, none]
    rfl
  ended := fun some none => absurd none some

/-- Step lemma: a turn that goes on. -/
theorem Ordered.step {fuel : Nat} {st next : DeflateRun d.toDeflater} (ordered : Ordered context st)
    (more : st.goesOn = true)
    (went : st.turn crc32 accepts context.digestMethod fuel = .went next) :
    Ordered context next := by
  rw [turn] at went
  split at went
  · cases went
  · cases went
  rename_i ready read
  have stood : ready.out.InOrder context.destOffset ∧
      (ready.out.held = [] → ¬ LastRefused ready.out.log) := by
    rw [readPackData] at read
    split at read
    · cases read
      exact ⟨ordered.order, ordered.refused.mp⟩
    · split at read
      · cases read
      · cases read
      · cases read
        refine ⟨ordered.order.noteRead _ _ _, fun _ => ?_⟩
        exact not_lastRefused_append fun bytes destOffset same => by cases same
  split at went
  · cases went
  rename_i ret after run
  split at went
  · cases went
  rename_i success
  rw [not_not] at success
  subst success
  cases went
  obtain ⟨order, refused, remain, ended⟩ := deflateData_flushed stood.1 stood.2 run
  refine ⟨order, refused, fun none => ?_, fun _ none => ended ?_⟩
  · exact absurd ((ordered.nothing none).1.symm.trans more) Bool.false_ne_true
  · rw [if_pos (remain.symm.trans none)]

/-- A turn that breaks the loop off does so with a failure. -/
theorem turn_broke {fuel : Nat} {digestMethod : Nat} {st last : DeflateRun d.toDeflater}
    (broke : st.turn crc32 accepts digestMethod fuel = .broke last) : last.ret ≠ pkgSuccess := by
  rw [turn] at broke
  split at broke
  · cases broke
  · rename_i read
    cases broke
    rw [readPackData] at read
    split at read
    · cases read
    · split at read
      · cases read
      · cases read
        exact fun same => by cases same
      · cases read
  · split at broke
    · cases broke
    · split at broke
      · rename_i failed
        cases broke
        exact failed
      · cases broke

theorem ordered_reached {fuel : Nat} {source : SourceStream} {stream : d.Stream} {st : DeflateRun d.toDeflater}
    (reaches : TurnLoop.Reaches goesOn (turn crc32 accepts context.digestMethod fuel)
      (deflateRunStart d.toDeflater source context stream) st) : Ordered context st :=
  reaches.keeps (Ordered context) ordered_start fun _ _ ordered more went => ordered.step more went

theorem finish_success {last : DeflateRun d.toDeflater} (success : (last.finish context).ret = pkgSuccess) :
    last.ret = pkgSuccess ∧ (last.finish context).last = some last := by
  rw [finish] at success ⊢
  split at success
  · rename_i failed
    exact absurd success failed
  rename_i fine
  rw [if_neg fine]
  split at success
  · cases success
  rename_i size
  rw [if_neg size]
  exact ⟨success, rfl⟩

end DeflateRun

/-- A successful `Pack` is complete if and only if there was something to pack and its last call
is not a write that was refused. -/
theorem deflatePack_complete_iff {d : LawfulDeflater} {crc32 : Crc32} {accepts : Accepts}
    {fuel : Nat} {source : SourceStream} {context : PkgAlgorithmContext}
    {packed : DeflatePacked d.toDeflater}
    (run : deflatePack d.toDeflater crc32 accepts fuel source context = some packed)
    (success : packed.ret = pkgSuccess) :
    ∃ last, packed.last = some last ∧
      (packed.Complete context last ↔
        context.unpackedSize ≠ 0 ∧ ¬ LastRefused last.out.log) := by
  rw [deflatePack] at run
  split at run
  · cases run
    cases success
  rename_i stream init
  obtain ⟨last, loop, rfl⟩ := Option.map_eq_some_iff.mp run
  obtain ⟨fine, left_⟩ := DeflateRun.finish_success success
  obtain ⟨before, reaches, leaves⟩ := TurnLoop.run_left loop
  have done : last = before ∧ before.goesOn = false := by
    cases leaves with
    | head done same => exact ⟨same, done⟩
    | broke _ broke => exact absurd fine (DeflateRun.turn_broke broke)
  obtain ⟨rfl, done⟩ := done
  obtain ⟨order, refused, nothing, ended⟩ := DeflateRun.ordered_reached reaches
  have remain : last.remainSize = 0 := by
    rw [DeflateRun.goesOn, Bool.or_eq_false_iff, decide_eq_false_iff_not] at done
    exact Nat.eq_zero_of_not_pos done.1
  refine ⟨last, left_, ?_⟩
  rw [← refused]
  constructor
  · rintro ⟨-, end_, whole, -⟩
    refine ⟨fun none => ?_, order.written_iff.mp whole⟩
    cases (nothing none).2.symm.trans end_
  · rintro ⟨some, empty⟩
    refine ⟨left_, ?_, order.written_iff.mpr empty, order.placed⟩
    exact (ended some remain).resolve_right (not_not.mpr empty)

end Pack

/-- `PkgAlgoDeflate` reports success only on completion if and only if, for `Pack`, there is
something to pack and the last call is not a refused write, and for `Unpack`, no write was
refused and no read failed before the end of the packed stream, with the CRC as digest. -/
theorem deflate_complete_iff (d : LawfulDeflater) (z : Inflater) (crc32 : Crc32)
    (updaterMode : Bool) (accepts : Accepts) (fuel : Nat) (source : SourceStream)
    (context : PkgAlgorithmContext) :
    (∀ packed, deflatePack d.toDeflater crc32 accepts fuel source context = some packed →
      packed.ret = pkgSuccess → ∃ last, packed.last = some last ∧
        (packed.Complete context last ↔
          context.unpackedSize ≠ 0 ∧ ¬ LastRefused last.out.log)) ∧
      ∀ unpacked, inflateUnpack z crc32 updaterMode accepts fuel source context = some unpacked →
        unpacked.ret = pkgSuccess → ∃ last, unpacked.last = some last ∧
          (unpacked.Complete crc32 context last ↔ last.Undisturbed ∧
            (context.digestMethod = pkgDigestTypeCrc ∨
              crc32.ofBytes last.out.produced = 0)) :=
  ⟨fun _ run success => deflatePack_complete_iff run success,
    fun _ run success => inflateUnpack_complete_iff run success⟩

/-- Where a deflater of one stored block stands: in its input, or in its output. -/
inductive BlockWriter where
  | input (bytes : Bytes)
  | output (left : Bytes)

/-- The last block, stored. -/
def storedBlock (bytes : Bytes) : Bytes :=
  1 :: (leBytes 2 bytes.length ++ leBytes 2 (0xFFFF - bytes.length) ++ bytes)

namespace BlockWriter

/-- The output that there is room for. -/
def emit (left : Bytes) (used room : Nat) : InflateCall BlockWriter where
  ret := if left.length ≤ room then zStreamEnd else if room = 0 then -5 else zOk
  used
  produced := left.take room
  stream := output (left.drop room)

def deflate (writer : BlockWriter) (flush : Int) (next : Bytes) (room : Nat) :
    InflateCall BlockWriter :=
  match writer with
  | input bytes =>
      if flush = zFinish then emit (storedBlock (bytes ++ next)) next.length room
      else ⟨if next = [] then -5 else zOk, next.length, [], input (bytes ++ next)⟩
  | output left => emit left 0 room

theorem emit_answers (left : Bytes) (used room : Nat) (fine : zOk ≤ (emit left used room).ret) :
    (emit left used room).ret = zOk ∨ (emit left used room).ret = zStreamEnd := by
  rw [emit] at fine ⊢
  dsimp only at fine ⊢
  split at fine
  · rename_i whole
    exact .inr (if_pos whole)
  · rename_i more
    rw [if_neg more]
    split at fine
    · have negative : ¬ zOk ≤ (-5 : Int) := by decide
      exact absurd fine negative
    · rename_i some
      exact .inl (if_neg some)

end BlockWriter

/-- What zlib does without compression, for an input of one block. -/
def storedDeflater : LawfulDeflater where
  Stream := BlockWriter
  deflateInit := some (.input [])
  deflate := BlockWriter.deflate
  answers writer flush next room fine := by
    cases writer with
    | output left => exact BlockWriter.emit_answers left 0 room fine
    | input bytes =>
        rw [BlockWriter.deflate] at fine ⊢
        split at fine
        · rename_i finish
          rw [if_pos finish]
          exact BlockWriter.emit_answers _ _ _ fine
        · rename_i open_
          rw [if_neg open_]
          dsimp only at fine ⊢
          split at fine
          · have negative : ¬ zOk ≤ (-5 : Int) := by decide
            exact absurd fine negative
          · rename_i some
            exact .inl (if_neg some)

/-- A byte to pack, and the six of its block to unpack. -/
def byteContext : PkgAlgorithmContext :=
  { plainContext 0 6 zero_small (by decide) with
    unpackedSize := 1
    unpackedSmall := one_small
    digestMethod := pkgDigestTypeCrc }

def oneByte : SourceStream := .memoryMap ⟨[7], by decide⟩

def refusesAll : Accepts := fun _ _ _ => false

theorem deflate_complete_byte :
    (∃ packed last, deflatePack storedDeflater.toDeflater Crc32.ieee acceptsAll 2 oneByte
        byteContext = some packed ∧ packed.ret = pkgSuccess ∧ packed.Complete byteContext last ∧
          last.out.produced = oneByteBlock) ∧
      ∃ unpacked last, inflateUnpack storedInflater.toInflater Crc32.ieee true acceptsAll 2
        longEntry byteContext = some unpacked ∧ unpacked.ret = pkgSuccess ∧
          unpacked.Complete Crc32.ieee byteContext last ∧ last.out.produced = [7] := by
  constructor
  · obtain ⟨last, left_, complete⟩ := (deflate_complete_iff storedDeflater
      storedInflater.toInflater Crc32.ieee true acceptsAll 2 oneByte byteContext).1 _ rfl rfl
    cases left_
    refine ⟨_, _, rfl, rfl, complete.mpr ⟨by decide, ?_⟩, rfl⟩
    exact @not_lastRefused_append [.read 0 1 (some [7])] (.write oneByteBlock 0 true)
      fun bytes destOffset same => by cases same
  · obtain ⟨last, left_, complete⟩ := (deflate_complete_iff storedDeflater
      storedInflater.toInflater Crc32.ieee true acceptsAll 2 longEntry byteContext).2 _ rfl rfl
    cases left_
    refine ⟨_, _, rfl, rfl, complete.mpr ⟨?_, .inl rfl⟩, rfl⟩
    intro event member failed
    have events : event ∈ [CopyEvent.read 0 6 (some oneByteBlock), .write [7] 0 true] := member
    rw [List.mem_cons, List.mem_singleton] at events
    rcases events with rfl | rfl
    · cases failed
    · cases failed

/-- A write that is refused, and a read that fails, are reported as success. -/
theorem deflate_incomplete :
    (∃ packed, deflatePack storedDeflater.toDeflater Crc32.ieee refusesAll 2 oneByte byteContext =
        some packed ∧ packed.ret = pkgSuccess ∧ ¬ ∃ last, packed.Complete byteContext last) ∧
      ∃ unpacked, inflateUnpack storedInflater.toInflater Crc32.ieee true acceptsAll 2 .process
        byteContext = some unpacked ∧ unpacked.ret = pkgSuccess ∧
          ¬ ∃ last, unpacked.Complete Crc32.ieee byteContext last := by
  constructor
  · refine ⟨_, rfl, rfl, ?_⟩
    rintro ⟨last, left_, -, whole, -⟩
    cases left_
    cases whole
  · refine ⟨_, rfl, rfl, ?_⟩
    rintro ⟨last, left_, ended, -⟩
    cases left_
    cases ended

end Updater.Package
