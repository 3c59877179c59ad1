import Updater.Package.CopyTermination

/-! `PkgAlgoDeflate`: packing and unpacking a stream through zlib, with the buffers between. -/

set_option autoImplicit false

namespace Updater.Package

open Updater.Base

def zNoFlush : Int := 0

def zFinish : Int := 4

def deflateInBufferSize : Nat := 1024 * 64

def deflateOutBufferSize : Nat := 1024 * 32

/-- How the stream that is written to answers: to the call of an index in the log, with the
bytes and their offset. -/
def Accepts : Type := Nat → Bytes → Nat → Bool

/-- The buffer that zlib puts its output into, and how it is written: `held` are the bytes up
to `next_out`. -/
structure OutBuffer where
  held : Bytes
  destOffset : Nat
  produced : Bytes
  log : List CopyEvent

namespace OutBuffer

def put (out : OutBuffer) (bytes : Bytes) : OutBuffer :=
  { out with held := out.held ++ bytes, produced := out.produced ++ bytes }

/-- A read that happens between the writes. -/
def noteRead (out : OutBuffer) (srcOffset needRead : Nat) (bytes : Option Bytes) : OutBuffer :=
  { out with log := out.log ++ [.read srcOffset needRead bytes] }

/-- `Write` of what is held. Only an accepted one empties the buffer. -/
def write (accepts : Accepts) (out : OutBuffer) : Bool × OutBuffer :=
  let accepted := accepts out.log.length out.held out.destOffset
  let log := out.log ++ [.write out.held out.destOffset accepted]
  if accepted then
    (true, { out with held := [], destOffset := size64 (out.destOffset + out.held.length), log })
  else (false, { out with log })

end OutBuffer

/-- `Calculate` of the digest algorithm, whose result has four bytes: only the one of
`PKG_DIGEST_TYPE_CRC` fills it in. -/
def calculateCrc (crc32 : Crc32) (digestMethod : Nat) (crc : UInt32) (bytes : Bytes) : UInt32 :=
  if digestMethod = pkgDigestTypeCrc then crc32.update crc bytes else crc

section Unpack

/-- The length of the input buffer. -/
def inBufferSize (updaterMode : Bool) : Nat :=
  if updaterMode then inflateInBufferSize else inflateInBufferSizeNormalMode

/-- The read into an input buffer that is used up. A `ReadFully` that has not returned after
a turn more than the bytes that it expects does not return. -/
def SourceStream.fill (updaterMode : Bool) (source : SourceStream) (offset packedSize : Nat) :
    ReadResult SourceStream :=
  if updaterMode then source.readData offset inflateInBufferSize packedSize
  else
    match source.readFully (min inflateInBufferSizeNormalMode packedSize + 1) offset packedSize with
    | none => .blocked
    | some none => .failed
    | some (some (bytes, source)) => .given bytes source

/-- The variables of `UnpackCalculate`. -/
structure InflateRun (z : Inflater) where
  source : SourceStream
  srcOffset : Nat
  packedSize : Nat
  stream : z.Stream
  next : Bytes
  unpackRet : Int
  crc : UInt32
  out : OutBuffer

namespace InflateRun

variable {z : Inflater} (crc32 : Crc32) (updaterMode : Bool) (accepts : Accepts)
  (digestMethod : Nat)

/-- The condition of the loop. -/
def goesOn (st : InflateRun z) : Bool :=
  0 < st.packedSize || st.unpackRet ≠ zStreamEnd

/-- `ReadUnpackData`. -/
def readUnpackData (st : InflateRun z) : Turn (InflateRun z) :=
  let needRead := min st.packedSize (inBufferSize updaterMode)
  if st.next ≠ [] then .went st
  else
    match st.source.fill updaterMode st.srcOffset st.packedSize with
    | .blocked => .blocked
    | .failed => .broke { st with out := st.out.noteRead st.srcOffset needRead none }
    | .given bytes source =>
        .went { st with
          source
          srcOffset := size64 (st.srcOffset + bytes.length)
          packedSize := st.packedSize - bytes.length
          next := bytes
          out := st.out.noteRead st.srcOffset needRead (some bytes) }

def inflate (st : InflateRun z) : InflateRun z :=
  let call := z.inflate st.stream st.next (inflateOutBufferSize - st.out.held.length)
  { st with
    stream := call.stream
    next := st.next.drop call.used
    unpackRet := call.ret
    out := st.out.put call.produced }

/-- Whether the buffer is written: when it is full, or the last one. -/
def due (st : InflateRun z) : Bool :=
  st.out.held.length = inflateOutBufferSize ||
    (st.unpackRet = zStreamEnd && st.out.held ≠ [])

def writeHeld (st : InflateRun z) : Turn (InflateRun z) :=
  match st.out.write accepts with
  | (false, out) => .broke { st with out }
  | (true, out) =>
      .went { st with out, crc := calculateCrc crc32 digestMethod st.crc st.out.held }

/-- A turn of the loop of `UnpackCalculate`. -/
def turn (st : InflateRun z) : Turn (InflateRun z) :=
  match st.readUnpackData updaterMode with
  | .blocked => .blocked
  | .broke st => .broke st
  | .went st =>
      let st := st.inflate
      if st.unpackRet < zOk then .broke st
      else if st.due then st.writeHeld crc32 accepts digestMethod
      else .went st

end InflateRun

/-- What `Unpack` returns, the context it leaves, and the state in which its loop was left. -/
structure InflateUnpacked (z : Inflater) where
  ret : Int
  context : PkgAlgorithmContext
  last : Option (InflateRun z)

variable (z : Inflater) (crc32 : Crc32) (updaterMode : Bool) (accepts : Accepts)

/-- `UnpackCalculate` before its loop. -/
def inflateRunStart (source : SourceStream) (context : PkgAlgorithmContext) (stream : z.Stream) :
    InflateRun z where
  source
  srcOffset := context.srcOffset
  packedSize := context.packedSize
  stream
  next := []
  unpackRet := zOk
  crc := 0
  out := ⟨[], context.destOffset, [], []⟩

/-- `CalculateUnpackData`. -/
def InflateRun.calculateUnpackData {z : Inflater} (context : PkgAlgorithmContext)
    (last : InflateRun z) : InflateUnpacked z :=
  let sized := { context with
    packedSize := sub64 (sub64 context.packedSize last.next.length) last.packedSize
    unpackedSize := sub64 last.out.destOffset context.destOffset
    packedSmall := Nat.mod_lt _ (by decide)
    unpackedSmall := Nat.mod_lt _ (by decide) }
  if context.crc ≠ 0 ∧ context.crc ≠ last.crc.toNat then ⟨pkgVerifyFail, sized, some last⟩
  else
    ⟨if last.unpackRet = zStreamEnd then pkgSuccess else last.unpackRet,
      { sized with crc := last.crc.toNat }, some last⟩

/-- `PkgAlgoDeflate::Unpack`, for so many turns at most. -/
def inflateUnpack (fuel : Nat) (source : SourceStream) (context : PkgAlgorithmContext) :
    Option (InflateUnpacked z) :=
  match z.inflateInit with
  | none => some ⟨pkgNotExistAlgorithm, context, none⟩
  | some stream =>
      (TurnLoop.run InflateRun.goesOn
          (InflateRun.turn crc32 updaterMode accepts context.digestMethod) fuel
          (inflateRunStart z source context stream)).map
        (InflateRun.calculateUnpackData context)

end Unpack

section Pack

/-- The compression of zlib: `deflateInit2`, and `deflate` for a flush, the input at hand and
the room in the output. Its calls are described like those of `inflate`. -/
structure Deflater where
  Stream : Type
  deflateInit : Option Stream
  deflate : Stream → Int → Bytes → Nat → InflateCall Stream

/-- The variables of `PackCalculate`; `deflateRet` is what `deflate` returned last. -/
structure DeflateRun (d : Deflater) where
  source : SourceStream
  srcOffset : Nat
  remainSize : Nat
  stream : d.Stream
  next : Bytes
  deflateRet : Int
  ret : Int
  crc : UInt32
  out : OutBuffer

namespace DeflateRun

variable {d : Deflater} (crc32 : Crc32) (accepts : Accepts) (digestMethod : Nat)

/-- The condition of the loop. -/
def goesOn (st : DeflateRun d) : Bool :=
  0 < st.remainSize || st.next ≠ []

def deflate (st : DeflateRun d) (flush : Int) : DeflateRun d :=
  let call := d.deflate st.stream flush st.next (deflateOutBufferSize - st.out.held.length)
  { st with
    stream := call.stream
    next := st.next.drop call.used
    deflateRet := call.ret
    out := st.out.put call.produced }

/-- The write of `DeflateData`, which makes none without a byte. -/
def writeHeld (st : DeflateRun d) : Bool × DeflateRun d :=
  if st.out.held = [] then (true, st)
  else
    let (accepted, out) := st.out.write accepts
    (accepted, { st with out })

/-- `DeflateData`, for so many turns at most. A write that fails is no failure of it. -/
def deflateData (flush : Int) : Nat → DeflateRun d → Option (Int × DeflateRun d)
  | 0, _ => none
  | fuel + 1, st =>
      let st := st.deflate flush
      if st.deflateRet < zOk then some (pkgNotExistAlgorithm, st)
      else
        match st.writeHeld accepts with
        | (false, st) => some (pkgSuccess, st)
        | (true, st) =>
            if flush = zNoFlush then some (pkgSuccess, st)
            else if st.deflateRet = zOk ∧ flush = zFinish then deflateData flush fuel st
            else some (pkgSuccess, st)

/-- The read of a turn, into an input buffer that is used up. -/
def readPackData (st : DeflateRun d) : Turn (DeflateRun d) :=
  let needRead := min st.remainSize deflateInBufferSize
  if st.next ≠ [] then .went st
  else
    match st.source.readData st.srcOffset deflateInBufferSize st.remainSize with
    | .blocked => .blocked
    | .failed => .broke { st with
        ret := pkgInvalidStream
        out := st.out.noteRead st.srcOffset needRead none }
    | .given bytes source =>
        .went { st with
          source
          srcOffset := size64 (st.srcOffset + bytes.length)
          remainSize := st.remainSize - bytes.length
          next := bytes
          crc := calculateCrc crc32 digestMethod st.crc bytes
          out := st.out.noteRead st.srcOffset needRead (some bytes) }

/-- A turn of the loop of `PackCalculate`, with so many turns of `DeflateData` at most. -/
def turn (fuel : Nat) (st : DeflateRun d) : Turn (DeflateRun d) :=
  match st.readPackData crc32 digestMethod with
  | .blocked => .blocked
  | .broke st => .broke st
  | .went st =>
      match st.deflateData accepts (if st.remainSize = 0 then zFinish else zNoFlush) fuel with
      | none => .blocked
      | some (ret, st) =>
          if ret ≠ pkgSuccess then .broke { st with ret } else .went { st with ret }

end DeflateRun

/-- What `Pack` returns, the context it leaves, and the state in which its loop was left. -/
structure DeflatePacked (d : Deflater) where
  ret : Int
  context : PkgAlgorithmContext
  last : Option (DeflateRun d)

variable (d : Deflater) (crc32 : Crc32) (accepts : Accepts)

/-- `PackCalculate` before its loop. -/
def deflateRunStart (source : SourceStream) (context : PkgAlgorithmContext) (stream : d.Stream) :
    DeflateRun d where
  source
  srcOffset := context.srcOffset
  remainSize := context.unpackedSize
  stream
  next := []
  deflateRet := zOk
  ret := pkgSuccess
  crc := 0
  out := ⟨[], context.destOffset, [], []⟩

/-- `PackCalculate` behind its loop. -/
def DeflateRun.finish {d : Deflater} (context : PkgAlgorithmContext) (last : DeflateRun d) : DeflatePacked d :=
  if last.ret ≠ pkgSuccess then ⟨last.ret, context, some last⟩
  else if last.srcOffset ≠ context.unpackedSize then ⟨pkgInvalidPkgFormat, context, some last⟩
  else
    ⟨last.ret, { context with
      crc := last.crc.toNat
      packedSize := sub64 last.out.destOffset context.destOffset
      packedSmall := Nat.mod_lt _ (by decide) }, some last⟩

/-- `PkgAlgoDeflate::Pack`, for so many turns of each of its loops at most. -/
def deflatePack (fuel : Nat) (source : SourceStream) (context : PkgAlgorithmContext) :
    Option (DeflatePacked d) :=
  match d.deflateInit with
  | none => some ⟨pkgNotExistAlgorithm, context, none⟩
  | some stream =>
      (TurnLoop.run DeflateRun.goesOn (DeflateRun.turn crc32 accepts context.digestMethod fuel) fuel
          (deflateRunStart d source context stream)).map
        (DeflateRun.finish context)

end Pack

namespace SourceStream

/-- The `ReadFully` of a refill returns if any one does. -/
theorem readFully_returns {source : SourceStream} {offset packedSize : Nat}
    (small : offset < 2 ^ 64)
    (blocked : source.readFully (min inflateInBufferSizeNormalMode packedSize + 1) offset
      packedSize = none) (fuel : Nat) : source.readFully fuel offset packedSize = none := by
  have endless : source.Endless offset (min inflateInBufferSizeNormalMode packedSize) := by
    by_contra finite
    obtain ⟨result, run⟩ := readFullyLoop_ends [] small finite (Nat.lt_succ_self _)
    cases blocked.symm.trans run
  exact readFullyLoop_endless (Nat.zero_add _) small endless

section

variable {updaterMode : Bool} {source next : SourceStream} {offset packedSize : Nat} {bytes : Bytes}

theorem fill_zero : source.fill updaterMode offset 0 = .given [] source := by
  cases updaterMode with
  | true => rw [fill, if_pos rfl, readData, Nat.zero_min, if_pos rfl]
  | false =>
      rw [fill, if_neg Bool.false_ne_true, readFully, Nat.min_zero]
      rfl

theorem fill_length_le (small : offset < 2 ^ 64)
    (given : source.fill updaterMode offset packedSize = .given bytes next) :
    bytes.length ≤ packedSize := by
  cases updaterMode with
  | true => exact (readData_gives given).1
  | false =>
      rw [fill, if_neg Bool.false_ne_true] at given
      split at given
      · cases given
      · cases given
      · rename_i full
        cases given
        obtain ⟨more, rfl, length, -⟩ := readFullyLoop_gives (Nat.zero_add _) small full
        exact length ▸ Nat.min_le_right _ _

/-- A refill that gives nothing leaves the stream as it was. -/
theorem fill_nil (small : offset < 2 ^ 64) (more : 0 < packedSize)
    (given : source.fill updaterMode offset packedSize = .given [] next) : next = source := by
  cases updaterMode with
  | true =>
      have room : 0 < inflateInBufferSize := by decide
      rw [fill, if_pos rfl, readData_positive (Nat.ne_of_gt more) room] at given
      exact read_nil given (by omega)
  | false =>
      rw [fill, if_neg Bool.false_ne_true] at given
      split at given
      · cases given
      · cases given
      · rename_i full
        cases given
        obtain ⟨more, nothing, length, -⟩ := readFullyLoop_gives (Nat.zero_add _) small full
        have room : 0 < inflateInBufferSizeNormalMode := by decide
        rw [List.nil_append] at nothing
        rw [← nothing, List.length_nil] at length
        omega

end

end SourceStream

/-- `inflate` as zlib describes it: a call that gets nowhere fails; a stream that has ended
says so again and takes nothing; what was taken in gives finitely many bytes. -/
structure LawfulInflater extends Inflater where
  Ended : Stream → Prop
  owed : Stream → Nat
  ratio : Nat
  used_le : ∀ stream next room, (inflate stream next room).used ≤ next.length
  progress : ∀ stream next room, zOk ≤ (inflate stream next room).ret →
    (inflate stream next room).ret ≠ zStreamEnd →
      0 < (inflate stream next room).used ∨ (inflate stream next room).produced ≠ []
  finite : ∀ stream next room,
    owed (inflate stream next room).stream + (inflate stream next room).produced.length ≤
      owed stream + ratio * (inflate stream next room).used
  ended : ∀ stream next room, (inflate stream next room).ret = zStreamEnd →
    Ended (inflate stream next room).stream
  stays : ∀ stream next room, Ended stream →
    (inflate stream next room).ret = zStreamEnd ∧ (inflate stream next room).used = 0 ∧
      (inflate stream next room).produced = [] ∧ Ended (inflate stream next room).stream

theorem OutBuffer.write_true {accepts : Accepts} {out next : OutBuffer}
    (written : out.write accepts = (true, next)) :
    next = { out with
      held := []
      destOffset := size64 (out.destOffset + out.held.length)
      log := out.log ++ [.write out.held out.destOffset true] } := by
  rw [OutBuffer.write] at written
  split at written
  · rename_i accepted
    rw [accepted] at written
    cases written
    rfl
  · cases written

theorem OutBuffer.write_false {accepts : Accepts} {out next : OutBuffer}
    (refused : out.write accepts = (false, next)) :
    next = { out with log := out.log ++ [.write out.held out.destOffset false] } := by
  rw [OutBuffer.write] at refused
  split at refused
  · cases refused
  · rename_i accepted
    rw [Bool.not_eq_true] at accepted
    rw [accepted] at refused
    cases refused
    rfl

namespace InflateRun

section

variable {z : Inflater} {crc32 : Crc32} {updaterMode : Bool} {accepts : Accepts}
  {digestMethod : Nat}

/-- How a turn comes to the input that it inflates. -/
inductive Refills (updaterMode : Bool) (st : InflateRun z) : InflateRun z → Prop where
  | kept : st.next ≠ [] → Refills updaterMode st st
  | filled {bytes : Bytes} {source : SourceStream} : st.next = [] →
      st.source.fill updaterMode st.srcOffset st.packedSize = .given bytes source →
      Refills updaterMode st { st with
        source
        srcOffset := size64 (st.srcOffset + bytes.length)
        packedSize := st.packedSize - bytes.length
        next := bytes
        out := st.out.noteRead st.srcOffset (min st.packedSize (inBufferSize updaterMode))
          (some bytes) }

theorem readUnpackData_went {st ready : InflateRun z}
    (read : st.readUnpackData updaterMode = .went ready) : Refills updaterMode st ready := by
  rw [readUnpackData] at read
  split at read
  · rename_i some
    cases read
    exact .kept some
  · rename_i none
    rw [not_not] at none
    split at read
    · cases read
    · cases read
    · rename_i bytes source given
      cases read
      exact .filled none given

theorem readUnpackData_broke {st last : InflateRun z}
    (read : st.readUnpackData updaterMode = .broke last) :
    last = { st with
      out := st.out.noteRead st.srcOffset (min st.packedSize (inBufferSize updaterMode)) none } := by
  rw [readUnpackData] at read
  split at read
  · cases read
  · split at read
    · cases read
    · cases read
      rfl
    · cases read

theorem readUnpackData_blocked {st : InflateRun z}
    (read : st.readUnpackData updaterMode = .blocked) :
    st.next = [] ∧ st.source.fill updaterMode st.srcOffset st.packedSize = .blocked := by
  rw [readUnpackData] at read
  split at read
  · cases read
  · rename_i none
    rw [not_not] at none
    split at read
    · rename_i blocked
      exact ⟨none, blocked⟩
    · cases read
    · cases read

/-- The calls of a turn that goes on. -/
theorem turn_went {st next : InflateRun z}
    (went : st.turn crc32 updaterMode accepts digestMethod = .went next) :
    ∃ ready, Refills updaterMode st ready ∧ zOk ≤ ready.inflate.unpackRet ∧
      (ready.inflate.due = false ∧ next = ready.inflate ∨
        ready.inflate.due = true ∧
          ready.inflate.writeHeld crc32 accepts digestMethod = .went next) := by
  rw [turn] at went
  split at went
  · cases went
  · cases went
  · rename_i ready read
    dsimp only at went
    refine ⟨ready, readUnpackData_went read, ?_⟩
    split at went
    · cases went
    rename_i fine
    refine ⟨Int.not_lt.mp fine, ?_⟩
    split at went
    · rename_i due
      exact .inr ⟨due, went⟩
    · rename_i due
      cases went
      exact .inl ⟨Bool.eq_false_iff.mpr due, rfl⟩

/-- How a turn breaks off: the input fails, `inflate` does, or the write. -/
theorem turn_broke {st last : InflateRun z}
    (broke : st.turn crc32 updaterMode accepts digestMethod = .broke last) :
    last = { st with
        out := st.out.noteRead st.srcOffset (min st.packedSize (inBufferSize updaterMode)) none } ∨
      ∃ ready, Refills updaterMode st ready ∧
        (ready.inflate.unpackRet < zOk ∧ last = ready.inflate ∨
          zOk ≤ ready.inflate.unpackRet ∧ ready.inflate.due = true ∧
            ready.inflate.writeHeld crc32 accepts digestMethod = .broke last) := by
  rw [turn] at broke
  split at broke
  · cases broke
  · rename_i read
    cases broke
    exact .inl (readUnpackData_broke read)
  · rename_i ready read
    dsimp only at broke
    refine .inr ⟨ready, readUnpackData_went read, ?_⟩
    split at broke
    · rename_i failed
      cases broke
      exact .inl ⟨failed, rfl⟩
    rename_i fine
    split at broke
    · rename_i due
      exact .inr ⟨Int.not_lt.mp fine, due, broke⟩
    · cases broke

theorem turn_blocked {st : InflateRun z}
    (blocked : st.turn crc32 updaterMode accepts digestMethod = .blocked) :
    st.next = [] ∧ st.source.fill updaterMode st.srcOffset st.packedSize = .blocked := by
  rw [turn] at blocked
  split at blocked
  · rename_i read
    exact readUnpackData_blocked read
  · cases blocked
  · dsimp only at blocked
    split at blocked
    · cases blocked
    · split at blocked
      · rw [writeHeld] at blocked
        split at blocked
        · cases blocked
        · cases blocked
      · cases blocked

theorem writeHeld_went {st next : InflateRun z}
    (went : st.writeHeld crc32 accepts digestMethod = .went next) :
    ∃ out, st.out.write accepts = (true, out) ∧ next = { st with
      out, crc := calculateCrc crc32 digestMethod st.crc st.out.held } := by
  rw [writeHeld] at went
  split at went
  · cases went
  · rename_i out written
    cases went
    exact ⟨out, written, rfl⟩

theorem writeHeld_broke {st last : InflateRun z}
    (broke : st.writeHeld crc32 accepts digestMethod = .broke last) :
    ∃ out, st.out.write accepts = (false, out) ∧ last = { st with out } := by
  rw [writeHeld] at broke
  split at broke
  · rename_i out refused
    cases broke
    exact ⟨out, refused, rfl⟩
  · cases broke

theorem goesOn_iff {st : InflateRun z} :
    st.goesOn = true ↔ 0 < st.packedSize ∨ st.unpackRet ≠ zStreamEnd := by
  rw [goesOn, Bool.or_eq_true, decide_eq_true_iff, decide_eq_true_iff]

theorem due_iff {st : InflateRun z} :
    st.due = true ↔ st.out.held.length = inflateOutBufferSize ∨
      st.unpackRet = zStreamEnd ∧ st.out.held ≠ [] := by
  rw [due, Bool.or_eq_true, Bool.and_eq_true, decide_eq_true_iff, decide_eq_true_iff,
    decide_eq_true_iff]

end

end InflateRun

end Updater.Package
