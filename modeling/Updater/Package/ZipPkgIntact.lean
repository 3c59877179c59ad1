import Updater.Package.ZipPkgUnpack

/-! Which entries `ZipFileEntry::Unpack` gives back with the length and the CRC-32 of the
central directory. -/

set_option autoImplicit false

namespace Updater.Package

open Updater.Base

/-! Stored entries. -/

/-- The data at an offset lie in the file. -/
def Inside (file : Bytes) (offset size : Nat) : Prop :=
  size = 0 ∨ offset + size ≤ file.length

/-- None of the writes of so much data, from a given one on, is refused. -/
def OutStream.Takes (out : OutStream) (writes size : Nat) : Prop :=
  ∀ i, i * maxBufferSize < size → out.refused (writes + i) = none

theorem OutStream.takes_split {out : OutStream} {writes size : Nat} (some_ : 0 < size) :
    out.Takes writes size ↔
      out.refused writes = none ∧ out.Takes (writes + 1) (size - maxBufferSize) := by
  have positive := maxBufferSize_pos
  constructor
  · intro takes
    refine ⟨takes 0 (by omega), fun i within => ?_⟩
    have later := takes (i + 1) (by rw [Nat.succ_mul]; omega)
    rwa [Nat.add_comm i 1, ← Nat.add_assoc] at later
  · rintro ⟨first, rest⟩ i within
    cases i with
    | zero => exact first
    | succ i =>
        rw [Nat.succ_mul] at within
        have later := rest i (by omega)
        rwa [Nat.add_assoc, Nat.add_comm 1 i] at later

/-- What a read gives: the data as far as the file has them. -/
theorem readData_cases {file : Bytes} {offset length remainSize : Nat} (some_ : 0 < remainSize)
    (room : 0 < length) :
    (readData file offset length remainSize = none ∧ ¬ Inside file offset remainSize) ∨
      ∃ bytes, bytes = slice file offset (min remainSize length) ∧ 0 < bytes.length ∧
        bytes.length ≤ min remainSize length ∧
        readData file offset length remainSize = some (bytes, remainSize - bytes.length) := by
  have needed : min remainSize length ≠ 0 := by omega
  rw [readData, if_neg needed, fileRead]
  by_cases nothing : offset > file.length ∨ slice file offset (min remainSize length) = []
  · left
    rw [if_pos nothing]
    refine ⟨rfl, fun inside => ?_⟩
    cases inside with
    | inl zero => omega
    | inr inside =>
        cases nothing with
        | inl behind => omega
        | inr empty =>
            have length := congrArg List.length empty
            rw [length_slice (by omega), List.length_nil] at length
            exact needed length
  · right
    rw [if_neg nothing]
    have present := (not_or.mp nothing).2
    refine ⟨_, rfl, List.length_pos_of_ne_nil present, ?_, rfl⟩
    exact List.length_take_le _ _

/-- All is written exactly when the file has the data and no write is refused. -/
theorem unpackLoop_whole_iff {file : Bytes} {out : OutStream} {fuel srcOffset remainSize : Nat}
    {output : Output} {destOffset : Nat} (enough : remainSize ≤ fuel) :
    (unpackLoop file out fuel srcOffset remainSize output destOffset).2 = destOffset + remainSize ↔
      Inside file srcOffset remainSize ∧ out.Takes output.writes remainSize := by
  induction fuel generalizing srcOffset remainSize output destOffset with
  | zero =>
      obtain rfl := Nat.le_zero.mp enough
      exact ⟨fun _ => ⟨.inl rfl, fun i within => absurd within (Nat.not_lt_zero _)⟩, fun _ => rfl⟩
  | succ fuel ih =>
      rw [unpackLoop]
      split
      · rename_i nothing
        rw [nothing]
        exact ⟨fun _ => ⟨.inl rfl, fun i within => absurd within (Nat.not_lt_zero _)⟩, fun _ => rfl⟩
      · rename_i more
        have positive := Nat.pos_of_ne_zero more
        have kept : destOffset ≠ destOffset + remainSize := by omega
        obtain ⟨failed, outside⟩ | ⟨bytes, cut, some_, short, read⟩ :=
          @readData_cases file srcOffset _ _ positive maxBufferSize_pos
        · rw [failed]
          exact iff_of_false kept fun whole => outside whole.1
        · rw [read, OutStream.takes_split positive]
          dsimp only
          rw [OutStream.write]
          cases answer : out.refused output.writes with
          | some left => exact iff_of_false kept fun whole => by cases whole.2.1
          | none =>
              dsimp only
              have within : bytes.length ≤ remainSize := short.trans (Nat.min_le_left _ _)
              have sum : destOffset + remainSize =
                  destOffset + bytes.length + (remainSize - bytes.length) := by omega
              rw [sum, ih (by omega)]
              have size : bytes.length =
                  min (min remainSize maxBufferSize) (file.length - srcOffset) := by
                rw [cut, slice, List.length_take, List.length_drop]
              by_cases full : bytes.length = min remainSize maxBufferSize
              · have rest : remainSize - bytes.length = remainSize - maxBufferSize := by omega
                rw [rest]
                refine and_congr ?_ (and_iff_right rfl).symm
                simp only [Inside]
                omega
              · refine iff_of_false (fun whole => ?_) (fun whole => ?_)
                all_goals
                  have inside := whole.1
                  simp only [Inside] at inside
                  omega

theorem unpackLoop_bytes {file : Bytes} {out : OutStream} {fuel srcOffset remainSize : Nat}
    {output : Output} {destOffset : Nat} (enough : remainSize ≤ fuel)
    (inside : Inside file srcOffset remainSize) (taken : out.Takes output.writes remainSize) :
    (unpackLoop file out fuel srcOffset remainSize output destOffset).1.bytes =
      output.bytes ++ slice file srcOffset remainSize := by
  induction fuel generalizing srcOffset remainSize output destOffset with
  | zero =>
      obtain rfl := Nat.le_zero.mp enough
      rw [slice_zero_length, List.append_nil]
      rfl
  | succ fuel ih =>
      rw [unpackLoop]
      split
      · rename_i nothing
        rw [nothing, slice_zero_length, List.append_nil]
      · rename_i more
        have positive := Nat.pos_of_ne_zero more
        obtain ⟨-, outside⟩ | ⟨bytes, cut, some_, short, read⟩ :=
          @readData_cases file srcOffset _ _ positive maxBufferSize_pos
        · exact absurd inside outside
        · obtain ⟨first, rest⟩ := (OutStream.takes_split positive).mp taken
          have room : srcOffset + remainSize ≤ file.length := inside.resolve_left more
          have least := Nat.min_le_left remainSize maxBufferSize
          have size : bytes.length = min remainSize maxBufferSize := by
            rw [cut, length_slice (by omega)]
          rw [read]
          dsimp only
          rw [OutStream.write, first]
          dsimp only
          have left : remainSize - bytes.length = remainSize - maxBufferSize := by omega
          have later : Inside file (srcOffset + bytes.length) (remainSize - bytes.length) := by
            rw [Inside]
            omega
          rw [ih (by omega) later (by rw [left]; exact rest), List.append_assoc]
          congr 1
          rw [size, cut, slice_append_slice, Nat.add_sub_cancel' least]

/-- A stored entry is taken for unpacked exactly when the file has all its data and all are
written. -/
theorem unpackStored_success_iff {file : Bytes} {out : OutStream} {entry : ZipEntry}
    {bytes : Bytes} :
    unpackStored file out entry = (pkgSuccess, bytes) ↔
      (Inside file entry.dataOffset entry.packedSize ∧ out.Takes 0 entry.packedSize) ∧
        bytes = slice file entry.dataOffset entry.packedSize := by
  have whole := @unpackLoop_whole_iff file out _ entry.dataOffset _ ⟨[], 0⟩ 0
    (Nat.le_refl entry.packedSize)
  rw [Nat.zero_add] at whole
  rw [unpackStored, ← whole]
  cases result : unpackLoop file out entry.packedSize entry.dataOffset entry.packedSize ⟨[], 0⟩ 0 with
  | mk output destOffset =>
      rw [result] at whole
      dsimp only at whole ⊢
      split
      · rename_i torn
        refine iff_of_false (fun same => ?_) fun ⟨same, _⟩ => torn same
        exact absurd (congrArg Prod.fst same) (by decide : ¬ pkgInvalidDigest = pkgSuccess)
      · rename_i same
        have same := not_not.mp same
        obtain ⟨inside, taken⟩ := whole.mp same
        have written := @unpackLoop_bytes _ _ _ _ _ ⟨[], 0⟩ 0 (Nat.le_refl entry.packedSize) inside taken
        rw [result, List.nil_append] at written
        dsimp only at written
        rw [written]
        exact ⟨fun equal => ⟨same, (congrArg Prod.snd equal).symm⟩, fun ⟨_, equal⟩ => by rw [equal]⟩

/-! Deflated entries. -/

section Inflation

variable {z : Inflater} (updaterMode : Bool) (file : Bytes)

/-- The packed data of the file inflate to these buffers, one behind the other. -/
inductive Inflates : Inflating z → List Bytes → Inflating z → Prop where
  | here {state} : Inflates state [] state
  | call {state read buffers stop} :
      state.goesOn = true → state.readUnpackData updaterMode file = some read →
      ¬ read.inflate.ret < zOk → read.inflate.due = false →
      Inflates read.inflate buffers stop → Inflates state buffers stop
  | buffer {state read buffers stop} :
      state.goesOn = true → state.readUnpackData updaterMode file = some read →
      ¬ read.inflate.ret < zOk → read.inflate.due = true →
      Inflates read.inflate.emptied buffers stop →
      Inflates state (read.inflate.held :: buffers) stop

/-- How it stops, other than by an error of zlib: at the end of the data, at a read that
fails, or at a buffer of which only a part is taken. -/
inductive Stops (answer : Option Nat) : Inflating z → Int → Bytes → Prop where
  | finished {state} : state.goesOn = false → Stops answer state state.ret []
  | starved {state} :
      state.goesOn = true → state.readUnpackData updaterMode file = none →
      Stops answer state state.ret []
  | refused {state read left} :
      state.goesOn = true → state.readUnpackData updaterMode file = some read →
      ¬ read.inflate.ret < zOk → read.inflate.due = true → answer = some left →
      Stops answer state read.inflate.ret (read.inflate.held.take left)

variable {updaterMode file} {crc32 : Crc32} {out : OutStream}

theorem inflateLoop_inflates {fuel : Nat} {state : Inflating z} {output final : Output}
    {crc last : UInt32} {ret : Int}
    (made : inflateLoop z crc32 updaterMode file out fuel state output crc = some (ret, final, last)) :
    ret < zOk ∨ ∃ buffers stop torn, Inflates updaterMode file state buffers stop ∧
      (∀ i < buffers.length, out.refused (output.writes + i) = none) ∧
      Stops updaterMode file (out.refused (output.writes + buffers.length)) stop ret torn ∧
      final.bytes = output.bytes ++ buffers.flatten ++ torn ∧
      last = crc32.update crc buffers.flatten := by
  induction fuel generalizing state output crc with
  | zero => exact nomatch made
  | succ fuel ih =>
      have nothing : output.bytes = output.bytes ++ ([] : List Bytes).flatten ++ [] := by
        rw [List.flatten_nil, List.append_nil, List.append_nil]
      have unchanged : crc = crc32.update crc ([] : List Bytes).flatten :=
        (crc32.update_nil crc).symm
      have noWrite : ∀ i < ([] : List Bytes).length, out.refused (output.writes + i) = none :=
        fun i within => absurd within (Nat.not_lt_zero i)
      rw [inflateLoop] at made
      split at made
      · rename_i running
        split at made
        · rename_i failed
          obtain ⟨rfl, rfl, rfl⟩ := made
          exact .inr ⟨[], _, [], .here, noWrite, .starved running failed, nothing, unchanged⟩
        · rename_i read found
          dsimp only at made
          split at made
          · rename_i broken
            obtain ⟨rfl, rfl, rfl⟩ := made
            exact .inl broken
          · rename_i fine
            split at made
            · rename_i due
              rw [OutStream.write] at made
              cases answer : out.refused output.writes with
              | some left =>
                  rw [answer] at made
                  obtain ⟨rfl, rfl, rfl⟩ := made
                  refine .inr ⟨[], _, _, .here, noWrite, .refused running found fine due answer, ?_,
                    unchanged⟩
                  rw [List.flatten_nil, List.append_nil]
              | none =>
                  rw [answer] at made
                  refine (ih made).imp_right ?_
                  rintro ⟨buffers, stop, torn, inflates, taken, stops, bytes, sum⟩
                  refine ⟨_ :: buffers, stop, torn, .buffer running found fine due inflates, ?_, ?_,
                    ?_, ?_⟩
                  · intro i within
                    cases i with
                    | zero => exact answer
                    | succ i =>
                        have later := taken i (Nat.lt_of_succ_lt_succ within)
                        rwa [Nat.add_assoc, Nat.add_comm 1 i] at later
                  · rwa [Nat.add_assoc, Nat.add_comm 1] at stops
                  · rw [bytes, List.flatten_cons]
                    simp only [List.append_assoc]
                  · rw [sum, List.flatten_cons, crc32.update_append]
            · rename_i due
              refine (ih made).imp_right ?_
              rintro ⟨buffers, stop, torn, inflates, rest⟩
              exact ⟨buffers, stop, torn,
                .call running found fine (Bool.eq_false_of_not_eq_true due) inflates, rest⟩
      · rename_i ended
        obtain ⟨rfl, rfl, rfl⟩ := made
        exact .inr ⟨[], _, [], .here, noWrite, .finished (Bool.eq_false_of_not_eq_true ended), nothing,
          unchanged⟩

/-- Inflation that stops is what the loop does, given turns enough. -/
theorem Inflates.loop {state stop : Inflating z} {buffers : List Bytes}
    (inflates : Inflates updaterMode file state buffers stop) {output : Output} {crc : UInt32}
    {ret : Int} {torn : Bytes}
    (taken : ∀ i < buffers.length, out.refused (output.writes + i) = none)
    (stops : Stops updaterMode file (out.refused (output.writes + buffers.length)) stop ret torn) :
    ∃ fuel final, inflateLoop z crc32 updaterMode file out fuel state output crc =
        some (ret, final, crc32.update crc buffers.flatten) ∧
      final.bytes = output.bytes ++ buffers.flatten ++ torn := by
  induction inflates generalizing output crc with
  | here =>
      rw [List.flatten_nil, crc32.update_nil, List.append_nil]
      cases stops with
      | finished ended =>
          refine ⟨1, output, ?_, (List.append_nil _).symm⟩
          rw [inflateLoop, ended]
          rfl
      | starved running failed =>
          refine ⟨1, output, ?_, (List.append_nil _).symm⟩
          rw [inflateLoop, if_pos running, failed]
      | refused running found fine due answer =>
          refine ⟨1, ⟨_, output.writes + 1⟩, ?_, rfl⟩
          rw [List.length_nil, Nat.add_zero] at answer
          rw [inflateLoop, if_pos running, found]
          dsimp only
          rw [if_neg fine, if_pos due, OutStream.write, answer]
  | call running found fine due _ ih =>
      obtain ⟨fuel, final, made, bytes⟩ := ih taken stops
      refine ⟨fuel + 1, final, ?_, bytes⟩
      rw [inflateLoop, if_pos running, found]
      dsimp only
      rw [if_neg fine, if_neg (Bool.not_eq_true _ ▸ due), made]
  | @buffer state read buffers stop running found fine due _ ih =>
      have first : out.refused output.writes = none := taken 0 (Nat.zero_lt_succ _)
      have later : ∀ i < buffers.length, out.refused (output.writes + 1 + i) = none := by
        intro i within
        have next := taken (i + 1) (Nat.succ_lt_succ within)
        rwa [Nat.add_comm i 1, ← Nat.add_assoc] at next
      rw [List.length_cons, Nat.add_comm buffers.length, ← Nat.add_assoc] at stops
      obtain ⟨fuel, final, made, bytes⟩ :=
        @ih ⟨output.bytes ++ read.inflate.held, output.writes + 1⟩
          (crc32.update crc read.inflate.held) later stops
      refine ⟨fuel + 1, final, ?_, ?_⟩
      · rw [inflateLoop, if_pos running, found]
        dsimp only
        rw [if_neg fine, if_pos due, OutStream.write, first]
        dsimp only
        rw [made, List.flatten_cons, crc32.update_append]
      · rw [bytes, List.flatten_cons]
        simp only [List.append_assoc]

/-- The bytes have the length and the CRC-32 that the directory gives. -/
def Describes (crc32 : Crc32) (entry : ZipEntry) (bytes : Bytes) : Prop :=
  bytes.length = entry.unpackedSize ∧ (crc32.ofBytes bytes).toNat = entry.crc32

variable (crc32 file out)

/-- What the directory has to say of a stored entry. -/
def StoredAsDescribed (entry : ZipEntry) : Prop :=
  Inside file entry.dataOffset entry.packedSize → out.Takes 0 entry.packedSize →
    Describes crc32 entry (slice file entry.dataOffset entry.packedSize)

variable (updaterMode)

/-- What it has to say of a deflated entry: wherever inflation stops short of an error, if the
buffers so far pass for the CRC (any do for the CRC 0), then what is there is the whole entry. -/
def DeflatedAsDescribed (z : Inflater) (entry : ZipEntry) : Prop :=
  ∀ stream, z.inflateInit = some stream → ∀ buffers stop ret torn,
    Inflates updaterMode file (inflateStart z entry stream) buffers stop →
    (∀ i < buffers.length, out.refused i = none) →
    Stops updaterMode file (out.refused buffers.length) stop ret torn →
    ret = zOk ∨ ret = zStreamEnd →
    entry.crc32 = 0 ∨ entry.crc32 = (crc32.ofBytes buffers.flatten).toNat →
    Describes crc32 entry (buffers.flatten ++ torn)

end Inflation

section Unpack

variable (z : Inflater) (crc32 : Crc32) (updaterMode : Bool) (file : Bytes) (out : OutStream)

theorem calculateUnpackData_success_iff {entry : ZipEntry} {crc : UInt32} {ret : Int} :
    calculateUnpackData entry crc ret = pkgSuccess ↔
      (entry.crc32 = 0 ∨ entry.crc32 = crc.toNat) ∧ (ret = zOk ∨ ret = zStreamEnd) := by
  rw [calculateUnpackData]
  split
  · rename_i differs
    refine iff_of_false (by decide) fun ⟨same, _⟩ => ?_
    exact same.elim differs.1 differs.2
  · rename_i same
    rw [not_and_or, not_not, not_not] at same
    rw [and_iff_right same]
    split
    · rename_i ended
      exact iff_of_true rfl (.inr ended)
    · rename_i going
      exact ⟨.inl, fun either => either.resolve_right going⟩

/-- A deflated entry is taken for unpacked when inflation stops, at the end or not, without an
error of zlib, and the CRC of the buffers is not refused. -/
theorem unpackDeflated_success_iff {entry : ZipEntry} {bytes : Bytes} :
    (∃ fuel, unpackDeflated z crc32 updaterMode file out fuel entry = some (pkgSuccess, bytes)) ↔
      ∃ stream buffers stop ret torn, z.inflateInit = some stream ∧
        Inflates updaterMode file (inflateStart z entry stream) buffers stop ∧
        (∀ i < buffers.length, out.refused i = none) ∧
        Stops updaterMode file (out.refused buffers.length) stop ret torn ∧
        (ret = zOk ∨ ret = zStreamEnd) ∧
        (entry.crc32 = 0 ∨ entry.crc32 = (crc32.ofBytes buffers.flatten).toNat) ∧
        bytes = buffers.flatten ++ torn := by
  constructor
  · rintro ⟨fuel, made⟩
    rw [unpackDeflated] at made
    cases init : z.inflateInit with
    | none =>
        rw [init] at made
        exact absurd (congrArg Prod.fst (Option.some.inj made)) (by decide : ¬ pkgNotExistAlgorithm = pkgSuccess)
    | some stream =>
        rw [init] at made
        obtain ⟨⟨ret, final, crc⟩, looped, result⟩ := Option.map_eq_some_iff.mp made
        obtain ⟨succeeded, rfl⟩ := Prod.mk.inj result
        obtain ⟨checked, ended⟩ := calculateUnpackData_success_iff.mp succeeded
        obtain broken | ⟨buffers, stop, torn, inflates, taken, stops, written, sum⟩ :=
          inflateLoop_inflates looped
        · exact absurd broken (by rcases ended with rfl | rfl <;> decide)
        · refine ⟨stream, buffers, stop, ret, torn, rfl, inflates, ?_, ?_, ended, ?_, written⟩
          · intro i within
            have each := taken i within
            rwa [Nat.zero_add] at each
          · rwa [Nat.zero_add] at stops
          · rwa [sum] at checked
  · rintro ⟨stream, buffers, stop, ret, torn, init, inflates, taken, stops, ended, checked, rfl⟩
    have taken' : ∀ i < buffers.length, out.refused ((⟨[], 0⟩ : Output).writes + i) = none := by
      intro i within
      rw [Nat.zero_add]
      exact taken i within
    have stops' : Stops updaterMode file (out.refused ((⟨[], 0⟩ : Output).writes + buffers.length))
        stop ret torn := by
      rwa [Nat.zero_add]
    have reached : ∃ fuel final,
        inflateLoop z crc32 updaterMode file out fuel (inflateStart z entry stream) ⟨[], 0⟩ 0 =
          some (ret, final, crc32.update 0 buffers.flatten) ∧
        final.bytes = [] ++ buffers.flatten ++ torn :=
      inflates.loop taken' stops'
    obtain ⟨fuel, final, made, written⟩ := reached
    refine ⟨fuel, ?_⟩
    rw [unpackDeflated, init]
    dsimp only
    rw [made, Option.map_some]
    refine congrArg some (Prod.ext ?_ written)
    exact calculateUnpackData_success_iff.mpr ⟨checked, ended⟩

/-- The entry comes out as the directory describes it, or not with success. -/
def UnpackedIntact (entry : ZipEntry) : Prop :=
  ∀ fuel bytes, entry.unpack z crc32 updaterMode file out fuel = some (pkgSuccess, bytes) →
    Describes crc32 entry bytes

/-- The result stands when the stream can be flushed behind it. -/
theorem flush_success_iff {result : Option (Int × Bytes)} {bytes : Bytes} :
    result.map (fun (ret, bytes) =>
        if ret ≠ pkgSuccess then (ret, bytes)
        else if out.flushed then (pkgSuccess, bytes)
        else (pkgInvalidStream, bytes)) = some (pkgSuccess, bytes) ↔
      out.flushed = true ∧ result = some (pkgSuccess, bytes) := by
  rcases result with _ | ⟨ret, held⟩
  · exact iff_of_false (fun other => by cases other) fun both => by cases both.2
  · rw [Option.map_some]
    dsimp only
    split
    · rename_i failed
      refine iff_of_false (fun same => ?_) fun both => ?_
      · exact failed (congrArg Prod.fst (Option.some.inj same))
      · exact failed (congrArg Prod.fst (Option.some.inj both.2))
    · rename_i succeeded
      rw [not_not.mp succeeded]
      split
      · rename_i flushed
        exact (and_iff_right flushed).symm
      · rename_i torn
        refine iff_of_false (fun same => ?_) fun both => torn both.1
        exact absurd (congrArg Prod.fst (Option.some.inj same))
          (by decide : ¬ pkgInvalidStream = pkgSuccess)

theorem unpack_success_iff {entry : ZipEntry} {bytes : Bytes} :
    (∃ fuel, entry.unpack z crc32 updaterMode file out fuel = some (pkgSuccess, bytes)) ↔
      out.flushed = true ∧
        ((entry.method = zStored ∧ unpackStored file out entry = (pkgSuccess, bytes)) ∨
          (entry.method = zDeflated ∧
            ∃ fuel, unpackDeflated z crc32 updaterMode file out fuel entry =
              some (pkgSuccess, bytes))) := by
  simp only [ZipEntry.unpack, flush_success_iff, exists_and_left]
  refine and_congr_right fun _ => ?_
  by_cases stored : entry.method = zStored
  · have other : ¬ (entry.method : Int) = zDeflated := by rw [stored]; decide
    simp only [if_pos stored, and_iff_right stored, other, false_and, or_false, exists_const]
    exact ⟨Option.some.inj, congrArg some⟩
  · simp only [stored, if_false, false_and, false_or]
    by_cases deflated : entry.method = zDeflated
    · simp only [if_pos deflated, and_iff_right deflated]
    · simp only [deflated, if_false, false_and, exists_const]
      refine iff_of_false (fun same => ?_) id
      exact absurd (congrArg Prod.fst (Option.some.inj same)) (by decide : ¬ pkgInvalidParam = pkgSuccess)

end Unpack

/-- A package of one stored entry, the byte `A`, with this CRC. -/
def storedZip (crc : Nat) : Bytes :=
  leBytes 4 localHeaderSignature ++ List.replicate 10 0 ++ leBytes 4 crc ++ leBytes 4 1 ++
    leBytes 4 1 ++ leBytes 2 1 ++ [0, 0, 0x61, 0x41] ++
  (leBytes 4 centralSignature ++ List.replicate 12 0 ++ leBytes 4 crc ++ leBytes 4 1 ++
    leBytes 4 1 ++ leBytes 2 1 ++ List.replicate 16 0 ++ [0x61]) ++
  (leBytes 4 endCentralSignature ++ [0, 0, 0, 0, 1, 0, 1, 0] ++ leBytes 4 47 ++ leBytes 4 32 ++ [0, 0])

def storedEntry (crc : Nat) : ZipEntry where
  identity := [0x61]
  method := 0
  modifiedTime := 0
  modifiedDate := 0
  crc32 := crc
  packedSize := 1
  unpackedSize := 1
  headerOffset := 0
  dataOffset := 31

/-- Inflation of a last block of a single stored byte; the stream says whether it ended. -/
def storedByte : Inflater where
  Stream := Bool
  inflateInit := some false
  inflate := fun ended next room =>
    match ended, next, room with
    | true, _, _ => ⟨zStreamEnd, 0, [], true⟩
    | false, 1 :: 1 :: 0 :: 0xfe :: 0xff :: byte :: _, _ + 1 => ⟨zStreamEnd, 6, [byte], true⟩
    | false, _, _ => ⟨-3, 0, [], false⟩
  fits := by
    intro ended next room
    split
    · exact Nat.zero_le _
    · exact Nat.succ_le_succ (Nat.zero_le _)
    · exact Nat.zero_le _

/-- A stream that takes everything. -/
def takesAll : OutStream where
  refused := fun _ => none
  flushed := true

end Updater.Package
