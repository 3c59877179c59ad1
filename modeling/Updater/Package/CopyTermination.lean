import Updater.Package.VerifiedUnpack

/-! Which copies end: `Pack`, `Unpack` and `UnpackWithVerify` of `PkgAlgorithm`, and
`PkgAlgoDeflate::ReadFully`, over streams that hold less than what is declared. -/

set_option autoImplicit false

namespace Updater.Package

open Updater.Base

namespace SourceStream

/-- The loop of `ReadFully`; a read that fails ends it with a failure. -/
def readFullyLoop (expectedLen : Nat) : Nat → SourceStream → Nat → Nat → Bytes →
    Option (Option (Bytes × SourceStream))
  | 0, _, _, _, _ => none
  | fuel + 1, source, offset, remaining, total =>
      if remaining > 0 ∧ total.length < expectedLen then
        match source.readData offset inflateInBufferSizeNormalMode remaining with
        | .blocked => none
        | .failed => some none
        | .given bytes source =>
            readFullyLoop expectedLen fuel source (size64 (offset + bytes.length))
              (remaining - bytes.length) (total ++ bytes)
      else some (some (total, source))

/-- `PkgAlgoDeflate::ReadFully`, for so many turns at most. -/
def readFully (fuel : Nat) (source : SourceStream) (offset packedSize : Nat) :
    Option (Option (Bytes × SourceStream)) :=
  let expectedLen := min inflateInBufferSizeNormalMode packedSize
  source.readFullyLoop expectedLen fuel offset expectedLen []

end SourceStream

section

variable {calls : CopyCalls}

theorem readData_positive {source : SourceStream} {offset length remainSize : Nat}
    (more : remainSize ≠ 0) (room : 0 < length) :
    source.readData offset length remainSize = source.read offset (min remainSize length) := by
  rw [SourceStream.readData, if_neg]
  omega

/-- The offset behind a read of a loop that is not endless. -/
theorem size64_behind {source next : SourceStream} {start : Nat} {bytes : Bytes}
    (gives : source.Gives start bytes next) (small : start < 2 ^ 64) :
    size64 (start + bytes.length) = start + bytes.length := by
  refine Nat.mod_eq_of_lt ?_
  by_cases nothing : bytes = []
  · rw [nothing]
    exact small
  · exact gives.small nothing

/-- The copying loop ends over every stream that is not endless for it. -/
theorem copyLoop_ends {st : CopyState} (small : st.srcOffset < 2 ^ 64)
    (finite : ¬ st.source.Endless st.srcOffset st.remainSize) :
    ∃ fuel last, copyLoop calls fuel st = some last := by
  induction remain : st.remainSize using Nat.strong_induction_on generalizing st with
  | _ remainSize ih =>
      subst remain
      by_cases done : st.remainSize = 0
      · exact ⟨1, st, by rw [copyLoop, if_pos done]⟩
      have room := maxBufferSize_pos
      cases turn : copyTurn calls st with
      | blocked =>
          rw [copyTurn, readData_positive done room] at turn
          cases read : st.source.read st.srcOffset (min st.remainSize maxBufferSize) with
          | blocked => exact absurd (SourceStream.endless_of_blocked read (by omega)) finite
          | failed =>
              simp only [read] at turn
              cases turn
          | given bytes source =>
              simp only [read] at turn
              split at turn
              · cases turn
              · split at turn
                · cases turn
                · cases turn
      | broke last => exact ⟨1, last, by rw [copyLoop, if_neg done, turn]⟩
      | went next =>
          obtain ⟨bytes, source, read, -, -, same⟩ := copyTurn_went turn
          rw [readData_positive done room] at read
          obtain ⟨bound, gives⟩ := SourceStream.read_gives read
          have advanced : next.srcOffset = st.srcOffset + bytes.length := by
            rw [same]
            exact size64_behind gives small
          have remain : next.remainSize = st.remainSize - bytes.length := by rw [same]
          have behind : next.source = source := by rw [same]
          have some : bytes.length ≠ 0 := by
            intro none
            rw [List.eq_nil_of_length_eq_zero none] at read
            exact finite (SourceStream.endless_of_given_nil read (by omega) (by omega))
          have nextSmall : next.srcOffset < 2 ^ 64 := by
            rw [same]
            exact Nat.mod_lt _ (by decide)
          have nextFinite : ¬ next.source.Endless next.srcOffset next.remainSize := by
            rw [behind, advanced, remain]
            exact fun endless => finite (SourceStream.Endless.of_read read (by omega) endless)
          obtain ⟨fuel, last, run⟩ := ih next.remainSize (by omega) nextSmall nextFinite rfl
          exact ⟨fuel + 1, last, by rw [copyLoop, if_neg done, turn]; exact run⟩

/-- Over an endless stream it goes on for ever, where all that is read is accepted. -/
theorem copyLoop_endless {st : CopyState} (small : st.srcOffset < 2 ^ 64)
    (endless : st.source.Endless st.srcOffset st.remainSize) (fuel : Nat) :
    copyLoop ⟨none, fun _ _ _ => true⟩ fuel st = none := by
  induction fuel generalizing st with
  | zero => rfl
  | succ fuel ih =>
      have more : st.remainSize ≠ 0 := fun none => endless.1 (none ▸ Nat.zero_le _)
      have failing : st.source.read st.srcOffset (min st.remainSize maxBufferSize) ≠ .failed :=
        endless.not_failed
      rw [copyLoop, if_neg more, copyTurn, readData_positive more maxBufferSize_pos]
      cases read : st.source.read st.srcOffset (min st.remainSize maxBufferSize) with
      | failed => exact absurd read failing
      | blocked => rfl
      | given bytes source =>
          have advanced := size64_behind (SourceStream.read_gives read).2 small
          refine ih (Nat.mod_lt _ (by decide)) ?_
          rw [advanced]
          exact endless.read (by omega) read

namespace SourceStream

/-- `ReadFully` ends over every stream that is not endless for what it expects: each turn
takes a byte at least. -/
theorem readFullyLoop_ends {fuel expectedLen offset remaining : Nat} {source : SourceStream}
    (total : Bytes) (small : offset < 2 ^ 64) (finite : ¬ source.Endless offset remaining)
    (enough : remaining < fuel) :
    ∃ result, source.readFullyLoop expectedLen fuel offset remaining total = some result := by
  induction fuel generalizing remaining source offset total with
  | zero => exact absurd enough (Nat.not_lt_zero _)
  | succ fuel ih =>
      by_cases more : remaining > 0 ∧ total.length < expectedLen
      · have room : 0 < inflateInBufferSizeNormalMode := by decide
        have data : source.readData offset inflateInBufferSizeNormalMode remaining = _ :=
          readData_positive (Nat.ne_of_gt more.1) room
        cases read : source.read offset (min remaining inflateInBufferSizeNormalMode) with
        | blocked => exact absurd (endless_of_blocked read (by omega)) finite
        | failed => exact ⟨none, by rw [readFullyLoop, if_pos more, data, read]⟩
        | given bytes next =>
            obtain ⟨bound, gives⟩ := read_gives read
            have advanced := size64_behind gives small
            have some : bytes.length ≠ 0 := by
              intro none
              rw [List.eq_nil_of_length_eq_zero none] at read
              exact finite (endless_of_given_nil read (by omega) (by omega))
            have nextSmall : offset + bytes.length < 2 ^ 64 :=
              advanced ▸ Nat.mod_lt _ (by decide)
            obtain ⟨result, run⟩ := @ih _ (remaining - bytes.length) next
              (total ++ bytes) nextSmall
              (fun endless => finite (Endless.of_read read (by omega) endless)) (by omega)
            refine ⟨result, ?_⟩
            rw [readFullyLoop, if_pos more, data, read]
            simp only [advanced, run]
      · exact ⟨_, by rw [readFullyLoop, if_neg more]⟩

/-- Over an endless stream `ReadFully` does not end. -/
theorem readFullyLoop_endless {fuel expectedLen offset remaining : Nat} {source : SourceStream}
    {total : Bytes} (counted : total.length + remaining = expectedLen) (small : offset < 2 ^ 64)
    (endless : source.Endless offset remaining) :
    source.readFullyLoop expectedLen fuel offset remaining total = none := by
  induction fuel generalizing remaining source offset total with
  | zero => rfl
  | succ fuel ih =>
      have more : remaining > 0 :=
        Nat.pos_of_ne_zero fun none => endless.1 (none ▸ Nat.zero_le _)
      have room : 0 < inflateInBufferSizeNormalMode := by decide
      rw [readFullyLoop, if_pos ⟨more, by omega⟩, readData_positive (Nat.ne_of_gt more) room]
      cases read : source.read offset (min remaining inflateInBufferSizeNormalMode) with
      | blocked => rfl
      | failed => exact absurd read endless.not_failed
      | given bytes next =>
          obtain ⟨bound, gives⟩ := read_gives read
          have advanced := size64_behind gives small
          dsimp only
          rw [advanced]
          exact ih (by rw [List.length_append]; omega) (advanced ▸ Nat.mod_lt _ (by decide))
            (endless.read (by omega) read)

/-- What `ReadFully` gives are the bytes that it expects, from the stream. -/
theorem readFullyLoop_gives {fuel expectedLen offset remaining : Nat} {source last : SourceStream}
    {total bytes : Bytes} (counted : total.length + remaining = expectedLen)
    (small : offset < 2 ^ 64)
    (run : source.readFullyLoop expectedLen fuel offset remaining total = some (some (bytes, last))) :
    ∃ more, bytes = total ++ more ∧ more.length = remaining ∧ source.Gives offset more last := by
  induction fuel generalizing source offset remaining total with
  | zero => cases run
  | succ fuel ih =>
      rw [readFullyLoop] at run
      split at run
      · rename_i more
        split at run
        · cases run
        · cases run
        · rename_i found next read
          obtain ⟨bound, -, gives⟩ := readData_gives read
          have advanced := size64_behind gives small
          have nextSmall : offset + found.length < 2 ^ 64 := advanced ▸ Nat.mod_lt _ (by decide)
          rw [advanced] at run
          obtain ⟨rest, rfl, length, behind⟩ := ih (by rw [List.length_append]; omega) nextSmall run
          refine ⟨found ++ rest, List.append_assoc _ _ _, ?_, gives.trans behind⟩
          rw [List.length_append]
          omega
      · rename_i done
        cases run
        exact ⟨[], (List.append_nil _).symm, by rw [List.length_nil]; omega, Gives.refl _ _⟩

end SourceStream

end

/-- Every copy of so many bytes from an offset of a stream ends, and fails if the stream does
not hold them; the same of `ReadFully` and what it expects. -/
structure CopiesEnd (source : SourceStream) (offset size : Nat) : Prop where
  pack : ∀ calls sha256 context, context.srcOffset = offset → context.unpackedSize = size →
    (∃ fuel copied, Package.pack calls sha256 fuel source context = some copied) ∧
      (¬ source.Holds offset size → ∀ fuel copied,
        Package.pack calls sha256 fuel source context = some copied → copied.ret ≠ pkgSuccess)
  unpack : ∀ calls sha256 context, context.srcOffset = offset → context.packedSize = size →
    (∃ fuel copied, Package.unpack calls sha256 fuel source context = some copied) ∧
      (¬ source.Holds offset size → ∀ fuel copied,
        Package.unpack calls sha256 fuel source context = some copied → copied.ret ≠ pkgSuccess)
  unpackWithVerify : ∀ calls sha256 context, context.srcOffset = offset →
    context.packedSize = size →
    (∃ fuel copied,
        Package.unpackWithVerify calls sha256 fuel source context = some copied) ∧
      (¬ source.Holds offset size → ∀ fuel copied,
        Package.unpackWithVerify calls sha256 fuel source context = some copied →
          copied.ret ≠ pkgSuccess)
  readFully : (∃ fuel result, source.readFully fuel offset size = some result) ∧
    (¬ source.Holds offset (min inflateInBufferSizeNormalMode size) → ∀ fuel result,
      source.readFully fuel offset size = some result → result = none)

section

variable {source : SourceStream} {offset size : Nat}

/-- A copy that succeeds has found all of its bytes in the stream. -/
theorem unpackWithVerify_holds {calls : CopyCalls} {sha256 : Bytes → Bytes} {fuel : Nat}
    {context : PkgAlgorithmContext} {copied : Copied}
    (run : unpackWithVerify calls sha256 fuel source context = some copied)
    (success : copied.ret = pkgSuccess) : source.Holds context.srcOffset context.packedSize := by
  obtain ⟨last, loop, rfl⟩ := Option.map_eq_some_iff.mp run
  obtain ⟨-, -, -, -, dest, bound, whole⟩ := copying_start.left loop
  have packed := context.packedSmall
  have length := sub64_add context.destSmall (show last.updated.length < 2 ^ 64 by omega)
  rw [← dest] at length
  dsimp only at success
  rw [length] at success
  split at success
  · rename_i digest
    exact absurd success digest
  split at success
  · have invalid : pkgInvalidDigest ≠ pkgSuccess := by decide
    exact absurd success invalid
  · rename_i short
    rw [not_not] at short
    exact short ▸ (whole short).gives.length_le

theorem pack_holds {calls : CopyCalls} {sha256 : Bytes → Bytes} {fuel : Nat}
    {context : PkgAlgorithmContext} {copied : Copied}
    (run : pack calls sha256 fuel source context = some copied)
    (success : copied.ret = pkgSuccess) :
    source.Holds context.srcOffset context.unpackedSize := by
  obtain ⟨last, loop, rfl⟩ := Option.map_eq_some_iff.mp run
  obtain ⟨-, -, -, src, -, bound, whole⟩ := copying_start.left loop
  have srcSmall := context.srcSmall
  have unpacked := context.unpackedSmall
  have length : sub64 last.srcOffset context.srcOffset = last.updated.length := by
    rw [src, sub64]
    omega
  dsimp only at success
  rw [length] at success
  split at success
  · rename_i digest
    exact absurd success digest
  split at success
  · have invalid : pkgInvalidDigest ≠ pkgSuccess := by decide
    exact absurd success invalid
  · rename_i short
    rw [not_not] at short
    exact short ▸ (whole short).gives.length_le

theorem copyStart_ends {calls : CopyCalls} {context : PkgAlgorithmContext}
    (src : context.srcOffset = offset) (finite : ¬ source.Endless offset size) :
    ∃ fuel last, copyLoop calls fuel (copyStart source context size) = some last := by
  subst src
  exact copyLoop_ends context.srcSmall finite

theorem copiesEnd_of_not_endless (small : offset < 2 ^ 64) (finite : ¬ source.Endless offset size) :
    CopiesEnd source offset size := by
  constructor
  · rintro calls sha256 context src rfl
    constructor
    · obtain ⟨fuel, last, run⟩ := copyStart_ends src finite
      exact ⟨fuel, _, by rw [pack, run, Option.map_some]⟩
    · intro short fuel copied run success
      exact short (src ▸ pack_holds run success)
  · rintro calls sha256 context src rfl
    constructor
    · obtain ⟨fuel, last, run⟩ := copyStart_ends src finite
      exact ⟨fuel, _, by rw [unpack, unpackWithVerify, run, Option.map_some]⟩
    · intro short fuel copied run success
      exact short (src ▸ unpackWithVerify_holds run success)
  · rintro calls sha256 context src rfl
    constructor
    · obtain ⟨fuel, last, run⟩ := copyStart_ends src finite
      exact ⟨fuel, _, by rw [unpackWithVerify, run, Option.map_some]⟩
    · intro short fuel copied run success
      exact short (src ▸ unpackWithVerify_holds run success)
  · constructor
    · exact ⟨_, SourceStream.readFullyLoop_ends [] small
        (fun endless => finite (endless.mono (Nat.min_le_right _ _))) (Nat.lt_succ_self _)⟩
    · intro short fuel result run
      cases result with
      | none => rfl
      | some found =>
          obtain ⟨bytes, last⟩ := found
          obtain ⟨more, -, length, gives⟩ :=
            SourceStream.readFullyLoop_gives (by rw [List.length_nil, Nat.zero_add]) small run
          exact absurd (length ▸ gives.length_le) short

/-- A context of a copy of so many bytes without a digest. -/
def plainContext (offset size : Nat) (offsetSmall : offset < 2 ^ 64) (small : size < 2 ^ 64) :
    PkgAlgorithmContext where
  srcOffset := offset
  destOffset := 0
  packedSize := size
  unpackedSize := size
  crc := 0
  digestMethod := 0
  digest := []
  srcSmall := offsetSmall
  destSmall := zero_small
  packedSmall := small
  unpackedSmall := small

theorem not_copiesEnd_of_endless (offsetSmall : offset < 2 ^ 64) (small : size < 2 ^ 64)
    (endless : source.Endless offset size) : ¬ CopiesEnd source offset size := by
  intro ends
  obtain ⟨⟨fuel, copied, run⟩, -⟩ := ends.unpack ⟨none, fun _ _ _ => true⟩ id
    (plainContext offset size offsetSmall small) rfl rfl
  obtain ⟨last, loop, -⟩ := Option.map_eq_some_iff.mp run
  have forever : copyLoop ⟨none, fun _ _ _ => true⟩ fuel
      (copyStart source (plainContext offset size offsetSmall small) size) = none :=
    copyLoop_endless offsetSmall endless fuel
  cases forever.symm.trans loop

end

end Updater.Package
