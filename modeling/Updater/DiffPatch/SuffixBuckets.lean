import Updater.DiffPatch.SuffixRounds

/-! `SuffixArray::InitBuckets`: the suffixes are put in the buckets of their first bytes. -/

set_option autoImplicit false

namespace Updater.DiffPatch

open Updater.Base

section Counts

variable {old : Bytes} {bucket other : Nat}

/-- How many bytes are below the one of the bucket. -/
def lower (old : Bytes) (bucket : Nat) : Nat :=
  old.countP fun byte => byte.toNat < bucket

/-- How many bytes are in the bucket. -/
def inBucket (old : Bytes) (bucket : Nat) : Nat :=
  old.countP fun byte => byte.toNat = bucket

theorem lower_zero (old : Bytes) : lower old 0 = 0 := by
  rw [lower, List.countP_eq_zero]
  intro byte _ below
  exact absurd (of_decide_eq_true below) (Nat.not_lt_zero _)

theorem lower_succ (old : Bytes) (bucket : Nat) :
    lower old (bucket + 1) = lower old bucket + inBucket old bucket := by
  rw [lower, lower, inBucket]
  induction old with
  | nil => rfl
  | cons byte old hypothesis =>
      rw [List.countP_cons, List.countP_cons, List.countP_cons, hypothesis]
      simp only [decide_eq_true_eq]
      split <;> split <;> split <;> omega

theorem lower_mono (le : bucket ≤ other) : lower old bucket ≤ lower old other := by
  induction le with
  | refl => exact Nat.le_refl _
  | step _ hypothesis =>
      rw [lower_succ]
      omega

theorem lower_last (old : Bytes) : lower old bucketSize = old.length := by
  rw [lower, List.countP_eq_length]
  intro byte _
  exact decide_eq_true byte.toNat_lt

theorem countBytes_getD (old : Bytes) (bucket : Nat) :
    (countBytes old).length = bucketSize ∧
      (bucket < bucketSize → (countBytes old).getD bucket 0 = (inBucket old bucket : Int)) := by
  induction old using List.reverseRecOn with
  | nil =>
      refine ⟨List.length_replicate, fun inside => ?_⟩
      rw [countBytes, List.foldl_nil, List.getD_eq_getElem?_getD, List.getElem?_replicate,
        if_pos inside]
      rfl
  | append_singleton old byte hypothesis =>
      obtain ⟨length, counts⟩ := hypothesis
      have next : countBytes (old ++ [byte]) = (countBytes old).set byte.toNat
          ((countBytes old).getD byte.toNat 0 + 1) := by
        rw [countBytes, List.foldl_append]
        rfl
      have position : byte.toNat < (countBytes old).length := length ▸ byte.toNat_lt
      refine ⟨by rw [next, List.length_set, length], fun inside => ?_⟩
      rw [next, getD_set position, inBucket, List.countP_append, List.countP_singleton]
      by_cases same : bucket = byte.toNat
      · rw [if_pos same, if_pos (decide_eq_true same.symm), ← same, counts inside]
        rfl
      · rw [if_neg same, if_neg fun held => same (of_decide_eq_true held).symm, counts inside]
        rfl

theorem bucketStarts_getD (old : Bytes) (bucket : Nat) (inside : bucket < bucketSize) :
    (bucketStarts old).getD bucket 0 = (lower old bucket : Int) := by
  have length := (countBytes_getD old 0).1
  have sums : ∀ bucket, bucket ≤ bucketSize →
      ((countBytes old).scanl (· + ·) 0)[bucket]? = some (lower old bucket : Int) := by
    intro bucket
    induction bucket with
    | zero =>
        intro _
        rw [List.getElem?_scanl_zero, lower_zero]
        rfl
    | succ bucket hypothesis =>
        intro within
        have count := (countBytes_getD old bucket).2 within
        have position : bucket < (countBytes old).length := length ▸ within
        rw [List.getD_eq_getElem?_getD, List.getElem?_eq_getElem position, Option.getD_some] at count
        rw [List.getElem?_succ_scanl, hypothesis (by omega), List.getElem?_eq_getElem position,
          lower_succ, count]
        rfl
  rw [bucketStarts, List.getD_eq_getElem?_getD, List.getElem?_take, if_pos inside,
    sums bucket (by omega)]
  rfl

end Counts

section Placing

variable {old : Bytes} {taken : Nat} {suffixArray buckets : List Int}

def byteAt (old : Bytes) (j : Nat) : Nat :=
  (old.getD j 0).toNat

theorem byteAt_lt (old : Bytes) (j : Nat) : byteAt old j < bucketSize :=
  UInt8.toNat_lt _

theorem inBucket_take_succ (inside : taken < old.length) (bucket : Nat) :
    inBucket (old.take (taken + 1)) bucket =
      inBucket (old.take taken) bucket + if byteAt old taken = bucket then 1 else 0 := by
  have last : byteAt old taken = (old[taken]).toNat := by
    rw [byteAt, List.getD_eq_getElem?_getD, List.getElem?_eq_getElem inside, Option.getD_some]
  rw [inBucket, List.take_succ_eq_append_getElem inside, List.countP_append, List.countP_singleton,
    last, inBucket]
  simp only [decide_eq_true_eq]

theorem inBucket_take_le (old : Bytes) (taken bucket : Nat) :
    inBucket (old.take taken) bucket ≤ inBucket old bucket :=
  (List.take_sublist taken old).countP_le

/-- The positions of a bucket that are filled, when the first bytes have been taken. -/
def filledPart (old : Bytes) (taken bucket : Nat) : Set Nat :=
  Set.Ico (lower old bucket + 1) (lower old bucket + 1 + inBucket (old.take taken) bucket)

/-- The positions of two buckets are apart. -/
theorem filledPart_unique {bucket bucket' p taken' : Nat} (inside : p ∈ filledPart old taken bucket)
    (inside' : p ∈ filledPart old taken' bucket') : bucket = bucket' := by
  obtain ⟨low, high⟩ := inside
  obtain ⟨low', high'⟩ := inside'
  have le := inBucket_take_le old taken bucket
  have le' := inBucket_take_le old taken' bucket'
  have succ := lower_succ old bucket
  have succ' := lower_succ old bucket'
  by_contra differs
  by_cases below : bucket < bucket'
  · have := @lower_mono old _ _ (Nat.succ_le_of_lt below)
    rw [Nat.succ_eq_add_one] at this
    omega
  · have above : bucket' + 1 ≤ bucket := by omega
    have := @lower_mono old _ _ above
    omega

/-- The first bytes have been put in their buckets. -/
structure Placing (old : Bytes) (taken : Nat) (suffixArray buckets : List Int) : Prop where
  entries : suffixArray.length = old.length + 1
  counts : buckets.length = bucketSize
  places {bucket : Nat} : bucket < bucketSize →
    buckets.getD bucket 0 = ((lower old bucket + inBucket (old.take taken) bucket : Nat) : Int)
  filled {bucket p : Nat} : p ∈ filledPart old taken bucket →
    ∃ j, j < taken ∧ suffixArray.getD p 0 = (j : Int) ∧ byteAt old j = bucket
  distinct (bucket : Nat) : Set.InjOn (suffixArray.getD · 0) (filledPart old taken bucket)
  found {j : Nat} : j < taken →
    ∃ p ∈ filledPart old taken (byteAt old j), suffixArray.getD p 0 = (j : Int)

theorem Placing.start (old : Bytes) :
    Placing old 0 (List.replicate (old.length + 1) 0) (bucketStarts old) := by
  have none_ : ∀ bucket p, p ∉ filledPart old 0 bucket := by
    intro bucket p inside
    obtain ⟨low, high⟩ := inside
    have zero : inBucket (old.take 0) bucket = 0 := rfl
    omega
  refine ⟨List.length_replicate, ?_, fun inside => ?_, fun inside => absurd inside (none_ _ _),
    fun bucket p inside => absurd inside (none_ _ _), fun held => absurd held (Nat.not_lt_zero _)⟩
  · rw [bucketStarts, List.length_take, List.length_scanl, (countBytes_getD old 0).1]
    rfl
  · rw [bucketStarts_getD old _ inside]
    rfl

/-- One more byte is put behind the others of its bucket. -/
theorem Placing.step (placing : Placing old taken suffixArray buckets)
    (inside : taken < old.length) :
    ∃ p : Nat, buckets.getD (byteAt old taken) 0 + 1 = (p : Int) ∧ p < suffixArray.length ∧
      Placing old (taken + 1) (suffixArray.set p (taken : Int))
        (buckets.set (byteAt old taken) (p : Int)) := by
  have place := placing.places (byteAt_lt old taken)
  have next := inBucket_take_succ inside
  have most := inBucket_take_le old (taken + 1) (byteAt old taken)
  have own := next (byteAt old taken)
  rw [if_pos rfl] at own
  have succ := lower_succ old (byteAt old taken)
  have last : lower old (byteAt old taken + 1) ≤ old.length :=
    lower_last old ▸ lower_mono (Nat.succ_le_of_lt (byteAt_lt old taken))
  obtain ⟨p, named⟩ : ∃ p, lower old (byteAt old taken) +
      inBucket (old.take taken) (byteAt old taken) + 1 = p := ⟨_, rfl⟩
  have position : p < suffixArray.length := by
    rw [placing.entries]
    omega
  have position' : byteAt old taken < buckets.length := placing.counts ▸ byteAt_lt old taken
  have new : p ∈ filledPart old (taken + 1) (byteAt old taken) := ⟨by omega, by omega⟩
  -- the other filled positions were filled before
  have before : ∀ {bucket q}, q ∈ filledPart old (taken + 1) bucket → q ≠ p →
      q ∈ filledPart old taken bucket := by
    intro bucket q held differs
    obtain ⟨low, high⟩ := id held
    have more := next bucket
    refine ⟨low, ?_⟩
    split at more
    · rename_i same
      rw [same] at own named
      omega
    · omega
  have fresh : ∀ bucket, p ∉ filledPart old taken bucket := by
    intro bucket held
    have same := filledPart_unique held new
    subst same
    have := held.2
    omega
  have wider : ∀ {bucket q}, q ∈ filledPart old taken bucket →
      q ∈ filledPart old (taken + 1) bucket := by
    intro bucket q held
    have more := next bucket
    exact ⟨held.1, Nat.lt_of_lt_of_le held.2 (by omega)⟩
  have kept : ∀ {bucket q}, q ∈ filledPart old taken bucket →
      (suffixArray.set p (taken : Int)).getD q 0 = suffixArray.getD q 0 := by
    intro bucket q held
    have differs : q ≠ p := fun same => fresh bucket (same ▸ held)
    rw [getD_set position, if_neg differs]
  have stored : (suffixArray.set p (taken : Int)).getD p 0 = (taken : Int) := by
    rw [getD_set position, if_pos rfl]
  refine ⟨p, by omega, position, ?_⟩
  refine ⟨by rw [List.length_set, placing.entries], by rw [List.length_set, placing.counts],
    fun {bucket} held => ?_, fun {bucket q} held => ?_, fun bucket q held q' held' same => ?_,
    fun {j} held => ?_⟩
  · have more := next bucket
    rw [getD_set position']
    split
    · rename_i same
      rw [same, own]
      omega
    · rename_i differs
      rw [if_neg (Ne.symm differs)] at more
      rw [placing.places held, more]
      rfl
  · by_cases same : q = p
    · subst same
      exact ⟨taken, Nat.lt_succ_self _, stored, filledPart_unique new held⟩
    · obtain ⟨j, early, entry, byte⟩ := placing.filled (before held same)
      exact ⟨j, Nat.lt_succ_of_lt early, (kept (before held same)).trans entry, byte⟩
  · simp only at same
    by_cases first : q = p <;> by_cases second : q' = p
    · rw [first, second]
    · obtain ⟨j, early, entry, -⟩ := placing.filled (before held' second)
      rw [first, stored, kept (before held' second), entry] at same
      omega
    · obtain ⟨j, early, entry, -⟩ := placing.filled (before held first)
      rw [second, stored, kept (before held first), entry] at same
      omega
    · rw [kept (before held first), kept (before held' second)] at same
      exact placing.distinct bucket (before held first) (before held' second) same
  · by_cases same : j = taken
    · subst same
      exact ⟨p, new, stored⟩
    · obtain ⟨q, early, entry⟩ := placing.found (by omega : j < taken)
      exact ⟨q, wider early, (kept early).trans entry⟩

/-- The bytes from `taken` on are put in their buckets. -/
theorem placeFrom_spec (old : Bytes) :
    ∀ (rest : Bytes) (taken : Nat) (suffixArray buckets : List Int),
      old.drop taken = rest → taken ≤ old.length → Placing old taken suffixArray buckets →
      ∃ suffixArray' buckets', (rest.zipIdx taken).foldlM (fun (suffixArray, buckets) (byte, index) => do
          let place := buckets.getD byte.toNat 0 + 1
          let suffixArray ← setAt suffixArray place (index : Int)
          pure (suffixArray, buckets.set byte.toNat place)) (suffixArray, buckets) =
            some (suffixArray', buckets') ∧ Placing old old.length suffixArray' buckets' := by
  intro rest
  induction rest with
  | nil =>
      intro taken suffixArray buckets same le placing
      have all : taken = old.length := by
        have := List.drop_eq_nil_iff.mp same
        omega
      exact ⟨suffixArray, buckets, rfl, all ▸ placing⟩
  | cons byte rest hypothesis =>
      intro taken suffixArray buckets same le placing
      have inside : taken < old.length := by
        by_contra other
        rw [List.drop_eq_nil_of_le (Nat.not_lt.mp other)] at same
        cases same
      rw [List.drop_eq_getElem_cons inside, List.cons.injEq] at same
      have byte_ : byteAt old taken = byte.toNat := by
        rw [byteAt, List.getD_eq_getElem?_getD, List.getElem?_eq_getElem inside,
          Option.getD_some, same.1]
      obtain ⟨p, place, position, placing'⟩ := placing.step inside
      rw [byte_] at place placing'
      obtain ⟨suffixArray', buckets', done, result⟩ :=
        hypothesis (taken + 1) _ _ same.2 inside placing'
      refine ⟨suffixArray', buckets', ?_, result⟩
      rw [List.zipIdx_cons, List.foldlM_cons]
      simp only [place, setAt_natCast position, Option.bind_eq_bind, Option.bind_some]
      exact done

/-- All bytes are put in their buckets. -/
theorem placeSuffixes_spec (old : Bytes) :
    ∃ suffixArray buckets, placeSuffixes old = some (suffixArray, buckets) ∧
      Placing old old.length suffixArray buckets :=
  placeFrom_spec old old 0 _ _ rfl (Nat.zero_le _) (.start old)

end Placing

section Marking

variable {old : Bytes} {suffixArray buckets : List Int}

/-- The position of the only suffix in a bucket; the first bucket is left out. -/
def Lone (old : Bytes) (most p : Nat) : Prop :=
  ∃ bucket, 0 < bucket ∧ bucket ≤ most ∧ inBucket old bucket = 1 ∧ p = lower old bucket + 1

theorem Placing.finished (placing : Placing old old.length suffixArray buckets) {bucket : Nat}
    (inside : bucket < bucketSize) :
    buckets.getD bucket 0 = (lower old (bucket + 1) : Int) := by
  rw [placing.places inside, List.take_length, lower_succ]

/-- Buckets of one suffix are marked. -/
theorem markLone_spec (placing : Placing old old.length suffixArray buckets) :
    ∀ (most : Nat) (entries : List Int), most < bucketSize → entries.length = old.length + 1 →
      ∃ entries', (List.range most).foldlM (fun suffixArray index => do
          let bucket := buckets.getD (index + 1) 0
          if bucket = buckets.getD index 0 + 1 then setAt suffixArray bucket (-1)
          else pure suffixArray) entries = some entries' ∧
        entries'.length = old.length + 1 ∧
        (∀ p, Lone old most p → entries'.getD p 0 = -1) ∧
        ∀ p, ¬ Lone old most p → entries'.getD p 0 = entries.getD p 0 := by
  intro most
  induction most with
  | zero =>
      intro entries _ length
      exact ⟨entries, rfl, length, fun p ⟨bucket, positive, le, _⟩ => absurd le (by omega),
        fun _ _ => rfl⟩
  | succ most hypothesis =>
      intro entries inside length
      obtain ⟨entries', marked, length', lone, others⟩ := hypothesis entries (by omega) length
      have split_ : ∀ p, Lone old (most + 1) p ↔
          Lone old most p ∨ inBucket old (most + 1) = 1 ∧ p = lower old (most + 1) + 1 := by
        intro p
        constructor
        · rintro ⟨bucket, positive, le, one, position⟩
          by_cases last : bucket = most + 1
          · exact .inr (last ▸ ⟨one, position⟩)
          · exact .inl ⟨bucket, positive, by omega, one, position⟩
        · rintro (⟨bucket, positive, le, one, position⟩ | ⟨one, position⟩)
          · exact ⟨bucket, positive, by omega, one, position⟩
          · exact ⟨most + 1, Nat.succ_pos most, Nat.le_refl _, one, position⟩
      have high := placing.finished inside
      have low := placing.finished (by omega : most < bucketSize)
      have succ := lower_succ old (most + 1)
      rw [List.range_succ, List.foldlM_append, marked, Option.bind_eq_bind, Option.bind_some,
        List.foldlM_cons]
      simp only [List.foldlM_nil, bind_pure, high, low]
      by_cases one : inBucket old (most + 1) = 1
      · have last : lower old (most + 1 + 1) ≤ old.length :=
          lower_last old ▸ lower_mono (Nat.succ_le_of_lt inside)
        have position : lower old (most + 1 + 1) < entries'.length := by omega
        rw [if_pos (by omega), setAt_natCast position]
        refine ⟨_, rfl, by rw [List.length_set, length'], fun p held => ?_, fun p other => ?_⟩
        · rw [getD_set position]
          split
          · rfl
          · rename_i differs
            rcases (split_ p).mp held with early | ⟨-, same⟩
            · exact lone p early
            · exact absurd (by omega) differs
        · rw [split_, not_or] at other
          rw [getD_set position, if_neg fun same => other.2 ⟨one, by omega⟩]
          exact others p other.1
      · rw [if_neg (by omega)]
        refine ⟨entries', rfl, length', fun p held => ?_, fun p other => ?_⟩
        · exact lone p (((split_ p).mp held).resolve_right fun held => one held.1)
        · exact others p fun held => other ((split_ p).mpr (.inl held))

/-- The arrays behind `InitBuckets`. -/
structure Bucketed (old : Bytes) (st : SortState) : Prop where
  sized : st.Sized (old.length + 1)
  empty : st.place old.length = 0
  places {a : Nat} : a < old.length → st.place a = (lower old (byteAt old a + 1) : Int)
  first : st.entry 0 = -1
  lone {p : Nat} : Lone old (bucketSize - 1) p → st.entry p = -1
  filled {bucket p : Nat} : ¬ Lone old (bucketSize - 1) p → p ∈ filledPart old old.length bucket →
    ∃ j, j < old.length ∧ st.entry p = (j : Int) ∧ byteAt old j = bucket
  distinct (bucket : Nat) : inBucket old bucket ≠ 1 →
    Set.InjOn st.entry (filledPart old old.length bucket)
  found {a : Nat} : a < old.length → ∃ p ∈ filledPart old old.length (byteAt old a),
    ¬ Lone old (bucketSize - 1) p → st.entry p = (a : Int)
  only {bucket : Nat} : inBucket old bucket = 1 →
    ∃ a, a < old.length ∧ ∀ b, b < old.length → (byteAt old b = bucket ↔ b = a)

theorem not_lone {bucket p : Nat} (several : inBucket old bucket ≠ 1)
    (inside : p ∈ filledPart old old.length bucket) : ¬ Lone old (bucketSize - 1) p := by
  rintro ⟨bucket', -, -, one, rfl⟩
  have own : lower old bucket' + 1 ∈ filledPart old old.length bucket' := by
    refine ⟨Nat.le_refl _, ?_⟩
    rw [List.take_length, one]
    exact Nat.lt_succ_self _
  exact several (filledPart_unique inside own ▸ one)

theorem initBuckets_bucketed (old : Bytes) :
    ∃ st, initBuckets old = some st ∧ Bucketed old st := by
  obtain ⟨suffixArray, buckets, placed, placing⟩ := placeSuffixes_spec old
  have position : 0 < suffixArray.length := by
    rw [placing.entries]
    omega
  obtain ⟨marked, marks, length, lone, others⟩ := markLone_spec placing (bucketSize - 1)
    (suffixArray.set 0 (old.length : Int)) (by decide) (by rw [List.length_set, placing.entries])
  have position' : 0 < marked.length := by omega
  obtain ⟨temp, temp_⟩ : ∃ temp : List Int,
      old.map (fun byte : UInt8 => buckets.getD byte.toNat 0) ++ [0] = temp := ⟨_, rfl⟩
  have places : ∀ a, a < old.length → temp.getD a 0 = (lower old (byteAt old a + 1) : Int) := by
    intro a inside
    have byte : byteAt old a = old[a].toNat := by
      rw [byteAt, List.getD_eq_getElem?_getD, List.getElem?_eq_getElem inside, Option.getD_some]
    rw [← temp_, List.getD_eq_getElem?_getD, List.getElem?_append_left (by rwa [List.length_map]),
      List.getElem?_map, List.getElem?_eq_getElem inside, Option.map_some, Option.getD_some, ← byte]
    exact placing.finished (byteAt_lt old a)
  -- behind the first position, entries that are not marked stay
  have entry_ : ∀ p, 0 < p → ¬ Lone old (bucketSize - 1) p →
      (marked.set 0 (-1)).getD p 0 = suffixArray.getD p 0 := by
    intro p positive other
    rw [getD_set position', if_neg (by omega), others p other, getD_set position,
      if_neg (by omega)]
  refine ⟨⟨marked.set 0 (-1), temp⟩, ?_, ?_⟩
  · rw [initBuckets, placed, Option.bind_eq_bind, Option.bind_some]
    refine (congrArg (Option.bind · _) (setAt_natCast position _)).trans ?_
    refine (congrArg (Option.bind · _) marks).trans ?_
    refine (congrArg (Option.bind · _) (setAt_natCast position' _)).trans ?_
    rw [← temp_]
    rfl
  · refine ⟨⟨by rw [List.length_set, length], by simp [← temp_]⟩, ?_,
      fun {a} inside => places a inside, ?_, fun {p} held => ?_, fun {bucket p} other inside => ?_,
      fun bucket several => ?_, fun {a} inside => ?_, fun {bucket} one => ?_⟩
    · change temp.getD old.length 0 = 0
      simp [← temp_, List.getD_eq_getElem?_getD]
    · exact (getD_set position' _ _).trans (if_pos rfl)
    · obtain ⟨bucket, -, -, -, same⟩ := id held
      exact (getD_set position' _ _).trans ((if_neg (by omega)).trans (lone p held))
    · obtain ⟨j, early, entry, byte⟩ := placing.filled inside
      exact ⟨j, early, (entry_ p (by have := inside.1; omega) other).trans entry, byte⟩
    · intro p held q held' same
      have kept := entry_ p (by have := held.1; omega) (not_lone several held)
      have kept' := entry_ q (by have := held'.1; omega) (not_lone several held')
      exact placing.distinct bucket held held' (kept.symm.trans (same.trans kept'))
    · obtain ⟨p, held, entry⟩ := placing.found inside
      exact ⟨p, held, fun other => (entry_ p (by have := held.1; omega) other).trans entry⟩
    · have part : ∀ p, p ∈ filledPart old old.length bucket ↔ p = lower old bucket + 1 := by
        intro p
        rw [filledPart, List.take_length, one, Set.mem_Ico]
        omega
      obtain ⟨a, early, entry, byte⟩ := placing.filled ((part _).mpr rfl)
      refine ⟨a, early, fun b held => ⟨fun same => ?_, fun same => same ▸ byte⟩⟩
      obtain ⟨q, held', entry'⟩ := placing.found held
      rw [same, part] at held'
      rw [held', entry] at entry'
      exact (Int.ofNat.inj entry').symm

end Marking

section Sorted

variable {old : Bytes} {st : SortState} {bucket : Nat}

theorem mem_filledPart (old : Bytes) (bucket p : Nat) :
    p ∈ filledPart old old.length bucket ↔
      lower old bucket + 1 ≤ p ∧ p < lower old (bucket + 1) + 1 := by
  rw [filledPart, List.take_length, lower_succ, Set.mem_Ico]
  omega

/-- The places of a bucket are those of its suffixes. -/
theorem Bucketed.byteAt_eq (bucketed : Bucketed old st) {a p : Nat} (inside : a < old.length + 1)
    (place : st.place a = (p : Int)) (held : p ∈ filledPart old old.length bucket) :
    a < old.length ∧ byteAt old a = bucket := by
  by_cases last : a = old.length
  · rw [last, bucketed.empty] at place
    rw [mem_filledPart] at held
    omega
  · have early : a < old.length := by omega
    obtain ⟨q, held', -⟩ := bucketed.found early
    rw [bucketed.places early] at place
    rw [mem_filledPart] at held'
    have own : p ∈ filledPart old old.length (byteAt old a) := by
      rw [mem_filledPart]
      omega
    exact ⟨early, filledPart_unique own held⟩

theorem Bucketed.group (bucketed : Bucketed old st)
    (unmarked : ¬ (0 < bucket ∧ inBucket old bucket = 1)) :
    Group (old.length + 1) 1 st.entry st.place (lower old bucket + 1)
      (lower old (bucket + 1) + 1) := by
  have part : ∀ {p}, p ∈ Set.Ico (lower old bucket + 1) (lower old (bucket + 1) + 1) →
      p ∈ filledPart old old.length bucket := fun {p} inside => (mem_filledPart old bucket p).mpr inside
  have notLone : ∀ {p}, p ∈ filledPart old old.length bucket → ¬ Lone old (bucketSize - 1) p := by
    rintro p inside ⟨bucket', positive, -, one, rfl⟩
    have own : lower old bucket' + 1 ∈ filledPart old old.length bucket' := by
      rw [mem_filledPart, lower_succ, one]
      omega
    have same := filledPart_unique inside own
    exact unmarked (same ▸ ⟨positive, one⟩)
  refine ⟨fun p inside => ?_, fun p inside q inside' same => ?_, fun {a} held low high => ?_,
    fun p inside => ?_⟩
  · obtain ⟨j, early, entry, -⟩ := bucketed.filled (notLone (part inside)) (part inside)
    rw [entry]
    exact ⟨Int.natCast_nonneg j, by rw [Int.toNat_natCast]; omega⟩
  · by_cases one : inBucket old bucket = 1
    · have succ := lower_succ old bucket
      obtain ⟨low, high⟩ := inside
      obtain ⟨low', high'⟩ := inside'
      omega
    · obtain ⟨j, -, entry, -⟩ := bucketed.filled (notLone (part inside)) (part inside)
      obtain ⟨j', -, entry', -⟩ := bucketed.filled (notLone (part inside')) (part inside')
      simp only [entry, entry', Int.toNat_natCast] at same
      exact bucketed.distinct bucket one (part inside) (part inside') (by rw [entry, entry', same])
  · obtain ⟨p, place⟩ := Int.eq_ofNat_of_zero_le (by omega : 0 ≤ st.place a)
    obtain ⟨early, byte⟩ := bucketed.byteAt_eq held place (part ⟨by omega, by omega⟩)
    obtain ⟨q, held', entry⟩ := bucketed.found early
    rw [byte] at held'
    refine ⟨q, (mem_filledPart old bucket q).mp held', ?_⟩
    rw [entry (notLone held'), Int.toNat_natCast]
  · obtain ⟨j, early, entry, byte⟩ := bucketed.filled (notLone (part inside)) (part inside)
    rw [entry, Int.toNat_natCast, bucketed.places early, byte]
    rfl

/-- A bucket is a group, a marked run, or empty. -/
theorem Bucketed.block (bucketed : Bucketed old st) (inside : bucket < bucketSize)
    (behind : Blocks (old.length + 1) 1 st.entry st.place (lower old (bucket + 1) + 1)
      (old.length + 1)) :
    Blocks (old.length + 1) 1 st.entry st.place (lower old bucket + 1) (old.length + 1) := by
  have succ := lower_succ old bucket
  by_cases none_ : inBucket old bucket = 0
  · have same : lower old (bucket + 1) = lower old bucket := by omega
    rw [same] at behind
    exact behind
  · by_cases marked : 0 < bucket ∧ inBucket old bucket = 1
    · have next : lower old bucket + 1 + 1 = lower old (bucket + 1) + 1 := by omega
      refine .run 1 Nat.one_pos (bucketed.lone ⟨bucket, marked.1, ?_, marked.2, rfl⟩)
        (fun p held => ?_) (next ▸ behind)
      · exact Nat.le_sub_one_of_lt inside
      · obtain ⟨low, high⟩ := held
        have own : p ∈ filledPart old old.length bucket := by
          rw [mem_filledPart]
          omega
        obtain ⟨a, early, only⟩ := bucketed.only marked.2
        refine ⟨a, by omega, fun b within => ⟨fun place => ?_, ?_⟩⟩
        · obtain ⟨early', byte⟩ := bucketed.byteAt_eq within place own
          exact (only b early').mp byte
        · rintro rfl
          rw [bucketed.places early, (only b early).mpr rfl]
          omega
    · have length : lower old bucket + 1 + inBucket old bucket = lower old (bucket + 1) + 1 := by
        omega
      refine .group (inBucket old bucket) (Nat.pos_of_ne_zero none_) ?_ (length.symm ▸ behind)
      rw [length]
      exact bucketed.group marked

/-- The buckets, and the empty suffix in front of them. -/
theorem Bucketed.blocks (bucketed : Bucketed old st) :
    Blocks (old.length + 1) 1 st.entry st.place 0 (old.length + 1) := by
  have fromBucket : ∀ back, back ≤ bucketSize → Blocks (old.length + 1) 1 st.entry st.place
      (lower old (bucketSize - back) + 1) (old.length + 1) := by
    intro back
    induction back with
    | zero =>
        intro _
        rw [Nat.sub_zero, lower_last]
        exact .nil _
    | succ back hypothesis =>
        intro le
        have next : bucketSize - (back + 1) + 1 = bucketSize - back := by omega
        exact bucketed.block (by omega) (next.symm ▸ hypothesis (by omega))
  have all := fromBucket bucketSize (Nat.le_refl _)
  rw [Nat.sub_self, lower_zero] at all
  refine .run 1 Nat.one_pos bucketed.first (fun p held => ?_) all
  have only : p = 0 := by
    have := held.2
    omega
  subst only
  refine ⟨old.length, Nat.lt_succ_self _, fun b inside => ⟨fun place => ?_, ?_⟩⟩
  · by_contra other
    have early : b < old.length := by omega
    obtain ⟨q, held', -⟩ := bucketed.found early
    rw [mem_filledPart] at held'
    rw [bucketed.places early] at place
    omega
  · rintro rfl
    exact bucketed.empty

theorem drop_eq_cons {a : Nat} (inside : a < old.length) :
    old.drop a = old[a] :: old.drop (a + 1) :=
  List.drop_eq_getElem_cons inside

theorem byteAt_getElem {a : Nat} (inside : a < old.length) : byteAt old a = old[a].toNat := by
  rw [byteAt, List.getD_eq_getElem?_getD, List.getElem?_eq_getElem inside, Option.getD_some]

/-- The places order the suffixes by their first bytes. -/
theorem Bucketed.orders (bucketed : Bucketed old st) : Orders old 1 st.place := by
  have positive : ∀ {a}, a < old.length → 0 < st.place a := by
    intro a inside
    obtain ⟨p, held, -⟩ := bucketed.found inside
    rw [mem_filledPart] at held
    rw [bucketed.places inside]
    omega
  refine ⟨fun {a b} le le' less => ?_, fun {a b} le le' differs same => ?_⟩
  · have late : b ≠ old.length := by
      rintro rfl
      rw [bucketed.empty] at less
      by_cases last : a = old.length
      · rw [last, bucketed.empty] at less
        omega
      · have := positive (by omega : a < old.length)
        omega
    have inside' : b < old.length := by omega
    rw [Before, drop_eq_cons inside']
    by_cases last : a = old.length
    · rw [last, List.drop_length]
      exact .nil
    · have inside : a < old.length := by omega
      rw [drop_eq_cons inside]
      rw [bucketed.places inside, bucketed.places inside'] at less
      refine .rel ?_
      rw [UInt8.lt_iff_toNat_lt, ← byteAt_getElem inside, ← byteAt_getElem inside']
      by_contra other
      have le : byteAt old b + 1 ≤ byteAt old a + 1 := Nat.succ_le_succ (Nat.not_lt.mp other)
      have := @lower_mono old _ _ le
      omega
  · have apart : ∀ {a b}, a ≤ old.length → b ≤ old.length → a ≠ b → st.place a = st.place b →
        a < old.length := by
      intro a b le le' differs same
      by_contra last
      have whole : a = old.length := by omega
      rw [whole, bucketed.empty] at same
      have := positive (by omega : b < old.length)
      omega
    have inside := apart le le' differs same
    have inside' := apart le' le (Ne.symm differs) same.symm
    obtain ⟨p, held, -⟩ := bucketed.found inside'
    rw [mem_filledPart] at held
    have place := bucketed.places inside
    rw [same, bucketed.places inside'] at place
    have byte := (bucketed.byteAt_eq (by omega) (bucketed.places inside)
      ((mem_filledPart old (byteAt old b) _).mpr (by omega))).2
    refine ⟨by omega, by omega, ?_⟩
    rw [drop_eq_cons inside, drop_eq_cons inside', List.take_succ_cons, List.take_succ_cons,
      List.take_zero, List.take_zero]
    rw [byteAt_getElem inside, byteAt_getElem inside'] at byte
    rw [UInt8.toNat_inj.mp byte]

/-- Behind `InitBuckets` the suffixes are sorted by their first bytes. -/
theorem initBuckets_sorting (old : Bytes) :
    ∃ st, initBuckets old = some st ∧ SortState.Sorting old 1 st := by
  obtain ⟨st, begun, bucketed⟩ := initBuckets_bucketed old
  refine ⟨st, begun, bucketed.sized, fun {a} le => ?_, bucketed.orders, bucketed.blocks⟩
  by_cases last : a = old.length
  · rw [last, bucketed.empty]
    omega
  · have inside : a < old.length := by omega
    have most := @lower_mono old _ _ (Nat.succ_le_of_lt (byteAt_lt old a))
    rw [lower_last, Nat.succ_eq_add_one] at most
    rw [bucketed.places inside]
    omega

end Sorted

end Updater.DiffPatch
