import Updater.Base.Bytes

/-! `SuffixArray`: sorting the suffixes of the old file by doubling prefixes, and
the search for a longest match. An access outside an array gives `none`. -/

set_option autoImplicit false

namespace Updater.DiffPatch

open Updater.Base

def bucketSize : Nat := 256

def multipleTwo : Nat := 2

def minLength : Nat := 16

section

variable {α : Type}

def getAt (array : List α) (index : Int) : Option α :=
  if index < 0 then none else array[index.toNat]?

def setAt (array : List α) (index : Int) (value : α) : Option (List α) :=
  if 0 ≤ index ∧ index.toNat < array.length then some (array.set index.toNat value) else none

def swapAt (array : List α) (left right : Int) : Option (List α) := do
  let first ← getAt array left
  let second ← getAt array right
  let array ← setAt array left second
  setAt array right first

end

/-- `suffixArray_` and `suffixArrayTemp` while sorting. -/
structure SortState where
  suffixArray : List Int
  suffixArrayTemp : List Int
  deriving DecidableEq, Repr

def countBytes (old : Bytes) : List Int :=
  old.foldl (fun buckets byte => buckets.set byte.toNat (buckets.getD byte.toNat 0 + 1))
    (List.replicate bucketSize 0)

/-- Start of each byte's bucket: the number of smaller bytes. -/
def bucketStarts (old : Bytes) : List Int :=
  let sums := (countBytes old).scanl (· + ·) 0
  sums.take bucketSize

/-- Puts every position at the next place of its byte's bucket. -/
def placeSuffixes (old : Bytes) : Option (List Int × List Int) :=
  old.zipIdx.foldlM (fun (suffixArray, buckets) (byte, index) => do
      let place := buckets.getD byte.toNat 0 + 1
      let suffixArray ← setAt suffixArray place (index : Int)
      pure (suffixArray, buckets.set byte.toNat place))
    (List.replicate (old.length + 1) 0, bucketStarts old)

def initBuckets (old : Bytes) : Option SortState := do
  let (suffixArray, buckets) ← placeSuffixes old
  let suffixArray ← setAt suffixArray 0 (old.length : Int)
  let suffixArrayTemp := old.map (fun byte => buckets.getD byte.toNat 0) ++ [0]
  let suffixArray ← (List.range (bucketSize - 1)).foldlM (fun suffixArray index => do
      let bucket := buckets.getD (index + 1) 0
      if bucket = buckets.getD index 0 + 1 then setAt suffixArray bucket (-1) else pure suffixArray)
    suffixArray
  let suffixArray ← setAt suffixArray 0 (-1)
  pure { suffixArray, suffixArrayTemp }

/-- `suffixArrayTemp[suffixArray_[index] + h]`. -/
def rank (st : SortState) (h index : Int) : Option Int := do
  let suffix ← getAt st.suffixArray index
  getAt st.suffixArrayTemp (suffix + h)

/-- Collects at `k` the entries of least rank among `k`, ..., `finish - 1`. -/
def collectLeast (h k finish : Int) : Nat → Int → Int → Int → SortState →
    Option (Int × SortState)
  | 0, _, _, _, _ => none
  | fuel + 1, i, j, x, st =>
      if k + i < finish then do
        let value ← rank st h (k + i)
        let (x, j) := if value < x then (value, 0) else (x, j)
        if value = x then do
          let suffixArray ← swapAt st.suffixArray (k + j) (k + i)
          collectLeast h k finish fuel (i + 1) (j + 1) x { st with suffixArray }
        else collectLeast h k finish fuel (i + 1) j x st
      else pure (j, st)

/-- Gives the `count` entries from `start` on the rank `value`. -/
def assignRank (start value : Int) : Nat → SortState → Option SortState
  | 0, st => some st
  | count + 1, st => do
      let st ← assignRank start value count st
      let suffix ← getAt st.suffixArray (start + count)
      let suffixArrayTemp ← setAt st.suffixArrayTemp suffix value
      pure { st with suffixArrayTemp }

def splitForLess (h finish : Int) : Nat → Int → SortState → Option SortState
  | 0, _, _ => none
  | fuel + 1, k, st =>
      if k < finish then do
        let x ← rank st h k
        let (j, st) ← collectLeast h k finish (finish - k).toNat 1 1 x st
        let st ← assignRank k (k + j - 1) j.toNat st
        if j = 1 then do
          let suffixArray ← setAt st.suffixArray k (-1)
          splitForLess h finish fuel (k + j) { st with suffixArray }
        else splitForLess h finish fuel (k + j) st
      else pure st

/-- How many ranks from `start` on are below `x`, and how many equal it. -/
def countRanks (h start x : Int) : Nat → SortState → Option (Int × Int)
  | 0, _ => some (0, 0)
  | count + 1, st => do
      let (below, equal) ← countRanks h start x count st
      let value ← rank st h (start + count)
      pure (if value < x then below + 1 else below, if value = x then equal + 1 else equal)

/-- The first `while` loop of `Split`; returns the counters `j` and `k`. -/
def splitBelow (h x jj kk : Int) : Nat → Int → Int → Int → SortState →
    Option (Int × Int × SortState)
  | 0, _, _, _, _ => none
  | fuel + 1, i, j, k, st =>
      if i < jj then do
        let value ← rank st h i
        if value < x then splitBelow h x jj kk fuel (i + 1) j k st
        else if value = x then do
          let suffixArray ← swapAt st.suffixArray i (jj + j)
          splitBelow h x jj kk fuel i (j + 1) k { st with suffixArray }
        else do
          let suffixArray ← swapAt st.suffixArray i (kk + k)
          splitBelow h x jj kk fuel i j (k + 1) { st with suffixArray }
      else pure (j, k, st)

def splitEqual (h x jj kk : Int) : Nat → Int → Int → SortState → Option SortState
  | 0, _, _, _ => none
  | fuel + 1, j, k, st =>
      if jj + j < kk then do
        let value ← rank st h (jj + j)
        if value = x then splitEqual h x jj kk fuel (j + 1) k st
        else do
          let suffixArray ← swapAt st.suffixArray (jj + j) (kk + k)
          splitEqual h x jj kk fuel j (k + 1) { st with suffixArray }
      else pure st

/-- `Split`; `fuel` bounds the depth of its calls. -/
def split (h : Int) : Nat → Int → Int → SortState → Option SortState
  | 0, _, _, _ => none
  | fuel + 1, start, len, st =>
      if len < minLength then splitForLess h (start + len) (len.toNat + 1) start st
      else do
        let x ← rank st h (start + len / multipleTwo)
        let (below, equal) ← countRanks h start x len.toNat st
        let jj := start + below
        let kk := jj + equal
        let (j, k, st) ← splitBelow h x jj kk (len.toNat + 1) start 0 0 st
        let st ← splitEqual h x jj kk (len.toNat + 1) j k st
        let st ← if jj > start then split h fuel start (jj - start) st else pure st
        let st ← assignRank jj (kk - 1) (kk - jj).toNat st
        let suffixArray ←
          if jj = kk - 1 then setAt st.suffixArray jj (-1) else pure st.suffixArray
        let st := { st with suffixArray }
        if start + len > kk then split h fuel kk (start + len - kk) st else pure st

/-- One round: every unsorted run is split, sorted runs are joined. -/
def sortRound (h size : Int) : Nat → Int → Int → SortState → Option SortState
  | 0, _, _, _ => none
  | fuel + 1, i, len, st =>
      if i < size then do
        let entry ← getAt st.suffixArray i
        if entry < 0 then sortRound h size fuel (i - entry) (len - entry) st
        else do
          let suffixArray ← if len ≠ 0 then setAt st.suffixArray (i - len) (-len)
            else pure st.suffixArray
          let st := { st with suffixArray }
          let suffix ← getAt st.suffixArray i
          let last ← getAt st.suffixArrayTemp suffix
          let st ← split h (size.toNat + 1) i (last + 1 - i) st
          sortRound h size fuel (i + (last + 1 - i)) 0 st
      else if len ≠ 0 then do
        let suffixArray ← setAt st.suffixArray (i - len) (-len)
        pure { st with suffixArray }
      else pure st

/-- Rounds with `h` doubled each time, until all is one sorted run. -/
def sortRounds (size : Int) : Nat → Int → SortState → Option SortState
  | 0, _, _ => none
  | fuel + 1, h, st => do
      let first ← getAt st.suffixArray 0
      if first = -size then pure st
      else do
        let st ← sortRound h size (size.toNat + 1) 0 0 st
        sortRounds size fuel (h + h) st

/-- `Init`; a run out of rounds does not end. -/
def SuffixArray.init (old : Bytes) : Option (List Int) := do
  let st ← initBuckets old
  let st ← sortRounds (old.length + 1) (old.length + 2) 1 st
  st.suffixArrayTemp.zipIdx.foldlM (fun suffixArray (place, index) =>
    setAt suffixArray place (index : Int)) st.suffixArray

def matchLength : Bytes → Bytes → Nat
  | oldByte :: old, newByte :: new => if oldByte = newByte then matchLength old new + 1 else 0
  | _, _ => 0

/-- Whether `memcmp` over the shorter length is negative. -/
def memcmpLess : Bytes → Bytes → Bool
  | oldByte :: old, newByte :: new =>
      if oldByte < newByte then true
      else if newByte < oldByte then false
      else memcmpLess old new
  | _, _ => false

/-- The suffix that entry `index` of the array names, with its position. -/
def suffixAt (suffixArray : List Int) (old : Bytes) (index : Nat) : Option (Nat × Bytes) :=
  match suffixArray[index]? with
  | none => none
  | some position =>
      if 0 ≤ position ∧ position ≤ old.length then some (position.toNat, old.drop position.toNat)
      else none

/-- A sorted suffix array: every position once, the suffixes in strictly increasing order. -/
structure IsSuffixArray (old : Bytes) (suffixArray : List Int) : Prop where
  perm : suffixArray.Perm ((List.range (old.length + 1)).map Int.ofNat)
  sorted : suffixArray.Pairwise fun left right =>
    List.Lex (· < ·) (old.drop left.toNat) (old.drop right.toNat)

/-- `Search`: a match length and the position it was found at. -/
def SuffixArray.search (suffixArray : List Int) (new old : Bytes) (start finish : Nat) :
    Option (Nat × Nat) :=
  if _few : finish - start < multipleTwo then do
    let (startPosition, oldStart) ← suffixAt suffixArray old start
    let (endPosition, oldEnd) ← suffixAt suffixArray old finish
    let x := matchLength oldStart new
    let y := matchLength oldEnd new
    if x > y then pure (x, startPosition) else pure (y, endPosition)
  else
    let x := start + (finish - start) / multipleTwo
    match suffixAt suffixArray old x with
    | none => none
    | some (_, suffix) =>
        if memcmpLess suffix new then search suffixArray new old x finish
        else search suffixArray new old start x
termination_by finish - start
decreasing_by
  all_goals
    simp only [multipleTwo] at _few ⊢
    omega

example : SuffixArray.init [98, 97, 110, 97, 110, 97] = some [6, 5, 3, 1, 0, 4, 2] := by
  decide +kernel

theorem matchLength_le (old new : Bytes) : matchLength old new ≤ new.length := by
  induction old, new using matchLength.induct with
  | case1 old new byte ih =>
      simp only [matchLength, if_true, List.length_cons]
      omega
  | case2 oldByte old newByte new different => simp [matchLength, different]
  | case3 old new shape =>
      rw [matchLength]
      · exact Nat.zero_le _
      · exact shape

theorem suffixAt_le {suffixArray : List Int} {old suffix : Bytes} {index position : Nat}
    (found : suffixAt suffixArray old index = some (position, suffix)) :
    position ≤ old.length := by
  unfold suffixAt at found
  split at found
  · cases found
  · split at found
    · rename_i inside
      cases found
      omega
    · cases found

/-- Whatever the array holds, a match is inside both files. -/
theorem SuffixArray.search_bounds {suffixArray : List Int} {new old : Bytes} {start finish : Nat}
    {length position : Nat}
    (found : SuffixArray.search suffixArray new old start finish = some (length, position)) :
    length ≤ new.length ∧ position ≤ old.length := by
  induction start, finish using SuffixArray.search.induct suffixArray new old with
  | case1 start finish few =>
      rw [SuffixArray.search, dif_pos few] at found
      simp only [Option.bind_eq_bind, Option.bind_eq_some_iff] at found
      obtain ⟨⟨startPosition, oldStart⟩, first, ⟨endPosition, oldEnd⟩, last, chosen⟩ := found
      have startBound := suffixAt_le first
      have endBound := suffixAt_le last
      split at chosen
      · cases chosen
        exact ⟨matchLength_le oldStart new, startBound⟩
      · cases chosen
        exact ⟨matchLength_le oldEnd new, endBound⟩
  | case2 start finish many x outside =>
      rw [SuffixArray.search, dif_neg many] at found
      simp only [x] at outside
      simp only [outside] at found
      cases found
  | case3 start finish many x position suffix middle less ih =>
      rw [SuffixArray.search, dif_neg many] at found
      simp only [x] at middle ih
      simp only [middle, less, if_true] at found
      exact ih found
  | case4 start finish many x position suffix middle notLess ih =>
      rw [SuffixArray.search, dif_neg many] at found
      simp only [x] at middle ih
      simp only [middle, notLess] at found
      exact ih found

end Updater.DiffPatch
