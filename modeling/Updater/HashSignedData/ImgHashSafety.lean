import Updater.HashSignedData.ImgHashCheck

/-! When reading a table of image hashes panics: lengths, counts and names are taken from the
bytes, and only the length of the whole is checked. -/

set_option autoImplicit false

namespace Updater.HashSignedData

open Updater.Base

namespace ImgHashData

section Walk

variable (type : AddrType) (buffer : Bytes) (algoSize limit : Nat)

/-- From an offset on, every image that begins before a limit is whole. -/
inductive Walk : Nat → Prop where
  | past {offset} : limit ≤ offset → Walk offset
  | image {offset} : offset < limit → WholeImage type buffer algoSize offset →
      Walk (imageEnd type buffer algoSize offset) → Walk offset

/-- From an offset on there are whole images up to an end, and nothing else. -/
inductive Images (end_ : Nat) : Nat → Prop where
  | done_ : Images end_ end_
  | image {offset} : WholeImage type buffer algoSize offset →
      Images end_ (imageEnd type buffer algoSize offset) → Images end_ offset

end Walk

/-- The bytes are those of a table, perhaps with others behind. -/
structure WellFormed (type : AddrType) (buffer : Bytes) : Prop where
  header : 22 ≤ buffer.length
  records : 22 + hashDataLenAt buffer ≤ buffer.length
  images : Images type buffer (algoSizeAt buffer) (22 + hashDataLenAt buffer) 22

/-- There is no panic, and bytes that are no table are answered with a failure. -/
structure AnswersWell (type : AddrType) (buffer : Bytes) : Prop where
  no_panic : loadImgHashData type buffer ≠ none
  malformed : ¬WellFormed type buffer →
    ∃ error, loadImgHashData type buffer = some (.error error)

section Safety

variable {type : AddrType} {buffer : Bytes} {algoSize limit offset : Nat}

theorem lt_imageEnd : offset + 38 ≤ imageEnd type buffer algoSize offset := by
  have least := size_pos type
  rw [imageEnd, hashHeaderSize, imgNameSize]
  omega

theorem Images.le {end_ : Nat} (images : Images type buffer algoSize end_ offset) :
    offset ≤ end_ := by
  induction images with
  | done_ => exact Nat.le_refl _
  | image whole rest ih => exact Nat.le_trans (Nat.le_trans (Nat.le_add_right _ _) lt_imageEnd) ih

/-- An image is longer than what is in front of the first one, so each of them begins before an
offset that is as large as all their lengths. -/
theorem Images.walk (images : Images type buffer algoSize (22 + limit) offset) :
    Walk type buffer algoSize limit offset := by
  induction images with
  | done_ => exact .past (Nat.le_add_left _ _)
  | image whole rest ih =>
      have inside := rest.le
      have length := @lt_imageEnd type buffer algoSize
      refine .image ?_ whole ih
      have here := Nat.le_trans length inside
      omega

variable (fits : buffer.length < 2 ^ 63)

include fits

/-- The loop does not panic exactly when every image that it comes to is whole. -/
theorem readImages_ne_none_iff {hashDataMap : ImgHashData} :
    readImages type buffer algoSize limit offset hashDataMap ≠ none ↔
      Walk type buffer algoSize limit offset := by
  fun_induction readImages type buffer algoSize limit offset hashDataMap with
  | case1 offset hashDataMap inside read =>
      refine ⟨fun reads => absurd rfl reads, fun walk => ?_⟩
      cases walk with
      | past past => exact absurd inside (Nat.not_lt_of_le past)
      | image _ whole _ =>
          rw [readImage_eq fits whole] at read
          exact nomatch read
  | case2 offset hashDataMap inside next imageName singleData read ih =>
      rw [ih]
      by_cases whole : WholeImage type buffer algoSize offset
      · rw [readImage_eq fits whole] at read
        have end_ : imageEnd type buffer algoSize offset = next :=
          congrArg Prod.fst (Option.some.inj read)
        constructor
        · intro walk
          exact .image inside whole (end_ ▸ walk)
        · intro walk
          cases walk with
          | past past => exact absurd inside (Nat.not_lt_of_le past)
          | image _ _ rest => exact end_ ▸ rest
      · rw [readImage_eq_none fits whole] at read
        exact nomatch read
  | case3 offset hashDataMap past =>
      exact ⟨fun _ => .past (Nat.le_of_not_lt past), fun _ => nofun⟩

/-- There is no panic exactly when the bytes are refused for their length, or every image that the
loop comes to is whole. -/
theorem load_ne_none_iff :
    loadImgHashData type buffer ≠ none ↔
      TooShort buffer ∨
        Walk type buffer (algoSizeAt buffer) (hashDataLenAt buffer) 22 := by
  by_cases short : TooShort buffer
  · obtain ⟨error, refused⟩ := @load_of_tooShort type buffer short
    rw [refused]
    exact ⟨fun _ => .inl short, fun _ => nofun⟩
  · rw [load_of_long short, ne_eq, Option.map_eq_none_iff, ← ne_eq, readImages_ne_none_iff fits,
      or_iff_right short]

omit fits in
/-- The functions for C panic when the one behind them does. -/
theorem loadPtr_ne_none_iff :
    loadImgHashDataPtr type (some buffer) ≠ none ↔ loadImgHashData type buffer ≠ none := by
  rw [loadImgHashDataPtr]
  cases loadImgHashData type buffer with
  | none => exact ⟨fun reads => absurd rfl reads, fun reads => absurd rfl reads⟩
  | some result =>
      cases result with
      | ok data => exact ⟨fun _ => nofun, fun _ => nofun⟩
      | error message => exact ⟨fun _ => nofun, fun _ => nofun⟩

end Safety

/-- Both parts of the hash table of a package, as `ReadImgHashData` joins them: the records have
twenty-three bytes, less than an image. -/
def tornTable : Bytes :=
  leBytes 2 6 ++ leBytes 4 10 ++ leBytes 2 3 ++ leBytes 2 32 ++ leBytes 2 1 ++ leBytes 4 4096 ++
    leBytes 2 8 ++ leBytes 4 23 ++ List.replicate 23 0

end ImgHashData

end Updater.HashSignedData
