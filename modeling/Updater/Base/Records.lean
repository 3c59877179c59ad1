import Updater.Base.Bytes

/-! Blocks of bytes behind one another, each behind its length. -/

set_option autoImplicit false

namespace Updater.Base

/-- A block behind its length of `width` bytes. -/
def record (width : Nat) (block : Bytes) : Bytes :=
  leBytes width block.length ++ block

def records (width : Nat) (blocks : List Bytes) : Bytes :=
  blocks.flatMap (record width)

section

variable {width : Nat}

@[simp] theorem length_record (block : Bytes) :
    (record width block).length = width + block.length := by
  rw [record, List.length_append, length_leBytes]

@[simp] theorem records_nil : records width [] = [] := rfl

@[simp] theorem records_cons (block : Bytes) (blocks : List Bytes) :
    records width (block :: blocks) = record width block ++ records width blocks := rfl

@[simp] theorem records_append (front back : List Bytes) :
    records width (front ++ back) = records width front ++ records width back :=
  List.flatMap_append

/-- The front of what a record begins determines its block. -/
theorem record_prefix_free {block block' rest rest' : Bytes} (fits : block.length < 256 ^ width)
    (fits' : block'.length < 256 ^ width)
    (same : record width block ++ rest = record width block' ++ rest') :
    block = block' ∧ rest = rest' := by
  rw [record, record, List.append_assoc, List.append_assoc] at same
  obtain ⟨sizes, behind⟩ :=
    List.append_inj same (by rw [length_leBytes, length_leBytes])
  have size := congrArg leValue sizes
  rw [leValue_leBytes_of_lt fits, leValue_leBytes_of_lt fits'] at size
  exact List.append_inj behind size

/-- Records determine their blocks. -/
theorem records_injective (some : 0 < width) {blocks blocks' : List Bytes}
    (fits : ∀ block ∈ blocks, block.length < 256 ^ width)
    (fits' : ∀ block ∈ blocks', block.length < 256 ^ width)
    (same : records width blocks = records width blocks') : blocks = blocks' := by
  have nonempty (block rest : Bytes) : [] ≠ record width block ++ rest := by
    intro empty
    have length := congrArg List.length empty
    rw [List.length_append, length_record, List.length_nil] at length
    omega
  induction blocks generalizing blocks' with
  | nil =>
      cases blocks' with
      | nil => rfl
      | cons block' blocks' => exact absurd same (nonempty _ _)
  | cons block blocks ih =>
      cases blocks' with
      | nil => exact absurd same.symm (nonempty _ _)
      | cons block' blocks' =>
          rw [List.forall_mem_cons] at fits fits'
          obtain ⟨rfl, rest⟩ := record_prefix_free fits.1 fits'.1 same
          rw [ih fits.2 fits'.2 rest]

end

end Updater.Base
