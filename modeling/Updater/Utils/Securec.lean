import Updater.Base.Bytes

/-! The checked memory copy that the services use throughout. -/

set_option autoImplicit false

namespace Updater.Utils

open Updater.Base

def securecMemMaxLen : Nat := 0x7fffffff

/-- `memcpy_s(dest, destMax, src, src.length)` for a `dest` that has room; `none`
is any result but `EOK`. -/
def memcpyS (dest : Bytes) (destMax : Nat) (src : Bytes) : Option Bytes :=
  if destMax = 0 ∨ securecMemMaxLen < destMax ∨ destMax < src.length then none
  else some (src ++ dest.drop src.length)

theorem memcpyS_eq_some {dest src copied : Bytes} {destMax : Nat}
    (done : memcpyS dest destMax src = some copied) :
    src.length ≤ destMax ∧ copied = src ++ dest.drop src.length := by
  simp only [memcpyS] at done
  split at done
  · cases done
  · cases done
    exact ⟨by omega, rfl⟩

end Updater.Utils
