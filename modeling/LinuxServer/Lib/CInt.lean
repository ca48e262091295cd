import Mathlib.Algebra.Group.Nat.Defs
import Mathlib.Algebra.Ring.Int.Defs

/-!
# `Lib/CInt.lean` — the integer conversions of C

An `int` and a `long` are an `Int`, and an addition that leaves the type is a fault of the program
that makes it (`Lib/Fault.lean`). A conversion is none: it wraps, and these are the two that do.
-/

set_option autoImplicit false

namespace LinuxServer

def intMax : Int := 2 ^ 31 - 1

def intMin : Int := -2 ^ 31

/-- A conversion to `int`. -/
def toInt (x : Int) : Int := x.bmod (2 ^ 32)

/-- A conversion to `size_t`. -/
def toSize (x : Int) : Nat := (x % 2 ^ 64).toNat

theorem toInt_of_le {x : Int} (h : intMin ≤ x) (h' : x ≤ intMax) : toInt x = x := by
  unfold intMin at h
  unfold intMax at h'
  exact Int.bmod_eq_of_le (by omega) (by omega)

theorem toInt_le (x : Int) : intMin ≤ toInt x ∧ toInt x ≤ intMax := by
  have h := Int.le_bmod (x := x) (m := 2 ^ 32) (by decide)
  have h' := Int.bmod_lt (x := x) (m := 2 ^ 32) (by decide)
  unfold intMin intMax toInt
  omega

theorem toSize_natCast {n : Nat} (h : n ≤ intMax) : toSize n = n := by
  unfold intMax at h
  unfold toSize
  omega

end LinuxServer
