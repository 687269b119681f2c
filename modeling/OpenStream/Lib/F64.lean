import Mathlib.Data.Rat.Defs

/-!
# Double-precision arithmetic, as operations

The operations a program uses of its 64-bit floats. No law is assumed of them, so a result stated
over an arbitrary `F64` holds of IEEE arithmetic, rounding and `NaN` included; the rational
instance is for examples and for rates taken as exact. A `Double` has division and an infinity as well.
-/

/-- The float operations in use. -/
class F64 (F : Type) extends Add F, Sub F, Mul F, OfScientific F where
  ofNat : ℕ → F
  lt : F → F → Bool
  le : F → F → Bool
  isFinite : F → Bool

namespace F64

variable {F : Type} [F64 F]

/-- `clamp`, as the standard library computes it: `NaN` passes through. -/
def clamp (x lo hi : F) : F := if lt x lo then lo else if lt hi x then hi else x

/-- `NaN` is not at most itself. -/
def isNaN (x : F) : Bool := !le x x

/-- `max`, as the standard library computes it: `NaN` gives way. -/
def max (x y : F) : F := if isNaN x then y else if isNaN y then x else if lt x y then y else x

/-- `min`, as the standard library computes it: `NaN` gives way. -/
def min (x y : F) : F := if isNaN x then y else if isNaN y then x else if lt y x then y else x

end F64

instance : F64 Float where
  ofNat := Float.ofNat
  lt a b := decide (a < b)
  le a b := decide (a ≤ b)
  isFinite := Float.isFinite

instance : F64 ℚ where
  ofNat := Nat.cast
  lt a b := decide (a < b)
  le a b := decide (a ≤ b)
  isFinite _ := true

class Double (F : Type) extends F64 F, Div F where
  infinity : F

instance : Double Float where
  infinity := 1.0 / 0.0
