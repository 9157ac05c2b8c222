/-!
# Remainders of floating-point numbers

The remainder of a division with an integer quotient is a floating-point number itself. It is
computed from the integers that the numbers are made of, so it is not rounded.
-/

namespace SoundArchive.Remainder

/-- The bit in front of the fraction, which is not stored. -/
def impliedBit : Nat := 0x10000000000000

/-- The integer and the power of two that a finite positive number is the product of. -/
def parts (x : Float) : Nat × Int :=
  let exponent : Nat := (x.toBits >>> 52).toNat % 0x800
  let fraction : Nat := x.toBits.toNat % impliedBit
  if exponent = 0 then (fraction, -1074) else (fraction + impliedBit, (exponent : Int) - 1075)

/-- What remains of `x` after as many `y` as fit, for finite positive numbers. -/
def remainder (x y : Float) : Float :=
  let (m, e) := parts x
  let (n, f) := parts y
  let common := min e f
  let rest := (m <<< (e - common).toNat) % (n <<< (f - common).toNat)
  Float.scaleB rest.toUInt64.toFloat common

end SoundArchive.Remainder
