import AudioCatalog.Decimal.Literal

namespace AudioCatalog

/-- A binary32 number by its bits: sign, eight bits of exponent, twenty-three of fraction. -/
structure Single where
  bits : UInt32
deriving DecidableEq

namespace Single

def roundQuotient (num den : Nat) : Nat :=
  let quotient := num / den
  let twice := 2 * (num % den)
  if twice < den then quotient else if den < twice then quotient + 1 else quotient + quotient % 2

def binaryExponent (num den : Nat) : Int :=
  let guess : Int := num.log2 - den.log2
  if den <<< guess.toNat ≤ num <<< (-guess).toNat then guess else guess - 1

/-- The bits of the positive number nearest to the quotient. Its unit in the last place is a power
of two, 2 ^ (-149) at least; multiples of the unit fill the bits in order, one binade after the
other, so that rounding up to the next binade needs no case of its own. -/
def magnitude (num den : Nat) : Nat :=
  let unit := max (-149) (binaryExponent num den - 23)
  (unit + 149).toNat <<< 23 + roundQuotient (num <<< (-unit).toNat) (den <<< unit.toNat)

def infinityBits : Nat := 255 <<< 23

def decimalMagnitude (coefficient : Nat) (exponent : Int) : Nat :=
  let lead := exponent + (Nat.toDigits 10 coefficient).length
  if coefficient = 0 ∨ lead < -45 then 0
  else if 40 < lead then infinityBits
  else magnitude (coefficient * Nat.pow 10 exponent.toNat) (Nat.pow 10 (-exponent).toNat)

def ofDecimal? (d : Decimal) : Option Single :=
  let bits := decimalMagnitude d.coefficient d.exponent
  if bits < infinityBits then
    some ⟨UInt32.ofNat (if d.negative then 1 <<< 31 + bits else bits)⟩
  else none

end Single

end AudioCatalog
