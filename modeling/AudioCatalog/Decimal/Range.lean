import AudioCatalog.Decimal.Literal

namespace AudioCatalog.Decimal

def doubleLimit : Nat := 1 <<< 1024 - 1 <<< 970

/-- Bounds on the position of the first digit decide numbers far out of range, so that no power of
ten beyond them is ever computed. -/
def isFiniteDouble (d : Decimal) : Bool :=
  let lead := d.exponent + (Nat.toDigits 10 d.coefficient).length
  if d.coefficient = 0 ∨ lead < 300 then true
  else if 320 < lead then false
  else d.coefficient * Nat.pow 10 d.exponent.toNat < doubleLimit * Nat.pow 10 (-d.exponent).toNat

end AudioCatalog.Decimal
