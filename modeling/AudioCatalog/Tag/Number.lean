import AudioCatalog.Text.Blank
import AudioCatalog.Text.Numeral
import AudioCatalog.Decimal.Single

namespace AudioCatalog.Tag

def readNumber? (text : String) : Option Nat := Text.Numeral.readWord? (Text.trim text.toList)

def readNumberPair (text : String) : Option Nat × Option Nat :=
  match text.toList.span (· ≠ '/') with
  | (number, _ :: total) =>
    (Text.Numeral.readWord? (Text.trim number), Text.Numeral.readWord? (Text.trim total))
  | (number, []) => (Text.Numeral.readWord? (Text.trim number), none)

def dropDecibel (text : List Char) : List Char :=
  match text.reverse with
  | b :: d :: value => if d.toLower = 'd' ∧ b.toLower = 'b' then value.reverse else text
  | _ => text

/-- A gain in decibels, the unit being optional. -/
def readGain? (text : String) : Option Single :=
  Decimal.read? (Text.trim (dropDecibel (Text.trim text.toList))) >>= Single.ofDecimal?

end AudioCatalog.Tag
