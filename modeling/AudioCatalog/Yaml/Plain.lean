import AudioCatalog.Decimal.Range
import AudioCatalog.Text.Digits
import AudioCatalog.Text.Numeral

namespace AudioCatalog.Yaml.Plain

def isNull (text : String) : Bool :=
  text == "" || text == "~" || text == "null" || text == "Null" || text == "NULL"

def bool? (text : String) : Option Bool :=
  if text ∈ ["true", "True", "TRUE"] then some true
  else if text ∈ ["false", "False", "FALSE"] then some false
  else none

def inBase? : List Char → Option Nat
  | '0' :: mark :: digits =>
    if digits = [] then none
    else
      match mark with
      | 'x' => Text.Digits.number? 16 digits
      | 'o' => Text.Digits.number? 8 digits
      | 'b' => Text.Digits.number? 2 digits
      | _ => none
  | _ => none

def isZeroLed (text : List Char) : Bool :=
  match (Decimal.splitSign text).2 with
  | '0' :: rest => rest ≠ [] && rest.all Char.isDigit
  | _ => false

def natural? (limit : Nat) (text : String) : Option Nat :=
  let text := text.toList
  match inBase? (Text.Numeral.dropPlus text) with
  | some n => if n ≤ limit then some n else none
  | none => if isZeroLed text then none else Text.Numeral.read? limit text

/-- Whole numbers in some base have 128 bits at most. -/
def isInBase (text : List Char) : Bool :=
  match text with
  | '-' :: rest => (inBase? rest).any (· ≤ 1 <<< 127)
  | text => (inBase? (Text.Numeral.dropPlus text)).any (· < 1 <<< 128)

def isSpecial (text : String) : Bool :=
  text ∈ [".inf", ".Inf", ".INF", "+.inf", "+.Inf", "+.INF", "-.inf", "-.Inf", "-.INF",
    ".nan", ".NaN", ".NAN"]

def isDecimal (text : List Char) : Bool := (Decimal.read? text).any Decimal.isFiniteDouble

/-- Whether a reader could take the text for a number. -/
def looksNumeric (text : String) : Bool :=
  isInBase text.toList || isDecimal text.toList || isSpecial text

def isText (text : String) : Bool :=
  !(isNull text || (bool? text).isSome || looksNumeric text)

end AudioCatalog.Yaml.Plain
