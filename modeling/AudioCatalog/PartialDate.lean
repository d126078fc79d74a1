import AudioCatalog.Text.Blank
import AudioCatalog.Text.Numeral

namespace AudioCatalog

structure PartialDate where
  year : Int
  month : Option Nat
  day : Option Nat
deriving DecidableEq

namespace PartialDate

instance : Ord PartialDate where
  compare := compareLex (compareOn year) (compareLex (compareOn month) (compareOn day))

def ofYear (year : Int) : PartialDate := ⟨year, none, none⟩

def isSeparator (c : Char) : Bool := c == '-' || c == '/' || c == '.' || c == 'T' || c == ' '

/-- A part that is no numeral, or out of its range, counts as absent. -/
def readPart? (last : Nat) (part : List Char) : Option Nat :=
  (Text.Numeral.readByte? part).filter fun n => 1 ≤ n && n ≤ last

def readYear? (part : List Char) : Option Nat :=
  if part.length = 4 ∧ part.all Char.isDigit then some (Nat.ofDigitChars 10 part 0) else none

def ofParts? : List (List Char) → Option PartialDate
  | [] => none
  | year :: rest => do
    let year ← readYear? year
    let month := rest.head? >>= readPart? 12
    let day := month >>= fun _ => rest[1]? >>= readPart? 31
    return ⟨year, month, day⟩

def parse? (text : String) : Option PartialDate :=
  ofParts? ((Text.trim text.toList).splitOnP isSeparator)

def yearChars (year : Int) : List Char :=
  if year < 0 then '-' :: Text.Numeral.padded 3 year.natAbs
  else Text.Numeral.padded 4 year.natAbs

def partChars (part : Nat) : List Char := '-' :: Text.Numeral.padded 2 part

/-- The day is written after a month only. -/
def toChars (d : PartialDate) : List Char :=
  match d.month, d.day with
  | none, _ => yearChars d.year
  | some month, none => yearChars d.year ++ partChars month
  | some month, some day => yearChars d.year ++ partChars month ++ partChars day

instance : ToString PartialDate := ⟨fun d => String.ofList d.toChars⟩

end PartialDate

end AudioCatalog
