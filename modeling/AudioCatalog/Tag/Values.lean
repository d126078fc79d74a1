import AudioCatalog.Text.Blank

namespace AudioCatalog.Tag

def isValueSeparator (c : Char) : Bool :=
  c == ';' || c == ',' || c == '/' || c == '|' || c == '\x00'

def splitChars (text : List Char) : List (List Char) :=
  ((text.splitOnP isValueSeparator).map Text.trim).filter (· ≠ [])

/-- The values in order, without the blanks around them; blank ones are left out. -/
def splitValues (text : String) : List String :=
  (splitChars text.toList).map String.ofList

end AudioCatalog.Tag
