import AudioCatalog.Path

namespace AudioCatalog.FileExtension

def lower (cs : List Char) : List Char := cs.map Char.toLower

/-- The form in which extensions are compared: no leading dots, ASCII letters in lower case. -/
def fold (listed : String) : List Char := lower (listed.toList.dropWhile (· == '.'))

def isAccepted (extensions : List String) (p : Path) : Bool :=
  match p.extension? with
  | none => false
  | some extension =>
    let extension := lower (Text.Utf8.decodeLossy extension)
    extensions.any fun listed => fold listed == extension

end AudioCatalog.FileExtension
