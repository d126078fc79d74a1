import AudioCatalog.Content
import AudioCatalog.FileExtension
import AudioCatalog.FileTree.Basic
import AudioCatalog.Tag.Reading

namespace AudioCatalog.Audio

/-- The name of a file says what it should hold. -/
def isFlacName (p : Path) : Bool := FileExtension.isAccepted ["flac"] p

/-- A tag that may stand before a stream is looked for in so many bytes. -/
def leadLength : Nat := 10

def openFlac : Content → Except Tag.TagFault Flac
  | .flac stream => .ok stream
  | .bytes bytes => .error (if bytes.length < leadLength then .tooShort else .noStreamMarker)
  | .catalog _ => .error .noStreamMarker

def readFlac (t : FileTree Content) (p : Path) : Except Tag.TagFault Flac := do
  let node ← (t.target p).mapError .file
  unless isFlacName p do throw .unknownFormat
  match node with
  | .file _ content => openFlac content
  | .directory _ | .link _ => throw (.file .isDirectory)

def describe (style : Tag.ReadStyle) (clusterTypes : List String) (f : Flac) :
    Except Tag.TagFault Tag.Metadata := do
  let m := ((← f.tag? style).map fun tag => tag.metadata clusterTypes).getD {}
  return { m with audioStreams := 1, durationMs := f.durationMs }

def parse (style : Tag.ReadStyle) (clusterTypes : List String) (t : FileTree Content) (p : Path) :
    Except Tag.ParseError Tag.Metadata :=
  (readFlac t p >>= describe style clusterTypes).mapError .tag

end AudioCatalog.Audio
