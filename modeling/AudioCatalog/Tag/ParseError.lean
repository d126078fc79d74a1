import AudioCatalog.FileTree.Error
import AudioCatalog.Text.Utf8

namespace AudioCatalog.Tag

inductive TagFault where
  | unknownFormat
  | file (cause : FileError)
  | tooShort
  | noStreamMarker
  | invalidKey
  | notText (fault : Text.Utf8.Fault)
deriving DecidableEq

def TagFault.message : TagFault → String
  | .unknownFormat => "No format could be determined from the provided file"
  | .file cause => cause.message
  | .tooShort => "failed to fill whole buffer"
  | .noStreamMarker => "Flac: File missing \"fLaC\" stream marker"
  | .invalidKey => "OGG: Vorbis comments contain an invalid key"
  | .notText fault => fault.message

inductive ParseError where
  | io (text : String)
  | tag (fault : TagFault)
deriving DecidableEq

def ParseError.message : ParseError → String
  | .io text => s!"io error: {text}"
  | .tag fault => s!"tag error: {fault.message}"

end AudioCatalog.Tag
