import AudioCatalog.Audio.Flac
import AudioCatalog.Catalog.File
import AudioCatalog.FileTree.Error
import AudioCatalog.Text.Utf8

namespace AudioCatalog

inductive Content where
  | bytes (bytes : List UInt8)
  | flac (stream : Audio.Flac)
  | catalog (file : Catalog.File)
deriving DecidableEq

namespace Content

def ofText (text : String) : Content := .bytes (Text.Utf8.encode text)

def text : Content → Except FileError String
  | .bytes content =>
    match Text.Utf8.decode? content with
    | some text => .ok text
    | none => .error .notText
  | .flac _ | .catalog _ => .error .notText

end Content

end AudioCatalog
