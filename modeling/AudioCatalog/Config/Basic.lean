import AudioCatalog.Tag.ReadStyle

namespace AudioCatalog

/-- Directories that hold an entry named `excludeMarker` are left out; no worker threads means as
many as the machine has. -/
structure Config where
  musicRoot : String := ""
  indexPath : String := "library.redb"
  readStyle : String := "accurate"
  audioExtensions : List String :=
    [".mp3", ".ogg", ".oga", ".aac", ".m4a", ".m4b", ".flac", ".wav", ".wma", ".aif", ".aiff",
     ".ape", ".mpc", ".shn", ".opus", ".wv"]
  excludeMarker : String := ".lmsignore"
  clusterTypes : List String := ["GENRE", "MOOD", "LANGUAGE", "ALBUMGROUPING"]
  skipsDuplicates : Bool := false
  workerThreads : Nat := 0
  batchSize : Nat := 64
deriving DecidableEq

namespace Config

inductive Error where
  | unknownReadStyle (e : Tag.ReadStyle.Unknown)
  | noExtensions
deriving DecidableEq

def Error.reason : Error → String
  | .unknownReadStyle e => e.message
  | .noExtensions => "audio_file_extensions must not be empty"

def Error.message (e : Error) : String := s!"configuration error: {e.reason}"

def style (c : Config) : Except Error Tag.ReadStyle :=
  (Tag.ReadStyle.ofName c.readStyle).mapError .unknownReadStyle

def validate (c : Config) : Except Error Unit := do
  let _ ← c.style
  if c.audioExtensions.isEmpty then throw .noExtensions

/-- Files come in batches of one at least. -/
def effectiveBatchSize (c : Config) : Nat := max c.batchSize 1

end Config

end AudioCatalog
