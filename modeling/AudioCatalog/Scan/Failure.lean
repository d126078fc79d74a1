import AudioCatalog.Path

namespace AudioCatalog.Scan

inductive FailureKind where
  | cannotRead
  | cannotParse
  | noAudio
  | badDuration
deriving DecidableEq

def FailureKind.name : FailureKind → String
  | .cannotRead => "CannotReadFile"
  | .cannotParse => "CannotParseFile"
  | .noAudio => "NoAudioTrack"
  | .badDuration => "BadDuration"

structure Failure where
  path : Path
  kind : FailureKind
  message : Option String := none
deriving DecidableEq

def Failure.display (f : Failure) : String :=
  let start := s!"{f.path.quoted}: {f.kind.name}"
  match f.message with
  | some message => s!"{start} ({message})"
  | none => start

end AudioCatalog.Scan
