namespace AudioCatalog

inductive FileError where
  | notFound
  | busy
  | exists
  | notDirectory
  | isDirectory
  | invalidArgument
  | nameTooLong
  | notEmpty
  | tooManyLinks
  | zeroByteInPath
  | notText
  | noTree
deriving DecidableEq

namespace FileError

def code? : FileError → Option Nat
  | .notFound => some 2
  | .busy => some 16
  | .exists => some 17
  | .notDirectory => some 20
  | .isDirectory => some 21
  | .invalidArgument => some 22
  | .nameTooLong => some 36
  | .notEmpty => some 39
  | .tooManyLinks => some 40
  | .zeroByteInPath | .notText | .noTree => none

def text : FileError → String
  | .notFound => "No such file or directory"
  | .busy => "Device or resource busy"
  | .exists => "File exists"
  | .notDirectory => "Not a directory"
  | .isDirectory => "Is a directory"
  | .invalidArgument => "Invalid argument"
  | .nameTooLong => "File name too long"
  | .notEmpty => "Directory not empty"
  | .tooManyLinks => "Too many levels of symbolic links"
  | .zeroByteInPath => "file name contained an unexpected NUL byte"
  | .notText => "stream did not contain valid UTF-8"
  | .noTree => "failed to create whole tree"

def kind : FileError → String
  | .notFound => "NotFound"
  | .busy => "ResourceBusy"
  | .exists => "AlreadyExists"
  | .notDirectory => "NotADirectory"
  | .isDirectory => "IsADirectory"
  | .invalidArgument | .zeroByteInPath => "InvalidInput"
  | .nameTooLong => "InvalidFilename"
  | .notEmpty => "DirectoryNotEmpty"
  | .tooManyLinks => "FilesystemLoop"
  | .notText => "InvalidData"
  | .noTree => "Uncategorized"

def message (e : FileError) : String :=
  match e.code? with
  | some code => s!"{e.text} (os error {code})"
  | none => e.text

def details (e : FileError) : String :=
  match e.code? with
  | some code =>
    s!"Os \x7b code: {code}, kind: {e.kind}, message: \"{e.text}\" \x7d"
  | none => s!"Error \x7b kind: {e.kind}, message: \"{e.text}\" \x7d"

end FileError

end AudioCatalog
