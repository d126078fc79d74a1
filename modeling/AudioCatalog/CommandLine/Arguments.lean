import AudioCatalog.Path

namespace AudioCatalog.CommandLine

abbrev Word := List UInt8

def Word.ofString (s : String) : Word := Text.Utf8.encode s

structure Arguments where
  config? : Option Path := none
  isForced : Bool := false
  musicRoot? : Option Path := none
deriving DecidableEq

inductive UsageError where
  | missingValue
  | repeated (word : Word)
  | unexpected (word : Word)
deriving DecidableEq

inductive Stop where
  | help
  | usage (e : UsageError)
deriving DecidableEq

namespace Arguments

def configOption : Word := .ofString "--config"

def forceOption : Word := .ofString "--force"

def helpOption : Word := .ofString "--help"

/-- The short option for help hides the letters after it. -/
def helpLetter : Word := .ofString "-h"

def separator : Word := .ofString "--"

def dash : UInt8 := '-'.toUInt8

/-- A lone dash is no option. -/
def isOption (word : Word) : Bool := word.head? == some dash && word ≠ [dash]

def attachedConfig? (word : Word) : Option Word :=
  let start := configOption ++ Word.ofString "="
  if start.isPrefixOf word then some (word.drop start.length) else none

def checkPath (word : Word) : Except Stop Path :=
  if word = [] then .error (.usage .missingValue) else .ok ⟨word⟩

def setConfig (a : Arguments) (value : Word) : Except Stop Arguments := do
  if a.config?.isSome then throw (.usage (.repeated configOption))
  return { a with config? := some (← checkPath value) }

def setForced (a : Arguments) : Except Stop Arguments := do
  if a.isForced then throw (.usage (.repeated forceOption))
  return { a with isForced := true }

def setMusicRoot (a : Arguments) (word : Word) : Except Stop Arguments := do
  if a.musicRoot?.isSome then throw (.usage (.unexpected word))
  return { a with musicRoot? := some (← checkPath word) }

def read (a : Arguments) : List Word → Except Stop Arguments
  | [] => .ok a
  | word :: rest =>
    if word = separator then rest.foldlM setMusicRoot a
    else if word = configOption then
      match rest with
      | [] => .error (.usage .missingValue)
      | value :: rest =>
        if isOption value then .error (.usage .missingValue)
        else do read (← a.setConfig value) rest
    else if word = forceOption then do read (← a.setForced) rest
    else if word = helpOption ∨ helpLetter.isPrefixOf word then .error .help
    else
      match attachedConfig? word with
      | some value => do read (← a.setConfig value) rest
      | none =>
        if isOption word then .error (.usage (.unexpected word))
        else do read (← a.setMusicRoot word) rest

def defaultConfig : Path := .ofString "scanner.yaml"

/-- The configuration that the environment names stands in for the one that the arguments do not. -/
def ofWords (environment? : Option Word) (words : List Word) : Except Stop Arguments := do
  let a ← read {} words
  match a.config?, environment? with
  | none, some value => a.setConfig value
  | _, _ => return a

def configPath (a : Arguments) : Path := a.config?.getD defaultConfig

end Arguments

def UsageError.message : UsageError → String
  | .missingValue => "error: a value is required but none was supplied\n"
  | .repeated word => s!"error: {Path.display ⟨word⟩} cannot be used multiple times\n"
  | .unexpected word => s!"error: unexpected argument {Path.quoted ⟨word⟩} found\n"

def help (environment? : Option Word) : String :=
  let value := Path.display ⟨environment?.getD []⟩
  "Runs one incremental scan of a music directory into the catalog\n\n" ++
  "Usage: scan_library [OPTIONS] [MUSIC_ROOT]\n\n" ++
  "Arguments:\n" ++
  "  [MUSIC_ROOT]  Overrides \x60music_root\x60 from the configuration\n\n" ++
  "Options:\n" ++
  "      --config <CONFIG>  Scanner configuration file, created with defaults when missing " ++
  s!"[env: SCANNER_CONFIG={value}] [default: scanner.yaml]\n" ++
  "      --force            Re-parse every file even when it looks unchanged\n" ++
  "  -h, --help             Print help\n"

end AudioCatalog.CommandLine
