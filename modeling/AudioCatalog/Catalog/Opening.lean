import AudioCatalog.Content
import AudioCatalog.FileTree.Edit

namespace AudioCatalog.Catalog

inductive OpenError where
  | place (cause : FileError)
  | file (cause : FileError)
  | notCatalog
  | version (fault : File.VersionFault)
deriving DecidableEq

def OpenError.message? : OpenError → Option String
  | .place cause => some s!"io error: {cause.message}"
  | .file _ | .notCatalog | .version .truncated => none
  | .version (.mismatch found) => some s!"index version mismatch: {found}"

abbrev Opening := EStateM OpenError (FileTree Content)

def readState : Content → Except OpenError State
  | .catalog file => (file.checkVersion.mapError .version).map fun () => file.state
  | .bytes _ | .flac _ => .error .notCatalog

def save (p : Path) (s : State) (modified : Int) : Opening Unit :=
  (FileTree.Edit.writeFile p (.catalog (.ofState s)) modified).adaptExcept .file

def makePlace (p : Path) : Opening Unit := do
  if let some above := p.parent? then (FileTree.Edit.makeDirectories above).adaptExcept .place

def openAt (p : Path) (modified : Int) : Opening State := do
  makePlace p
  let t ← get
  if !t.exists? p then
    save p {} modified
    return {}
  match t.read p with
  | .error cause => throw (.file cause)
  | .ok content =>
    match readState content with
    | .ok s => return s
    | .error e => throw e

end AudioCatalog.Catalog
