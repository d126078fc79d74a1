import AudioCatalog.Config.Document
import AudioCatalog.Content
import AudioCatalog.FileTree.Edit

namespace AudioCatalog.Config

inductive LoadError where
  | file (cause : FileError)
  | notConfig
deriving DecidableEq

def save (p : Path) (c : Config) (modified : Int) : FileTree.Edit Content Unit :=
  FileTree.Edit.storeFile p (.ofText c.toYaml) modified

/-- A configuration as it was read; the catalog has to be somewhere. -/
def withIndexPath (c : Config) : Config :=
  if Text.trimmed c.indexPath = "" then { c with indexPath := ({} : Config).indexPath } else c

def ofContent (content : Content) : Except LoadError Config := do
  let text ← content.text.mapError .file
  match parse? text with
  | some c => return c.withIndexPath
  | none => throw .notConfig

def load (p : Path) (modified : Int) :
    EStateM LoadError (FileTree Content) (Config × Bool) := do
  let t ← get
  if !t.exists? p then
    (save p {} modified).adaptExcept .file
    return ({}, true)
  match (t.read p).mapError .file >>= ofContent with
  | .ok c => return (c, false)
  | .error e => throw e

end AudioCatalog.Config
