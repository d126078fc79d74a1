import AudioCatalog.Path
import AudioCatalog.Text.Blank

namespace AudioCatalog.Config

def directoryOf (file : Path) : Path :=
  match file.parent? with
  | some above => if above.bytes = [] then ⟨[Path.dot]⟩ else above
  | none => ⟨[Path.dot]⟩

def resolvePath (file : Path) (value : String) : Path :=
  (directoryOf file).join (Path.ofString value)

def resolveMusicRoot? (file : Path) (value : String) : Option Path :=
  let value := Text.trimmed value
  if value = "" then none else some (resolvePath file value)

end AudioCatalog.Config
