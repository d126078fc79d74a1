import AudioCatalog.Audio.Flac.Block
import AudioCatalog.Catalog.Archive
import AudioCatalog.CommandLine.Run
import Std.Time.DateTime.Timestamp

namespace AudioCatalog.Main

def entryOf (path : String) : IO.FS.DirEntry := ⟨".", path⟩

def pathOf (loc : Location) : String :=
  (Path.display ⟨loc.flatMap fun name => Path.slash :: name⟩)

/-- The place of a path, were there no links on the way. -/
def placeOf (t : FileTree Content) (p : Path) : Location :=
  (FileTree.moves p).foldl
    (fun loc move =>
      match move with
      | .stay => loc
      | .up => loc.dropLast
      | .into name => loc ++ [name])
    (if p.isAbsolute then [] else t.workingDirectory)

def nanosecondsOf (time : IO.FS.SystemTime) : Int := time.sec * nanosecondsInSecond + time.nsec.toNat

def ofNoStream : Audio.Flac := ⟨0, 0, none, 0⟩

partial def readBlocks (file : IO.FS.Handle) (stream : Audio.Flac) : IO (Option Audio.Flac) := do
  let header ← file.read (.ofNat Audio.Flac.BlockHeader.length)
  match Audio.Flac.BlockHeader.ofBytes? header.toList with
  | none => return none
  | some block =>
    let body ← if block.size = 0 then pure .empty else file.read (.ofNat block.size)
    let kept := if block.kind = .picture ∨ block.kind = .other then [] else body.toList
    match Audio.Flac.withBlock? block.kind kept stream with
    | none => return none
    | some stream => if block.isLast then return some stream else readBlocks file stream

def readSound (entry : IO.FS.DirEntry) : IO Content :=
  IO.FS.withFile entry.path .read fun file => do
    let start := (← file.read (.ofNat Audio.Flac.marker.length)).toList
    let stream? ← if start = Audio.Flac.marker then readBlocks file ofNoStream else pure none
    match stream? with
    | some stream => return .flac stream
    | none => return .bytes (start ++ (← file.read (.ofNat Audio.leadLength)).toList)

def readBytes (entry : IO.FS.DirEntry) : IO Content := do
  return .bytes (← IO.FS.readBinFile entry.path).toList

def readCatalog (entry : IO.FS.DirEntry) : IO Content := do
  let content ← readBytes entry
  match content.text.toOption >>= Catalog.File.ofText? with
  | some file => return .catalog file
  | none => return content

partial def loadEntry (read : IO.FS.DirEntry → IO Content) (entry : IO.FS.DirEntry)
    (loc : Location) (t : FileTree Content) : IO (FileTree Content) := do
  let info ← entry.path.metadata
  match info.type with
  | .dir =>
    let mut t := t.put loc (.directory (nanosecondsOf info.modified))
    for below in ← entry.path.readDir do
      let place := loc ++ [Text.Utf8.encode below.fileName]
      match (← below.path.symlinkMetadata).type with
      | .symlink =>
        let target ← try pure (← IO.FS.realPath below.path).toString catch _ => pure below.fileName
        t := t.put place (.link (.ofString target))
      | _ => t ← loadEntry read below place t
    return t
  | _ => return t.put loc (.file (nanosecondsOf info.modified) (← read entry))

def loadAbove (loc : Location) (t : FileTree Content) : IO (FileTree Content) := do
  let mut t := t
  for depth in List.range loc.length do
    let above := loc.take depth
    if ← (entryOf (pathOf above)).path.isDir then t := t.put above (.directory 0)
  return t

def loadPath (read : IO.FS.DirEntry → IO Content) (p : Path) (t : FileTree Content) :
    IO (FileTree Content) := do
  let loc := placeOf t p
  let t ← loadAbove loc t
  let entry := entryOf (pathOf loc)
  if ← entry.path.pathExists then loadEntry read entry loc t else return t

def loadFile (read : IO.FS.DirEntry → IO Content) (p : Path) (t : FileTree Content) :
    IO (FileTree Content) := do
  if ← (entryOf (pathOf (placeOf t p))).path.isDir then
    return (← loadAbove (placeOf t p) t).put (placeOf t p) (.directory 0)
  loadPath read p t

def loadFor (a : CommandLine.Arguments) (t : FileTree Content) : IO (FileTree Content) := do
  let t ← loadFile readBytes a.configPath t
  match Config.load a.configPath 0 t with
  | .error _ _ => return t
  | .ok (c, _) _ =>
    let t ← match CommandLine.musicRoot? a c with
      | some root => loadPath readSound root t
      | none => pure t
    let t ← loadFile readCatalog (CommandLine.indexPath a c) t
    loadFile readBytes a.configPath t

def bytesOf : Content → List UInt8
  | .bytes content => content
  | .catalog file => Text.Utf8.encode file.toText
  | .flac _ => []

def writeChanges (before after : FileTree Content) : IO Unit :=
  after.nodes.toList.forM fun (loc, node) => do
    match node with
    | .file _ content =>
      let isSame : Bool := match before.node? loc with
        | some (.file _ former) => former == content
        | _ => false
      unless isSame do
        IO.FS.writeBinFile (pathOf loc) ⟨(bytesOf content).toArray⟩
    | .directory _ => unless before.isDirectoryAt loc do IO.FS.createDirAll (pathOf loc)
    | .link _ => pure ()

def run (arguments : List String) : IO UInt32 := do
  let here := Path.ofString (← IO.currentDir).toString
  let home := here.pieces.filter fun piece => !Path.isIdle piece
  let environment? := (← IO.getEnv "SCANNER_CONFIG").map CommandLine.Word.ofString
  let words := arguments.map CommandLine.Word.ofString
  let now ← Std.Time.Timestamp.now
  let before ← match CommandLine.Arguments.ofWords environment? words with
    | .ok a => loadFor a (.ofWorkingDirectory home)
    | .error _ => pure (.ofWorkingDirectory home)
  let (ending, after) :=
    (CommandLine.run environment? words now.toSecondsSinceUnixEpoch.val).run before
  writeChanges before after
  IO.print ending.output
  IO.eprint ending.complaint
  return ending.code.toUInt32

end AudioCatalog.Main

def main (arguments : List String) : IO UInt32 := AudioCatalog.Main.run arguments
