import AudioCatalog.FileTree.Basic

namespace AudioCatalog.FileTree

variable {κ : Type}

abbrev Edit (κ : Type) := EStateM FileError (FileTree κ)

def drop (t : FileTree κ) (loc : Location) : FileTree κ :=
  { t with
    nodes := t.nodes.filter fun place _ => !loc.isPrefixOf place
    isName_of_mem := fun place h => t.isName_of_mem place (Std.ExtTreeMap.mem_of_mem_filter h) }

def move (t : FileTree κ) (source destination : Location) : FileTree κ :=
  let moved := t.nodes.toList.filter fun (place, _) => source.isPrefixOf place
  moved.foldl (fun t (place, node) => t.put (destination ++ place.drop source.length) node)
    (t.drop source)

namespace Edit

def find (f : FileTree κ → Except FileError α) : Edit κ α := do
  match f (← get) with
  | .ok a => return a
  | .error cause => throw cause

def withoutSlash (p : Path) : Path :=
  match (p.bytes.reverse.dropWhile (· == Path.slash)).reverse with
  | [] => p
  | bytes => ⟨bytes⟩

/-- The place that a path names in its directory, whether or not something stands there; slashes
at its end do not matter. -/
def entryPlace (p : Path) : Edit κ Location :=
  find fun t => t.locate .entry (withoutSlash p)

def endsInName (p : Path) : Bool :=
  match (moves (withoutSlash p)).getLast? with
  | some (.into _) => true
  | _ => false

def makeDirectory (p : Path) : Edit κ Unit := do
  let loc ← entryPlace p
  if ((← get).node? loc).isSome then throw .exists
  modify fun t => t.put loc (.directory 0)

def makeDirectoriesWithin : Nat → Path → Edit κ Unit
  | 0, _ => throw .noTree
  | depth + 1, p => do
    if p.bytes = [] then return
    let t ← get
    match makeDirectory p t with
    | .ok _ t => set t
    | .error .notFound _ =>
      match p.parent? with
      | none => throw .noTree
      | some above =>
        makeDirectoriesWithin depth above
        match makeDirectory p (← get) with
        | .ok _ t => set t
        | .error cause t => unless t.isDirectory p do throw cause
    | .error cause _ => unless t.isDirectory p do throw cause

def makeDirectories (p : Path) : Edit κ Unit := makeDirectoriesWithin (p.pieces.length + 1) p

/-- Writes a file, through links to the place that they lead to. -/
def writeFile (p : Path) (content : κ) (modified : Int) : Edit κ Unit := do
  let loc ← find fun t => t.locate .place (withoutSlash p)
  if withoutSlash p ≠ p ∨ (← get).isDirectoryAt loc then throw .isDirectory
  modify fun t => t.put loc (.file modified content)

def storeFile (p : Path) (content : κ) (modified : Int) : Edit κ Unit := do
  if let some above := p.parent? then makeDirectories above
  writeFile p content modified

def makeLink (target p : Path) : Edit κ Unit := do
  if 0 ∈ target.bytes then throw .zeroByteInPath
  if target.bytes = [] then throw .notFound
  let loc ← entryPlace p
  if ((← get).node? loc).isSome then throw .exists
  modify fun t => t.put loc (.link target)

def remove (p : Path) : Edit κ Unit := do
  let loc ← find fun t => t.locate .link p
  if ((← get).node? loc).isNone then throw .notFound
  unless endsInName p do throw .invalidArgument
  modify fun t => t.drop loc

/-- Renames what a path names. A directory replaces an empty directory only, anything else what is
no directory. -/
def rename (p q : Path) : Edit κ Unit := do
  let source ← find fun t => t.locate .link p
  let destination ← entryPlace q
  unless endsInName p && endsInName q do throw .busy
  let t ← get
  let movesDirectory := t.isDirectoryAt source
  if source = destination then return
  if movesDirectory ∧ source.isPrefixOf destination then throw .invalidArgument
  if destination.isPrefixOf source then throw .notEmpty
  if let some present := t.node? destination then
    if present.kind = .directory then
      unless movesDirectory do throw .isDirectory
      unless (t.entriesAt destination).isEmpty do throw .notEmpty
    else if movesDirectory then throw .notDirectory
  modify fun t => (t.drop destination).move source destination

def setModified (p : Path) (modified : Int) : Edit κ Unit := do
  let loc ← find fun t => t.locate .target p
  match (← get).node? loc with
  | some (.file _ content) => modify fun t => t.put loc (.file modified content)
  | some (.directory _) => modify fun t => t.put loc (.directory modified)
  | some (.link _) | none => throw .notFound

end Edit

end AudioCatalog.FileTree
