import AudioCatalog.FileTree.Exclusion

namespace AudioCatalog

inductive Visit where
  | file (path : Path)
  | failure (path : Path) (cause : FileError)
deriving DecidableEq

namespace Visit

def path : Visit → Path
  | .file path | .failure path _ => path

def failureMessage (path : Path) (cause : FileError) : String :=
  s!"IO error for operation on {path.display}: {cause.message}"

def error? : Visit → Option String
  | .file _ => none
  | .failure path cause => some (failureMessage path cause)

end Visit

namespace Walk

variable {κ : Type} {m : Type → Type} [Monad m]

/-- What a walk needs: a look at the tree, the marker of directories left out, and a visitor, which
answers whether the walk goes on. -/
structure Guide (m : Type → Type) (κ : Type) where
  look : m (FileTree κ)
  marker : String
  visit : Visit → m Bool

/-- Directories never nest deeper than a path has bytes. -/
def maxDepth : Nat := Path.maxLength + 1

def directory (g : Guide m κ) : Nat → Bool → Path → m Bool
  | 0, _, path => g.visit (.failure path .nameTooLong)
  | depth + 1, heedsMarker, path => do
    let t ← g.look
    if heedsMarker && t.carriesMarker g.marker path then return true
    match t.list path with
    | .error cause => g.visit (.failure path cause)
    | .ok entries =>
      entries.allM fun (name, kind) =>
        let below := path.join ⟨name⟩
        match kind with
        | .file => g.visit (.file below)
        | .directory => directory g depth true below
        | .link => return true

/-- Goes through what a root names. A link to a directory is followed at the root only, and the
marker does not count in the directory behind it. -/
def run (g : Guide m κ) (root : Path) : m Bool := do
  let t ← g.look
  match t.kindOf root with
  | .error cause => g.visit (.failure root cause)
  | .ok .file => g.visit (.file root)
  | .ok .directory => directory g maxDepth true root
  | .ok .link =>
    match t.target root with
    | .error cause => g.visit (.failure root cause)
    | .ok (.directory _) => directory g maxDepth false root
    | .ok (.file ..) | .ok (.link _) => return true

end Walk

end AudioCatalog
