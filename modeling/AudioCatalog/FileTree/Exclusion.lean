import AudioCatalog.FileTree.Basic

namespace AudioCatalog.FileTree

variable {κ : Type}

/-- No directory carries the empty marker. -/
def carriesMarker (t : FileTree κ) (marker : String) (directory : Path) : Bool :=
  marker ≠ "" && t.exists? (directory.join (Path.ofString marker))

def isClearUpTo (t : FileTree κ) (marker : String) (root : Path) : Nat → Option Path → Bool
  | 0, _ | _, none => true
  | depth + 1, some directory =>
    !t.carriesMarker marker directory &&
      (directory.isSame root || t.isClearUpTo marker root depth directory.parent?)

/-- The path lies under the root, and no directory between them is left out. -/
def isInRoot (t : FileTree κ) (marker : String) (root p : Path) : Bool :=
  p.liesUnder root && t.isClearUpTo marker root p.pieces.length p.parent?

end AudioCatalog.FileTree
