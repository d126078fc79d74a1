import AudioCatalog.FileTree.Error
import AudioCatalog.Path
import Std.Data.ExtTreeMap

namespace AudioCatalog

abbrev Location := List Path.Name

instance : Std.TransOrd Location := inferInstanceAs (Std.TransOrd (List (List UInt8)))

def nanosecondsInSecond : Int := 1000000000

/-- What stands at a place; times are nanoseconds since the epoch, `κ` what files hold. -/
inductive Node (κ : Type) where
  | file (modified : Int) (content : κ)
  | directory (modified : Int)
  | link (target : Path)

namespace Node

inductive Kind where
  | file
  | directory
  | link
deriving DecidableEq

variable {κ : Type}

def kind : Node κ → Kind
  | .file .. => .file
  | .directory _ => .directory
  | .link _ => .link

def modified : Node κ → Int
  | .file modified _ | .directory modified => modified
  | .link _ => 0

end Node

structure FileTree (κ : Type) where
  nodes : Std.ExtTreeMap Location (Node κ)
  workingDirectory : Location
  isName_of_mem : ∀ loc ∈ nodes, ∀ name ∈ loc, Path.IsName name

namespace FileTree

variable {κ : Type}

def empty (workingDirectory : Location) : FileTree κ := ⟨∅, workingDirectory, by simp⟩

def put (t : FileTree κ) (loc : Location) (node : Node κ) : FileTree κ :=
  if names : ∀ name ∈ loc, Path.IsName name then
    { t with
      nodes := t.nodes.insert loc node
      isName_of_mem := by
        intro place hplace
        rcases Std.ExtTreeMap.mem_insert.mp hplace with h | h
        · rwa [← Std.LawfulEqOrd.eq_of_compare h]
        · exact t.isName_of_mem place h }
  else t

def ofWorkingDirectory (location : Location) : FileTree κ :=
  (List.range location.length).foldl (fun t n => t.put (location.take (n + 1)) (.directory 0))
    (empty location)

/-- The root is a directory whatever the nodes are. -/
def node? (t : FileTree κ) (loc : Location) : Option (Node κ) :=
  if loc = [] then some (.directory 0) else t.nodes[loc]?

def isDirectoryAt (t : FileTree κ) (loc : Location) : Bool :=
  (t.node? loc).any fun node => node.kind == .directory

inductive Move where
  | stay
  | up
  | into (name : Path.Name)
deriving DecidableEq

def Move.ofPiece (piece : Path.Name) : Move :=
  if piece = [] ∨ piece = [Path.dot] then .stay
  else if piece = [Path.dot, Path.dot] then .up
  else .into piece

def moves (p : Path) : List Move := p.pieces.map Move.ofPiece

/-- How the last name of a path is looked up: whether a link there is followed, and whether it may
be the name of nothing yet. -/
structure Lookup where
  follows : Bool
  mayMiss : Bool

namespace Lookup

def target : Lookup := ⟨true, false⟩

def link : Lookup := ⟨false, false⟩

def place : Lookup := ⟨true, true⟩

def entry : Lookup := ⟨false, true⟩

end Lookup

/-- Goes through a path move by move; at a link that has to be followed, `onLink` takes over with
the directory of the link, its target and the moves that are left. -/
def advance (t : FileTree κ) (lookup : Lookup)
    (onLink : Location → Path → List Move → Except FileError Location) :
    Location → List Move → Except FileError Location
  | loc, [] => .ok loc
  | loc, move :: rest =>
    match t.node? loc with
    | none => .error .notFound
    | some (.file ..) | some (.link _) => .error .notDirectory
    | some (.directory _) =>
      match move with
      | .stay => advance t lookup onLink loc rest
      | .up => advance t lookup onLink loc.dropLast rest
      | .into name =>
        if Path.maxNameLength < name.length then .error .nameTooLong
        else
          match t.node? (loc ++ [name]) with
          | none => if lookup.mayMiss ∧ rest = [] then .ok (loc ++ [name]) else .error .notFound
          | some (.link target) =>
            if rest = [] ∧ !lookup.follows then .ok (loc ++ [name]) else onLink loc target rest
          | some _ => advance t lookup onLink (loc ++ [name]) rest

/-- As `advance`, following a limited number of links. -/
def follow (t : FileTree κ) (lookup : Lookup) :
    Nat → Location → List Move → Except FileError Location
  | 0, loc, ms => t.advance lookup (fun _ _ _ => .error .tooManyLinks) loc ms
  | links + 1, loc, ms =>
    t.advance lookup (fun home target rest =>
      t.follow lookup links (if target.isAbsolute then [] else home) (moves target ++ rest)) loc ms

def maxLinks : Nat := 40

/-- Refuses what cannot be a path before anything is looked up. -/
def checkPath (p : Path) : Except FileError Unit :=
  if 0 ∈ p.bytes then .error .zeroByteInPath
  else if p.bytes = [] then .error .notFound
  else if Path.maxLength < p.bytes.length then .error .nameTooLong
  else .ok ()

def locate (t : FileTree κ) (lookup : Lookup) (p : Path) : Except FileError Location := do
  checkPath p
  t.follow lookup maxLinks (if p.isAbsolute then [] else t.workingDirectory) (moves p)

def nodeAt (t : FileTree κ) (lookup : Lookup) (p : Path) : Except FileError (Node κ) := do
  match t.node? (← t.locate lookup p) with
  | some node => return node
  | none => throw .notFound

def target (t : FileTree κ) (p : Path) : Except FileError (Node κ) := t.nodeAt .target p

def kindOf (t : FileTree κ) (p : Path) : Except FileError Node.Kind :=
  (t.nodeAt .link p).map Node.kind

def exists? (t : FileTree κ) (p : Path) : Bool := (t.target p).isOk

def leadsTo (t : FileTree κ) (kind : Node.Kind) (p : Path) : Bool :=
  match t.target p with
  | .ok node => node.kind == kind
  | .error _ => false

def isFile (t : FileTree κ) (p : Path) : Bool := t.leadsTo .file p

def isDirectory (t : FileTree κ) (p : Path) : Bool := t.leadsTo .directory p

/-- The time of the last write in whole seconds, cut off toward the epoch. -/
def lastWriteSeconds (t : FileTree κ) (p : Path) : Except FileError Int :=
  (t.target p).map fun node => node.modified.tdiv nanosecondsInSecond

def read (t : FileTree κ) (p : Path) : Except FileError κ := do
  match ← t.target p with
  | .file _ content => return content
  | .directory _ | .link _ => throw .isDirectory

def childName? (above loc : Location) : Option Path.Name :=
  if above.isPrefixOf loc then
    match loc.drop above.length with
    | [name] => some name
    | _ => none
  else none

def entriesAt (t : FileTree κ) (loc : Location) : List (Path.Name × Node.Kind) :=
  t.nodes.toList.filterMap fun (location, node) =>
    (childName? loc location).map fun name => (name, node.kind)

def list (t : FileTree κ) (p : Path) : Except FileError (List (Path.Name × Node.Kind)) := do
  let loc ← t.locate .target p
  match t.node? loc with
  | some (.directory _) => return t.entriesAt loc
  | some _ => throw .notDirectory
  | none => throw .notFound

end FileTree

end AudioCatalog
