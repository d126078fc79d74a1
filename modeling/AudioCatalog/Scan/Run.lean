import AudioCatalog.Catalog.Store
import AudioCatalog.FileTree.Walk
import AudioCatalog.Scan.Failure
import AudioCatalog.Scan.Progress
import AudioCatalog.Tag.Metadata
import AudioCatalog.Tag.ParseError

namespace AudioCatalog.Scan

/-- What a scan finds outside its catalog, as functions of a state `σ` of the world; `κ` is what
files hold. Between two looks of the scan, others may change that state by `wait`. The workers that
read a batch of files take their turns as the world has it: each number in `turns` is a turn at the
file of that place in the batch. -/
structure Surroundings (σ κ : Type) where
  wait : σ → σ
  tree : σ → FileTree κ
  parse : σ → Path → Except Tag.ParseError Tag.Metadata
  isAborted : σ → Bool
  clearAbort : σ → σ
  report : Progress → σ → σ
  now : σ → Int
  turns : σ → List Nat := fun _ => []

structure Plan where
  root : Path
  isForced : Bool
  scanVersion : Nat
  audioExtensions : List String
  excludeMarker : String
  skipsDuplicates : Bool
  batchSize : Nat
deriving DecidableEq

structure Stats where
  filesToScan : Nat := 0
  scans : Nat := 0
  skips : Nat := 0
  skipsOnError : Nat := 0
  additions : Nat := 0
  updates : Nat := 0
  deletions : Nat := 0
  failures : List Failure := []
deriving DecidableEq

def Stats.changes (s : Stats) : Nat := s.additions + s.updates + s.deletions

structure Entry where
  path : Path
  key : String
deriving DecidableEq

structure Run (σ : Type) where
  outside : σ
  catalog : Catalog.State
  progress : Progress
  stats : Stats := {}
  pending : List Entry := []
  isAborted : Bool := false

/-- A part of a scan; it fails only where the catalog does. -/
abbrev Action (σ : Type) := EStateM Catalog.Error (Run σ)

variable {σ κ ε : Type}

namespace Action

-- To look around and to say how much there is to do cannot fail, whatever failures there are.

def observe {α : Type} (env : Surroundings σ κ) (f : σ → α) : EStateM ε (Run σ) α := do
  modify fun r => { r with outside := env.wait r.outside }
  return f (← get).outside

def isAborted (env : Surroundings σ κ) : EStateM ε (Run σ) Bool := observe env env.isAborted

def expect (total : Nat) : EStateM ε (Run σ) Unit :=
  modify fun r => { r with progress := { r.progress with total := total } }

def look (env : Surroundings σ κ) : Action σ (FileTree κ) := observe env env.tree

def report (env : Surroundings σ κ) : Action σ Unit :=
  modify fun r => { r with outside := env.report r.progress r.outside }

def count (f : Stats → Stats) : Action σ Unit := modify fun r => { r with stats := f r.stats }

def advance (n : Nat) : Action σ Unit :=
  modify fun r => { r with progress := { r.progress with processed := r.progress.processed + n } }

def fail (path : Path) (kind : FailureKind) (message : Option String) : Action σ Unit :=
  count fun s => { s with failures := s.failures ++ [⟨path, kind, message⟩] }

def transact {α : Type} (work : Catalog.Session α) : Action σ α := do
  match (← get).catalog.transact work with
  | .ok (a, catalog) =>
    modify fun r => { r with catalog := catalog }
    return a
  | .error e => throw e

end Action

end AudioCatalog.Scan
