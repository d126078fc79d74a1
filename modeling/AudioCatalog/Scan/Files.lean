import AudioCatalog.FileExtension
import AudioCatalog.Scan.Change
import AudioCatalog.Scan.Reconciliation

namespace AudioCatalog.Scan

variable {σ κ : Type}

open Scan.Action

def countVisit (env : Surroundings σ κ) (plan : Plan) (visit : Visit) : Action σ Bool := do
  if ← isAborted env then return false
  match visit with
  | .file path =>
    if FileExtension.isAccepted plan.audioExtensions path then
      count fun s => { s with filesToScan := s.filesToScan + 1 }
  | .failure .. => pure ()
  return true

def countFiles (env : Surroundings σ κ) (plan : Plan) : Action σ Unit := do
  let _ ← Walk.run ⟨look env, plan.excludeMarker, countVisit env plan⟩ plan.root
  let files := (← get).stats.filesToScan
  expect files
  advance files

/-- What was learned from a file before the catalog is touched; it is unknown whether the file has
changed where the catalog does not say. -/
inductive Reading where
  | unreadable (cause : FileError)
  | unchanged
  | unparsable (e : Tag.ParseError)
  | unknown (e : Catalog.Error)
  | parsed (lastWriteTime : Int) (m : Tag.Metadata)

def parseFile (env : Surroundings σ κ) (entry : Entry) (lastWriteTime : Int) :
    Action σ Reading := do
  match ← observe env fun world => env.parse world entry.path with
  | .ok m => return .parsed lastWriteTime m
  | .error e => return .unparsable e

/-- Looks at the time of the last write. That may settle what there is to learn from the file; else
its time is given, and the file has to be parsed. -/
def dateFile {α : Type} (env : Surroundings σ κ) (plan : Plan) (entry : Entry)
    (settled : Reading → α) (dated : Int → Action σ α) : Action σ α := do
  match (← look env).lastWriteSeconds entry.path with
  | .error cause => return settled (.unreadable cause)
  | .ok time =>
    match detectChange (← get).catalog entry.key time plan.scanVersion plan.isForced with
    | .error e => return settled (.unknown e)
    | .ok .unchanged => return settled .unchanged
    | .ok .needsScan => dated time

def readFile (env : Surroundings σ κ) (plan : Plan) (entry : Entry) : Action σ Reading :=
  dateFile env plan entry id fun time => parseFile env entry time

inductive Stage where
  | waiting
  | dated (lastWriteTime : Int)
  | done (reading : Reading)

def takeTurn (env : Surroundings σ κ) (plan : Plan) (entry : Entry) : Stage → Action σ Stage
  | .waiting => dateFile env plan entry .done fun time => return .dated time
  | .dated time => do return .done (← parseFile env entry time)
  | .done reading => return .done reading

def finishReading (env : Surroundings σ κ) (plan : Plan) (entry : Entry) :
    Stage → Action σ Reading
  | .waiting => readFile env plan entry
  | .dated time => parseFile env entry time
  | .done reading => return reading

def takeTurnAt (env : Surroundings σ κ) (plan : Plan) (files : List (Entry × Stage))
    (place : Nat) : Action σ (List (Entry × Stage)) := do
  match files[place]? with
  | none => return files
  | some (entry, stage) => return files.set place (entry, ← takeTurn env plan entry stage)

/-- The workers take their turns, and then finish what is left in order. -/
def readAll (env : Surroundings σ κ) (plan : Plan) (entries : List Entry) :
    Action σ (List (Entry × Reading)) := do
  let turns ← observe env env.turns
  let files ← turns.foldlM (takeTurnAt env plan) (entries.map fun entry => (entry, .waiting))
  files.mapM fun (entry, stage) => return (entry, ← finishReading env plan entry stage)

def countOutcome (path : Path) : Outcome → Action σ Unit
  | .added => count fun s => { s with additions := s.additions + 1 }
  | .updated => count fun s => { s with updates := s.updates + 1 }
  | .rejected why removesTrack => do
    if removesTrack then count fun s => { s with deletions := s.deletions + 1 }
    match why with
    | .duplicate => pure ()
    | .noAudio => fail path .noAudio none
    | .badDuration => fail path .badDuration none

def takeOver (env : Surroundings σ κ) (plan : Plan) (entry : Entry) : Reading → Action σ Bool
  | .unreadable cause => do
    count fun s => { s with skipsOnError := s.skipsOnError + 1 }
    fail entry.path .cannotRead (some cause.message)
    return false
  | .unchanged => do
    count fun s => { s with skips := s.skips + 1 }
    return false
  | .unparsable e => do
    fail entry.path .cannotParse (some e.message)
    return true
  | .unknown e => throw e
  | .parsed time m => do
    count fun s => { s with scans := s.scans + 1 }
    let stamp : Stamp := ⟨time, plan.scanVersion, env.now (← get).outside⟩
    countOutcome entry.path (← transact (reconcile plan.skipsDuplicates entry m stamp))
    return true

/-- What a scan has to say while it is under way is told by `tell`: that is its progress, unless
something else is to be heard of it. It is told only of files that were opened. -/
def finishFile (env : Surroundings σ κ) (plan : Plan) (entry : Entry) (reading : Reading)
    (tell : Action σ Unit := report env) : Action σ Bool := do
  if ← isAborted env then return false
  let isOpened ← takeOver env plan entry reading
  advance 1
  if isOpened then tell
  return true

/-- Reads all files that are waiting, then takes them over one by one; false when aborted. -/
def flush (env : Surroundings σ κ) (plan : Plan) (tell : Action σ Unit := report env) :
    Action σ Bool := do
  let entries := (← get).pending
  modify fun r => { r with pending := [] }
  let readings ← readAll env plan entries
  readings.allM fun (entry, reading) => finishFile env plan entry reading tell

/-- Notes an entry of the walk that cannot be read, after all files before it. -/
def refuse (env : Surroundings σ κ) (plan : Plan) (path : Path) (message : String)
    (isAudioFile : Bool) (tell : Action σ Unit := report env) : Action σ Bool := do
  unless ← flush env plan tell do return false
  if isAudioFile then
    count fun s => { s with skipsOnError := s.skipsOnError + 1 }
    advance 1
  fail path .cannotRead (some message)
  return true

def enqueue (env : Surroundings σ κ) (plan : Plan) (entry : Entry)
    (tell : Action σ Unit := report env) : Action σ Bool := do
  modify fun r => { r with pending := r.pending ++ [entry] }
  if (← get).pending.length < plan.batchSize then return true
  flush env plan tell

def scanVisit (env : Surroundings σ κ) (plan : Plan) (visit : Visit)
    (tell : Action σ Unit := report env) : Action σ Bool := do
  if ← isAborted env then return false
  match visit with
  | .failure path cause => refuse env plan path (Visit.failureMessage path cause) false tell
  | .file path =>
    if FileExtension.isAccepted plan.audioExtensions path then
      match path.key? with
      | some key => enqueue env plan ⟨path, key⟩ tell
      | none => refuse env plan path "path is not valid UTF-8" true tell
    else return true

def scanFiles (env : Surroundings σ κ) (plan : Plan) (tell : Action σ Unit := report env) :
    Action σ Unit := do
  expect (← get).stats.filesToScan
  if ← Walk.run ⟨look env, plan.excludeMarker, (scanVisit env plan · tell)⟩ plan.root then
    let _ ← flush env plan tell

end AudioCatalog.Scan
