import AudioCatalog.Config.Basic
import AudioCatalog.Scan.Files
import AudioCatalog.Scan.Orphans

namespace AudioCatalog.Scan

variable {σ κ ε : Type}

/-- A scanner keeps the scan version that was current when it was made. -/
structure Scanner where
  scanVersion : Nat
  audioExtensions : List String
  excludeMarker : String
  skipsDuplicates : Bool
  batchSize : Nat
deriving DecidableEq

namespace Scanner

def ofConfig (c : Config) (catalog : Catalog.State) : Except Config.Error Scanner := do
  c.validate
  return {
    scanVersion := catalog.settings.scanVersion
    audioExtensions := c.audioExtensions
    excludeMarker := c.excludeMarker
    skipsDuplicates := c.skipsDuplicates
    batchSize := c.effectiveBatchSize }

def plan (s : Scanner) (root : Path) (isForced : Bool) : Plan :=
  ⟨root, isForced, s.scanVersion, s.audioExtensions, s.excludeMarker, s.skipsDuplicates,
    s.batchSize⟩

end Scanner

open Scan.Action

def perform (env : Surroundings σ κ) (plan : Plan) (step : Step)
    (tell : Action σ Unit := report env) : Action σ Unit :=
  match step with
  | .countFiles => countFiles env plan
  | .scanFiles => scanFiles env plan tell
  | .removeOrphanTracks => removeOrphanTracks env plan tell
  | .removeOrphanEntities => removeOrphanEntities env

def takeStep (env : Surroundings σ κ) (perform : Step → EStateM ε (Run σ) Unit) (step : Step) :
    EStateM ε (Run σ) Bool := do
  if ← isAborted env then return false
  modify fun r => { r with progress := { step } }
  perform step
  return true

/-- Takes all steps; whether that was aborted is noted, and the request to abort is then dropped. -/
def takeSteps (env : Surroundings σ κ) (perform : Step → EStateM ε (Run σ) Unit) :
    EStateM ε (Run σ) Unit := do
  let _ ← Step.all.allM (takeStep env perform)
  let isAborted ← Action.isAborted env
  modify fun r => { r with isAborted := isAborted, outside := env.clearAbort r.outside }

/-- A scan that finds the room that it asks for. -/
def process (env : Surroundings σ κ) (plan : Plan) : Action σ Unit :=
  takeSteps env (perform env plan)

inductive Fault where
  | catalog (e : Catalog.Error)
  | capacityOverflow
deriving DecidableEq

/-- No list takes more bytes than a signed word of 64 bits can count, and an entry takes 48. -/
def maxBatchSize : Nat := 0x7fffffffffffffff / 48

def reserve (batchSize : Nat) : EStateM Fault (Run σ) Unit :=
  if batchSize ≤ maxBatchSize then return () else throw .capacityOverflow

def performInRoom (env : Surroundings σ κ) (plan : Plan) (step : Step) :
    EStateM Fault (Run σ) Unit := do
  if step = .scanFiles then
    -- A batch gets its room as a whole, once it is said how many files there are.
    expect (← get).stats.filesToScan
    reserve plan.batchSize
  (perform env plan step).adaptExcept .catalog

/-- A scan as it is run: where no list is large enough for a batch, it panics. -/
def scan (env : Surroundings σ κ) (plan : Plan) : EStateM Fault (Run σ) Unit :=
  takeSteps env (performInRoom env plan)

def Run.start (outside : σ) (catalog : Catalog.State) : Run σ :=
  { outside, catalog, progress := { step := .countFiles } }

end AudioCatalog.Scan
