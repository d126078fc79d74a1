import AudioCatalog.FileExtension
import AudioCatalog.Scan.Run

namespace AudioCatalog.Scan

variable {σ κ : Type}

open Scan.Action Catalog Session

def orphanBatchSize : Nat := 100

inductive OrphanReason where
  | missing
  | outOfRoot
  | otherFormat
deriving DecidableEq

def orphanReason? (t : FileTree κ) (plan : Plan) (p : Path) : Option OrphanReason :=
  if !t.isFile p then some .missing
  else if !t.isInRoot plan.excludeMarker plan.root p then some .outOfRoot
  else if !FileExtension.isAccepted plan.audioExtensions p then some .otherFormat
  else none

def chunks {α : Type} (extra : Nat) : List α → List (List α)
  | [] => []
  | a :: as => (a :: as.take extra) :: chunks extra (as.drop extra)
termination_by as => as.length

def orphansAmong? (env : Surroundings σ κ) (plan : Plan) :
    List (TrackId × String) → Action σ (Option (List TrackId))
  | [] => return some []
  | (id, path) :: rest => do
    if ← isAborted env then return none
    let reason := orphanReason? (← look env) plan (Path.ofString path)
    advance 1
    match ← orphansAmong? env plan rest with
    | none => return none
    | some ids => return some (if reason.isSome then id :: ids else ids)

def removeAll {α : Type} (remove : α → Session Bool) : List α → Session Nat
  | [] => return 0
  | a :: rest => do
    let isRemoved ← remove a
    return (← removeAll remove rest) + isRemoved.toNat

/-- A piece is left alone when the scan is aborted within it. -/
def removeOrphansOf (env : Surroundings σ κ) (plan : Plan) (tracks : List (TrackId × String))
    (tell : Action σ Unit := report env) : Action σ Bool := do
  match ← orphansAmong? env plan tracks with
  | none => return false
  | some ids =>
    let removed ← transact (removeAll removeTrack ids)
    count fun s => { s with deletions := s.deletions + removed }
    tell
    return true

def removeOrphanTracks (env : Surroundings σ κ) (plan : Plan)
    (tell : Action σ Unit := report env) : Action σ Unit := do
  let tracks := (← get).catalog.trackPaths
  expect tracks.length
  let _ ← (chunks (orphanBatchSize - 1) tracks).allM fun piece =>
    removeOrphansOf env plan piece tell

structure Orphanage where
  Key : Type
  find : State → Nat → List Key
  remove : Key → Session Bool
  size : State → Nat

namespace Orphanage

def clusters : Orphanage := ⟨ClusterId, State.orphanClusters, removeCluster, (·.clusters.size)⟩

def artists : Orphanage := ⟨ArtistId, State.orphanArtists, removeArtist, (·.artists.rows.size)⟩

def releases : Orphanage := ⟨ReleaseId, State.orphanReleases, removeRelease, (·.releases.rows.size)⟩

end Orphanage

def takeUntilAborted {α : Type} (env : Surroundings σ κ) : List α → Action σ (List α × Bool)
  | [] => return ([], true)
  | a :: rest => do
    if ← isAborted env then return ([], false)
    let (taken, isAll) ← takeUntilAborted env rest
    return (a :: taken, isAll)

/-- Removes a batch of orphans after the other, until one is short of its full size. -/
def removeBatches (env : Surroundings σ κ) (kind : Orphanage) : Nat → Action σ Nat
  | 0 => return 0
  | rounds + 1 => do
    if ← isAborted env then return 0
    let keys := kind.find (← get).catalog orphanBatchSize
    let (taken, isAll) ← takeUntilAborted env keys
    let removed ← transact (removeAll kind.remove taken)
    if !isAll ∨ keys.length < orphanBatchSize then return removed
    return (← removeBatches env kind rounds) + removed

/-- Each full batch takes something away, so there are no more batches than entities, and one. -/
def removeOrphans (env : Surroundings σ κ) (kind : Orphanage) : Action σ Nat := do
  removeBatches env kind (kind.size (← get).catalog + 1)

def removeOrphanEntities (env : Surroundings σ κ) : Action σ Unit := do
  let clusters ← removeOrphans env .clusters
  let artists ← removeOrphans env .artists
  let releases ← removeOrphans env .releases
  let removed := clusters + artists + releases
  expect removed
  advance removed

end AudioCatalog.Scan
