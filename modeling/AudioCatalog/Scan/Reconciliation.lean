import AudioCatalog.Catalog.Identity
import AudioCatalog.Scan.Run

namespace AudioCatalog.Scan

/-- Artists and release artists may get an identifier by better tagging one day, so they never
borrow a namesake that has one. -/
def borrows : Role → Bool
  | .artist | .releaseArtist => false
  | _ => true

def creditLists (m : Tag.Metadata) : List (Role × List Tag.ArtistInfo) :=
  [(.artist, m.artists), (.releaseArtist, m.albumArtists), (.conductor, m.conductors),
   (.composer, m.composers), (.lyricist, m.lyricists), (.mixer, m.mixers)] ++
  m.performers.toList.map (fun (part, artists) => (.performer part, artists)) ++
  [(.producer, m.producers), (.remixer, m.remixers)]

structure Stamp where
  lastWriteTime : Int
  scanVersion : Nat
  addedTime : Int
deriving DecidableEq

def trackName (m : Tag.Metadata) (entry : Entry) : String :=
  if m.title = "" then
    match entry.path.fileName? with
    | some name => Path.display ⟨name⟩
    | none => entry.key
  else m.title

def described (track : Track) (entry : Entry) (m : Tag.Metadata) (stamp : Stamp) : Track :=
  { track with
    name := trackName m { entry with key := track.path }
    trackNumber := m.trackNumber
    discNumber := m.discNumber
    totalTrack := m.totalTrack
    totalDisc := m.totalDisc
    discSubtitle := m.discSubtitle
    durationMs := m.durationMs
    date := m.date <|> m.originalDate
    originalDate := m.originalDate
    trackGain := m.trackGain
    releaseGain := m.albumGain
    hasCover := m.hasCover
    copyright := m.copyright
    copyrightUrl := m.copyrightUrl
    recordingMbid := m.recordingMbid
    trackMbid := m.trackMbid
    lastWriteTime := stamp.lastWriteTime
    scanVersion := stamp.scanVersion
    addedTime := stamp.addedTime }

section

open Catalog Session

def creditArtists (id : TrackId) (role : Role) (infos : List Tag.ArtistInfo) : Session Unit := do
  let artists ← resolveArtists infos (borrows role)
  artists.forM fun artist => do
    let _ ← addCredit id artist.id role

def resolveAlbum (album : Option Tag.AlbumInfo) : Session (Option ReleaseId) := do
  match album with
  | some album => return (← resolveRelease album).map Named.id
  | none => return none

/-- Writes all that the file says about its track, and forgets features of its former sound. -/
def applyMetadata (track : Track) (entry : Entry) (m : Tag.Metadata) (stamp : Stamp) :
    Session Unit := do
  clearCredits track.id
  (creditLists m).forM fun (role, infos) => creditArtists track.id role infos
  let releaseId ← resolveAlbum m.album
  let clusters ← resolveClusters m.clusters
  let _ ← removeFeatures track.id
  updateTrack { described track entry m stamp with
    releaseId := releaseId
    clusterIds := .ofList (clusters.map Cluster.id) compare }

inductive Rejection where
  | duplicate
  | noAudio
  | badDuration
deriving DecidableEq

inductive Outcome where
  | added
  | updated
  | rejected (why : Rejection) (removesTrack : Bool)
deriving DecidableEq

def isDuplicate (existing : Option Track) (m : Tag.Metadata) : Session Bool := do
  match m.recordingMbid with
  | none => return false
  | some mbid =>
    let others ← query (·.findTracksByRecording mbid)
    return others.any fun other => some other.id ≠ existing.map Track.id

def rejection? (skipsDuplicates : Bool) (existing : Option Track) (m : Tag.Metadata) :
    Session (Option Rejection) := do
  if skipsDuplicates then
    if ← isDuplicate existing m then return some .duplicate
  if m.audioStreams = 0 then return some .noAudio
  if m.durationMs = 0 then return some .badDuration
  return none

def removeStale (existing : Option Track) : Session Bool := do
  match existing with
  | some track =>
    let _ ← removeTrack track.id
    return true
  | none => return false

/-- Writes the track of a file, or takes it away where the file is rejected. -/
def reconcile (skipsDuplicates : Bool) (entry : Entry) (m : Tag.Metadata) (stamp : Stamp) :
    Session Outcome := do
  let existing ← query (·.findTrackByPath entry.key)
  match ← rejection? skipsDuplicates existing m with
  | some why => return .rejected why (← removeStale existing)
  | none =>
    match existing with
    | some track =>
      applyMetadata track entry m stamp
      return .updated
    | none =>
      applyMetadata (← createTrack entry.key) entry m stamp
      return .added

end

end AudioCatalog.Scan
