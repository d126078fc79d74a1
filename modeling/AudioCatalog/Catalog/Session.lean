import AudioCatalog.Catalog.Query

namespace AudioCatalog.Catalog

abbrev Session := EStateM Error State

namespace Session

def query {α : Type} (f : State → Except Error α) : Session α := do
  match f (← get) with
  | .ok a => return a
  | .error e => throw e

def onArtists {α : Type}
    (f : Registry .artist (Option String) → Except Error (α × Registry .artist (Option String))) :
    Session α := do
  let (a, artists) ← query fun s => f s.artists
  modify fun s => { s with artists := artists }
  return a

def onReleases {α : Type}
    (f : Registry .release Unit → Except Error (α × Registry .release Unit)) : Session α := do
  let (a, releases) ← query fun s => f s.releases
  modify fun s => { s with releases := releases }
  return a

def createTrack (path : String) : Session Track := do
  if (← query (·.findTrackByPath path)).isSome then throw (.conflict (.pathTaken path))
  let track : Track := { id := ⟨(← get).nextTrack⟩, path := path }
  modify fun s => { s with
    nextTrack := s.nextTrack + 1
    tracks := s.tracks.insert track.id track
    trackByPath := s.trackByPath.insert path track.id }
  return track

/-- Moves an entry of a relation from one first part to another; either may be none. -/
def moveEntry {α β : Type} [Ord α] [Ord β] [Std.TransOrd α] [Std.TransOrd β]
    (r : Relation α β) (before after : Option α) (b : β) : Relation α β :=
  let r := match before with
    | some a => r.erase a b
    | none => r
  match after with
  | some a => r.insert a b
  | none => r

def eraseEntries {α β : Type} [Ord α] [Ord β] [Std.TransOrd α] [Std.TransOrd β]
    (r : Relation α β) (before : List α) (b : β) : Relation α β :=
  before.foldl (fun r a => r.erase a b) r

def insertEntries {α β : Type} [Ord α] [Ord β] [Std.TransOrd α] [Std.TransOrd β]
    (r : Relation α β) (after : List α) (b : β) : Relation α β :=
  after.foldl (fun r a => r.insert a b) r

def indexPath (previous track : Track) (s : State) : State :=
  if previous.path = track.path then s
  else { s with
    trackByPath := (s.trackByPath.erase previous.path).insert track.path track.id }

def indexRecording (previous track : Track) (s : State) : State :=
  if previous.recordingMbid = track.recordingMbid then s
  else { s with
    tracksByRecording :=
      moveEntry s.tracksByRecording previous.recordingMbid track.recordingMbid track.id }

def indexRelease (previous track : Track) (s : State) : State :=
  if previous.releaseId = track.releaseId then s
  else { s with
    tracksOfRelease := moveEntry s.tracksOfRelease previous.releaseId track.releaseId track.id }

def indexClusters (previous track : Track) (s : State) : State :=
  if previous.clusterIds = track.clusterIds then s
  else
    let gone := previous.clusterIds.toList.filter fun id => !track.clusterIds.contains id
    let added := track.clusterIds.toList.filter fun id => !previous.clusterIds.contains id
    { s with
      tracksOfCluster := insertEntries (eraseEntries s.tracksOfCluster gone track.id) added
        track.id }

def updateTrack (track : Track) : Session Unit := do
  let previous ← query fun s => State.indexed s.tracks track.id
  modify (indexPath previous track)
  modify (indexRecording previous track)
  modify (indexRelease previous track)
  modify (indexClusters previous track)
  modify fun s => { s with tracks := s.tracks.insert track.id track }

def setFeatures (id : TrackId) (features : List UInt8) : Session Unit :=
  modify fun s => { s with features := s.features.insert id features }

def removeFeatures (id : TrackId) : Session Bool := do
  let present := ((← get).featuresOf? id).isSome
  modify fun s => { s with features := s.features.erase id }
  return present

/-- Takes credits away, and with each its entry in an index under what `key` gives for it. -/
def dropCredits {e : Entity} (key : Credit → EntityId e) (ids : List CreditId)
    (credits : Table CreditId Credit) (index : Relation (EntityId e) CreditId) :
    Table CreditId Credit × Relation (EntityId e) CreditId :=
  match ids with
  | [] => (credits, index)
  | id :: ids =>
    match credits[id]? with
    | some credit => dropCredits key ids (credits.erase id) (index.erase (key credit) id)
    | none => dropCredits key ids credits index

def clearCredits (id : TrackId) : Session Unit :=
  modify fun s =>
    let (credits, creditsOfArtist) :=
      dropCredits Credit.artistId (s.creditsOfTrack.image id) s.credits s.creditsOfArtist
    { s with credits, creditsOfArtist, creditsOfTrack := s.creditsOfTrack.eraseAll id }

def clearCreditsTo (id : ArtistId) : Session Unit :=
  modify fun s =>
    let (credits, creditsOfTrack) :=
      dropCredits Credit.trackId (s.creditsOfArtist.image id) s.credits s.creditsOfTrack
    { s with credits, creditsOfTrack, creditsOfArtist := s.creditsOfArtist.eraseAll id }

def addCredit (trackId : TrackId) (artistId : ArtistId) (role : Role) : Session Credit := do
  let credit : Credit := ⟨⟨(← get).nextCredit⟩, trackId, artistId, role⟩
  modify fun s => { s with
    nextCredit := s.nextCredit + 1
    credits := s.credits.insert credit.id credit
    creditsOfTrack := s.creditsOfTrack.insert trackId credit.id
    creditsOfArtist := s.creditsOfArtist.insert artistId credit.id }
  return credit

def unindexTrack (track : Track) (s : State) : State := { s with
  trackByPath := s.trackByPath.erase track.path
  tracksByRecording := moveEntry s.tracksByRecording track.recordingMbid none track.id
  tracksOfRelease := moveEntry s.tracksOfRelease track.releaseId none track.id
  tracksOfCluster := eraseEntries s.tracksOfCluster track.clusterIds.toList track.id }

def removeTrack (id : TrackId) : Session Bool := do
  match (← get).findTrack? id with
  | none => return false
  | some track =>
    clearCredits id
    let _ ← removeFeatures id
    modify (unindexTrack track)
    modify fun s => { s with tracks := s.tracks.erase id }
    return true

def createArtist (name : String) (sortName : Option String) (mbid : Option Mbid) :
    Session Artist :=
  onArtists (Registry.create name mbid sortName)

def updateArtist (artist : Artist) : Session Unit := onArtists (Registry.update artist)

def removeArtist (id : ArtistId) : Session Bool := do
  match (← get).artists.find? id with
  | none => return false
  | some artist =>
    clearCreditsTo id
    modify fun s => { s with artists := s.artists.erase artist }
    return true

def createRelease (name : String) (mbid : Option Mbid) : Session Release :=
  onReleases (Registry.create name mbid ())

def updateRelease (release : Release) : Session Unit := onReleases (Registry.update release)

def changeTracks (ids : List TrackId) (change : Track → Track) : Session Unit :=
  ids.forM fun id => do
    if let some track := (← get).findTrack? id then updateTrack (change track)

def removeRelease (id : ReleaseId) : Session Bool := do
  match (← get).releases.find? id with
  | none => return false
  | some release =>
    changeTracks ((← get).tracksOfRelease.image id) fun track => { track with releaseId := none }
    modify fun s => { s with releases := s.releases.erase release }
    return true

def createClusterType (name : String) : Session ClusterType := do
  if (← query (·.findClusterTypeByName name)).isSome then
    throw (.conflict (.clusterTypeTaken name))
  let clusterType : ClusterType := ⟨⟨(← get).nextClusterType⟩, name⟩
  modify fun s => { s with
    nextClusterType := s.nextClusterType + 1
    clusterTypes := s.clusterTypes.insert clusterType.id clusterType
    clusterTypeByName := s.clusterTypeByName.insert name clusterType.id }
  return clusterType

def createCluster (key : ClusterKey) : Session Cluster := do
  if ((← get).findClusterType? key.typeId).isNone then
    throw (.conflict (.clusterTypeUnknown key.typeId))
  if (← query (·.findClusterByKey key)).isSome then throw (.conflict (.clusterTaken key.name))
  let cluster : Cluster := ⟨⟨(← get).nextCluster⟩, key.typeId, key.name⟩
  modify fun s => { s with
    nextCluster := s.nextCluster + 1
    clusters := s.clusters.insert cluster.id cluster
    clusterByKey := s.clusterByKey.insert key.text cluster.id }
  return cluster

/-- Removes a cluster, also from its tracks; false where there is none. -/
def removeCluster (id : ClusterId) : Session Bool := do
  match (← get).findCluster? id with
  | none => return false
  | some cluster =>
    changeTracks ((← get).tracksOfCluster.image id) fun track =>
      { track with clusterIds := track.clusterIds.erase id }
    modify fun s => { s with
      clusterByKey := s.clusterByKey.erase cluster.key.text
      clusters := s.clusters.erase id }
    return true

def saveSettings (settings : ScanSettings) : Session Unit :=
  modify fun s => { s with settings := settings }

end Session

end AudioCatalog.Catalog
