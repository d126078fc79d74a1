import AudioCatalog.Catalog.State

namespace AudioCatalog.Catalog.State

def findTrack? (s : State) (id : TrackId) : Option Track := s.tracks[id]?

def indexed {e : Entity} {ρ : Type} (rows : Table (EntityId e) ρ) (id : EntityId e) :
    Except Error ρ :=
  match rows[id]? with
  | some row => .ok row
  | none => .error (missing id)

def indexed? {e : Entity} {ρ : Type} (rows : Table (EntityId e) ρ) :
    Option (EntityId e) → Except Error (Option ρ)
  | some id => (indexed rows id).map some
  | none => .ok none

def findTrackByPath (s : State) (path : String) : Except Error (Option Track) :=
  indexed? s.tracks s.trackByPath[path]?

def findTracksByRecording (s : State) (mbid : Mbid) : Except Error (List Track) :=
  (s.tracksByRecording.image mbid).mapM (indexed s.tracks)

def trackPaths (s : State) : List (TrackId × String) :=
  s.trackByPath.toList.map fun (path, id) => (id, path)

def creditsOf (s : State) (id : TrackId) : Except Error (List Credit) :=
  (s.creditsOfTrack.image id).mapM (indexed s.credits)

def featuresOf? (s : State) (id : TrackId) : Option (List UInt8) := s.features[id]?

def findClusterType? (s : State) (id : ClusterTypeId) : Option ClusterType := s.clusterTypes[id]?

def findClusterTypeByName (s : State) (name : String) : Except Error (Option ClusterType) :=
  indexed? s.clusterTypes s.clusterTypeByName[name]?

def findCluster? (s : State) (id : ClusterId) : Option Cluster := s.clusters[id]?

def findClusterByKey (s : State) (key : ClusterKey) : Except Error (Option Cluster) :=
  indexed? s.clusters s.clusterByKey[key.text]?

/-- The numbers of rows, the lowest first, that nothing refers to; `limit` of them at most. -/
def orphans {e f : Entity} {ρ : Type} (rows : Table (EntityId e) ρ)
    (references : Relation (EntityId e) (EntityId f)) (limit : Nat) : List (EntityId e) :=
  (rows.keys.filter references.isEmptyAt).take limit

def orphanArtists (s : State) (limit : Nat) : List ArtistId :=
  orphans s.artists.rows s.creditsOfArtist limit

def orphanReleases (s : State) (limit : Nat) : List ReleaseId :=
  orphans s.releases.rows s.tracksOfRelease limit

def orphanClusters (s : State) (limit : Nat) : List ClusterId :=
  orphans s.clusters s.tracksOfCluster limit

end AudioCatalog.Catalog.State
