import AudioCatalog.Catalog.Registry

namespace AudioCatalog.Catalog

/-- What scans are set to; a track that was written under another version is scanned again. -/
structure ScanSettings where
  scanVersion : Nat := 0
  logicVersion : Nat := 0
  clusterTypeNames : List String := []
deriving DecidableEq

structure State where
  tracks : Table TrackId Track := ∅
  trackByPath : Table String TrackId := ∅
  tracksByRecording : Relation Mbid TrackId := ∅
  tracksOfRelease : Relation ReleaseId TrackId := ∅
  tracksOfCluster : Relation ClusterId TrackId := ∅
  features : Table TrackId (List UInt8) := ∅
  nextTrack : Nat := 1
  artists : Registry .artist (Option String) := {}
  releases : Registry .release Unit := {}
  clusterTypes : Table ClusterTypeId ClusterType := ∅
  clusterTypeByName : Table String ClusterTypeId := ∅
  nextClusterType : Nat := 1
  clusters : Table ClusterId Cluster := ∅
  clusterByKey : Table String ClusterId := ∅
  nextCluster : Nat := 1
  credits : Table CreditId Credit := ∅
  creditsOfTrack : Relation TrackId CreditId := ∅
  creditsOfArtist : Relation ArtistId CreditId := ∅
  nextCredit : Nat := 1
  settings : ScanSettings := {}
deriving DecidableEq

end AudioCatalog.Catalog
