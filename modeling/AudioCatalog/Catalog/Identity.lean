import AudioCatalog.Catalog.Session
import AudioCatalog.Tag.Metadata

namespace AudioCatalog.Catalog.Session

open Tag

/-- The artist under the name and the sort name of a tag; a tag without a sort name keeps it. -/
def refreshed (artist : Artist) (info : ArtistInfo) : Artist :=
  { artist with name := info.name, detail := info.sortName <|> artist.detail }

def refreshArtist (artist : Artist) (info : ArtistInfo) : Session Artist := do
  let artist' := refreshed artist info
  if artist' ≠ artist then updateArtist artist'
  return artist'

def resolveTagged (info : ArtistInfo) (mbid : Mbid) : Session Artist := do
  match ← query (·.artists.findByMbid mbid) with
  | some artist => refreshArtist artist info
  | none => createArtist info.name info.sortName (some mbid)

/-- The oldest artist of the name; one with an identifier only where it may be borrowed. -/
def resolveNamed (info : ArtistInfo) (borrows : Bool) : Session Artist := do
  let namesakes ← query (·.artists.findByName info.name)
  match namesakes.find? fun artist => borrows || artist.mbid.isNone with
  | some artist => refreshArtist artist info
  | none => createArtist info.name info.sortName none

def resolveArtist? (info : ArtistInfo) (borrows : Bool) : Session (Option Artist) := do
  match info.mbid with
  | some mbid => return some (← resolveTagged info mbid)
  | none =>
    if info.name = "" then return none
    return some (← resolveNamed info borrows)

def resolveArtists (infos : List ArtistInfo) (borrows : Bool) : Session (List Artist) :=
  infos.filterMapM fun info => resolveArtist? info borrows

def renameRelease (release : Release) (name : String) : Session Release := do
  if release.name = name then return release
  let renamed := { release with name := name }
  updateRelease renamed
  return renamed

/-- A release with an identifier is never taken for an album without one. -/
def resolveRelease (album : AlbumInfo) : Session (Option Release) := do
  match album.mbid with
  | some mbid =>
    match ← query (·.releases.findByMbid mbid) with
    | some release => return some (← renameRelease release album.name)
    | none => return some (← createRelease album.name (some mbid))
  | none =>
    if album.name = "" then return none
    let namesakes ← query (·.releases.findByName album.name)
    match namesakes.find? fun release => release.mbid.isNone with
    | some release => return some release
    | none => return some (← createRelease album.name none)

def resolveCluster (key : ClusterKey) : Session Cluster := do
  match ← query (·.findClusterByKey key) with
  | some cluster => return cluster
  | none => createCluster key

/-- The clusters of the values, type by type in the order of names; a type that the catalog does
not have is passed over. -/
def resolveClusters (values : ClusterValues) : Session (List Cluster) := do
  let perType ← values.toList.mapM fun (typeName, names) => do
    match ← query (·.findClusterTypeByName typeName) with
    | none => return []
    | some clusterType => names.toList.mapM fun name => resolveCluster ⟨clusterType.id, name⟩
  return perType.flatten

end AudioCatalog.Catalog.Session
