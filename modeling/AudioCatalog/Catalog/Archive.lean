import AudioCatalog.Archive
import AudioCatalog.Catalog.File
import AudioCatalog.Text.Digits

namespace AudioCatalog

open Archived

variable {e : Entity} {δ : Type}

instance : Archived (EntityId e) := via EntityId.number (fun n => some ⟨n⟩) fun _ => rfl

instance : Archived Mbid :=
  via Mbid.value Mbid.ofNat? fun m => dif_pos ⟨m.value_pos, m.value_lt⟩

instance : Archived Single := via Single.bits (fun bits => some ⟨bits⟩) fun _ => rfl

instance : Archived PartialDate :=
  via (fun d => (d.year, d.month, d.day)) (fun (year, month, day) => some ⟨year, month, day⟩)
    fun _ => rfl

instance : Archived Track :=
  via
    (fun t => (t.id, t.path, t.name, t.trackNumber, t.discNumber, t.totalTrack, t.totalDisc,
      t.discSubtitle, t.durationMs, t.date, t.originalDate, t.trackGain, t.releaseGain, t.hasCover,
      t.copyright, t.copyrightUrl, t.recordingMbid, t.trackMbid, t.lastWriteTime, t.scanVersion,
      t.addedTime, t.releaseId, t.clusterIds))
    (fun (id, path, name, trackNumber, discNumber, totalTrack, totalDisc, discSubtitle, durationMs,
        date, originalDate, trackGain, releaseGain, hasCover, copyright, copyrightUrl,
        recordingMbid, trackMbid, lastWriteTime, scanVersion, addedTime, releaseId, clusterIds) =>
      some ⟨id, path, name, trackNumber, discNumber, totalTrack, totalDisc, discSubtitle,
        durationMs, date, originalDate, trackGain, releaseGain, hasCover, copyright, copyrightUrl,
        recordingMbid, trackMbid, lastWriteTime, scanVersion, addedTime, releaseId, clusterIds⟩)
    fun _ => rfl

instance [Archived δ] : Archived (Named e δ) :=
  via (fun a => (a.id, a.name, a.mbid, a.detail))
    (fun (id, name, mbid, detail) => some ⟨id, name, mbid, detail⟩) fun _ => rfl

instance : Archived ClusterType :=
  via (fun c => (c.id, c.name)) (fun (id, name) => some ⟨id, name⟩) fun _ => rfl

instance : Archived Cluster :=
  via (fun c => (c.id, c.typeId, c.name)) (fun (id, typeId, name) => some ⟨id, typeId, name⟩)
    fun _ => rfl

def Role.toParts : Role → Nat × Option String
  | .artist => (0, none)
  | .releaseArtist => (1, none)
  | .conductor => (2, none)
  | .composer => (3, none)
  | .lyricist => (4, none)
  | .mixer => (5, none)
  | .performer part => (6, part)
  | .producer => (7, none)
  | .remixer => (8, none)

def Role.ofParts? : Nat × Option String → Option Role
  | (0, _) => some .artist
  | (1, _) => some .releaseArtist
  | (2, _) => some .conductor
  | (3, _) => some .composer
  | (4, _) => some .lyricist
  | (5, _) => some .mixer
  | (6, part) => some (.performer part)
  | (7, _) => some .producer
  | (8, _) => some .remixer
  | _ => none

instance : Archived Role := via Role.toParts Role.ofParts? fun r => by cases r <;> rfl

instance : Archived Credit :=
  via (fun c => (c.id, c.trackId, c.artistId, c.role))
    (fun (id, trackId, artistId, role) => some ⟨id, trackId, artistId, role⟩) fun _ => rfl

namespace Catalog

instance : Archived ScanSettings :=
  via (fun s => (s.scanVersion, s.logicVersion, s.clusterTypeNames))
    (fun (scanVersion, logicVersion, names) => some ⟨scanVersion, logicVersion, names⟩)
    fun _ => rfl

instance [Archived δ] : Archived (Registry e δ) :=
  via (fun r => (r.rows, r.byMbid, r.byName, r.next))
    (fun (rows, byMbid, byName, next) => some ⟨rows, byMbid, byName, next⟩) fun _ => rfl

instance : Archived State :=
  via
    (fun s => (s.tracks, s.trackByPath, s.tracksByRecording, s.tracksOfRelease, s.tracksOfCluster,
      s.features, s.nextTrack, s.artists, s.releases, s.clusterTypes, s.clusterTypeByName,
      s.nextClusterType, s.clusters, s.clusterByKey, s.nextCluster, s.credits, s.creditsOfTrack,
      s.creditsOfArtist, s.nextCredit, s.settings))
    (fun (tracks, trackByPath, tracksByRecording, tracksOfRelease, tracksOfCluster, features,
        nextTrack, artists, releases, clusterTypes, clusterTypeByName, nextClusterType, clusters,
        clusterByKey, nextCluster, credits, creditsOfTrack, creditsOfArtist, nextCredit,
        settings) =>
      some ⟨tracks, trackByPath, tracksByRecording, tracksOfRelease, tracksOfCluster, features,
        nextTrack, artists, releases, clusterTypes, clusterTypeByName, nextClusterType, clusters,
        clusterByKey, nextCluster, credits, creditsOfTrack, creditsOfArtist, nextCredit, settings⟩)
    fun _ => rfl

namespace File

def toNumbers (f : File) : List Nat := write f.version ++ write f.state

/-- The rows of a catalog are read under the current version only. -/
def ofNumbers? (ns : List Nat) : Option File := do
  let (version, ns) ← read? ns
  match (File.mk version {}).checkVersion with
  | .error _ => return ⟨version, {}⟩
  | .ok () =>
    let (state, _) ← read? ns
    return ⟨version, state⟩

theorem ofNumbers?_toNumbers {f : File} (h : f.checkVersion = .ok ()) :
    ofNumbers? f.toNumbers = some f := by
  have current : (File.mk f.version {}).checkVersion = .ok () := h
  have state := read?_write f.state []
  rw [List.append_nil] at state
  simp [ofNumbers?, toNumbers, read?_write, current, state]

def heading : List Char := "audio catalog".toList

def toText (f : File) : String :=
  String.ofList (heading ++ f.toNumbers.flatMap fun n => '\n' :: Nat.toDigits 10 n)

def ofText? (text : String) : Option File := do
  let lines := text.toList.splitOnP (· == '\n')
  guard (lines.head? = some heading)
  let numbers ← lines.tail.mapM fun line => Text.Digits.number? 10 line
  ofNumbers? numbers

end File

end Catalog

end AudioCatalog
