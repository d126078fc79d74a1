import AudioCatalog.Proofs.Computation
import AudioCatalog.Proofs.Registry

namespace AudioCatalog

/-- The track apart from its links to other entities. -/
def Track.unlinked (track : Track) : Track := { track with releaseId := none, clusterIds := ∅ }

namespace Catalog.State

/-- A path leads to a track that has it. Not every track need be found by its path, since a track
can be moved to a path that another one has. -/
structure TracksCoherent (s : State) : Prop where
  numbered : Numbered s.tracks Track.id s.nextTrack
  byPath : ∀ {path : String} {i : TrackId}, s.trackByPath[path]? = some i →
    ∃ track, s.tracks[i]? = some track ∧ track.path = path
  byRecording : Matches s.tracksByRecording.contains s.tracks fun track mbid =>
    track.recordingMbid = some mbid
  ofRelease : Matches s.tracksOfRelease.contains s.tracks fun track release =>
    track.releaseId = some release
  ofCluster : Matches s.tracksOfCluster.contains s.tracks fun track cluster =>
    cluster ∈ track.clusterIds

structure CreditsCoherent (s : State) : Prop where
  numbered : Numbered s.credits Credit.id s.nextCredit
  ofTrack : Matches s.creditsOfTrack.contains s.credits fun credit track => credit.trackId = track
  ofArtist : Matches s.creditsOfArtist.contains s.credits fun credit artist =>
    credit.artistId = artist

structure ClustersCoherent (s : State) : Prop where
  typesNumbered : Numbered s.clusterTypes ClusterType.id s.nextClusterType
  typeByName : Matches (fun name i => s.clusterTypeByName[name]? = some i) s.clusterTypes
    fun clusterType name => clusterType.name = name
  numbered : Numbered s.clusters Cluster.id s.nextCluster
  byKey : Matches (fun text i => s.clusterByKey[text]? = some i) s.clusters fun cluster text =>
    cluster.key.text = text

structure Coherent (s : State) : Prop where
  tracks : s.TracksCoherent
  credits : s.CreditsCoherent
  clusters : s.ClustersCoherent
  artists : s.artists.Coherent
  releases : s.releases.Coherent

theorem coherent_empty : ({} : State).Coherent where
  tracks := ⟨.empty, by simp, fun _ _ => by simp [Relation.not_contains_empty],
    fun _ _ => by simp [Relation.not_contains_empty],
    fun _ _ => by simp [Relation.not_contains_empty]⟩
  credits := ⟨.empty, fun _ _ => by simp [Relation.not_contains_empty],
    fun _ _ => by simp [Relation.not_contains_empty]⟩
  clusters := ⟨.empty, fun _ _ => by simp, .empty, fun _ _ => by simp⟩
  artists := Registry.coherent_empty
  releases := Registry.coherent_empty

variable {s : State}

theorem indexed?_cases {e : Entity} {ρ : Type} {rows : Table (EntityId e) ρ}
    {o : Option (EntityId e)} (h : ∀ i, o = some i → ∃ row, rows[i]? = some row) :
    (∃ i row, o = some i ∧ rows[i]? = some row ∧ indexed? rows o = .ok (some row)) ∨
      (o = none ∧ indexed? rows o = .ok none) := by
  cases o with
  | none => exact .inr ⟨rfl, rfl⟩
  | some i =>
      obtain ⟨row, hrow⟩ := h i rfl
      exact .inl ⟨i, row, rfl, hrow, by simp [indexed?, indexed, hrow, Except.map]⟩

namespace Coherent

variable (h : s.Coherent)
include h

theorem findTrackByPath_cases (path : String) :
    (∃ track, s.trackByPath[path]? = some track.id ∧ s.tracks[track.id]? = some track ∧
      track.path = path ∧ s.findTrackByPath path = .ok (some track)) ∨
    (s.trackByPath[path]? = none ∧ s.findTrackByPath path = .ok none) := by
  rcases indexed?_cases (o := s.trackByPath[path]?)
      (fun i hi => (h.tracks.byPath hi).imp fun _ => And.left) with
    ⟨i, track, hi, hrow, hfind⟩ | ⟨hnone, hfind⟩
  · obtain ⟨_, hrow', hpath⟩ := h.tracks.byPath hi
    rw [hrow] at hrow'
    cases hrow'
    have hid := h.tracks.numbered.id_eq hrow
    exact .inl ⟨track, by rw [hid, hi], by rw [hid, hrow], hpath, hfind⟩
  · exact .inr ⟨hnone, hfind⟩

theorem findClusterTypeByName_cases (name : String) :
    (∃ clusterType, s.clusterTypes[clusterType.id]? = some clusterType ∧
      clusterType.name = name ∧ s.findClusterTypeByName name = .ok (some clusterType)) ∨
    ((∀ (i : ClusterTypeId) (clusterType : ClusterType), s.clusterTypes[i]? = some clusterType →
      clusterType.name ≠ name) ∧ s.findClusterTypeByName name = .ok none) := by
  have entry := h.clusters.typeByName name
  rcases indexed?_cases (o := s.clusterTypeByName[name]?)
      (fun i hi => ((entry i).mp hi).imp fun _ => And.left) with
    ⟨i, clusterType, hi, hrow, hfind⟩ | ⟨hnone, hfind⟩
  · have hname := (h.clusters.typeByName.iff_of_row hrow name).mp hi
    exact .inl ⟨clusterType, by rwa [h.clusters.typesNumbered.id_eq hrow], hname, hfind⟩
  · refine .inr ⟨fun i clusterType hrow hname => ?_, hfind⟩
    have := (entry i).mpr ⟨clusterType, hrow, hname⟩
    simp [hnone] at this

theorem findClusterByKey_cases (key : ClusterKey) :
    (∃ cluster, s.clusters[cluster.id]? = some cluster ∧ cluster.key = key ∧
      s.findClusterByKey key = .ok (some cluster)) ∨
    ((∀ (i : ClusterId) (cluster : Cluster), s.clusters[i]? = some cluster → cluster.key ≠ key) ∧
      s.findClusterByKey key = .ok none) := by
  have entry := h.clusters.byKey key.text
  rcases indexed?_cases (o := s.clusterByKey[key.text]?)
      (fun i hi => ((entry i).mp hi).imp fun _ => And.left) with
    ⟨i, cluster, hi, hrow, hfind⟩ | ⟨hnone, hfind⟩
  · have htext := (h.clusters.byKey.iff_of_row hrow key.text).mp hi
    exact .inl ⟨cluster, by rwa [h.clusters.numbered.id_eq hrow], ClusterKey.text_inj htext, hfind⟩
  · refine .inr ⟨fun i cluster hrow hkey => ?_, hfind⟩
    have := (entry i).mpr ⟨cluster, hrow, congrArg ClusterKey.text hkey⟩
    simp [hnone] at this

end Coherent

structure SameFiles (s t : State) : Prop where
  tracks : ∀ i : TrackId, t.tracks[i]?.map Track.unlinked = s.tracks[i]?.map Track.unlinked
  trackByPath : t.trackByPath = s.trackByPath
  settings : t.settings = s.settings

namespace SameFiles

variable {t u : State}

theorem refl (s : State) : s.SameFiles s := ⟨fun _ => rfl, rfl, rfl⟩

theorem trans (h : s.SameFiles t) (h' : t.SameFiles u) : s.SameFiles u :=
  ⟨fun i => (h'.tracks i).trans (h.tracks i), h'.trackByPath.trans h.trackByPath,
    h'.settings.trans h.settings⟩

end SameFiles

end Catalog.State

end AudioCatalog
