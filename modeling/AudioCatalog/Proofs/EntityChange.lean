import AudioCatalog.Proofs.TrackChange

namespace AudioCatalog.Catalog

namespace Session

variable {s : State}

theorem onArtists_ends_iff {α : Type}
    {f : Registry .artist (Option String) → Except Error (α × Registry .artist (Option String))}
    {ok : α → State → Prop} {error : Error → State → Prop} :
    Ends (onArtists f) s ok error ↔
      match f s.artists with
      | .ok (a, artists) => ok a { s with artists }
      | .error e => error e s := by
  rw [onArtists, Ends.bind_iff, query_ends_iff]
  cases f s.artists <;> rfl

theorem onReleases_ends_iff {α : Type}
    {f : Registry .release Unit → Except Error (α × Registry .release Unit)}
    {ok : α → State → Prop} {error : Error → State → Prop} :
    Ends (onReleases f) s ok error ↔
      match f s.releases with
      | .ok (a, releases) => ok a { s with releases }
      | .error e => error e s := by
  rw [onReleases, Ends.bind_iff, query_ends_iff]
  cases f s.releases <;> rfl

end Session

namespace State

open Session

variable {s : State}

namespace Coherent

variable (h : s.Coherent)
include h

theorem withArtists {artists : Registry .artist (Option String)} (hartists : artists.Coherent) :
    ({ s with artists } : State).Coherent :=
  ⟨{ h.tracks with }, { h.credits with }, { h.clusters with }, hartists, h.releases⟩

theorem withReleases {releases : Registry .release Unit} (hreleases : releases.Coherent) :
    ({ s with releases } : State).Coherent :=
  ⟨{ h.tracks with }, { h.credits with }, { h.clusters with }, h.artists, hreleases⟩

theorem withFeatures (features : Table TrackId (List UInt8)) :
    ({ s with features } : State).Coherent :=
  ⟨{ h.tracks with }, { h.credits with }, { h.clusters with }, h.artists, h.releases⟩

theorem withSettings (settings : ScanSettings) : ({ s with settings } : State).Coherent :=
  ⟨{ h.tracks with }, { h.credits with }, { h.clusters with }, h.artists, h.releases⟩

theorem onArtists_ends {α : Type} {refused : Prop}
    {f : Registry .artist (Option String) → Except Error (α × Registry .artist (Option String))}
    (hf : Registry.Yields (f s.artists) refused) :
    Ends (onArtists f) s (fun _ t => t.Coherent ∧ s.SameFiles t) fun _ t => t = s ∧ refused := by
  rw [onArtists_ends_iff]
  cases hresult : f s.artists with
  | error e =>
      rw [hresult] at hf
      exact ⟨rfl, hf⟩
  | ok result =>
      rw [hresult] at hf
      exact ⟨h.withArtists hf, ⟨fun _ => rfl, rfl, rfl⟩⟩

theorem onReleases_ends {α : Type} {refused : Prop}
    {f : Registry .release Unit → Except Error (α × Registry .release Unit)}
    (hf : Registry.Yields (f s.releases) refused) :
    Ends (onReleases f) s (fun _ t => t.Coherent ∧ s.SameFiles t) fun _ t => t = s ∧ refused := by
  rw [onReleases_ends_iff]
  cases hresult : f s.releases with
  | error e =>
      rw [hresult] at hf
      exact ⟨rfl, hf⟩
  | ok result =>
      rw [hresult] at hf
      exact ⟨h.withReleases hf, ⟨fun _ => rfl, rfl, rfl⟩⟩

theorem createArtist_ends (name : String) (sortName : Option String) (mbid : Option Mbid) :
    Ends (createArtist name sortName mbid) s (fun _ t => t.Coherent ∧ s.SameFiles t)
      fun _ t => t = s ∧ ∃ m other, mbid = some m ∧ s.artists.findByMbid m = .ok (some other) :=
  h.onArtists_ends (h.artists.create_yields name mbid sortName)

theorem createRelease_ends (name : String) (mbid : Option Mbid) :
    Ends (createRelease name mbid) s (fun _ t => t.Coherent ∧ s.SameFiles t)
      fun _ t => t = s ∧ ∃ m other, mbid = some m ∧ s.releases.findByMbid m = .ok (some other) :=
  h.onReleases_ends (h.releases.create_yields name mbid ())

theorem updateArtist_ends (artist : Artist) :
    Ends (updateArtist artist) s (fun _ t => t.Coherent ∧ s.SameFiles t)
      fun _ t => t = s ∧ ∀ previous, s.artists.rows[artist.id]? = some previous →
        ∃ (m : Mbid) (other : Artist), artist.mbid = some m ∧
          s.artists.rows[other.id]? = some other ∧ other.mbid = some m ∧ other.id ≠ artist.id :=
  h.onArtists_ends (h.artists.update_yields artist)

theorem updateRelease_ends (release : Release) :
    Ends (updateRelease release) s (fun _ t => t.Coherent ∧ s.SameFiles t)
      fun _ t => t = s ∧ ∀ previous, s.releases.rows[release.id]? = some previous →
        ∃ (m : Mbid) (other : Release), release.mbid = some m ∧
          s.releases.rows[other.id]? = some other ∧ other.mbid = some m ∧ other.id ≠ release.id :=
  h.onReleases_ends (h.releases.update_yields release)

theorem withoutCreditsOf (id : TrackId) : (s.withoutCreditsOf id).Coherent where
  tracks := { h.tracks with }
  credits := h.credits.withoutCreditsOf id
  clusters := { h.clusters with }
  artists := h.artists
  releases := h.releases

theorem withoutCreditsTo (id : ArtistId) : (s.withoutCreditsTo id).Coherent where
  tracks := { h.tracks with }
  credits := h.credits.withoutCreditsTo id
  clusters := { h.clusters with }
  artists := h.artists
  releases := h.releases

theorem withCredit {credit : Credit} (hid : credit.id = ⟨s.nextCredit⟩) :
    (s.withCredit credit).Coherent where
  tracks := { h.tracks with }
  credits := h.credits.withCredit hid
  clusters := { h.clusters with }
  artists := h.artists
  releases := h.releases

theorem removeArtist_succeeds (id : ArtistId) :
    Succeeds (removeArtist id) s fun _ t => t.Coherent ∧ s.SameFiles t := by
  unfold removeArtist Succeeds
  rw [Ends.bind_iff, Ends.get_iff]
  cases hrow : s.artists.find? id with
  | none => exact ⟨h, .refl s⟩
  | some artist =>
      have hid : artist.id = id := h.artists.numbered.id_eq hrow
      have hartist : s.artists.rows[artist.id]? = some artist := by rw [hid]; exact hrow
      exact ⟨(h.withoutCreditsTo id).withArtists (h.artists.erase hartist),
        ⟨fun _ => rfl, rfl, rfl⟩⟩

theorem changeTracks_succeeds {ids : List TrackId} {change : Track → Track}
    (hchange : ∀ track, (change track).unlinked = track.unlinked) :
    Succeeds (changeTracks ids change) s fun _ t =>
      t.Coherent ∧ s.SameFiles t ∧ t.releases = s.releases ∧ t.clusters = s.clusters := by
  have hid (track : Track) : (change track).id = track.id := by
    have := congrArg Track.id (hchange track)
    exact this
  have hpath (track : Track) : (change track).path = track.path := by
    have := congrArg Track.path (hchange track)
    exact this
  refine Ends.forM (fun id _ t ⟨ht, hfiles, hreleases, hclusters⟩ => ?_)
    ⟨h, .refl s, rfl, rfl⟩
  rw [Ends.bind_iff, Ends.get_iff]
  cases hrow : t.findTrack? id with
  | none => exact ⟨ht, hfiles, hreleases, hclusters⟩
  | some track =>
      have hown : t.tracks[(change track).id]? = some track := by
        rw [hid, ht.tracks.numbered.id_eq hrow]
        exact hrow
      rw [updateTrack_ends_iff, hown]
      refine ⟨ht.withTrack hown, hfiles.trans ⟨fun i => ?_, ?_, rfl⟩, hreleases, hclusters⟩
      · rw [State.withTrack, Std.ExtTreeMap.getElem?_insert]
        split_ifs with he
        · rw [← Std.LawfulEqOrd.eq_of_compare he, hown]
          exact congrArg some (hchange track)
        · rfl
      · rw [State.withTrack, if_pos (hpath track).symm]

theorem removeRelease_succeeds (id : ReleaseId) :
    Succeeds (removeRelease id) s fun _ t => t.Coherent ∧ s.SameFiles t := by
  unfold removeRelease Succeeds
  rw [Ends.bind_iff, Ends.get_iff]
  cases hrow : s.releases.find? id with
  | none => exact ⟨h, .refl s⟩
  | some release =>
      have hid : release.id = id := h.releases.numbered.id_eq hrow
      rw [Ends.bind_iff, Ends.get_iff]
      refine Ends.bind (h.changeTracks_succeeds ?_) fun _ t ⟨ht, hfiles, hreleases, _⟩ => ?_
      · exact fun _ => rfl
      have hrelease : t.releases.rows[release.id]? = some release := by
        rw [hreleases, hid]
        exact hrow
      exact ⟨ht.withReleases (ht.releases.erase hrelease), hfiles.trans ⟨fun _ => rfl, rfl, rfl⟩⟩

theorem withoutCluster {cluster : Cluster} (hrow : s.clusters[cluster.id]? = some cluster) :
    ({ s with
      clusterByKey := s.clusterByKey.erase cluster.key.text
      clusters := s.clusters.erase cluster.id } : State).Coherent where
  tracks := { h.tracks with }
  credits := { h.credits with }
  artists := h.artists
  releases := h.releases
  clusters := by
    have rows (i : ClusterId) (other : Cluster) : (s.clusters.erase cluster.id)[i]? = some other ↔
        s.clusters[i]? = some other ∧ i ≠ cluster.id := getElem?_erase_eq_some
    refine ⟨h.clusters.typesNumbered, h.clusters.typeByName,
      h.clusters.numbered.of_subset fun i other hi => ((rows i other).mp hi).1,
      h.clusters.byKey.restrict rows fun text i => ?_⟩
    have own := h.clusters.byKey.iff_of_row hrow text
    rw [Std.ExtTreeMap.getElem?_erase]
    grind [Std.compare_eq_iff_eq]

theorem removeCluster_succeeds (id : ClusterId) :
    Succeeds (removeCluster id) s fun _ t => t.Coherent ∧ s.SameFiles t := by
  unfold removeCluster Succeeds
  rw [Ends.bind_iff, Ends.get_iff]
  cases hrow : s.findCluster? id with
  | none => exact ⟨h, .refl s⟩
  | some cluster =>
      have hid : cluster.id = id := h.clusters.numbered.id_eq hrow
      rw [Ends.bind_iff, Ends.get_iff]
      refine Ends.bind (h.changeTracks_succeeds ?_) fun _ t ⟨ht, hfiles, _, hclusters⟩ => ?_
      · exact fun _ => rfl
      have hcluster : t.clusters[cluster.id]? = some cluster := by
        rw [hclusters, hid]
        exact hrow
      subst hid
      exact ⟨ht.withoutCluster hcluster, hfiles.trans ⟨fun _ => rfl, rfl, rfl⟩⟩

theorem withClusterType (clusterType : ClusterType) (hid : clusterType.id = ⟨s.nextClusterType⟩)
    (hfree : ∀ (i : ClusterTypeId) (other : ClusterType), s.clusterTypes[i]? = some other →
      other.name ≠ clusterType.name) :
    ({ s with
      nextClusterType := s.nextClusterType + 1
      clusterTypes := s.clusterTypes.insert clusterType.id clusterType
      clusterTypeByName := s.clusterTypeByName.insert clusterType.name clusterType.id } :
        State).Coherent where
  tracks := { h.tracks with }
  credits := { h.credits with }
  artists := h.artists
  releases := h.releases
  clusters := by
    have fresh : s.clusterTypes[clusterType.id]? = none :=
      hid ▸ h.clusters.typesNumbered.getElem?_next
    refine ⟨?_, ?_, h.clusters.numbered, h.clusters.byKey⟩
    · simpa only [hid] using h.clusters.typesNumbered.insert_next hid
    · refine h.clusters.typeByName.insert (fun name => ?_) fun name i hi => ?_
      · have := h.clusters.typeByName.not_entry fresh name
        grind [Std.compare_eq_iff_eq]
      · have := h.clusters.typeByName name i
        grind [Std.compare_eq_iff_eq]

theorem withCluster (cluster : Cluster) (hid : cluster.id = ⟨s.nextCluster⟩)
    (hfree : ∀ (i : ClusterId) (other : Cluster), s.clusters[i]? = some other →
      other.key ≠ cluster.key) :
    ({ s with
      nextCluster := s.nextCluster + 1
      clusters := s.clusters.insert cluster.id cluster
      clusterByKey := s.clusterByKey.insert cluster.key.text cluster.id } : State).Coherent where
  tracks := { h.tracks with }
  credits := { h.credits with }
  artists := h.artists
  releases := h.releases
  clusters := by
    have fresh : s.clusters[cluster.id]? = none := hid ▸ h.clusters.numbered.getElem?_next
    refine ⟨h.clusters.typesNumbered, h.clusters.typeByName, ?_, ?_⟩
    · simpa only [hid] using h.clusters.numbered.insert_next hid
    · refine h.clusters.byKey.insert (fun text => ?_) fun text i hi => ?_
      · have := h.clusters.byKey.not_entry fresh text
        grind [Std.compare_eq_iff_eq]
      · have := h.clusters.byKey text i
        have := @ClusterKey.text_inj
        grind [Std.compare_eq_iff_eq]

theorem createClusterType_ends (name : String) :
    Ends (createClusterType name) s (fun _ t => t.Coherent ∧ s.SameFiles t)
      fun _ t => t = s ∧ ∃ other, s.findClusterTypeByName name = .ok (some other) := by
  unfold createClusterType
  rw [Ends.bind_iff, query_ends_iff]
  rcases h.findClusterTypeByName_cases name with ⟨other, -, -, hfind⟩ | ⟨hfree, hfind⟩
  · rw [hfind]
    exact ⟨rfl, other, rfl⟩
  · rw [hfind]
    exact ⟨h.withClusterType ⟨⟨s.nextClusterType⟩, name⟩ rfl hfree, ⟨fun _ => rfl, rfl, rfl⟩⟩

theorem createCluster_ends (key : ClusterKey) :
    Ends (createCluster key) s (fun _ t => t.Coherent ∧ s.SameFiles t)
      fun _ t => t = s ∧ (s.clusterTypes[key.typeId]? = none ∨
        ∃ other, s.findClusterByKey key = .ok (some other)) := by
  unfold createCluster
  rw [Ends.bind_iff, Ends.get_iff]
  cases htype : s.findClusterType? key.typeId with
  | none => exact ⟨rfl, .inl htype⟩
  | some clusterType =>
      simp only [Option.isNone_some, Bool.false_eq_true, if_false, Ends.bind_iff,
        query_ends_iff]
      rcases h.findClusterByKey_cases key with ⟨other, -, -, hfind⟩ | ⟨hfree, hfind⟩
      · rw [hfind]
        exact ⟨rfl, .inr ⟨other, rfl⟩⟩
      · rw [hfind]
        exact ⟨h.withCluster ⟨⟨s.nextCluster⟩, key.typeId, key.name⟩ rfl hfree,
          ⟨fun _ => rfl, rfl, rfl⟩⟩

end Coherent

end State

end AudioCatalog.Catalog
