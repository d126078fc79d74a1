import AudioCatalog.Proofs.EntityChange

namespace AudioCatalog.Catalog

theorem mem_of_getElem?_eq_some {e : Entity} {ρ : Type} {rows : Table (EntityId e) ρ}
    {i : EntityId e} {row : ρ} (h : rows[i]? = some row) : i ∈ rows :=
  Std.ExtTreeMap.mem_iff_isSome_getElem?.mpr (by simp [h])

theorem exists_row_of_mem {e : Entity} {ρ : Type} {rows : Table (EntityId e) ρ}
    {i : EntityId e} (h : i ∈ rows) : ∃ row, rows[i]? = some row :=
  Option.isSome_iff_exists.mp (Std.ExtTreeMap.mem_iff_isSome_getElem?.mp h)

theorem mem_insert_of_mem {e : Entity} {ρ : Type} {rows : Table (EntityId e) ρ} {i j : EntityId e}
    {row : ρ} (h : i ∈ rows) : i ∈ rows.insert j row :=
  Std.ExtTreeMap.mem_insert.mpr (.inr h)

theorem eq_or_of_getElem?_insert {e : Entity} {ρ : Type} {rows : Table (EntityId e) ρ}
    {i j : EntityId e} {row other : ρ} (h : (rows.insert j row)[i]? = some other) :
    other = row ∨ rows[i]? = some other := by
  rw [Std.ExtTreeMap.getElem?_insert] at h
  split_ifs at h
  · exact .inl (Option.some.inj h).symm
  · exact .inr h

theorem Registry.mem_of_rows_eq {e : Entity} {δ : Type} {r r' : Registry e δ} {row : Named e δ}
    (h : r'.rows = r.rows.insert row.id row) :
    (∀ id ∈ r.rows, id ∈ r'.rows) ∧ row.id ∈ r'.rows := by
  rw [h]
  exact ⟨fun _ hid => mem_insert_of_mem hid, Std.ExtTreeMap.mem_insert_self⟩

namespace State

structure Gains (s t : State) : Prop where
  tracks : t.tracks = s.tracks
  trackByPath : t.trackByPath = s.trackByPath
  credits : t.credits = s.credits
  features : t.features = s.features
  settings : t.settings = s.settings
  artists : ∀ {id : ArtistId}, id ∈ s.artists.rows → id ∈ t.artists.rows
  releases : ∀ {id : ReleaseId}, id ∈ s.releases.rows → id ∈ t.releases.rows
  clusterTypes : ∀ {id : ClusterTypeId}, id ∈ s.clusterTypes → id ∈ t.clusterTypes
  clusters : ∀ {id : ClusterId}, id ∈ s.clusters → id ∈ t.clusters
  typed : ∀ {i : ClusterId} {cluster : Cluster}, t.clusters[i]? = some cluster →
    s.clusters[i]? = some cluster ∨ cluster.typeId ∈ t.clusterTypes

structure SameTypes (s t : State) : Prop where
  rows : t.clusterTypes = s.clusterTypes
  byName : t.clusterTypeByName = s.clusterTypeByName

variable {s t u : State}

theorem SameTypes.refl (s : State) : s.SameTypes s := ⟨rfl, rfl⟩

theorem SameTypes.trans (h : s.SameTypes t) (h' : t.SameTypes u) : s.SameTypes u :=
  ⟨h'.rows.trans h.rows, h'.byName.trans h.byName⟩

theorem SameTypes.findClusterTypeByName_eq (h : s.SameTypes t) (name : String) :
    t.findClusterTypeByName name = s.findClusterTypeByName name := by
  rw [findClusterTypeByName, h.rows, h.byName, findClusterTypeByName]

namespace Gains

theorem refl (s : State) : s.Gains s := ⟨rfl, rfl, rfl, rfl, rfl, id, id, id, id, .inl⟩

theorem trans (h : s.Gains t) (h' : t.Gains u) : s.Gains u where
  tracks := h'.tracks.trans h.tracks
  trackByPath := h'.trackByPath.trans h.trackByPath
  credits := h'.credits.trans h.credits
  features := h'.features.trans h.features
  settings := h'.settings.trans h.settings
  artists := fun hid => h'.artists (h.artists hid)
  releases := fun hid => h'.releases (h.releases hid)
  clusterTypes := fun hid => h'.clusterTypes (h.clusterTypes hid)
  clusters := fun hid => h'.clusters (h.clusters hid)
  typed := fun hrow => by
    rcases h'.typed hrow with hrow | htype
    · exact (h.typed hrow).imp id h'.clusterTypes
    · exact .inr htype

theorem sameFiles (h : s.Gains t) : s.SameFiles t :=
  ⟨fun _ => by rw [h.tracks], h.trackByPath, h.settings⟩

theorem withArtists {artists : Registry .artist (Option String)}
    (h : ∀ {id : ArtistId}, id ∈ s.artists.rows → id ∈ artists.rows) :
    s.Gains { s with artists } := { refl s with artists := h }

theorem withReleases {releases : Registry .release Unit}
    (h : ∀ {id : ReleaseId}, id ∈ s.releases.rows → id ∈ releases.rows) :
    s.Gains { s with releases } := { refl s with releases := h }

end Gains

open Session

theorem onArtists_gains {α : Type} {row : α → Artist}
    {f : Registry .artist (Option String) → Except Error (α × Registry .artist (Option String))}
    (hf : ∀ {a artists}, f s.artists = .ok (a, artists) →
      artists.rows = s.artists.rows.insert (row a).id (row a)) :
    Ends (onArtists f) s (fun a t => s.Gains t ∧ (row a).id ∈ t.artists.rows)
      fun _ t => t = s := by
  rw [onArtists_ends_iff]
  cases hresult : f s.artists with
  | error e => exact rfl
  | ok result =>
      obtain ⟨kept, there⟩ := Registry.mem_of_rows_eq (hf hresult)
      exact ⟨.withArtists (kept _), there⟩

theorem onReleases_gains {α : Type} {row : α → Release}
    {f : Registry .release Unit → Except Error (α × Registry .release Unit)}
    (hf : ∀ {a releases}, f s.releases = .ok (a, releases) →
      releases.rows = s.releases.rows.insert (row a).id (row a)) :
    Ends (onReleases f) s (fun a t => s.Gains t ∧ (row a).id ∈ t.releases.rows)
      fun _ t => t = s := by
  rw [onReleases_ends_iff]
  cases hresult : f s.releases with
  | error e => exact rfl
  | ok result =>
      obtain ⟨kept, there⟩ := Registry.mem_of_rows_eq (hf hresult)
      exact ⟨.withReleases (kept _), there⟩

theorem createArtist_gains (name : String) (sortName : Option String) (mbid : Option Mbid) :
    Ends (createArtist name sortName mbid) s
      (fun artist t => s.Gains t ∧ artist.id ∈ t.artists.rows) fun _ t => t = s :=
  onArtists_gains Registry.rows_of_create

theorem createRelease_gains (name : String) (mbid : Option Mbid) :
    Ends (createRelease name mbid) s
      (fun release t => s.Gains t ∧ release.id ∈ t.releases.rows) fun _ t => t = s :=
  onReleases_gains Registry.rows_of_create

theorem createClusterType_gains (name : String) :
    Ends (createClusterType name) s (fun _ => s.Gains) fun _ t => t = s := by
  unfold createClusterType
  rw [Ends.bind_iff, query_ends_iff]
  rcases s.findClusterTypeByName name with e | _ | other
  · exact rfl
  · exact { Gains.refl s with
      clusterTypes := mem_insert_of_mem
      typed := .inl }
  · exact rfl

theorem createCluster_writes (key : ClusterKey) :
    Ends (createCluster key) s
      (fun cluster t => cluster.id = ⟨s.nextCluster⟩ ∧ t = { s with
        nextCluster := s.nextCluster + 1
        clusters := s.clusters.insert cluster.id cluster
        clusterByKey := s.clusterByKey.insert key.text cluster.id }) fun _ t => t = s := by
  unfold createCluster
  rw [Ends.bind_iff, Ends.get_iff]
  cases s.findClusterType? key.typeId with
  | none => exact rfl
  | some clusterType =>
      simp only [Option.isNone_some, Bool.false_eq_true, if_false, Ends.bind_iff, query_ends_iff]
      rcases s.findClusterByKey key with e | _ | other
      · trivial
      · exact ⟨rfl, rfl⟩
      · trivial

theorem createCluster_gains (key : ClusterKey) :
    Ends (createCluster key) s
      (fun cluster t => s.Gains t ∧ s.SameTypes t ∧ cluster.id ∈ t.clusters ∧ cluster.key = key)
      fun _ t => t = s := by
  unfold createCluster
  rw [Ends.bind_iff, Ends.get_iff]
  cases htype : s.findClusterType? key.typeId with
  | none => exact rfl
  | some clusterType =>
      simp only [Option.isNone_some, Bool.false_eq_true, if_false, Ends.bind_iff, query_ends_iff]
      rcases s.findClusterByKey key with e | _ | other
      · trivial
      · refine ⟨{ Gains.refl s with
          clusters := mem_insert_of_mem
          typed := fun hrow => ?_ }, ⟨rfl, rfl⟩, Std.ExtTreeMap.mem_insert_self, rfl⟩
        rcases eq_or_of_getElem?_insert hrow with rfl | hrow
        · exact .inr (mem_of_getElem?_eq_some htype)
        · exact .inl hrow
      · trivial

namespace Coherent

variable (h : s.Coherent)
include h

theorem updateArtist_gains (artist : Artist) :
    Ends (updateArtist artist) s (fun _ t => s.Gains t ∧ artist.id ∈ t.artists.rows)
      fun _ t => t = s :=
  onArtists_gains h.artists.rows_of_update

theorem updateRelease_gains (release : Release) :
    Ends (updateRelease release) s (fun _ t => s.Gains t ∧ release.id ∈ t.releases.rows)
      fun _ t => t = s :=
  onReleases_gains h.releases.rows_of_update

end Coherent

end State

end AudioCatalog.Catalog
