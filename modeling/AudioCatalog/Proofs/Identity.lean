import AudioCatalog.Catalog.Identity
import AudioCatalog.Proofs.Growth

namespace AudioCatalog.Catalog.Session

open Tag

variable {α β : Type} {s : State}

def Settles (x : Session α) : Prop :=
  ∀ s : State, s.Coherent → Succeeds x s fun _ t => t.Coherent ∧ s.SameFiles t

namespace Settles

theorem pure (a : α) : Settles (Pure.pure a) := fun s h => ⟨h, .refl s⟩

theorem bind {x : Session α} {f : α → Session β} (hx : Settles x) (hf : ∀ a, Settles (f a)) :
    Settles (x >>= f) := fun s h =>
  Ends.bind (hx s h) fun a t ⟨ht, hfiles⟩ =>
    (hf a t ht).imp (fun _ _ hu => ⟨hu.1, hfiles.trans hu.2⟩) fun _ _ => id

variable {l : List α}

theorem forM {f : α → Session PUnit} (hf : ∀ a ∈ l, Settles (f a)) : Settles (l.forM f) := by
  induction l with
  | nil => exact pure PUnit.unit
  | cons a l ih => exact (hf a (by simp)).bind fun _ => ih fun b hb => hf b (by simp [hb])

end Settles

theorem clearCredits_settles (id : TrackId) : Settles (clearCredits id) := fun _ h =>
  ⟨h.withoutCreditsOf id, fun _ => rfl, rfl, rfl⟩

theorem addCredit_settles (trackId : TrackId) (artistId : ArtistId) (role : Role) :
    Settles (addCredit trackId artistId role) := fun _ h =>
  ⟨h.withCredit rfl, fun _ => rfl, rfl, rfl⟩

theorem removeFeatures_settles (id : TrackId) : Settles (removeFeatures id) := fun s h =>
  ⟨h.withFeatures (s.features.erase id), fun _ => rfl, rfl, rfl⟩

/-- Where the indexes agree with the rows, the work succeeds, they agree after it, nothing has gone
away, and what the work gives is there. -/
def Finds (there : α → State → Prop) (x : Session α) : Prop :=
  ∀ s : State, s.Coherent → Succeeds x s fun a t => t.Coherent ∧ s.Gains t ∧ there a t

theorem Finds.settles {there : α → State → Prop} {x : Session α} (h : Finds there x) :
    Settles x := fun s hs =>
  (h s hs).imp (fun _ _ ht => ⟨ht.1, ht.2.1.sameFiles⟩) fun _ _ => id

def HasArtist (artist : Artist) (s : State) : Prop := artist.id ∈ s.artists.rows

def HasRelease (release : Release) (s : State) : Prop := release.id ∈ s.releases.rows

theorem createArtist_finds {mbid : Option Mbid} (h : s.Coherent)
    (hfree : ∀ m, mbid = some m → s.artists.findByMbid m = .ok none) (name : String)
    (sortName : Option String) :
    Succeeds (createArtist name sortName mbid) s fun artist t =>
      t.Coherent ∧ s.Gains t ∧ HasArtist artist t := by
  refine ((h.createArtist_ends name sortName mbid).and
    (State.createArtist_gains name sortName mbid)).imp (fun _ _ ht => ⟨ht.1.1, ht.2⟩) ?_
  rintro _ _ ⟨⟨_, m, other, hm, hother⟩, -⟩
  rw [hfree m hm] at hother
  cases hother

theorem createRelease_finds {mbid : Option Mbid} (h : s.Coherent)
    (hfree : ∀ m, mbid = some m → s.releases.findByMbid m = .ok none) (name : String) :
    Succeeds (createRelease name mbid) s fun release t =>
      t.Coherent ∧ s.Gains t ∧ HasRelease release t := by
  refine ((h.createRelease_ends name mbid).and (State.createRelease_gains name mbid)).imp
    (fun _ _ ht => ⟨ht.1.1, ht.2⟩) ?_
  rintro _ _ ⟨⟨_, m, other, hm, hother⟩, -⟩
  rw [hfree m hm] at hother
  cases hother

/-- An artist that keeps its identifier is never refused. -/
theorem refreshArtist_finds (h : s.Coherent) {artist : Artist}
    (hrow : s.artists.rows[artist.id]? = some artist) (info : ArtistInfo) :
    Succeeds (refreshArtist artist info) s fun artist t =>
      t.Coherent ∧ s.Gains t ∧ HasArtist artist t := by
  have update : Succeeds (updateArtist (refreshed artist info)) s fun _ t =>
      t.Coherent ∧ s.Gains t ∧ HasArtist artist t := by
    refine ((h.updateArtist_ends (refreshed artist info)).and
      (h.updateArtist_gains (refreshed artist info))).imp (fun _ _ ht => ⟨ht.1.1, ht.2⟩) ?_
    rintro _ _ ⟨⟨_, herror⟩, -⟩
    obtain ⟨m, other, hm, hother, hmbid, hne⟩ := herror artist hrow
    exact hne (h.artists.eq_of_mbid hother hrow hmbid hm)
  unfold refreshArtist Succeeds
  dsimp only
  split_ifs
  · exact Ends.bind_iff.mpr update
  · exact ⟨h, .refl s, mem_of_getElem?_eq_some hrow⟩

theorem resolveTagged_finds (info : ArtistInfo) (mbid : Mbid) :
    Finds HasArtist (resolveTagged info mbid) := by
  intro s h
  unfold resolveTagged Succeeds
  rw [Ends.bind_iff, query_ends_iff]
  rcases h.artists.findByMbid_cases mbid with ⟨artist, hrow, -, hfind⟩ | ⟨-, hfind⟩
  · rw [hfind]
    exact refreshArtist_finds h hrow info
  · rw [hfind]
    refine createArtist_finds h ?_ info.name info.sortName
    rintro m ⟨⟩
    exact hfind

theorem resolveNamed_finds (info : ArtistInfo) (borrows : Bool) :
    Finds HasArtist (resolveNamed info borrows) := by
  intro s h
  obtain ⟨namesakes, hfound, -, hrows⟩ := h.artists.findByName_ok info.name
  unfold resolveNamed Succeeds
  rw [Ends.bind_iff, query_ends_iff, hfound]
  dsimp only
  cases hfind : namesakes.find? fun artist => borrows || artist.mbid.isNone with
  | none => exact createArtist_finds h (by simp) info.name info.sortName
  | some artist =>
      have hrow := ((hrows artist).mp (List.mem_of_find?_eq_some hfind)).1
      exact refreshArtist_finds h hrow info

theorem resolveArtist?_finds (info : ArtistInfo) (borrows : Bool) :
    Finds (fun found t => ∀ artist ∈ found, HasArtist artist t)
      (resolveArtist? info borrows) := by
  intro s h
  have one {x : Session Artist} (hx : Finds HasArtist x) :
      Succeeds (do return some (← x)) s fun found t =>
        t.Coherent ∧ s.Gains t ∧ ∀ artist ∈ found, HasArtist artist t := by
    refine Ends.bind (hx s h) fun artist t ht => ⟨ht.1, ht.2.1, ?_⟩
    simpa using ht.2.2
  unfold resolveArtist?
  split
  · exact one (resolveTagged_finds info _)
  · split_ifs
    · exact ⟨h, .refl s, by simp⟩
    · exact one (resolveNamed_finds info borrows)

theorem resolveArtists_finds (infos : List ArtistInfo) (borrows : Bool) :
    Finds (fun artists t => ∀ artist ∈ artists, HasArtist artist t)
      (resolveArtists infos borrows) := by
  intro s h
  refine Ends.filterMapM (fun info _ artists t ⟨ht, gains, there⟩ => ?_) ⟨h, .refl s, by simp⟩
  refine (resolveArtist?_finds info borrows t ht).imp ?_ fun _ _ => id
  rintro found u ⟨hu, gains', there'⟩
  refine ⟨hu, gains.trans gains', List.forall_mem_append.mpr ⟨fun artist hartist => ?_, ?_⟩⟩
  · exact gains'.artists (there artist hartist)
  · simpa using there'

theorem resolveArtists_settles (infos : List ArtistInfo) (borrows : Bool) :
    Settles (resolveArtists infos borrows) :=
  (resolveArtists_finds infos borrows).settles

theorem renameRelease_finds (h : s.Coherent) {release : Release}
    (hrow : s.releases.rows[release.id]? = some release) (name : String) :
    Succeeds (renameRelease release name) s fun release t =>
      t.Coherent ∧ s.Gains t ∧ HasRelease release t := by
  unfold renameRelease Succeeds
  split_ifs
  · exact ⟨h, .refl s, mem_of_getElem?_eq_some hrow⟩
  · refine Ends.bind_iff.mpr (((h.updateRelease_ends { release with name }).and
      (h.updateRelease_gains { release with name })).imp (fun _ _ ht => ⟨ht.1.1, ht.2⟩) ?_)
    rintro _ _ ⟨⟨_, herror⟩, -⟩
    obtain ⟨m, other, hm, hother, hmbid, hne⟩ := herror release hrow
    exact hne (h.releases.eq_of_mbid hother hrow hmbid hm)

theorem resolveRelease_finds (album : AlbumInfo) :
    Finds (fun found t => ∀ release ∈ found, HasRelease release t) (resolveRelease album) := by
  intro s h
  have one {x : Session Release} (hx : Succeeds x s fun release t =>
      t.Coherent ∧ s.Gains t ∧ HasRelease release t) :
      Succeeds (do return some (← x)) s fun found t =>
        t.Coherent ∧ s.Gains t ∧ ∀ release ∈ found, HasRelease release t := by
    refine Ends.bind hx fun release t ht => ⟨ht.1, ht.2.1, ?_⟩
    simpa using ht.2.2
  unfold resolveRelease Succeeds
  split
  · rename_i mbid _
    rw [Ends.bind_iff, query_ends_iff]
    rcases h.releases.findByMbid_cases mbid with ⟨release, hrow, -, hfind⟩ | ⟨-, hfind⟩
    · rw [hfind]
      exact one (renameRelease_finds h hrow album.name)
    · rw [hfind]
      refine one (createRelease_finds h ?_ album.name)
      rintro m ⟨⟩
      exact hfind
  · split_ifs
    · exact ⟨h, .refl s, by simp⟩
    · obtain ⟨namesakes, hfound, -, hrows⟩ := h.releases.findByName_ok album.name
      rw [Ends.bind_iff, query_ends_iff, hfound]
      dsimp only
      cases hfind : namesakes.find? fun release => release.mbid.isNone with
      | none => exact one (createRelease_finds h (by simp) album.name)
      | some release =>
          have hrow := ((hrows release).mp (List.mem_of_find?_eq_some hfind)).1
          refine ⟨h, .refl s, fun _ hfound => ?_⟩
          rw [← Option.mem_some.mp hfound]
          exact mem_of_getElem?_eq_some hrow

theorem resolveRelease_settles (album : AlbumInfo) : Settles (resolveRelease album) :=
  (resolveRelease_finds album).settles

/-- Clusters of these keys, in order, are there in `t`, and nothing has gone away. Only clusters that
were asked for are new, and nothing has changed where all of them were there. -/
structure Provided (s : State) (keys : List ClusterKey) (clusters : List Cluster) (t : State) :
    Prop where
  coherent : t.Coherent
  gains : s.Gains t
  sameTypes : s.SameTypes t
  rows : ∀ cluster ∈ clusters, t.clusters[cluster.id]? = some cluster
  map_key : clusters.map Cluster.key = keys
  kept : ∀ {i : ClusterId} {cluster : Cluster}, s.clusters[i]? = some cluster →
    t.clusters[i]? = some cluster
  known : ∀ {i : ClusterId} {cluster : Cluster}, t.clusters[i]? = some cluster →
    s.clusters[i]? = some cluster ∨ cluster.key ∈ keys
  still : (∀ key ∈ keys, ∃ (i : ClusterId) (cluster : Cluster), s.clusters[i]? = some cluster ∧
    cluster.key = key) → t = s
  others : t = { s with
    clusters := t.clusters, clusterByKey := t.clusterByKey, nextCluster := t.nextCluster }

namespace Provided

theorem there {t : State} {keys : List ClusterKey} {clusters : List Cluster}
    (h : Provided s keys clusters t) : ∀ cluster ∈ clusters, cluster.id ∈ t.clusters :=
  fun cluster hcluster => mem_of_getElem?_eq_some (h.rows cluster hcluster)

theorem nil (h : s.Coherent) : Provided s [] [] s :=
  ⟨h, .refl s, .refl s, by simp, rfl, id, .inl, fun _ => rfl, rfl⟩

theorem append {t u : State} {keys keys' : List ClusterKey}
    {clusters clusters' : List Cluster} (h : Provided s keys clusters t)
    (h' : Provided t keys' clusters' u) :
    Provided s (keys ++ keys') (clusters ++ clusters') u where
  coherent := h'.coherent
  gains := h.gains.trans h'.gains
  sameTypes := h.sameTypes.trans h'.sameTypes
  rows := List.forall_mem_append.mpr
    ⟨fun cluster hcluster => h'.kept (h.rows cluster hcluster), h'.rows⟩
  map_key := by rw [List.map_append, h.map_key, h'.map_key]
  kept := fun hrow => h'.kept (h.kept hrow)
  known := fun hrow => by
    rcases h'.known hrow with hrow | hkey
    · exact (h.known hrow).imp id (List.mem_append_left _)
    · exact .inr (List.mem_append_right _ hkey)
  still := fun hall => by
    obtain rfl := h.still fun key hkey => hall key (List.mem_append_left _ hkey)
    exact h'.still fun key hkey => hall key (List.mem_append_right _ hkey)
  others := by
    rw [h'.others, h.others]

end Provided

theorem resolveCluster_provides (h : s.Coherent) {key : ClusterKey}
    (htype : key.typeId ∈ s.clusterTypes) :
    Succeeds (resolveCluster key) s fun cluster => Provided s [key] [cluster] := by
  unfold resolveCluster Succeeds
  rw [Ends.bind_iff, query_ends_iff]
  rcases h.findClusterByKey_cases key with ⟨cluster, hrow, hkey, hfind⟩ | ⟨hfree, hfind⟩
  · rw [hfind]
    exact ⟨h, .refl s, .refl s, by simpa using hrow, by simp [hkey], id, .inl, fun _ => rfl, rfl⟩
  · rw [hfind]
    refine (((h.createCluster_ends key).and (State.createCluster_gains key)).and
      (State.createCluster_writes key)).imp ?_ ?_
    · rintro cluster t ⟨⟨⟨ht, -⟩, gains, sameTypes, -, hkey⟩, hid, rfl⟩
      have fresh : s.clusters[cluster.id]? = none := hid ▸ h.clusters.numbered.getElem?_next
      refine ⟨ht, gains, sameTypes, ?_, by simp [hkey], fun hrow => ?_, fun hrow => ?_,
        fun hall => ?_, rfl⟩
      · rw [List.forall_mem_singleton]
        exact Std.ExtTreeMap.getElem?_insert_self
      · rw [Std.ExtTreeMap.getElem?_insert, if_neg]
        · exact hrow
        · intro he
          rw [← Std.LawfulEqOrd.eq_of_compare he, fresh] at hrow
          cases hrow
      · rcases eq_or_of_getElem?_insert hrow with rfl | hrow
        · exact .inr (by simp [hkey])
        · exact .inl hrow
      · obtain ⟨i, other, hrow, hother⟩ := hall key (by simp)
        exact absurd hother (hfree i other hrow)
    · rintro _ _ ⟨⟨⟨_, hnone | ⟨other, hother⟩⟩, -⟩, -⟩
      · obtain ⟨clusterType, hrow⟩ := exists_row_of_mem htype
        rw [hrow] at hnone
        cases hnone
      · rw [hfind] at hother
        cases hother

def keysFor (s : State) (values : String × OrderedSet String) : List ClusterKey :=
  match s.findClusterTypeByName values.1 with
  | .ok (some clusterType) => values.2.toList.map (ClusterKey.mk clusterType.id)
  | _ => []

theorem resolveClusters_provides (values : ClusterValues) (h : s.Coherent) :
    Succeeds (resolveClusters values) s (Provided s (values.toList.flatMap (keysFor s))) := by
  refine Ends.bind (Ends.mapM_along (I := fun done perType =>
    Provided s (done.flatMap (keysFor s)) perType.flatten) ?_ (.nil h)) fun _ _ => id
  rintro ⟨typeName, names⟩ - done perType t ht
  have one {clusters : List Cluster} {u : State}
      (hu : Provided t (keysFor s (typeName, names)) clusters u) :
      Provided s ((done ++ [(typeName, names)]).flatMap (keysFor s))
        (perType ++ [clusters]).flatten u := by
    simpa using ht.append hu
  have hsame := ht.sameTypes.findClusterTypeByName_eq typeName
  rw [Ends.bind_iff, query_ends_iff, hsame]
  rcases h.findClusterTypeByName_cases typeName with ⟨clusterType, hrow, -, hfind⟩ | ⟨-, hfind⟩
  · have hkeys : keysFor s (typeName, names) =
        names.toList.map (ClusterKey.mk clusterType.id) := by simp [keysFor, hfind]
    rw [hfind]
    refine (Ends.mapM_along (I := fun done clusters =>
      Provided t (done.map (ClusterKey.mk clusterType.id)) clusters) ?_ (.nil ht.coherent)).imp
      (fun clusters u hu => one (hkeys ▸ hu)) fun _ _ => id
    rintro name - done clusters u hu
    have htype : clusterType.id ∈ u.clusterTypes := by
      rw [hu.sameTypes.rows, ht.sameTypes.rows]
      exact mem_of_getElem?_eq_some hrow
    refine (resolveCluster_provides hu.coherent htype).imp (fun cluster v hv => ?_) fun _ _ => id
    simpa using hu.append hv
  · have hkeys : keysFor s (typeName, names) = [] := by simp [keysFor, hfind]
    rw [hfind]
    exact one (hkeys ▸ .nil ht.coherent)

theorem resolveClusters_settles (values : ClusterValues) : Settles (resolveClusters values) :=
  fun _ h => (resolveClusters_provides values h).imp
    (fun _ _ ht => ⟨ht.coherent, ht.gains.sameFiles⟩) fun _ _ => id

end AudioCatalog.Catalog.Session
