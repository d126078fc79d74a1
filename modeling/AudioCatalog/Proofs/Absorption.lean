import AudioCatalog.Proofs.Commits
import AudioCatalog.Proofs.Dependability
import AudioCatalog.Proofs.Resolution

namespace AudioCatalog

namespace Catalog

structure Registry.Thins {e : Entity} {δ : Type} (r r' : Registry e δ) : Prop where
  next : r'.next = r.next
  rows : ∀ {i : EntityId e} {row : Named e δ}, r'.rows[i]? = some row → r.rows[i]? = some row

namespace Registry.Thins

variable {e : Entity} {δ : Type} {r r' r'' : Registry e δ}

theorem refl (r : Registry e δ) : r.Thins r := ⟨rfl, id⟩

theorem trans (h : r.Thins r') (h' : r'.Thins r'') : r.Thins r'' :=
  ⟨h'.next.trans h.next, fun hrow => h.rows (h'.rows hrow)⟩

theorem erase (row : Named e δ) : r.Thins (r.erase row) :=
  ⟨Registry.erase_next row, fun hrow => by
    rw [Registry.erase_rows] at hrow
    exact (getElem?_erase_eq_some.mp hrow).1⟩

end Registry.Thins

namespace State

structure Thins (s t : State) : Prop where
  artists : s.artists.Thins t.artists
  releases : s.releases.Thins t.releases
  clusters : ∀ {i : ClusterId} {cluster : Cluster}, t.clusters[i]? = some cluster →
    s.clusters[i]? = some cluster

variable {s t u : State}

theorem Thins.refl (s : State) : s.Thins s := ⟨.refl _, .refl _, id⟩

theorem Thins.trans (h : s.Thins t) (h' : t.Thins u) : s.Thins u :=
  ⟨h.artists.trans h'.artists, h.releases.trans h'.releases,
    fun hrow => h.clusters (h'.clusters hrow)⟩

end State

open Session

variable {s : State}

theorem removeTrack_thins (h : s.Coherent) (i : TrackId) :
    Succeeds (removeTrack i) s fun _ t => t.Coherent ∧ s.Thins t := by
  rw [Succeeds, State.removeTrack_ends_iff]
  cases hrow : s.tracks[i]? with
  | none => exact ⟨h, .refl s⟩
  | some track => exact ⟨h.withoutTrack hrow, .refl _, .refl _, id⟩

theorem removeArtist_thins (h : s.Coherent) (i : ArtistId) :
    Succeeds (removeArtist i) s fun _ t => t.Coherent ∧ s.Thins t := by
  have thins : Succeeds (removeArtist i) s fun _ t => s.Thins t := by
    unfold removeArtist Succeeds
    rw [Ends.bind_iff, Ends.get_iff]
    cases s.artists.find? i with
    | none => exact .refl s
    | some artist => exact ⟨.erase artist, .refl _, id⟩
  exact ((h.removeArtist_succeeds i).and thins).imp (fun _ _ ht => ⟨ht.1.1, ht.2⟩) fun _ _ => id

theorem changeTracks_thins (h : s.Coherent) {ids : List TrackId} {change : Track → Track}
    (hchange : ∀ track, (change track).unlinked = track.unlinked) :
    Succeeds (changeTracks ids change) s fun _ t => t.Coherent ∧ s.Thins t := by
  refine Ends.forM (fun i _ t ⟨ht, thins⟩ => ?_) ⟨h, .refl s⟩
  rw [Ends.bind_iff, Ends.get_iff]
  cases hrow : t.findTrack? i with
  | none => exact ⟨ht, thins⟩
  | some track =>
      have hid : (change track).id = track.id := by
        have := congrArg Track.id (hchange track)
        exact this
      have hown : t.tracks[(change track).id]? = some track := by
        rw [hid, ht.tracks.numbered.id_eq hrow]
        exact hrow
      rw [State.updateTrack_ends_iff, hown]
      exact ⟨ht.withTrack hown, thins.artists, thins.releases, thins.clusters⟩

theorem removeRelease_thins (h : s.Coherent) (i : ReleaseId) :
    Succeeds (removeRelease i) s fun _ t => t.Coherent ∧ s.Thins t := by
  have thins : Succeeds (removeRelease i) s fun _ t => s.Thins t := by
    unfold removeRelease Succeeds
    rw [Ends.bind_iff, Ends.get_iff]
    cases s.releases.find? i with
    | none => exact .refl s
    | some release =>
        rw [Ends.bind_iff, Ends.get_iff]
        refine Ends.bind (changeTracks_thins h fun _ => rfl) fun _ t ⟨_, ht⟩ => ?_
        exact ht.trans ⟨.refl _, .erase release, id⟩
  exact ((h.removeRelease_succeeds i).and thins).imp (fun _ _ ht => ⟨ht.1.1, ht.2⟩) fun _ _ => id

theorem removeCluster_thins (h : s.Coherent) (i : ClusterId) :
    Succeeds (removeCluster i) s fun _ t => t.Coherent ∧ s.Thins t := by
  have thins : Succeeds (removeCluster i) s fun _ t => s.Thins t := by
    unfold removeCluster Succeeds
    rw [Ends.bind_iff, Ends.get_iff]
    cases s.findCluster? i with
    | none => exact .refl s
    | some cluster =>
        rw [Ends.bind_iff, Ends.get_iff]
        refine Ends.bind (changeTracks_thins h fun _ => rfl) fun _ t ⟨_, ht⟩ => ?_
        exact ht.trans ⟨.refl _, .refl _, fun hrow => (getElem?_erase_eq_some.mp hrow).1⟩
  exact ((h.removeCluster_succeeds i).and thins).imp (fun _ _ ht => ⟨ht.1.1, ht.2⟩) fun _ _ => id

theorem syncSettings_thins (h : s.Coherent) (names : List String) :
    Succeeds (syncSettings names) s fun _ t => t.Coherent ∧ s.Thins t := by
  have provide (name : String) (t : State) (ht : t.Coherent ∧ s.Thins t) :
      Succeeds (provideClusterType name) t fun _ u => u.Coherent ∧ s.Thins u := by
    rcases provideClusterType_cases ht.1 name with ⟨hrun, -⟩ | ⟨hrun, coherent, -⟩
    · exact succeeds_iff.mpr ⟨(), t, hrun, ht⟩
    · exact succeeds_iff.mpr
        ⟨(), _, hrun, coherent, ht.2.artists, ht.2.releases, ht.2.clusters⟩
  exact syncSettings_ends_iff.mpr (Ends.forM (fun name _ t ht => provide name t ht)
    ⟨h.withSettings _, .refl _, .refl _, id⟩)

end Catalog

namespace Scan

open Catalog Session

variable {s t : State}

def mentions (m : Tag.Metadata) : List (Mention (Option String)) :=
  (creditEntries m).map fun entry => entry.2.mention (borrows entry.1)

/-- What a tag says was taken in. -/
structure Absorbs (s : State) (m : Tag.Metadata) (t : State) : Prop where
  artists : ∃ l, l.map Prod.fst = mentions m ∧ s.artists.RecordsAll l t.artists
  releases : ∃ l, l.map Prod.fst = releaseMentions m.album ∧ s.releases.RecordsAll l t.releases
  clusters : ∀ {i : ClusterId} {cluster : Cluster}, t.clusters[i]? = some cluster →
    s.clusters[i]? = some cluster ∨ cluster.key ∈ clusterKeys s m

theorem Resolution.map_said {track : Track} {m : Tag.Metadata} (x : Resolution s track m) :
    (x.found.map Finding.said).map Prod.fst = mentions m := by
  rw [mentions, ← x.entries, List.map_map, List.map_map]
  rfl

theorem Resolution.absorbs {track : Track} {m : Tag.Metadata} (x : Resolution s track m)
    (entry : Entry) (stamp : Stamp) : Absorbs s m (x.result entry stamp) where
  artists := ⟨x.found.map Finding.said, x.map_said, by rw [x.result_artists]; exact x.takesArtists⟩
  releases := by
    obtain ⟨l, mentions, -, hl⟩ := x.takesReleases
    exact ⟨l, mentions, by rw [x.result_releases]; exact hl⟩
  clusters := fun {i cluster} hrow => by
    have known := x.provided.known (show x.settled.clusters[i]? = some cluster from hrow)
    rw [State.credited_others] at known
    exact known

/-- A file is rejected, and its track may go, or what its tag says is taken in. -/
theorem reconcile_absorbs (h : s.Coherent) (skipsDuplicates : Bool) (entry : Entry)
    (m : Tag.Metadata) (stamp : Stamp) :
    Succeeds (reconcile skipsDuplicates entry m stamp) s fun outcome t =>
      if (outcome.written? entry).isSome then Absorbs s m t else s.Thins t := by
  apply reconcile_of_cases h
  · exact fun track why hrow _ _ _ => ⟨.refl _, .refl _, id⟩
  · exact fun why _ _ => .refl s
  · intro track hrow _ _ _
    refine (applyMetadata_writes h hrow entry m stamp).imp ?_ fun _ _ => id
    rintro _ _ ⟨x, rfl⟩
    exact x.absorbs entry stamp
  · intro _ _
    refine (applyMetadata_writes (h.withNewTrack entry.key) Std.ExtTreeMap.getElem?_insert_self entry
      m stamp).imp ?_ fun _ _ => id
    rintro _ _ ⟨x, rfl⟩
    obtain ⟨artists, releases, clusters⟩ := x.absorbs entry stamp
    exact ⟨artists, releases, clusters⟩

theorem removeAll_thins {α : Type} {remove : α → Session Bool}
    (hremove : ∀ {s : State}, s.Coherent → ∀ a,
      Succeeds (remove a) s fun _ t => t.Coherent ∧ s.Thins t)
    (h : s.Coherent) (l : List α) : Succeeds (removeAll remove l) s fun _ t => s.Thins t :=
  (Endures.removeAll (Q := fun t => t.Coherent ∧ s.Thins t) (fun a _ _ ht =>
    (hremove ht.1 a).imp (fun _ _ hu => ⟨hu.1, ht.2.trans hu.2⟩) fun _ _ => id) s
    ⟨h, .refl s⟩).imp (fun _ _ ht => ht.2) fun _ _ => id

theorem Orphanage.remove_thins {kind : Orphanage}
    (hkind : kind ∈ [Orphanage.clusters, Orphanage.artists, Orphanage.releases]) (h : s.Coherent)
    (key : kind.Key) : Succeeds (kind.remove key) s fun _ t => t.Coherent ∧ s.Thins t := by
  simp only [List.mem_cons, List.not_mem_nil, or_false] at hkind
  rcases hkind with rfl | rfl | rfl
  · exact removeCluster_thins h key
  · exact removeArtist_thins h key
  · exact removeRelease_thins h key

/-- A commit that writes no track makes nothing. -/
theorem Commit.thins {plan : Plan} {written? : Option String} (hc : Commit plan s t written?)
    (h : s.Coherent) (hnone : written? = none) : s.Thins t := by
  cases hc with
  | @reconciled entry _ m time now outcome hrun =>
      have ends := reconcile_absorbs h plan.skipsDuplicates entry m ⟨time, plan.scanVersion, now⟩
      rw [Succeeds, Ends, State.transact_eq_ok.mp hrun] at ends
      simpa [hnone] using ends
  | tracksRemoved ids hrun =>
      have ends := removeAll_thins removeTrack_thins h ids
      rwa [Succeeds, Ends, State.transact_eq_ok.mp hrun] at ends
  | @orphansRemoved kind hkind keys _ _ hrun =>
      have ends := removeAll_thins (Orphanage.remove_thins hkind) h keys
      rwa [Succeeds, Ends, State.transact_eq_ok.mp hrun] at ends

theorem Commit.absorbs {plan : Plan} {written? : Option String} (hc : Commit plan s t written?)
    (h : s.Coherent) : s.Thins t ∨ ∃ m, Absorbs s m t := by
  by_cases hnone : written? = none
  · exact .inl (hc.thins h hnone)
  · cases hc with
    | @reconciled entry _ m time now outcome hrun =>
        have ends := reconcile_absorbs h plan.skipsDuplicates entry m ⟨time, plan.scanVersion, now⟩
        rw [Succeeds, Ends, State.transact_eq_ok.mp hrun] at ends
        exact .inr ⟨m, by simpa [Option.isSome_iff_ne_none, hnone] using ends⟩
    | tracksRemoved | orphansRemoved => exact absurd rfl hnone

end Scan

end AudioCatalog
