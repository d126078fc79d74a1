import AudioCatalog.Proofs.OrphanEntities

namespace AudioCatalog

/-- The entries that are left are those of the rows that are left. -/
theorem Catalog.Matches.entry_left {e : Entity} {ρ α : Type} {rows rows' : Table (EntityId e) ρ}
    {entry entry' : α → EntityId e → Prop} {mentions : ρ → α → Prop} {left : EntityId e → Prop}
    (h : Catalog.Matches entry rows mentions) (h' : Catalog.Matches entry' rows' mentions)
    (hrows : ∀ (i : EntityId e) (row : ρ), rows'[i]? = some row ↔ rows[i]? = some row ∧ left i)
    (a : α) (i : EntityId e) : entry' a i ↔ entry a i ∧ left i := by
  simp only [h' a i, h a i, hrows]
  tauto

inductive Subject where
  | track (id : TrackId)
  | artist (id : ArtistId)
  | release (id : ReleaseId)
  | cluster (id : ClusterId)
deriving DecidableEq

namespace Track

variable {gone : Subject → Bool}

def without (gone : Subject → Bool) (track : Track) : Track := { track with
  releaseId := track.releaseId.filter fun id => !gone (.release id)
  clusterIds := track.clusterIds.filter fun id => !gone (.cluster id) }

@[simp]
theorem mem_clusterIds_without {track : Track} {id : ClusterId} :
    id ∈ (track.without gone).clusterIds ↔ id ∈ track.clusterIds ∧ gone (.cluster id) = false := by
  simp [without, Std.ExtTreeSet.mem_filter]

@[simp]
theorem releaseId_without_eq_some {track : Track} {id : ReleaseId} :
    (track.without gone).releaseId = some id ↔
      track.releaseId = some id ∧ gone (.release id) = false := by
  simp [without, Option.filter_eq_some_iff]

theorem ext_links {track other : Track} (h : track.unlinked = other.unlinked)
    (release : track.releaseId = other.releaseId) (clusters : track.clusterIds = other.clusterIds) :
    track = other := by
  cases track
  cases other
  simp_all [unlinked]

theorem without_eq {track other : Track} (same : track.unlinked = other.unlinked)
    (release : ∀ id, other.releaseId = some id ↔
      track.releaseId = some id ∧ gone (.release id) = false)
    (clusters : ∀ id, id ∈ other.clusterIds ↔ id ∈ track.clusterIds ∧ gone (.cluster id) = false) :
    track.without gone = other :=
  ext_links same (Option.ext fun id => releaseId_without_eq_some.trans (release id).symm)
    (Std.ExtTreeSet.ext_mem fun id => mem_clusterIds_without.trans (clusters id).symm)

theorem without_eq_self {track : Track}
    (release : ∀ id, track.releaseId = some id → gone (.release id) = false)
    (clusters : ∀ id ∈ track.clusterIds, gone (.cluster id) = false) :
    track.without gone = track :=
  without_eq rfl (fun id => (and_iff_left_of_imp (release id)).symm)
    fun id => (and_iff_left_of_imp (clusters id)).symm

theorem without_without (gone' : Subject → Bool) (track : Track) :
    (track.without gone).without gone' = track.without fun x => gone x || gone' x :=
  without_eq rfl (fun id => by simp [and_assoc]) fun id => by simp [and_assoc]

end Track

namespace Catalog.State

variable {s t u : State} {gone gone' : Subject → Bool}

/-- The rows of what is gone are gone, the paths of its tracks, and all links to it. -/
structure Drops (s : State) (gone : Subject → Bool) (t : State) : Prop where
  tracks : ∀ (i : TrackId) (track : Track), t.tracks[i]? = some track ↔
    gone (.track i) = false ∧ ∃ before, s.tracks[i]? = some before ∧ before.without gone = track
  features : ∀ (i : TrackId) (features : List UInt8), t.features[i]? = some features ↔
    s.features[i]? = some features ∧ gone (.track i) = false
  artists : ∀ (i : ArtistId) (artist : Artist), t.artists.rows[i]? = some artist ↔
    s.artists.rows[i]? = some artist ∧ gone (.artist i) = false
  releases : ∀ (i : ReleaseId) (release : Release), t.releases.rows[i]? = some release ↔
    s.releases.rows[i]? = some release ∧ gone (.release i) = false
  clusters : ∀ (i : ClusterId) (cluster : Cluster), t.clusters[i]? = some cluster ↔
    s.clusters[i]? = some cluster ∧ gone (.cluster i) = false
  credits : ∀ (i : CreditId) (credit : Credit), t.credits[i]? = some credit ↔
    s.credits[i]? = some credit ∧ gone (.track credit.trackId) = false ∧
      gone (.artist credit.artistId) = false
  trackByPath : ∀ (path : String) (i : TrackId), t.trackByPath[path]? = some i ↔
    s.trackByPath[path]? = some i ∧ gone (.track i) = false
  others : t = { s with
    tracks := t.tracks
    trackByPath := t.trackByPath
    tracksByRecording := t.tracksByRecording
    tracksOfRelease := t.tracksOfRelease
    tracksOfCluster := t.tracksOfCluster
    features := t.features
    artists := t.artists
    releases := t.releases
    clusters := t.clusters
    clusterByKey := t.clusterByKey
    credits := t.credits
    creditsOfTrack := t.creditsOfTrack
    creditsOfArtist := t.creditsOfArtist }
  nextArtist : t.artists.next = s.artists.next
  nextRelease : t.releases.next = s.releases.next

/-- Nothing is left of what is gone, in any table or index. All else is as it was, and tracks are
so but for their links to what is gone. -/
structure Without (s : State) (gone : Subject → Bool) (t : State) : Prop
    extends Drops s gone t where
  tracksByRecording : ∀ mbid i, t.tracksByRecording.contains mbid i ↔
    s.tracksByRecording.contains mbid i ∧ gone (.track i) = false
  tracksOfRelease : ∀ release i, t.tracksOfRelease.contains release i ↔
    s.tracksOfRelease.contains release i ∧ gone (.track i) = false ∧
      gone (.release release) = false
  tracksOfCluster : ∀ cluster i, t.tracksOfCluster.contains cluster i ↔
    s.tracksOfCluster.contains cluster i ∧ gone (.track i) = false ∧
      gone (.cluster cluster) = false
  creditsOfTrack : ∀ track i, t.creditsOfTrack.contains track i ↔
    s.creditsOfTrack.contains track i ∧ i ∈ t.credits
  creditsOfArtist : ∀ artist i, t.creditsOfArtist.contains artist i ↔
    s.creditsOfArtist.contains artist i ∧ i ∈ t.credits
  artistByMbid : ∀ (mbid : Mbid) (i : ArtistId), t.artists.byMbid[mbid]? = some i ↔
    s.artists.byMbid[mbid]? = some i ∧ gone (.artist i) = false
  artistsByName : ∀ name i, t.artists.byName.contains name i ↔
    s.artists.byName.contains name i ∧ gone (.artist i) = false
  releaseByMbid : ∀ (mbid : Mbid) (i : ReleaseId), t.releases.byMbid[mbid]? = some i ↔
    s.releases.byMbid[mbid]? = some i ∧ gone (.release i) = false
  releasesByName : ∀ name i, t.releases.byName.contains name i ↔
    s.releases.byName.contains name i ∧ gone (.release i) = false
  clusterByKey : ∀ (text : String) (i : ClusterId), t.clusterByKey[text]? = some i ↔
    s.clusterByKey[text]? = some i ∧ gone (.cluster i) = false

namespace Drops

theorem refl (s : State) : s.Drops (fun _ => false) s := by
  refine ⟨fun i track => ?_, ?_, ?_, ?_, ?_, ?_, ?_, rfl, rfl, rfl⟩
  · have self (track : Track) : track.without (fun _ => false) = track :=
      Track.without_eq_self (fun _ _ => rfl) fun _ _ => rfl
    simp [self]
  all_goals simp

theorem trans (h : s.Drops gone t) (h' : t.Drops gone' u) :
    s.Drops (fun x => gone x || gone' x) u where
  tracks := fun i track => by
    simp only [h'.tracks, h.tracks, Bool.or_eq_false_iff, ← Track.without_without]
    constructor
    · rintro ⟨left', _, ⟨left, before, hrow, rfl⟩, htrack⟩
      exact ⟨⟨left, left'⟩, before, hrow, htrack⟩
    · rintro ⟨⟨left, left'⟩, before, hrow, htrack⟩
      exact ⟨left', _, ⟨left, before, hrow, rfl⟩, htrack⟩
  features := fun i features => by
    rw [h'.features, h.features, and_assoc, ← Bool.or_eq_false_iff]
  artists := fun i artist => by rw [h'.artists, h.artists, and_assoc, ← Bool.or_eq_false_iff]
  releases := fun i release => by rw [h'.releases, h.releases, and_assoc, ← Bool.or_eq_false_iff]
  clusters := fun i cluster => by rw [h'.clusters, h.clusters, and_assoc, ← Bool.or_eq_false_iff]
  credits := fun i credit => by
    rw [h'.credits, h.credits, Bool.or_eq_false_iff, Bool.or_eq_false_iff]
    tauto
  trackByPath := fun path i => by
    rw [h'.trackByPath, h.trackByPath, and_assoc, ← Bool.or_eq_false_iff]
  others := h'.others.trans (by rw [h.others])
  nextArtist := h'.nextArtist.trans h.nextArtist
  nextRelease := h'.nextRelease.trans h.nextRelease

variable (h : s.Drops gone t) (hs : s.Coherent) (ht : t.Coherent)
include h hs ht

theorem without : s.Without gone t where
  toDrops := h
  tracksByRecording := fun mbid i => by
    simp only [ht.tracks.byRecording mbid i, hs.tracks.byRecording mbid i, h.tracks]
    constructor
    · rintro ⟨_, ⟨left, before, hrow, rfl⟩, hmbid⟩
      exact ⟨⟨before, hrow, hmbid⟩, left⟩
    · rintro ⟨⟨before, hrow, hmbid⟩, left⟩
      exact ⟨_, ⟨left, before, hrow, rfl⟩, hmbid⟩
  tracksOfRelease := fun release i => by
    simp only [ht.tracks.ofRelease release i, hs.tracks.ofRelease release i, h.tracks]
    constructor
    · rintro ⟨_, ⟨left, before, hrow, rfl⟩, hrelease⟩
      obtain ⟨hbefore, kept⟩ := Track.releaseId_without_eq_some.mp hrelease
      exact ⟨⟨before, hrow, hbefore⟩, left, kept⟩
    · rintro ⟨⟨before, hrow, hbefore⟩, left, kept⟩
      exact ⟨_, ⟨left, before, hrow, rfl⟩, Track.releaseId_without_eq_some.mpr ⟨hbefore, kept⟩⟩
  tracksOfCluster := fun cluster i => by
    simp only [ht.tracks.ofCluster cluster i, hs.tracks.ofCluster cluster i, h.tracks]
    constructor
    · rintro ⟨_, ⟨left, before, hrow, rfl⟩, hcluster⟩
      obtain ⟨hbefore, kept⟩ := Track.mem_clusterIds_without.mp hcluster
      exact ⟨⟨before, hrow, hbefore⟩, left, kept⟩
    · rintro ⟨⟨before, hrow, hbefore⟩, left, kept⟩
      exact ⟨_, ⟨left, before, hrow, rfl⟩, Track.mem_clusterIds_without.mpr ⟨hbefore, kept⟩⟩
  creditsOfTrack := fun track i =>
    hs.credits.ofTrack.entry_iff ht.credits.ofTrack (fun hrow => ((h.credits _ _).mp hrow).1) track
  creditsOfArtist := fun artist i =>
    hs.credits.ofArtist.entry_iff ht.credits.ofArtist (fun hrow => ((h.credits _ _).mp hrow).1)
      artist
  artistByMbid := fun mbid i => hs.artists.byMbid.entry_left ht.artists.byMbid h.artists mbid i
  artistsByName := fun name i => hs.artists.byName.entry_left ht.artists.byName h.artists name i
  releaseByMbid := fun mbid i =>
    hs.releases.byMbid.entry_left ht.releases.byMbid h.releases mbid i
  releasesByName := fun name i =>
    hs.releases.byName.entry_left ht.releases.byName h.releases name i
  clusterByKey := fun text i => hs.clusters.byKey.entry_left ht.clusters.byKey h.clusters text i

end Drops

variable (h : s.Coherent)
include h

theorem Coherent.credits_withoutCreditsOf (id : TrackId) (i : CreditId) (credit : Credit) :
    (s.withoutCreditsOf id).credits[i]? = some credit ↔
      s.credits[i]? = some credit ∧ credit.trackId ≠ id :=
  Session.credits_dropCredits.trans <| and_congr_right fun hrow =>
    not_congr (h.credits.ofTrack.iff_of_row hrow id)

theorem Coherent.credits_withoutCreditsTo (id : ArtistId) (i : CreditId) (credit : Credit) :
    (s.withoutCreditsTo id).credits[i]? = some credit ↔
      s.credits[i]? = some credit ∧ credit.artistId ≠ id :=
  Session.credits_dropCredits.trans <| and_congr_right fun hrow =>
    not_congr (h.credits.ofArtist.iff_of_row hrow id)

/-- The path of the track has to lead to it, since it is taken from the index wherever it leads. -/
theorem Coherent.withoutTrack_drops {id : TrackId} {track : Track}
    (hrow : s.tracks[id]? = some track) (hentry : s.trackByPath[track.path]? = some id) :
    s.Drops (fun x => decide (x = .track id)) (s.withoutTrack id track) := by
  refine ⟨fun i other => ?_, fun i features => ?_, ?_, ?_, ?_, fun i credit => ?_,
    fun path i => ?_, rfl, rfl, rfl⟩
  · have self (other : Track) : other.without (fun x => decide (x = .track id)) = other :=
      Track.without_eq_self (fun _ _ => by simp) fun _ _ => by simp
    simp [State.withoutTrack, getElem?_erase_eq_some, self, and_comm]
  · simp [State.withoutTrack, getElem?_erase_eq_some]
  · simp [State.withoutTrack, State.withoutCreditsOf]
  · simp [State.withoutTrack, State.withoutCreditsOf]
  · simp [State.withoutTrack, State.withoutCreditsOf]
  · simpa [State.withoutTrack] using h.credits_withoutCreditsOf id i credit
  · simp only [State.withoutTrack, Std.ExtTreeMap.getElem?_erase, Std.compare_eq_iff_eq]
    split_ifs with hpath
    · subst hpath
      simp [hentry, eq_comm]
    · suffices s.trackByPath[path]? = some i → i ≠ id by simpa using this
      rintro hi rfl
      obtain ⟨other, hother, rfl⟩ := h.tracks.byPath hi
      rw [hrow] at hother
      cases hother
      exact hpath rfl

end Catalog.State

end AudioCatalog
