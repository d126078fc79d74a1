import AudioCatalog.Proofs.Commits
import AudioCatalog.Proofs.EntityRemoval
import AudioCatalog.Proofs.Integrity
import AudioCatalog.Proofs.Orphans
import AudioCatalog.Proofs.Stillness
import Mathlib.Logic.Relation

namespace AudioCatalog.Scan

open Catalog Session

variable {s t u : State}

structure Relinked (s t : State) : Prop where
  coherent : t.Coherent
  intact : t.Intact
  tracks : t.tracks = s.tracks

theorem Relinked.gains (h : Relinked s t) (ht : t.Gains u) (hu : u.Coherent) : Relinked s u :=
  ⟨hu, h.intact.gains ht, ht.tracks.trans h.tracks⟩

theorem creditArtists_relinks {trackId : TrackId} (htrack : trackId ∈ s.tracks) (role : Role)
    (infos : List Tag.ArtistInfo) (h : Relinked s t) :
    Succeeds (creditArtists trackId role infos) t fun _ => Relinked s := by
  refine Ends.bind (resolveArtists_finds infos (borrows role) t h.coherent) ?_
  rintro artists u ⟨hu, gains, there⟩
  have credit (artist : Artist) (hartist : artist ∈ artists) (v : State)
      (hv : Relinked s v ∧ ∀ artist ∈ artists, HasArtist artist v) :
      Succeeds (do let _ ← addCredit trackId artist.id role) v fun _ v =>
        Relinked s v ∧ ∀ artist ∈ artists, HasArtist artist v := by
    obtain ⟨relinked, there⟩ := hv
    have linked : (v.withCredit ⟨⟨v.nextCredit⟩, trackId, artist.id, role⟩).Intact :=
      relinked.intact.withCredit (relinked.tracks ▸ htrack) (there artist hartist)
    exact ⟨⟨relinked.coherent.withCredit rfl, linked, relinked.tracks⟩, there⟩
  exact (Ends.forM credit ⟨h.gains gains hu, there⟩).imp (fun _ _ hv => hv.1) fun _ _ => id

/-- The row of the track is written anew; the clusters and the release that it refers to were found
in the same session. -/
theorem applyMetadata_intact (h : s.Coherent) (intact : s.Intact) {track : Track}
    (hrow : s.tracks[track.id]? = some track) (entry : Entry) (m : Tag.Metadata) (stamp : Stamp) :
    Succeeds (applyMetadata track entry m stamp) s fun _ t => t.Intact ∧
      ∃ written : Track, written.path = track.path ∧ written.durationMs = m.durationMs ∧
        t.tracks = s.tracks.insert track.id written := by
  have hid : track.id ∈ s.tracks := mem_of_getElem?_eq_some hrow
  have cleared : Relinked s (s.withoutCreditsOf track.id) :=
    ⟨h.withoutCreditsOf track.id, intact.withoutCreditsOf track.id, rfl⟩
  have credits : Succeeds ((creditLists m).forM fun credit =>
      creditArtists track.id credit.1 credit.2) (s.withoutCreditsOf track.id)
      fun _ => Relinked s :=
    Ends.forM (fun credit _ _ ht => creditArtists_relinks hid credit.1 credit.2 ht) cleared
  unfold applyMetadata Succeeds
  rw [Ends.bind_iff, State.clearCredits_ends_iff]
  refine Ends.bind credits fun _ t₁ h₁ => ?_
  apply Ends.bind (resolveAlbum_finds m.album t₁ h₁.coherent)
  rintro releaseId t₂ ⟨h₂, gains₂, hrelease⟩
  apply Ends.bind (resolveClusters_provides m.clusters h₂)
  intro clusters t₃ provided
  have relinked : Relinked s t₃ := (h₁.gains gains₂ h₂).gains provided.gains provided.coherent
  let written : Track := { described track entry m stamp with
    releaseId, clusterIds := .ofList (clusters.map Cluster.id) compare }
  have links : t₃.Links written := by
    refine ⟨fun id hfound => provided.gains.releases (hrelease id hfound), fun id hfound => ?_⟩
    simp only [written, Std.ExtTreeSet.mem_ofList, List.contains_iff_mem, List.mem_map] at hfound
    obtain ⟨cluster, hcluster, rfl⟩ := hfound
    exact provided.there cluster hcluster
  simp only [removeFeatures, Ends.bind_iff, Ends.get_iff, Ends.modify_iff, Ends.pure_iff,
    State.updateTrack_ends_iff]
  have hprevious : t₃.tracks[written.id]? = some track := by rw [relinked.tracks]; exact hrow
  rw [hprevious]
  exact ⟨(relinked.intact.withoutFeatures track.id).withTrack track ⟨links.release, links.clusters⟩,
    written, rfl, rfl, congrArg (fun rows : Table TrackId Track => rows.insert track.id written)
      relinked.tracks⟩

/-- Each track of `t` is as it was in `s`, or is the one that was written, and has a duration. -/
def WritesSound (s : State) (written? : Option String) (t : State) : Prop :=
  ∀ (i : TrackId) (track : Track), t.tracks[i]? = some track →
    s.tracks[i]? = some track ∨ (written? = some track.path ∧ 0 < track.durationMs)

theorem WritesSound.of_tracks_eq {written? : Option String} (h : t.tracks = s.tracks) :
    WritesSound s written? t := fun _ _ hrow => .inl (h ▸ hrow)

theorem Verdict.duration_pos {skipsDuplicates : Bool} {isDuplicated : Prop} {m : Tag.Metadata}
    {why : Option Rejection} (h : Verdict skipsDuplicates isDuplicated m why) (hwhy : why = none) :
    0 < m.durationMs := by
  cases h with
  | duplicate => cases hwhy
  | sound =>
      refine Nat.pos_of_ne_zero fun hzero => ?_
      rw [soundRejection?, if_pos hzero] at hwhy
      split at hwhy <;> cases hwhy

theorem reconcile_intact (h : s.Coherent) (intact : s.Intact) (skipsDuplicates : Bool)
    (entry : Entry) (m : Tag.Metadata) (stamp : Stamp) :
    Succeeds (reconcile skipsDuplicates entry m stamp) s fun outcome t =>
      t.Intact ∧ WritesSound s (outcome.written? entry) t := by
  have written {t u : State} {track : Track} (hrows : ∀ (i : TrackId) (other : Track),
        t.tracks[i]? = some other → i = track.id ∨ s.tracks[i]? = some other)
      (hpath : track.path = entry.key) (hpos : 0 < m.durationMs)
      (hu : ∃ written : Track, written.path = track.path ∧ written.durationMs = m.durationMs ∧
        u.tracks = t.tracks.insert track.id written) : WritesSound s (some entry.key) u := by
    obtain ⟨written, hwritten, hduration, htracks⟩ := hu
    intro i other hrow
    rw [htracks, Std.ExtTreeMap.getElem?_insert] at hrow
    split_ifs at hrow with hi
    · cases hrow
      exact .inr ⟨by rw [hwritten, hpath], hduration ▸ hpos⟩
    · exact .inl ((hrows i other hrow).resolve_left fun he => hi (he ▸ Std.compare_self))
  apply reconcile_of_cases h
  · intro track why hrow hentry hpath verdict
    exact ⟨intact.withoutTrack h track.id track,
      fun i other hother => .inl (getElem?_erase_eq_some.mp hother).1⟩
  · exact fun why hnone verdict => ⟨intact, .of_tracks_eq rfl⟩
  · intro track hrow hentry hpath verdict
    refine (applyMetadata_intact h intact hrow entry m stamp).imp (fun _ u hu => ?_) fun _ _ => id
    exact ⟨hu.1, written (fun _ _ => .inr) hpath (verdict.duration_pos rfl) hu.2⟩
  · intro hnone verdict
    refine (applyMetadata_intact (h.withNewTrack entry.key) (intact.withNewTrack entry.key)
      Std.ExtTreeMap.getElem?_insert_self entry m stamp).imp (fun _ u hu => ?_) fun _ _ => id
    refine ⟨hu.1, written (fun i other hother => ?_) rfl (verdict.duration_pos rfl) hu.2⟩
    rw [State.withNewTrack, Std.ExtTreeMap.getElem?_insert] at hother
    split_ifs at hother with hi
    · exact .inl (Std.LawfulEqOrd.eq_of_compare hi).symm
    · exact .inr hother

theorem removeAll_intact {α : Type} {remove : α → Session Bool}
    (hcoherent : ∀ a s, s.Coherent → Succeeds (remove a) s fun _ t => t.Coherent)
    (hintact : ∀ a s, s.Coherent → s.Intact → Succeeds (remove a) s fun _ t => t.Intact)
    (h : s.Coherent) (intact : s.Intact) (l : List α) :
    Succeeds (removeAll remove l) s fun _ t => t.Intact :=
  (Endures.removeAll (Q := fun t => t.Coherent ∧ t.Intact)
    (fun a _ t ht => (hcoherent a t ht.1).and (hintact a t ht.1 ht.2)) s ⟨h, intact⟩).imp
    (fun _ _ ht => ht.2) fun _ _ => id

theorem Orphanage.remove_intact {kind : Orphanage}
    (hkind : kind ∈ [Orphanage.clusters, Orphanage.artists, Orphanage.releases])
    (key : kind.Key) (s : State) (h : s.Coherent) (intact : s.Intact) :
    Succeeds (kind.remove key) s fun _ t => t.Intact := by
  simp only [List.mem_cons, List.not_mem_nil, or_false] at hkind
  rcases hkind with rfl | rfl | rfl
  · exact intact.removeCluster h key
  · exact intact.removeArtist h key
  · exact intact.removeRelease h key

theorem Orphanage.removeAll_tracks {kind : Orphanage}
    (hkind : kind ∈ [Orphanage.clusters, Orphanage.artists, Orphanage.releases])
    {keys : List kind.Key} (hkeys : keys <+: kind.find s orphanBatchSize) (h : s.Coherent) :
    Succeeds (removeAll kind.remove keys) s fun _ t => t.tracks = s.tracks := by
  have untouched {spared : List Orphanage} (sound : kind.Sound spared) :
      Succeeds (removeAll kind.remove keys) s fun _ t => t.tracks = s.tracks := by
    obtain ⟨rest, hrest⟩ : keys <+: kind.all s := by
      rw [sound.find_eq] at hkeys
      exact hkeys.trans (List.take_prefix _ _)
    exact (sound.removeAll_succeeds h hrest.symm {}).imp (fun _ _ ht => ht.2.tracks) fun _ _ => id
  simp only [List.mem_cons, List.not_mem_nil, or_false] at hkind
  rcases hkind with rfl | rfl | rfl
  · exact untouched clusters_sound
  · exact untouched artists_sound
  · exact untouched releases_sound

variable {plan : Plan} {written? : Option String}

theorem Commit.intact (hc : Commit plan s t written?) (h : s.Coherent) (intact : s.Intact) :
    t.Intact ∧ WritesSound s written? t := by
  have published {α : Type} {work : Session α} {a : α} {P : State → Prop}
      (hwork : Succeeds work s fun _ t => P t) (hrun : s.transact work = .ok (a, t)) : P t :=
    State.of_transact (hwork.imp (fun _ _ => id) fun _ _ => False.elim) hrun
  cases hc with
  | @reconciled entry hkeyed m time now outcome hrun =>
      have ends := reconcile_intact h intact plan.skipsDuplicates entry m ⟨time, plan.scanVersion, now⟩
      rw [Succeeds, Ends, State.transact_eq_ok.mp hrun] at ends
      exact ends
  | tracksRemoved ids hrun =>
      have removed := removeAll_intact
        (fun key s hs => (removeTrack_forgets key s hs).imp (fun _ _ ht => ht.coherent) fun _ _ => id)
        (fun key _ hs intact => intact.removeTrack hs key) h intact ids
      exact ⟨published removed hrun, published ((removeTracks_succeeds ids h).imp
        (fun _ _ ht i track hrow => .inl (ht.2 i track hrow).1) fun _ _ => id) hrun⟩
  | @orphansRemoved kind hkind keys hkeys removed hrun =>
      have removed := removeAll_intact
        (fun key s hs => (Orphanage.remove_settles hkind key s hs).imp (fun _ _ ht => ht.1)
          fun _ _ => id) (Orphanage.remove_intact hkind) h intact keys
      exact ⟨published removed hrun,
        .of_tracks_eq (published (Orphanage.removeAll_tracks hkind hkeys h) hrun)⟩

/-- Every path that the commit has written leads to a track with a duration. -/
theorem Commit.written_pos (hc : Commit plan s t written?) (h : s.Coherent) {path : String}
    (hpath : written? = some path) : ∃ file, t.fileAt path = some file ∧ 0 < file.durationMs := by
  rcases hc.cases h with ⟨rfl, -⟩ | ⟨entry, m, time, now, outcome, rfl, -, settled⟩
  · cases hpath
  · cases outcome with
    | rejected => cases hpath
    | added | updated =>
        cases hpath
        obtain ⟨⟨id, hfile⟩, verdict⟩ := settled
        exact ⟨_, hfile, verdict.duration_pos rfl⟩

structure Safeguarded (s : State) : Prop where
  changes : ∀ m : Mutation, m.RefersWithin s →
    Ends m.run s (fun _ t => t.Coherent ∧ t.Intact) fun _ t => t.Coherent ∧ t.Intact
  resolvesArtists : ∀ infos borrows, Succeeds (resolveArtists infos borrows) s fun artists t =>
    (t.Coherent ∧ t.Intact) ∧ ∀ artist ∈ artists, artist.id ∈ t.artists.rows
  resolvesRelease : ∀ album, Succeeds (resolveRelease album) s fun found t =>
    (t.Coherent ∧ t.Intact) ∧ ∀ release ∈ found, release.id ∈ t.releases.rows
  resolvesClusters : ∀ values, Succeeds (resolveClusters values) s fun clusters t =>
    (t.Coherent ∧ t.Intact) ∧ ∀ cluster ∈ clusters, cluster.id ∈ t.clusters
  commits : ∀ {plan : Plan} {t : State} {written? : Option String}, Commit plan s t written? →
    (t.Coherent ∧ t.Intact) ∧ WritesSound s written? t ∧
      ∀ path, written? = some path → ∃ file, t.fileAt path = some file ∧ 0 < file.durationMs
  scans : ∀ {σ κ : Type} (env : Surroundings σ κ) (plan : Plan) (w : σ),
    Succeeds (process env plan) (Run.start w s) fun _ r =>
      (r.catalog.Coherent ∧ r.catalog.Intact) ∧
        Relation.ReflTransGen (fun t u => ∃ written?, Commit plan t u written?) s r.catalog ∧
          ∀ (i : TrackId) (track : Track), r.catalog.tracks[i]? = some track →
            s.tracks[i]? = some track ∨ 0 < track.durationMs

/-- Changes that are asked to refer only to what is there, finders, commits and whole scans, aborted
or not, keep all references intact, and scans write no track without a duration. -/
theorem safeguarded (h : s.Coherent) (intact : s.Intact) : Safeguarded s where
  changes := fun m hm => ((m.keeps_coherent s h).and (m.keeps_intact h intact hm)).imp
    (fun _ _ => id) fun _ _ => id
  resolvesArtists := fun infos borrows => (resolveArtists_finds infos borrows s h).imp
    (fun _ _ ht => ⟨⟨ht.1, intact.gains ht.2.1⟩, ht.2.2⟩) fun _ _ => id
  resolvesRelease := fun album => (resolveRelease_finds album s h).imp
    (fun _ _ ht => ⟨⟨ht.1, intact.gains ht.2.1⟩, ht.2.2⟩) fun _ _ => id
  resolvesClusters := fun values => (resolveClusters_provides values h).imp
    (fun _ _ ht => ⟨⟨ht.coherent, intact.gains ht.gains⟩, ht.there⟩) fun _ _ => id
  commits := fun hc => ⟨⟨hc.coherent h, (hc.intact h intact).1⟩, (hc.intact h intact).2,
    fun _ => hc.written_pos h⟩
  scans := fun env plan w => by
    let P (t : State) : Prop := (t.Coherent ∧ t.Intact) ∧
      Relation.ReflTransGen (fun t u => ∃ written?, Commit plan t u written?) s t ∧
        ∀ (i : TrackId) (track : Track), t.tracks[i]? = some track →
          s.tracks[i]? = some track ∨ 0 < track.durationMs
    refine process_commits (P := P) (fun ht => ht.1.1) env plan (fun {t u written?} ht hc => ?_)
      ⟨⟨h, intact⟩, .refl, fun _ _ => .inl⟩ w
    obtain ⟨⟨coherent, intact⟩, chain, durations⟩ := ht
    obtain ⟨intact', writes⟩ := hc.intact coherent intact
    refine ⟨⟨hc.coherent coherent, intact'⟩, chain.tail ⟨written?, hc⟩, fun i track hrow => ?_⟩
    rcases writes i track hrow with hrow | ⟨-, hpos⟩
    · exact durations i track hrow
    · exact .inr hpos

def rockSong : Path → Except Tag.ParseError Tag.Metadata := fun _ =>
  .ok { audioStreams := 1, durationMs := 1000, artists := [{ name := "A" }],
        album := some { name := "B" }, clusters := .ofList [("GENRE", .ofList ["Rock"] compare)] compare }

def trackLinks (s : State) : List (Option Nat × List Nat × Nat) :=
  s.tracks.toList.map fun row => (row.2.releaseId.map EntityId.number,
    row.2.clusterIds.toList.map EntityId.number, row.2.durationMs)

theorem exists_scan {σ κ : Type} (env : Surroundings σ κ) (plan : Plan) (w : σ) (s : State)
    {Q : State → Prop}
    (h : Succeeds (process env plan) (Run.start w s) fun _ r => Q r.catalog) :
    ∃ r, process env plan (Run.start w s) = .ok () r ∧ Q r.catalog := by
  obtain ⟨_, r, hrun, hr⟩ := succeeds_iff.mp h
  exact ⟨r, hrun, hr⟩

theorem safeguarded_rockSong : ∃ s r t,
    s = Mutation.after {} (.createClusterType "GENRE") ∧
    process (quiet (album [("a.mp3", 1)]) rockSong 0) (albumPlan false) (Run.start [] s) =
      .ok () r ∧
    t = Mutation.after r.catalog (.removeCluster ⟨1⟩) ∧
    trackLinks r.catalog = [(some 1, [1], 1000)] ∧ trackLinks t = [(some 1, [], 1000)] ∧
    s.Intact ∧ r.catalog.Intact ∧ t.Intact := by
  obtain ⟨s, hs⟩ : ∃ s, s = Mutation.after {} (.createClusterType "GENRE") := ⟨_, rfl⟩
  have typed : s.Coherent ∧ s.Intact := by
    rw [hs]
    exact Mutation.after_of_ends ((safeguarded State.coherent_empty State.intact_empty).changes
      (.createClusterType "GENRE") trivial)
  obtain ⟨r, hrun, links⟩ := exists_scan (quiet (album [("a.mp3", 1)]) rockSong 0)
    (albumPlan false) [] s (Q := fun t => (trackLinks t == [(some 1, [1], 1000)] &&
      trackLinks (Mutation.after t (.removeCluster ⟨1⟩)) == [(some 1, [], 1000)]) = true)
    (by rw [hs]; decide +kernel)
  simp only [Bool.and_eq_true, beq_iff_eq] at links
  have scanned := (safeguarded typed.1 typed.2).scans
    (quiet (album [("a.mp3", 1)]) rockSong 0) (albumPlan false) []
  rw [Succeeds, Ends, hrun] at scanned
  obtain ⟨⟨coherent, intact⟩, -⟩ := scanned
  have removed := Mutation.after_of_ends
    ((safeguarded coherent intact).changes (.removeCluster ⟨1⟩) trivial)
  exact ⟨s, r, _, hs, hrun, rfl, links.1, links.2, typed.2, intact, removed.2⟩

end AudioCatalog.Scan
