import AudioCatalog.Proofs.Absence
import AudioCatalog.Proofs.PathUniqueness

namespace AudioCatalog

open Catalog

def Subject.remove : Subject → Session Bool
  | .track id => Session.removeTrack id
  | .artist id => Session.removeArtist id
  | .release id => Session.removeRelease id
  | .cluster id => Session.removeCluster id

namespace Catalog

open Session

namespace State

variable {s t : State}

def Has (s : State) : Subject → Prop
  | .track id => id ∈ s.tracks
  | .artist id => id ∈ s.artists.rows
  | .release id => id ∈ s.releases.rows
  | .cluster id => id ∈ s.clusters

/-- A row or an entry of an index is there that is the subject's own or has a link to it. -/
inductive Mentions (s : State) : Subject → Prop
  | row {x : Subject} (h : s.Has x) : Mentions s x
  | features {id : TrackId} (h : id ∈ s.features) : Mentions s (.track id)
  | path {path : String} {id : TrackId} (h : s.trackByPath[path]? = some id) :
      Mentions s (.track id)
  | recording {mbid : Mbid} {id : TrackId} (h : s.tracksByRecording.contains mbid id) :
      Mentions s (.track id)
  | trackOfRelease {release : ReleaseId} {id : TrackId}
      (h : s.tracksOfRelease.contains release id) : Mentions s (.track id)
  | trackOfCluster {cluster : ClusterId} {id : TrackId}
      (h : s.tracksOfCluster.contains cluster id) : Mentions s (.track id)
  | creditOf {i : CreditId} {credit : Credit} (h : s.credits[i]? = some credit) :
      Mentions s (.track credit.trackId)
  | creditOfTrack {id : TrackId} {i : CreditId} (h : s.creditsOfTrack.contains id i) :
      Mentions s (.track id)
  | artistMbid {mbid : Mbid} {id : ArtistId} (h : s.artists.byMbid[mbid]? = some id) :
      Mentions s (.artist id)
  | artistName {name : String} {id : ArtistId} (h : s.artists.byName.contains name id) :
      Mentions s (.artist id)
  | creditTo {i : CreditId} {credit : Credit} (h : s.credits[i]? = some credit) :
      Mentions s (.artist credit.artistId)
  | creditOfArtist {id : ArtistId} {i : CreditId} (h : s.creditsOfArtist.contains id i) :
      Mentions s (.artist id)
  | releaseMbid {mbid : Mbid} {id : ReleaseId} (h : s.releases.byMbid[mbid]? = some id) :
      Mentions s (.release id)
  | releaseName {name : String} {id : ReleaseId} (h : s.releases.byName.contains name id) :
      Mentions s (.release id)
  | onRelease {i : TrackId} {track : Track} {id : ReleaseId} (h : s.tracks[i]? = some track)
      (link : track.releaseId = some id) : Mentions s (.release id)
  | releaseTrack {id : ReleaseId} {i : TrackId} (h : s.tracksOfRelease.contains id i) :
      Mentions s (.release id)
  | clusterKey {text : String} {id : ClusterId} (h : s.clusterByKey[text]? = some id) :
      Mentions s (.cluster id)
  | inCluster {i : TrackId} {track : Track} {id : ClusterId} (h : s.tracks[i]? = some track)
      (link : id ∈ track.clusterIds) : Mentions s (.cluster id)
  | clusterTrack {id : ClusterId} {i : TrackId} (h : s.tracksOfCluster.contains id i) :
      Mentions s (.cluster id)

theorem Drops.not_mentions {gone : Subject → Bool} (h : s.Drops gone t) (ht : t.Coherent)
    {x : Subject} (hx : gone x = true) : ¬ t.Mentions x := by
  have track {i : TrackId} {track : Track} (hrow : t.tracks[i]? = some track) :
      gone (.track i) = false := ((h.tracks i track).mp hrow).1
  have artist {i : ArtistId} {artist : Artist} (hrow : t.artists.rows[i]? = some artist) :
      gone (.artist i) = false := ((h.artists i artist).mp hrow).2
  have release {i : ReleaseId} {release : Release} (hrow : t.releases.rows[i]? = some release) :
      gone (.release i) = false := ((h.releases i release).mp hrow).2
  have cluster {i : ClusterId} {cluster : Cluster} (hrow : t.clusters[i]? = some cluster) :
      gone (.cluster i) = false := ((h.clusters i cluster).mp hrow).2
  have credit {i : CreditId} {credit : Credit} (hrow : t.credits[i]? = some credit) :
      gone (.track credit.trackId) = false ∧ gone (.artist credit.artistId) = false :=
    ((h.credits i credit).mp hrow).2
  have onRelease {i : TrackId} {track : Track} {id : ReleaseId} (hrow : t.tracks[i]? = some track)
      (link : track.releaseId = some id) : gone (.release id) = false := by
    obtain ⟨-, before, -, rfl⟩ := (h.tracks i track).mp hrow
    exact (Track.releaseId_without_eq_some.mp link).2
  have inCluster {i : TrackId} {track : Track} {id : ClusterId} (hrow : t.tracks[i]? = some track)
      (link : id ∈ track.clusterIds) : gone (.cluster id) = false := by
    obtain ⟨-, before, -, rfl⟩ := (h.tracks i track).mp hrow
    exact (Track.mem_clusterIds_without.mp link).2
  intro mentions
  suffices gone x = false by simp [hx] at this
  cases mentions with
  | row hrow =>
      cases x with
      | track id => exact (exists_row_of_mem hrow).elim fun _ => track
      | artist id => exact (exists_row_of_mem hrow).elim fun _ => artist
      | release id => exact (exists_row_of_mem hrow).elim fun _ => release
      | cluster id => exact (exists_row_of_mem hrow).elim fun _ => cluster
  | features hrow =>
      obtain ⟨features, hrow⟩ := exists_row_of_mem hrow
      exact ((h.features _ features).mp hrow).2
  | path hentry => exact ((h.trackByPath _ _).mp hentry).2
  | recording hentry => exact ((ht.tracks.byRecording _ _).mp hentry).elim fun _ hi => track hi.1
  | trackOfRelease hentry => exact ((ht.tracks.ofRelease _ _).mp hentry).elim fun _ hi => track hi.1
  | trackOfCluster hentry => exact ((ht.tracks.ofCluster _ _).mp hentry).elim fun _ hi => track hi.1
  | creditOf hrow => exact (credit hrow).1
  | creditOfTrack hentry =>
      obtain ⟨_, hrow, rfl⟩ := (ht.credits.ofTrack _ _).mp hentry
      exact (credit hrow).1
  | artistMbid hentry => exact ((ht.artists.byMbid _ _).mp hentry).elim fun _ hi => artist hi.1
  | artistName hentry => exact ((ht.artists.byName _ _).mp hentry).elim fun _ hi => artist hi.1
  | creditTo hrow => exact (credit hrow).2
  | creditOfArtist hentry =>
      obtain ⟨_, hrow, rfl⟩ := (ht.credits.ofArtist _ _).mp hentry
      exact (credit hrow).2
  | releaseMbid hentry => exact ((ht.releases.byMbid _ _).mp hentry).elim fun _ hi => release hi.1
  | releaseName hentry => exact ((ht.releases.byName _ _).mp hentry).elim fun _ hi => release hi.1
  | onRelease hrow link => exact onRelease hrow link
  | releaseTrack hentry =>
      exact ((ht.tracks.ofRelease _ _).mp hentry).elim fun _ hi => onRelease hi.1 hi.2
  | clusterKey hentry => exact ((ht.clusters.byKey _ _).mp hentry).elim fun _ hi => cluster hi.1
  | inCluster hrow link => exact inCluster hrow link
  | clusterTrack hentry =>
      exact ((ht.tracks.ofCluster _ _).mp hentry).elim fun _ hi => inCluster hi.1 hi.2

/-- The tracks of the numbers have other links to releases and clusters, which their indexes have
followed. -/
structure Relinks (s : State) (change : Track → Track) (ids : List TrackId) (t : State) : Prop where
  coherent : t.Coherent
  rows : ∀ i : TrackId, t.tracks[i]? =
    s.tracks[i]?.map fun track => if i ∈ ids then change track else track
  others : t = { s with
    tracks := t.tracks
    tracksOfRelease := t.tracksOfRelease
    tracksOfCluster := t.tracksOfCluster }

namespace Coherent

variable (h : s.Coherent)
include h

theorem changeTracks_relinks (change : Track → Track)
    (hchange : ∀ track, (change track).unlinked = track.unlinked)
    (again : ∀ track, change (change track) = change track) (ids : List TrackId) :
    Succeeds (changeTracks ids change) s fun _ => s.Relinks change ids := by
  have hid (track : Track) : (change track).id = track.id := by
    have := congrArg Track.id (hchange track)
    exact this
  have hpath (track : Track) : (change track).path = track.path := by
    have := congrArg Track.path (hchange track)
    exact this
  have hrecording (track : Track) : (change track).recordingMbid = track.recordingMbid := by
    have := congrArg Track.recordingMbid (hchange track)
    exact this
  refine Ends.forM_along (I := s.Relinks change) ?_ ⟨h, by simp, rfl⟩
  rintro id - done t ⟨ht, rows, others⟩
  have here := rows id
  rw [Ends.bind_iff, Ends.get_iff]
  cases hrow : t.findTrack? id with
  | none =>
      have absent : s.tracks[id]? = none := by
        rw [findTrack?] at hrow
        rwa [hrow, eq_comm, Option.map_eq_none_iff] at here
      refine ⟨ht, fun i => ?_, others⟩
      by_cases hi : i = id
      · rw [rows, hi, absent]
        rfl
      · simp [rows, hi]
  | some track =>
      have hown : t.tracks[(change track).id]? = some track := by
        rw [hid, ht.tracks.numbered.id_eq hrow]
        exact hrow
      rw [updateTrack_ends_iff, hown]
      refine ⟨ht.withTrack hown, fun i => ?_, ?_⟩
      · rw [State.withTrack, hid, ht.tracks.numbered.id_eq hrow]
        by_cases hi : i = id
        · subst hi
          rw [findTrack?] at hrow
          rw [hrow, eq_comm, Option.map_eq_some_iff] at here
          obtain ⟨before, hbefore, hsame⟩ := here
          have changed : change track = change before := by
            rw [← hsame]
            split_ifs
            · exact again before
            · rfl
          simp [hbefore, changed]
        · rw [getElem?_insert_of_ne hi, rows]
          simp [hi]
      · rw [others, State.withTrack]
        simp [hpath, hrecording]

end Coherent

/-- Where tracks have lost their links to what is gone, its rows may go too. -/
theorem Relinks.drops {change : Track → Track} {ids : List TrackId} (h : s.Relinks change ids t)
    {gone : Subject → Bool} (noTrack : ∀ i, gone (.track i) = false)
    (noArtist : ∀ i, gone (.artist i) = false)
    (links : ∀ (i : TrackId) (before : Track), s.tracks[i]? = some before →
      before.without gone = if i ∈ ids then change before else before)
    {releases : Registry .release Unit} {clusters : Table ClusterId Cluster}
    (hreleases : ∀ (i : ReleaseId) (release : Release), releases.rows[i]? = some release ↔
      s.releases.rows[i]? = some release ∧ gone (.release i) = false)
    (hclusters : ∀ (i : ClusterId) (cluster : Cluster), clusters[i]? = some cluster ↔
      s.clusters[i]? = some cluster ∧ gone (.cluster i) = false)
    (hnext : releases.next = s.releases.next) (clusterByKey : Table String ClusterId) :
    s.Drops gone { t with releases, clusters, clusterByKey } := by
  refine ⟨fun i track => ?_, ?_, ?_, hreleases, hclusters, ?_, ?_, ?_, ?_, hnext⟩
  · rw [h.rows, Option.map_eq_some_iff, and_iff_right (noTrack i)]
    refine exists_congr fun before => and_congr_right fun hrow => ?_
    rw [links i before hrow]
  all_goals rw [h.others]
  all_goals simp [noTrack, noArtist]

structure Answered (s : State) (x : Subject) (removed : Bool) (t : State) : Prop where
  coherent : t.Coherent
  there_iff : removed = true ↔ s.Has x
  drops : removed = true → s.Drops (fun y => decide (y = x)) t
  unchanged : removed = false → t = s

theorem Answered.none {x : Subject} (hs : s.Coherent) (h : ¬ s.Has x) : s.Answered x false s :=
  ⟨hs, by simp [h], by simp, fun _ => rfl⟩

theorem Answered.gone {x : Subject} (ht : t.Coherent) (h : s.Has x)
    (drops : s.Drops (fun y => decide (y = x)) t) : s.Answered x true t :=
  ⟨ht, by simp [h], fun _ => drops, by simp⟩

namespace Coherent

variable (h : s.Coherent)
include h

theorem removeTrack_answered (hs : s.Listed) (id : TrackId) :
    Succeeds (removeTrack id) s (s.Answered (.track id)) := by
  rw [Succeeds, removeTrack_ends_iff]
  cases hrow : s.tracks[id]? with
  | none => exact .none h (by simp [Has, Std.ExtTreeMap.mem_iff_isSome_getElem?, hrow])
  | some track =>
      exact .gone (h.withoutTrack hrow) (mem_of_getElem?_eq_some hrow)
        (h.withoutTrack_drops hrow (hs id track hrow))

theorem removeArtist_answered (id : ArtistId) :
    Succeeds (removeArtist id) s (s.Answered (.artist id)) := by
  rw [removeArtist, Succeeds, Ends.bind_iff, Ends.get_iff, Registry.find?]
  cases hrow : s.artists.rows[id]? with
  | none => exact .none h (by simp [Has, Std.ExtTreeMap.mem_iff_isSome_getElem?, hrow])
  | some artist =>
      obtain rfl := h.artists.numbered.id_eq hrow
      refine .gone ((h.withoutCreditsTo artist.id).withArtists (h.artists.erase hrow))
        (mem_of_getElem?_eq_some hrow) ?_
      refine ⟨fun i other => ?_, ?_, fun i other => ?_, ?_, ?_, fun i credit => ?_, ?_, rfl,
        Registry.erase_next artist, rfl⟩
      · simp [Track.without_eq_self]
      · simp
      · simp [Registry.erase_rows, getElem?_erase_eq_some]
      · simp
      · simp
      · exact (h.credits_withoutCreditsTo artist.id i credit).trans (by simp)
      · simp

theorem removeRelease_answered (id : ReleaseId) :
    Succeeds (removeRelease id) s (s.Answered (.release id)) := by
  rw [removeRelease, Succeeds, Ends.bind_iff, Ends.get_iff, Registry.find?]
  cases hrow : s.releases.rows[id]? with
  | none => exact .none h (by simp [Has, Std.ExtTreeMap.mem_iff_isSome_getElem?, hrow])
  | some release =>
      obtain rfl := h.releases.numbered.id_eq hrow
      dsimp only
      rw [Ends.bind_iff, Ends.get_iff]
      refine Ends.bind (h.changeTracks_relinks _ ?_ ?_ _) fun _ t relinks => ?_
      · exact fun _ => rfl
      · exact fun _ => rfl
      have there : t.releases.rows[release.id]? = some release := by rw [relinks.others, hrow]
      refine .gone (relinks.coherent.withReleases (relinks.coherent.releases.erase there))
        (mem_of_getElem?_eq_some hrow) ?_
      refine relinks.drops (by simp) (by simp) (fun i before hbefore => ?_) (fun i other => ?_)
        (fun i cluster => ?_) ((Registry.erase_next release).trans (by rw [relinks.others])) _
      · have member : i ∈ s.tracksOfRelease.image release.id ↔ before.releaseId = some release.id :=
          h.tracks.ofRelease.iff_of_row hbefore release.id
        split_ifs with hi
        · refine Track.without_eq rfl (fun id => ?_) fun id => ?_
          · simp [member.mp hi, eq_comm]
          · simp
        · refine Track.without_eq_self (fun id hid => ?_) fun _ _ => ?_
          · suffices id ≠ release.id by simpa using this
            rintro rfl
            exact hi (member.mpr hid)
          · simp
      · rw [relinks.others]
        simp [Registry.erase_rows, getElem?_erase_eq_some]
      · rw [relinks.others]
        simp

theorem removeCluster_answered (id : ClusterId) :
    Succeeds (removeCluster id) s (s.Answered (.cluster id)) := by
  rw [removeCluster, Succeeds, Ends.bind_iff, Ends.get_iff, findCluster?]
  cases hrow : s.clusters[id]? with
  | none => exact .none h (by simp [Has, Std.ExtTreeMap.mem_iff_isSome_getElem?, hrow])
  | some cluster =>
      obtain rfl := h.clusters.numbered.id_eq hrow
      dsimp only
      rw [Ends.bind_iff, Ends.get_iff]
      have again (track : Track) : (track.clusterIds.erase cluster.id).erase cluster.id =
          track.clusterIds.erase cluster.id := Std.ExtTreeSet.ext_mem fun _ => by simp
      refine Ends.bind (h.changeTracks_relinks _ ?_ ?_ _) fun _ t relinks => ?_
      · exact fun _ => rfl
      · exact fun track => by simp only [again]
      have there : t.clusters[cluster.id]? = some cluster := by rw [relinks.others, hrow]
      refine .gone (relinks.coherent.withoutCluster there) (mem_of_getElem?_eq_some hrow) ?_
      refine relinks.drops (by simp) (by simp) (fun i before hbefore => ?_) (fun i release => ?_)
        (fun i other => ?_) (by rw [relinks.others]) _
      · have member : i ∈ s.tracksOfCluster.image cluster.id ↔ cluster.id ∈ before.clusterIds :=
          h.tracks.ofCluster.iff_of_row hbefore cluster.id
        split_ifs with hi
        · refine Track.without_eq rfl (fun id => ?_) fun id => ?_
          · simp
          · rw [Std.ExtTreeSet.mem_erase, Ne, Std.compare_eq_iff_eq]
            simp [and_comm, eq_comm]
        · refine Track.without_eq_self (fun _ _ => ?_) fun id hid => ?_
          · simp
          · suffices id ≠ cluster.id by simpa using this
            rintro rfl
            exact hi (member.mpr hid)
      · rw [relinks.others]
        simp
      · rw [relinks.others]
        simp [getElem?_erase_eq_some]

theorem remove_answered (hs : s.Listed) (x : Subject) : Succeeds x.remove s (s.Answered x) := by
  cases x with
  | track id => exact h.removeTrack_answered hs id
  | artist id => exact h.removeArtist_answered id
  | release id => exact h.removeRelease_answered id
  | cluster id => exact h.removeCluster_answered id

end Coherent

theorem Drops.listed {gone : Subject → Bool} (h : s.Drops gone t) (hs : s.Listed) : t.Listed := by
  intro i track hrow
  obtain ⟨left, before, hbefore, rfl⟩ := (h.tracks i track).mp hrow
  exact (h.trackByPath _ i).mpr ⟨hs i before hbefore, left⟩

end State

def Mutation.KeepsPath (s : State) : Mutation → Prop
  | .updateTrack track => ∀ previous ∈ s.tracks[track.id]?, previous.path = track.path
  | _ => True

/-- Catalogs that changes lead to by which tracks keep their paths, from the empty one on. A change
may also be refused. -/
inductive PathKeeping : State → Prop
  | empty : PathKeeping {}
  | after {s : State} (hs : PathKeeping s) (m : Mutation) (keeps : m.KeepsPath s) :
      PathKeeping (m.after s)

theorem Mutation.KeepsPath.not_displaces {s : State} {m : Mutation} (h : m.KeepsPath s)
    (hs : s.Listed) : ¬ m.Displaces s := by
  cases m with
  | updateTrack track =>
      rintro ⟨hrow, i, other, hother, hpath, hne⟩
      obtain ⟨previous, hprevious⟩ := Option.isSome_iff_exists.mp hrow
      have first := hs i other hother
      have second := hs track.id previous hprevious
      rw [hpath] at first
      rw [h previous hprevious, first] at second
      exact hne (Option.some.inj second)
  | _ => exact id

theorem PathKeeping.coherent_listed {s : State} (h : PathKeeping s) : s.Coherent ∧ s.Listed := by
  induction h with
  | empty => exact ⟨State.coherent_empty, State.listed_empty⟩
  | after _ m keeps ih =>
      have listed := m.keeps_listed ih.1 ih.2 (keeps.not_displaces ih.2)
      exact ⟨Mutation.after_of_ends (m.keeps_coherent _ ih.1), Mutation.after_of_ends listed⟩

/-- What is removed is mentioned nowhere any more, and nothing else has changed than the links to
it. Where there is nothing to remove nothing changes, and so it is when it is removed again. -/
theorem PathKeeping.remove_exact {s : State} (h : PathKeeping s) (x : Subject) :
    ∃ removed t, x.remove s = .ok removed t ∧ (removed = true ↔ s.Has x) ∧
      (removed = true → s.Without (fun y => decide (y = x)) t ∧ ¬ t.Mentions x) ∧
      (removed = false → t = s) ∧ x.remove t = .ok false t := by
  obtain ⟨coherent, listed⟩ := h.coherent_listed
  obtain ⟨removed, t, hrun, answered⟩ := succeeds_iff.mp (coherent.remove_answered listed x)
  have gone : ¬ t.Has x ∧ t.Listed := by
    cases removed with
    | true =>
        have drops := answered.drops rfl
        have silent := drops.not_mentions answered.coherent (by simp : decide (x = x) = true)
        exact ⟨fun there => silent (.row there), drops.listed listed⟩
    | false =>
        rw [answered.unchanged rfl]
        exact ⟨fun there => by simpa using answered.there_iff.mpr there, listed⟩
  obtain ⟨again, u, hrun', answered'⟩ :=
    succeeds_iff.mp (answered.coherent.remove_answered gone.2 x)
  obtain rfl : again = false := by
    rw [← Bool.not_eq_true, answered'.there_iff]
    exact gone.1
  rw [answered'.unchanged rfl] at hrun'
  refine ⟨removed, t, hrun, answered.there_iff, fun hremoved => ?_, answered.unchanged, hrun'⟩
  have drops := answered.drops hremoved
  exact ⟨drops.without coherent answered.coherent, drops.not_mentions answered.coherent (by simp)⟩

theorem remove_exact_release : ∃ s t, PathKeeping s ∧
    Subject.remove (.release ⟨1⟩) s = .ok true t ∧
    s.Without (fun y => decide (y = .release ⟨1⟩)) t ∧ ¬ t.Mentions (.release ⟨1⟩) ∧
    t.tracks.toList.map (fun row => (row.2.path, row.2.releaseId, row.2.clusterIds.toList)) =
      [("a", none, [⟨1⟩]), ("b", none, []), ("c", some ⟨2⟩, [])] ∧
    Subject.remove (.release ⟨1⟩) t = .ok false t := by
  have kept := PathKeeping.empty.after (.createTrack "a") trivial
    |>.after (.createTrack "b") trivial
    |>.after (.createTrack "c") trivial
    |>.after (.createRelease "A" none) trivial
    |>.after (.createRelease "A" none) trivial
    |>.after (.createClusterType "genre") trivial
    |>.after (.createCluster ⟨⟨1⟩, "jazz"⟩) trivial
    |>.after (.updateTrack ({
      id := ⟨1⟩
      path := "a"
      releaseId := some ⟨1⟩
      clusterIds := (∅ : OrderedSet ClusterId).insert ⟨1⟩ })) (by unfold Mutation.KeepsPath; decide +kernel)
    |>.after (.updateTrack { id := ⟨2⟩, path := "b", releaseId := some ⟨1⟩ })
      (by unfold Mutation.KeepsPath; decide +kernel)
    |>.after (.updateTrack { id := ⟨3⟩, path := "c", releaseId := some ⟨2⟩ })
      (by unfold Mutation.KeepsPath; decide +kernel)
  obtain ⟨s, kept, ends⟩ : ∃ s, PathKeeping s ∧
      Succeeds (Subject.remove (.release ⟨1⟩)) s fun removed t => removed = true ∧
        t.tracks.toList.map (fun row => (row.2.path, row.2.releaseId, row.2.clusterIds.toList)) =
          [("a", none, [⟨1⟩]), ("b", none, []), ("c", some ⟨2⟩, [])] :=
    ⟨_, kept, by decide +kernel⟩
  obtain ⟨removed, t, hrun, -, complete, -, again⟩ := kept.remove_exact (.release ⟨1⟩)
  rw [Succeeds, Ends, hrun] at ends
  obtain ⟨rfl, tracks⟩ := ends
  exact ⟨s, t, kept, hrun, (complete rfl).1, (complete rfl).2, tracks, again⟩

end Catalog

end AudioCatalog
