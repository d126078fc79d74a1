import AudioCatalog.Proofs.CreditChange

namespace AudioCatalog.Catalog

section Entries

variable {α β : Type} [Ord α] [Ord β] [Std.TransOrd α] [Std.TransOrd β] [Std.LawfulEqOrd α]
  [Std.LawfulEqOrd β] {r : Relation α β}

theorem contains_moveEntry {before after : Option α} {b d : β} {c : α} :
    (Session.moveEntry r before after b).contains c d ↔
      (after = some c ∧ d = b) ∨ (¬ (before = some c ∧ d = b) ∧ r.contains c d) := by
  cases before <;> cases after <;>
    simp [Session.moveEntry, Relation.contains_insert, Relation.contains_erase, eq_comm]

theorem contains_eraseEntries {before : List α} {b d : β} {c : α} :
    (Session.eraseEntries r before b).contains c d ↔ ¬ (c ∈ before ∧ d = b) ∧ r.contains c d := by
  induction before generalizing r with
  | nil => simp [Session.eraseEntries]
  | cons a before ih =>
      rw [Session.eraseEntries, List.foldl_cons, ← Session.eraseEntries, ih,
        Relation.contains_erase, List.mem_cons]
      tauto

theorem contains_insertEntries {after : List α} {b d : β} {c : α} :
    (Session.insertEntries r after b).contains c d ↔ (c ∈ after ∧ d = b) ∨ r.contains c d := by
  induction after generalizing r with
  | nil => simp [Session.insertEntries]
  | cons a after ih =>
      rw [Session.insertEntries, List.foldl_cons, ← Session.insertEntries, ih,
        Relation.contains_insert, List.mem_cons]
      tauto

end Entries

namespace State

def withNewTrack (path : String) (s : State) : State := { s with
  nextTrack := s.nextTrack + 1
  tracks := s.tracks.insert ⟨s.nextTrack⟩ { id := ⟨s.nextTrack⟩, path }
  trackByPath := s.trackByPath.insert path ⟨s.nextTrack⟩ }

def withTrack (previous track : Track) (s : State) : State := { s with
  tracks := s.tracks.insert track.id track
  trackByPath := if previous.path = track.path then s.trackByPath
    else (s.trackByPath.erase previous.path).insert track.path track.id
  tracksByRecording := if previous.recordingMbid = track.recordingMbid then s.tracksByRecording
    else Session.moveEntry s.tracksByRecording previous.recordingMbid track.recordingMbid track.id
  tracksOfRelease := if previous.releaseId = track.releaseId then s.tracksOfRelease
    else Session.moveEntry s.tracksOfRelease previous.releaseId track.releaseId track.id
  tracksOfCluster := if previous.clusterIds = track.clusterIds then s.tracksOfCluster
    else Session.insertEntries
      (Session.eraseEntries s.tracksOfCluster
        (previous.clusterIds.toList.filter fun id => !track.clusterIds.contains id) track.id)
      (track.clusterIds.toList.filter fun id => !previous.clusterIds.contains id) track.id }

def withoutTrack (id : TrackId) (track : Track) (s : State) : State := { s.withoutCreditsOf id with
  tracks := s.tracks.erase id
  trackByPath := s.trackByPath.erase track.path
  tracksByRecording := Session.moveEntry s.tracksByRecording track.recordingMbid none track.id
  tracksOfRelease := Session.moveEntry s.tracksOfRelease track.releaseId none track.id
  tracksOfCluster := Session.eraseEntries s.tracksOfCluster track.clusterIds.toList track.id
  features := s.features.erase id }

variable {s : State}

theorem indexAll_eq_withTrack (previous track : Track) :
    { Session.indexClusters previous track (Session.indexRelease previous track
        (Session.indexRecording previous track (Session.indexPath previous track s))) with
      tracks := (Session.indexClusters previous track (Session.indexRelease previous track
        (Session.indexRecording previous track
          (Session.indexPath previous track s)))).tracks.insert track.id track } =
      s.withTrack previous track := by
  simp only [withTrack, Session.indexClusters, Session.indexRelease, Session.indexRecording,
    Session.indexPath]
  split_ifs <;> rfl

theorem updateTrack_ends_iff {track : Track} {ok : Unit → State → Prop}
    {error : Error → State → Prop} :
    Ends (Session.updateTrack track) s ok error ↔
      match s.tracks[track.id]? with
      | some previous => ok () (s.withTrack previous track)
      | none => error (missing track.id) s := by
  unfold Session.updateTrack
  simp only [Ends.bind_iff, Session.query_ends_iff, Ends.modify_iff, indexed]
  cases s.tracks[track.id]? with
  | none => rfl
  | some previous => simp only [indexAll_eq_withTrack]

theorem createTrack_ends_iff {path : String} {ok : Track → State → Prop}
    {error : Error → State → Prop} :
    Ends (Session.createTrack path) s ok error ↔
      match s.findTrackByPath path with
      | .ok none => ok { id := ⟨s.nextTrack⟩, path } (s.withNewTrack path)
      | .ok (some _) => error (.conflict (.pathTaken path)) s
      | .error e => error e s := by
  unfold Session.createTrack
  simp only [Ends.bind_iff, Session.query_ends_iff]
  rcases s.findTrackByPath path with e | _ | track <;> rfl

theorem removeTrack_ends_iff {id : TrackId} {ok : Bool → State → Prop}
    {error : Error → State → Prop} :
    Ends (Session.removeTrack id) s ok error ↔
      match s.tracks[id]? with
      | some track => ok true (s.withoutTrack id track)
      | none => ok false s := by
  unfold Session.removeTrack findTrack?
  simp only [Ends.bind_iff, Ends.get_iff]
  cases s.tracks[id]? <;> rfl

namespace TracksCoherent

variable (h : s.TracksCoherent)
include h

theorem withNewTrack (path : String) : (s.withNewTrack path).TracksCoherent := by
  have fresh := h.numbered.getElem?_next
  refine ⟨h.numbered.insert_next rfl, ?_, ?_, ?_, ?_⟩
  · intro p i hi
    simp only [State.withNewTrack, Std.ExtTreeMap.getElem?_insert] at hi ⊢
    split_ifs at hi with hp
    · cases hi
      exact ⟨{ id := ⟨s.nextTrack⟩, path }, by rw [if_pos Std.compare_self],
        Std.LawfulEqOrd.eq_of_compare hp⟩
    · obtain ⟨track, hrow, hpath⟩ := h.byPath hi
      refine ⟨track, ?_, hpath⟩
      split_ifs with he
      · rw [← Std.LawfulEqOrd.eq_of_compare he, fresh] at hrow
        cases hrow
      · exact hrow
  · refine h.byRecording.insert (fun m => ?_) fun _ _ _ => Iff.rfl
    simpa [State.withNewTrack] using h.byRecording.not_entry fresh m
  · refine h.ofRelease.insert (fun r => ?_) fun _ _ _ => Iff.rfl
    simpa [State.withNewTrack] using h.ofRelease.not_entry fresh r
  · refine h.ofCluster.insert (fun c => ?_) fun _ _ _ => Iff.rfl
    simpa [State.withNewTrack] using h.ofCluster.not_entry fresh c

theorem withTrack {previous track : Track} (hrow : s.tracks[track.id]? = some previous) :
    (s.withTrack previous track).TracksCoherent := by
  refine ⟨h.numbered.replace hrow rfl, ?_, ?_, ?_, ?_⟩
  · intro p i hi
    have kept (hi : s.trackByPath[p]? = some i)
        (hne : previous.path = track.path ∨ previous.path ≠ p) :
        ∃ other, (s.tracks.insert track.id track)[i]? = some other ∧ other.path = p := by
      obtain ⟨other, hother, hpath⟩ := h.byPath hi
      rw [Std.ExtTreeMap.getElem?_insert]
      split_ifs with hid
      · rw [← Std.LawfulEqOrd.eq_of_compare hid, hrow] at hother
        cases hother
        rcases hne with hne | hne
        · exact ⟨track, rfl, hne ▸ hpath⟩
        · exact absurd hpath hne
      · exact ⟨other, hother, hpath⟩
    simp only [State.withTrack] at hi ⊢
    split_ifs at hi with hpath
    · exact kept hi (.inl hpath)
    · rw [Std.ExtTreeMap.getElem?_insert] at hi
      split_ifs at hi with hp
      · cases hi
        exact ⟨track, Std.ExtTreeMap.getElem?_insert_self, Std.LawfulEqOrd.eq_of_compare hp⟩
      · rw [Std.ExtTreeMap.getElem?_erase] at hi
        split_ifs at hi with hprevious
        exact kept hi (.inr fun he => hprevious (he ▸ Std.compare_self))
  · have own (m : Mbid) := h.byRecording.iff_of_row hrow m
    refine h.byRecording.insert (fun m => ?_) fun m j hj => ?_
    all_goals
      simp only [State.withTrack]
      split_ifs <;> grind [contains_moveEntry]
  · have own (r : ReleaseId) := h.ofRelease.iff_of_row hrow r
    refine h.ofRelease.insert (fun r => ?_) fun r j hj => ?_
    all_goals
      simp only [State.withTrack]
      split_ifs <;> grind [contains_moveEntry]
  · have own (c : ClusterId) := h.ofCluster.iff_of_row hrow c
    refine h.ofCluster.insert (fun c => ?_) fun c j hj => ?_
    all_goals
      simp only [State.withTrack]
      split_ifs with hclusters
    · rw [own, hclusters]
    · simp only [contains_insertEntries, contains_eraseEntries, own, List.mem_filter,
        Std.ExtTreeSet.mem_toList, Bool.not_eq_true', ← Std.ExtTreeSet.contains_iff_mem]
      cases previous.clusterIds.contains c <;> cases track.clusterIds.contains c <;> simp
    · rfl
    · simp [contains_insertEntries, contains_eraseEntries, hj]

theorem withoutTrack {id : TrackId} {track : Track} (hrow : s.tracks[id]? = some track) :
    (s.withoutTrack id track).TracksCoherent := by
  have hid : track.id = id := h.numbered.id_eq hrow
  have rows (i : TrackId) (other : Track) : (s.withoutTrack id track).tracks[i]? = some other ↔
      s.tracks[i]? = some other ∧ i ≠ id := getElem?_erase_eq_some
  refine ⟨h.numbered.of_subset fun i other hi => ((rows i other).mp hi).1, ?_,
    h.byRecording.restrict rows fun m i => ?_, h.ofRelease.restrict rows fun r i => ?_,
    h.ofCluster.restrict rows fun c i => ?_⟩
  · intro p i hi
    simp only [State.withoutTrack, Std.ExtTreeMap.getElem?_erase] at hi
    split_ifs at hi with hp
    obtain ⟨other, hother, hpath⟩ := h.byPath hi
    refine ⟨other, (rows i other).mpr ⟨hother, ?_⟩, hpath⟩
    rintro rfl
    rw [hrow] at hother
    cases hother
    exact hp (hpath ▸ Std.compare_self)
  · have own := h.byRecording.iff_of_row hrow m
    simp only [State.withoutTrack, contains_moveEntry]
    grind
  · have own := h.ofRelease.iff_of_row hrow r
    simp only [State.withoutTrack, contains_moveEntry]
    grind
  · have own := h.ofCluster.iff_of_row hrow c
    simp only [State.withoutTrack, contains_eraseEntries, Std.ExtTreeSet.mem_toList]
    grind

end TracksCoherent

namespace Coherent

variable (h : s.Coherent)
include h

theorem withNewTrack (path : String) : (s.withNewTrack path).Coherent where
  tracks := h.tracks.withNewTrack path
  credits := { h.credits with }
  clusters := { h.clusters with }
  artists := h.artists
  releases := h.releases

theorem withTrack {previous track : Track} (hrow : s.tracks[track.id]? = some previous) :
    (s.withTrack previous track).Coherent where
  tracks := h.tracks.withTrack hrow
  credits := { h.credits with }
  clusters := { h.clusters with }
  artists := h.artists
  releases := h.releases

theorem withoutTrack {id : TrackId} {track : Track} (hrow : s.tracks[id]? = some track) :
    (s.withoutTrack id track).Coherent where
  tracks := h.tracks.withoutTrack hrow
  credits := { h.credits.withoutCreditsOf id with }
  clusters := { h.clusters with }
  artists := h.artists
  releases := h.releases

end Coherent

end State

end AudioCatalog.Catalog
