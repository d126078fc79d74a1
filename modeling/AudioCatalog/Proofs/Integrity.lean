import AudioCatalog.Proofs.Dependability

namespace AudioCatalog.Catalog

namespace State

structure Intact (s : State) : Prop where
  creditTrack : ∀ {i : CreditId} {credit : Credit}, s.credits[i]? = some credit →
    credit.trackId ∈ s.tracks
  creditArtist : ∀ {i : CreditId} {credit : Credit}, s.credits[i]? = some credit →
    credit.artistId ∈ s.artists.rows
  trackRelease : ∀ {i : TrackId} {track : Track} {id : ReleaseId}, s.tracks[i]? = some track →
    track.releaseId = some id → id ∈ s.releases.rows
  trackCluster : ∀ {i : TrackId} {track : Track} {id : ClusterId}, s.tracks[i]? = some track →
    id ∈ track.clusterIds → id ∈ s.clusters
  clusterType : ∀ {i : ClusterId} {cluster : Cluster}, s.clusters[i]? = some cluster →
    cluster.typeId ∈ s.clusterTypes
  featuresTrack : ∀ {i : TrackId}, i ∈ s.features → i ∈ s.tracks

structure Links (s : State) (track : Track) : Prop where
  release : ∀ id, track.releaseId = some id → id ∈ s.releases.rows
  clusters : ∀ id ∈ track.clusterIds, id ∈ s.clusters

variable {s t : State}

theorem intact_empty : ({} : State).Intact := by
  constructor <;> simp

namespace Intact

variable (h : s.Intact)
include h

theorem gains (hst : s.Gains t) : t.Intact where
  creditTrack := by
    rw [hst.credits, hst.tracks]
    exact h.creditTrack
  creditArtist := by
    rw [hst.credits]
    exact fun hrow => hst.artists (h.creditArtist hrow)
  trackRelease := by
    rw [hst.tracks]
    exact fun hrow hid => hst.releases (h.trackRelease hrow hid)
  trackCluster := by
    rw [hst.tracks]
    exact fun hrow hid => hst.clusters (h.trackCluster hrow hid)
  clusterType := fun hrow => by
    rcases hst.typed hrow with hrow | htype
    · exact hst.clusterTypes (h.clusterType hrow)
    · exact htype
  featuresTrack := by
    rw [hst.features, hst.tracks]
    exact h.featuresTrack

theorem withNewTrack (path : String) : (s.withNewTrack path).Intact := by
  refine { h with
    creditTrack := fun hrow => mem_insert_of_mem (h.creditTrack hrow)
    trackRelease := fun hrow hid => ?_
    trackCluster := fun hrow hid => ?_
    featuresTrack := fun hi => mem_insert_of_mem (h.featuresTrack hi) }
  · rcases eq_or_of_getElem?_insert hrow with rfl | hrow
    · cases hid
    · exact h.trackRelease hrow hid
  · rcases eq_or_of_getElem?_insert hrow with rfl | hrow
    · simp at hid
    · exact h.trackCluster hrow hid

theorem withTrack (previous : Track) {track : Track} (links : s.Links track) :
    (s.withTrack previous track).Intact := by
  refine { h with
    creditTrack := fun hrow => mem_insert_of_mem (h.creditTrack hrow)
    trackRelease := fun hrow hid => ?_
    trackCluster := fun hrow hid => ?_
    featuresTrack := fun hi => mem_insert_of_mem (h.featuresTrack hi) }
  · rcases eq_or_of_getElem?_insert hrow with rfl | hrow
    · exact links.release _ hid
    · exact h.trackRelease hrow hid
  · rcases eq_or_of_getElem?_insert hrow with rfl | hrow
    · exact links.clusters _ hid
    · exact h.trackCluster hrow hid

theorem withCredit {credit : Credit} (htrack : credit.trackId ∈ s.tracks)
    (hartist : credit.artistId ∈ s.artists.rows) : (s.withCredit credit).Intact := by
  refine { h with
    creditTrack := fun hrow => ?_
    creditArtist := fun hrow => ?_ }
  · rcases eq_or_of_getElem?_insert hrow with rfl | hrow
    · exact htrack
    · exact h.creditTrack hrow
  · rcases eq_or_of_getElem?_insert hrow with rfl | hrow
    · exact hartist
    · exact h.creditArtist hrow

theorem withoutCreditsOf (id : TrackId) : (s.withoutCreditsOf id).Intact := { h with
  creditTrack := fun hrow => h.creditTrack (Session.credits_dropCredits.mp hrow).1
  creditArtist := fun hrow => h.creditArtist (Session.credits_dropCredits.mp hrow).1 }

theorem withoutCreditsTo (id : ArtistId) : (s.withoutCreditsTo id).Intact := { h with
  creditTrack := fun hrow => h.creditTrack (Session.credits_dropCredits.mp hrow).1
  creditArtist := fun hrow => h.creditArtist (Session.credits_dropCredits.mp hrow).1 }

theorem withFeatures {id : TrackId} (hid : id ∈ s.tracks) (features : List UInt8) :
    ({ s with features := s.features.insert id features } : State).Intact := { h with
  featuresTrack := fun hi => by
    rcases Std.ExtTreeMap.mem_insert.mp hi with heq | hi
    · exact Std.LawfulEqOrd.eq_of_compare heq ▸ hid
    · exact h.featuresTrack hi }

theorem withoutFeatures (id : TrackId) :
    ({ s with features := s.features.erase id } : State).Intact := { h with
  featuresTrack := fun hi => h.featuresTrack (Std.ExtTreeMap.mem_of_mem_erase hi) }

theorem withoutTrack (hs : s.Coherent) (id : TrackId) (track : Track) :
    (s.withoutTrack id track).Intact := by
  have kept {i : TrackId} (hi : i ∈ s.tracks) (hne : i ≠ id) :
      i ∈ (s.withoutTrack id track).tracks :=
    Std.ExtTreeMap.mem_erase.mpr ⟨fun heq => hne (Std.LawfulEqOrd.eq_of_compare heq).symm, hi⟩
  refine { h with
    creditTrack := fun hrow => ?_
    creditArtist := fun hrow => h.creditArtist (Session.credits_dropCredits.mp hrow).1
    trackRelease := fun hrow => h.trackRelease (getElem?_erase_eq_some.mp hrow).1
    trackCluster := fun hrow => h.trackCluster (getElem?_erase_eq_some.mp hrow).1
    featuresTrack := fun hi => ?_ }
  · obtain ⟨hrow, hother⟩ := Session.credits_dropCredits.mp hrow
    refine kept (h.creditTrack hrow) fun heq => hother ?_
    exact (hs.credits.ofTrack.iff_of_row hrow id).mpr heq
  · obtain ⟨hne, hi⟩ := Std.ExtTreeMap.mem_erase.mp hi
    exact kept (h.featuresTrack hi) fun heq => hne (by rw [heq]; exact Std.compare_self)

theorem withoutArtist (hs : s.Coherent) (artist : Artist) :
    ({ s.withoutCreditsTo artist.id with artists := s.artists.erase artist } : State).Intact := {
  h.withoutCreditsTo artist.id with
  creditArtist := fun hrow => by
    obtain ⟨hrow, hother⟩ := Session.credits_dropCredits.mp hrow
    rw [Registry.erase_rows]
    refine Std.ExtTreeMap.mem_erase.mpr ⟨fun heq => hother ?_, h.creditArtist hrow⟩
    exact (hs.credits.ofArtist.iff_of_row hrow artist.id).mpr
      (Std.LawfulEqOrd.eq_of_compare heq).symm }

theorem withoutRelease (release : Release)
    (hfree : ∀ (i : TrackId) (track : Track), s.tracks[i]? = some track →
      track.releaseId ≠ some release.id) :
    ({ s with releases := s.releases.erase release } : State).Intact := { h with
  trackRelease := fun hrow hid => by
    rw [Registry.erase_rows]
    refine Std.ExtTreeMap.mem_erase.mpr ⟨fun heq => hfree _ _ hrow ?_, h.trackRelease hrow hid⟩
    rw [hid, Std.LawfulEqOrd.eq_of_compare heq] }

theorem withoutCluster {id : ClusterId} (clusterByKey : Table String ClusterId)
    (hfree : ∀ (i : TrackId) (track : Track), s.tracks[i]? = some track → id ∉ track.clusterIds) :
    ({ s with clusterByKey, clusters := s.clusters.erase id } : State).Intact := { h with
  trackCluster := fun hrow hid => by
    refine Std.ExtTreeMap.mem_erase.mpr ⟨fun heq => hfree _ _ hrow ?_, h.trackCluster hrow hid⟩
    exact Std.LawfulEqOrd.eq_of_compare heq ▸ hid
  clusterType := fun hrow => h.clusterType (getElem?_erase_eq_some.mp hrow).1 }

theorem links {i : TrackId} {track : Track} (hrow : s.tracks[i]? = some track) :
    s.Links track :=
  ⟨fun _ hid => h.trackRelease hrow hid, fun _ hid => h.trackCluster hrow hid⟩

end Intact

open Session

theorem changeTracks_cons (id : TrackId) (ids : List TrackId) (change : Track → Track) :
    changeTracks (id :: ids) change =
      (changeTracks [id] change >>= fun _ => changeTracks ids change) := by
  simp only [changeTracks, List.forM, bind_assoc, pure_bind]

/-- Where a change reaches all tracks that refer to something, none refers to it after the change. -/
theorem changeTracks_frees (change : Track → Track) (isFree : Track → Prop)
    (hid : ∀ track, (change track).id = track.id)
    (hlinks : ∀ {s : State} {track : Track}, s.Links track → s.Links (change track))
    (hchange : ∀ track, isFree (change track)) {ids : List TrackId} (hs : s.Coherent)
    (h : s.Intact) (hall : ∀ {i : TrackId} {track : Track}, s.tracks[i]? = some track →
      i ∈ ids ∨ isFree track) :
    Succeeds (changeTracks ids change) s fun _ t => t.Intact ∧
      ∀ (i : TrackId) (track : Track), t.tracks[i]? = some track → isFree track := by
  induction ids generalizing s with
  | nil => exact ⟨h, fun i track hrow => by simpa using hall hrow⟩
  | cons id ids ih =>
      have others {i : TrackId} {track : Track} (hrow : s.tracks[i]? = some track) (hne : i ≠ id) :
          i ∈ ids ∨ isFree track :=
        (hall hrow).imp (fun hi => (List.mem_cons.mp hi).resolve_left hne) fun hfree => hfree
      have first : Succeeds (changeTracks [id] change) s fun _ t => t.Coherent ∧ t.Intact ∧
          ∀ {i : TrackId} {track : Track}, t.tracks[i]? = some track → i ∈ ids ∨ isFree track := by
        rw [changeTracks, Succeeds, List.forM, Ends.bind_iff, Ends.bind_iff, Ends.get_iff, findTrack?]
        cases hrow : s.tracks[id]? with
        | none =>
            refine ⟨hs, h, fun {i track} hother => others hother ?_⟩
            rintro rfl
            rw [hrow] at hother
            cases hother
        | some track =>
            have hown : (change track).id = id := (hid track).trans (hs.tracks.numbered.id_eq hrow)
            simp only [updateTrack_ends_iff, hown, hrow]
            refine ⟨hs.withTrack (hown ▸ hrow), h.withTrack track (hlinks (h.links hrow)),
              fun {i other} hother => ?_⟩
            rw [State.withTrack, hown, Std.ExtTreeMap.getElem?_insert] at hother
            split_ifs at hother with hi
            · cases hother
              exact .inr (hchange track)
            · exact others hother fun he => hi (he ▸ Std.compare_self)
      rw [changeTracks_cons]
      exact Ends.bind first fun _ _ ht => ih ht.1 ht.2.1 ht.2.2

namespace Intact

variable (hs : s.Coherent) (h : s.Intact)
include hs h

theorem removeTrack (id : TrackId) : Succeeds (removeTrack id) s fun _ t => t.Intact := by
  rw [Succeeds, removeTrack_ends_iff]
  cases s.tracks[id]? with
  | none => exact h
  | some track => exact h.withoutTrack hs id track

theorem removeArtist (id : ArtistId) : Succeeds (removeArtist id) s fun _ t => t.Intact := by
  unfold Session.removeArtist Succeeds
  rw [Ends.bind_iff, Ends.get_iff]
  cases hrow : s.artists.find? id with
  | none => exact h
  | some artist =>
      obtain rfl : artist.id = id := hs.artists.numbered.id_eq hrow
      exact h.withoutArtist hs artist

theorem removeRelease (id : ReleaseId) : Succeeds (removeRelease id) s fun _ t => t.Intact := by
  unfold Session.removeRelease Succeeds
  rw [Ends.bind_iff, Ends.get_iff]
  cases hrow : s.releases.find? id with
  | none => exact h
  | some release =>
      obtain rfl : release.id = id := hs.releases.numbered.id_eq hrow
      rw [Ends.bind_iff, Ends.get_iff]
      have freed := changeTracks_frees (fun track => { track with releaseId := none })
        (fun track => track.releaseId ≠ some release.id) (fun _ => rfl)
        (fun links => ⟨by simp, links.clusters⟩) (by simp) hs h fun {i track} hrow =>
          (Classical.em (track.releaseId = some release.id)).imp_left
            (hs.tracks.ofRelease.iff_of_row hrow release.id).mpr
      exact Ends.bind freed fun _ t ⟨ht, hfree⟩ => ht.withoutRelease release hfree

theorem removeCluster (id : ClusterId) : Succeeds (removeCluster id) s fun _ t => t.Intact := by
  unfold Session.removeCluster Succeeds
  rw [Ends.bind_iff, Ends.get_iff]
  cases hrow : s.findCluster? id with
  | none => exact h
  | some cluster =>
      rw [Ends.bind_iff, Ends.get_iff]
      have freed := changeTracks_frees
        (fun track => { track with clusterIds := track.clusterIds.erase id })
        (fun track => id ∉ track.clusterIds) (fun _ => rfl)
        (fun links => ⟨links.release, fun other hother =>
          links.clusters other (Std.ExtTreeSet.mem_of_mem_erase hother)⟩) (by simp) hs h
        fun {i track} hrow => (Classical.em (id ∈ track.clusterIds)).imp_left
          (hs.tracks.ofCluster.iff_of_row hrow id).mpr
      exact Ends.bind freed fun _ t ⟨ht, hfree⟩ => ht.withoutCluster _ hfree

end Intact

end State

open State

/-- The rows that the change is asked to refer to are there. -/
def Mutation.RefersWithin (s : State) : Mutation → Prop
  | .updateTrack track => s.Links track
  | .addCredit trackId artistId _ => trackId ∈ s.tracks ∧ artistId ∈ s.artists.rows
  | .setFeatures id _ => id ∈ s.tracks
  | _ => True

theorem Mutation.keeps_intact {s : State} (hs : s.Coherent) (h : s.Intact) (m : Mutation)
    (hm : m.RefersWithin s) : Ends m.run s (fun _ t => t.Intact) fun _ t => t.Intact := by
  have removed {α : Type} {x : Session α} (hx : Succeeds x s fun _ t => t.Intact) :
      Ends (do let _ ← x) s (fun _ t => t.Intact) fun _ t => t.Intact :=
    Ends.bind_iff.mpr (hx.imp (fun _ _ => id) fun _ _ => False.elim)
  have made {α : Type} {x : Session α} {ok : α → State → Prop}
      (hx : Ends x s ok fun _ t => t = s) (hok : ∀ a t, ok a t → s.Gains t) :
      Ends x s (fun _ t => t.Intact) fun _ t => t.Intact := by
    refine hx.imp (fun a t ht => h.gains (hok a t ht)) ?_
    rintro _ _ rfl
    exact h
  cases m with
  | createTrack path =>
      simp only [run, Ends.bind_iff, Ends.pure_iff, createTrack_ends_iff]
      rcases s.findTrackByPath path with e | _ | other
      · exact h
      · exact h.withNewTrack path
      · exact h
  | updateTrack track =>
      rw [run, updateTrack_ends_iff]
      cases s.tracks[track.id]? with
      | none => exact h
      | some previous => exact h.withTrack previous hm
  | setFeatures id features => exact h.withFeatures hm features
  | removeFeatures id => exact h.withoutFeatures id
  | saveSettings settings => exact { h with }
  | clearCredits id => exact h.withoutCreditsOf id
  | addCredit trackId artistId role => exact h.withCredit hm.1 hm.2
  | removeTrack id => exact removed (h.removeTrack hs id)
  | removeArtist id => exact removed (h.removeArtist hs id)
  | removeRelease id => exact removed (h.removeRelease hs id)
  | removeCluster id => exact removed (h.removeCluster hs id)
  | createArtist name sortName mbid =>
      exact Ends.bind_iff.mpr (made (createArtist_gains name sortName mbid) fun _ _ => And.left)
  | createRelease name mbid => exact Ends.bind_iff.mpr (made (createRelease_gains name mbid) fun _ _ => And.left)
  | createCluster key => exact Ends.bind_iff.mpr (made (createCluster_gains key) fun _ _ => And.left)
  | createClusterType name =>
      exact Ends.bind_iff.mpr (made (createClusterType_gains name) fun _ _ => id)
  | updateArtist artist => exact made (hs.updateArtist_gains artist) fun _ _ => And.left
  | updateRelease release => exact made (hs.updateRelease_gains release) fun _ _ => And.left

end AudioCatalog.Catalog
