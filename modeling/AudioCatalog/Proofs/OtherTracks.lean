import AudioCatalog.Proofs.Dependability
import AudioCatalog.Proofs.Repetition

namespace AudioCatalog

namespace Catalog

structure Registry.Retains {e : Entity} {δ : Type} (r r' : Registry e δ) : Prop where
  kept : ∀ {i : EntityId e} {row : Named e δ}, r.rows[i]? = some row →
    ∃ row', r'.rows[i]? = some row' ∧ row'.mbid = row.mbid

namespace Registry

variable {e : Entity} {δ : Type} {r r' : Registry e δ}

theorem Retains.refl (r : Registry e δ) : r.Retains r := ⟨fun hrow => ⟨_, hrow, rfl⟩⟩

theorem Retains.trans {r'' : Registry e δ} (h : r.Retains r') (h' : r'.Retains r'') :
    r.Retains r'' := by
  refine ⟨fun hrow => ?_⟩
  obtain ⟨row', hrow', hmbid⟩ := h.kept hrow
  obtain ⟨row'', hrow'', hmbid'⟩ := h'.kept hrow'
  exact ⟨row'', hrow'', hmbid'.trans hmbid⟩

theorem RecordsAll.retains [Inhabited δ] {l : List (Mention δ × Named e δ)} (h : r.RecordsAll l r')
    (hr : r.Coherent) : r.Retains r' :=
  ⟨fun hrow => ⟨_, h.row_rewritten hr hrow, Named.rewriteAll_mbid⟩⟩

theorem TakesIn.retains [Inhabited δ] {ms : List (Mention δ)} {rows : List (Named e δ)}
    (h : r.TakesIn ms rows r') (hr : r.Coherent) : r.Retains r' := by
  obtain ⟨_, -, -, hl⟩ := h
  exact hl.retains hr

end Registry

namespace State

variable {s t u : State} {i : TrackId}

theorem creditsOf_congr (hs : s.CreditsCoherent) (ht : t.CreditsCoherent)
    (h : ∀ (j : CreditId) (credit : Credit), credit.trackId = i →
      (t.credits[j]? = some credit ↔ s.credits[j]? = some credit)) :
    t.creditsOf i = s.creditsOf i := by
  obtain ⟨found, hfound, ordered, members⟩ := hs.ofTrack.mapM_image hs.numbered.id_eq i
  have listed : s.creditsOf i = .ok found := hfound
  rw [listed]
  refine ht.creditsOf_eq ordered fun credit => (members credit).trans ?_
  exact and_congr_left fun htrack => (h credit.id credit htrack).symm

structure SameTrack (s t : State) (i : TrackId) : Prop where
  row : t.tracks[i]? = s.tracks[i]?
  features : t.features[i]? = s.features[i]?
  credits : t.creditsOf i = s.creditsOf i
  byRecording : ∀ mbid, t.tracksByRecording.contains mbid i ↔ s.tracksByRecording.contains mbid i
  ofRelease : ∀ release, t.tracksOfRelease.contains release i ↔ s.tracksOfRelease.contains release i
  ofCluster : ∀ cluster, t.tracksOfCluster.contains cluster i ↔ s.tracksOfCluster.contains cluster i

namespace SameTrack

theorem refl (s : State) (i : TrackId) : s.SameTrack s i :=
  ⟨rfl, rfl, rfl, fun _ => Iff.rfl, fun _ => Iff.rfl, fun _ => Iff.rfl⟩

theorem trans (h : s.SameTrack t i) (h' : t.SameTrack u i) : s.SameTrack u i where
  row := h'.row.trans h.row
  features := h'.features.trans h.features
  credits := h'.credits.trans h.credits
  byRecording := fun mbid => (h'.byRecording mbid).trans (h.byRecording mbid)
  ofRelease := fun release => (h'.ofRelease release).trans (h.ofRelease release)
  ofCluster := fun cluster => (h'.ofCluster cluster).trans (h.ofCluster cluster)

theorem of_rows (hs : s.Coherent) (ht : t.Coherent) (row : t.tracks[i]? = s.tracks[i]?)
    (features : t.features[i]? = s.features[i]?)
    (credits : ∀ (j : CreditId) (credit : Credit), credit.trackId = i →
      (t.credits[j]? = some credit ↔ s.credits[j]? = some credit)) : s.SameTrack t i where
  row := row
  features := features
  credits := creditsOf_congr hs.credits ht.credits credits
  byRecording := fun mbid => by rw [ht.tracks.byRecording, hs.tracks.byRecording, row]
  ofRelease := fun release => by rw [ht.tracks.ofRelease, hs.tracks.ofRelease, row]
  ofCluster := fun cluster => by rw [ht.tracks.ofCluster, hs.tracks.ofCluster, row]

end SameTrack

/-- The number of the track that a path leads to, or else the one that a new track would get. -/
def numberFor (s : State) (key : String) : TrackId := s.trackByPath[key]?.getD ⟨s.nextTrack⟩

theorem Coherent.ne_numberFor (h : s.Coherent) {track : Track} {key : String}
    (hrow : s.tracks[i]? = some track) (hpath : track.path ≠ key) : i ≠ s.numberFor key := by
  rintro rfl
  unfold numberFor at hrow
  cases hentry : s.trackByPath[key]? with
  | none =>
      rw [hentry, Option.getD_none, h.tracks.numbered.getElem?_next] at hrow
      cases hrow
  | some j =>
      obtain ⟨other, hother, hkey⟩ := h.tracks.byPath hentry
      rw [hentry, Option.getD_some, hother, Option.some.injEq] at hrow
      exact hpath (hrow ▸ hkey)

/-- All is as it was, but for the track of one path, for new entities, and for what artists and
releases are called. -/
structure Spares (key : String) (s t : State) : Prop where
  elsewhere : ∀ {i : TrackId} {track : Track}, s.tracks[i]? = some track → track.path ≠ key →
    s.SameTrack t i
  others : ∀ i, i ≠ s.numberFor key → s.SameTrack t i
  paths : ∀ path, path ≠ key → t.trackByPath[path]? = s.trackByPath[path]?
  artists : s.artists.Retains t.artists
  releases : s.releases.Retains t.releases
  types : s.SameTypes t
  clusters : ∀ {i : ClusterId} {cluster : Cluster}, s.clusters[i]? = some cluster →
    t.clusters[i]? = some cluster
  settings : t.settings = s.settings

theorem Spares.of_others {key : String} (hs : s.Coherent)
    (others : ∀ i, i ≠ s.numberFor key → s.SameTrack t i)
    (paths : ∀ path, path ≠ key → t.trackByPath[path]? = s.trackByPath[path]?)
    (artists : s.artists.Retains t.artists) (releases : s.releases.Retains t.releases)
    (types : s.SameTypes t)
    (clusters : ∀ {i : ClusterId} {cluster : Cluster}, s.clusters[i]? = some cluster →
      t.clusters[i]? = some cluster)
    (settings : t.settings = s.settings) : s.Spares key t :=
  ⟨fun hrow hpath => others _ (hs.ne_numberFor hrow hpath), others, paths, artists, releases, types,
    clusters, settings⟩

theorem Spares.refl (hs : s.Coherent) (key : String) : s.Spares key s :=
  .of_others hs (fun i _ => .refl s i) (fun _ _ => rfl) (.refl _) (.refl _) (.refl s) id rfl

theorem Spares.trans {key : String} (hs : s.Coherent) (h : s.Spares key t) (h' : t.Spares key u)
    (number : t.numberFor key = s.numberFor key) : s.Spares key u := by
  refine .of_others hs (fun i hi => (h.others i hi).trans (h'.others i (number ▸ hi))) ?_
    (h.artists.trans h'.artists) (h.releases.trans h'.releases) (h.types.trans h'.types)
    (fun hrow => h'.clusters (h.clusters hrow)) (h'.settings.trans h.settings)
  exact fun path hpath => (h'.paths path hpath).trans (h.paths path hpath)

theorem Coherent.withoutTrack_spares (h : s.Coherent) {track : Track}
    (hrow : s.tracks[track.id]? = some track)
    (hentry : s.trackByPath[track.path]? = some track.id) :
    s.Spares track.path (s.withoutTrack track.id track) := by
  have number : s.numberFor track.path = track.id := by rw [numberFor, hentry, Option.getD_some]
  refine .of_others h (fun i hi => ?_) (fun path hpath => ?_) (.refl _) (.refl _) ⟨rfl, rfl⟩ id rfl
  · rw [number] at hi
    refine .of_rows h (h.withoutTrack hrow) (getElem?_erase_of_ne hi) (getElem?_erase_of_ne hi) ?_
    intro j credit hcredit
    refine (withoutCreditsOf_rows h.credits).trans (and_iff_left ?_)
    rwa [hcredit]
  · simp only [State.withoutTrack, Std.ExtTreeMap.getElem?_erase, Std.compare_eq_iff_eq,
      if_neg hpath.symm]

theorem Coherent.withNewTrack_sameTrack (h : s.Coherent) (path : String) (hi : i ≠ ⟨s.nextTrack⟩) :
    s.SameTrack (s.withNewTrack path) i :=
  .of_rows h (h.withNewTrack path) (getElem?_insert_of_ne hi) rfl fun _ _ _ => Iff.rfl

theorem numberFor_of_none {key : String} (hnone : s.trackByPath[key]? = none) :
    s.numberFor key = ⟨s.nextTrack⟩ := by
  rw [numberFor, hnone, Option.getD_none]

theorem withNewTrack_numberFor (key : String) :
    (s.withNewTrack key).numberFor key = ⟨s.nextTrack⟩ := by
  rw [numberFor, withNewTrack, Std.ExtTreeMap.getElem?_insert_self, Option.getD_some]

theorem Coherent.withNewTrack_spares (h : s.Coherent) {key : String}
    (hnone : s.trackByPath[key]? = none) : s.Spares key (s.withNewTrack key) := by
  refine .of_others h (fun i hi => ?_) (fun path hpath => ?_) (.refl _) (.refl _) ⟨rfl, rfl⟩ id rfl
  · exact h.withNewTrack_sameTrack key (numberFor_of_none hnone ▸ hi)
  · simp only [State.withNewTrack, Std.ExtTreeMap.getElem?_insert, Std.compare_eq_iff_eq,
      if_neg hpath.symm]

end State

end Catalog

namespace Scan

open Catalog Session

variable {s t : State} {m : Tag.Metadata}

namespace Resolution

variable {track : Track} (x : Resolution s track m)

theorem result_credits (entry : Entry) (stamp : Stamp) :
    (x.result entry stamp).credits = x.credited.credits := by
  have kept : (x.result entry stamp).credits = x.settled.credits := rfl
  rw [kept, x.settled_eq]

theorem result_features (entry : Entry) (stamp : Stamp) :
    (x.result entry stamp).features = s.features.erase track.id := by
  have kept : (x.result entry stamp).features = x.settled.features.erase track.id := rfl
  rw [kept, x.settled_eq]

theorem result_sameTypes (entry : Entry) (stamp : Stamp) : s.SameTypes (x.result entry stamp) := by
  rw [result, x.settled_eq]
  exact ⟨rfl, rfl⟩

theorem result_clusters (entry : Entry) (stamp : Stamp) {i : ClusterId} {cluster : Cluster}
    (hrow : s.clusters[i]? = some cluster) :
    (x.result entry stamp).clusters[i]? = some cluster := by
  refine x.provided.kept ?_
  rw [State.credited_others]
  exact hrow

theorem result_settings (entry : Entry) (stamp : Stamp) :
    (x.result entry stamp).settings = s.settings := by
  rw [result, x.settled_eq]
  rfl

theorem result_sameTrack (hs : s.Coherent) (hrow : s.tracks[track.id]? = some track) (entry : Entry)
    (stamp : Stamp) {i : TrackId} (hi : i ≠ track.id) : s.SameTrack (x.result entry stamp) i := by
  refine .of_rows hs (x.result_coherent hrow entry stamp) ?_ ?_ fun j credit hcredit => ?_
  · rw [x.result_tracks, getElem?_insert_of_ne hi]
  · rw [x.result_features, getElem?_erase_of_ne hi]
  · rw [x.result_credits, credited, State.recredited_rows hs.credits]
    constructor
    · rintro (⟨hkept, -⟩ | ⟨_, _, _, _, rfl⟩)
      · exact hkept
      · exact absurd hcredit.symm hi
    · exact fun hkept => .inl ⟨hkept, fun he => hi (hcredit.symm.trans he)⟩

theorem result_spares (hs : s.Coherent) (hrow : s.tracks[track.id]? = some track)
    (hentry : s.trackByPath[track.path]? = some track.id) (entry : Entry) (stamp : Stamp) :
    s.Spares track.path (x.result entry stamp) := by
  have number : s.numberFor track.path = track.id := by
    rw [State.numberFor, hentry, Option.getD_some]
  refine .of_others hs (fun i hi => ?_) (fun path _ => ?_) ?_ ?_ (x.result_sameTypes entry stamp)
    (x.result_clusters entry stamp) (x.result_settings entry stamp)
  · exact x.result_sameTrack hs hrow entry stamp (number ▸ hi)
  · rw [x.result_trackByPath]
  · rw [x.result_artists]
    exact x.takesArtists.retains hs.artists
  · rw [x.result_releases]
    exact x.takesReleases.retains hs.releases

end Resolution

/-- What became of the track of a path: it is new, written anew, or gone. -/
def Outcome.Befalls (key : String) (s t : State) : Outcome → Prop
  | .added => s.trackByPath[key]? = none ∧ t.trackByPath[key]? = some ⟨s.nextTrack⟩
  | .updated => ∃ i, s.trackByPath[key]? = some i ∧ t.trackByPath[key]? = some i
  | .rejected _ true => ∃ i, s.trackByPath[key]? = some i ∧ t.trackByPath[key]? = none ∧
      t.tracks[i]? = none
  | .rejected _ false => s.trackByPath[key]? = none ∧ t = s

/-- To reconcile a file bears on the track of its path only, which is made, written anew or removed,
and leaves the catalog as it is where the file is rejected and there was no such track. -/
theorem Reachable.reconcile_spares (h : Reachable s) (skipsDuplicates : Bool) (entry : Entry)
    (m : Tag.Metadata) (stamp : Stamp) :
    Succeeds (reconcile skipsDuplicates entry m stamp) s fun outcome t =>
      s.Spares entry.key t ∧ outcome.Befalls entry.key s t ∧
        (s.trackByPath[entry.key]? = none → ¬ Passes skipsDuplicates s entry.key m → t = s) := by
  have hs := h.coherent
  apply reconcile_of_cases hs
  · intro track why hrow hentry hpath _
    rw [hpath] at hentry
    refine ⟨hpath ▸ hs.withoutTrack_spares hrow (hpath ▸ hentry), ⟨_, hentry, ?_, ?_⟩, ?_⟩
    · rw [← hpath]
      exact Std.ExtTreeMap.getElem?_erase_self
    · exact Std.ExtTreeMap.getElem?_erase_self
    · intro hnone
      rw [hentry] at hnone
      cases hnone
  · exact fun why hnone _ => ⟨.refl hs _, ⟨hnone, rfl⟩, fun _ _ => rfl⟩
  · intro track hrow hentry hpath verdict
    refine (applyMetadata_writes hs hrow entry m stamp).imp ?_ fun _ _ => id
    rintro _ _ ⟨x, rfl⟩
    refine ⟨hpath ▸ x.result_spares hs hrow hentry entry stamp, ⟨track.id, ?_, ?_⟩, ?_⟩
    · rw [← hpath, hentry]
    · rw [x.result_trackByPath, ← hpath, hentry]
    · exact fun _ rejected => absurd (verdict.eq_none_iff.mp rfl) rejected
  · intro hnone verdict
    have created := hs.withNewTrack entry.key
    have hrow : (s.withNewTrack entry.key).tracks[(⟨s.nextTrack⟩ : TrackId)]? = some _ :=
      getElem?_insert_self
    refine (applyMetadata_writes created hrow entry m stamp).imp ?_ fun _ _ => id
    rintro _ _ ⟨x, rfl⟩
    have hentry : (s.withNewTrack entry.key).trackByPath[entry.key]? = some ⟨s.nextTrack⟩ :=
      Std.ExtTreeMap.getElem?_insert_self
    refine ⟨?_, ⟨hnone, ?_⟩, fun _ rejected => absurd (verdict.eq_none_iff.mp rfl) rejected⟩
    · refine (hs.withNewTrack_spares hnone).trans hs
        (x.result_spares created hrow hentry entry stamp) ?_
      rw [State.withNewTrack_numberFor, State.numberFor_of_none hnone]
    · rw [x.result_trackByPath, hentry]

/-- The artist of another track gets a new name. The other track stays credited to that artist, and
a file without sound leaves no trace at all. -/
theorem Reachable.reconcile_spares_shared : ∃ s t, Reachable s ∧
    reconcile true ⟨Path.ofString "a", "a"⟩ namesakeSong ⟨5, 1, 7⟩ s = .ok .updated t ∧
    t.artists.rows[(⟨1⟩ : ArtistId)]?.map Named.name = some "B" ∧ s.Spares "a" t ∧
    Outcome.updated.Befalls "a" s t ∧
    t.creditsOf ⟨2⟩ = .ok [⟨⟨1⟩, ⟨2⟩, ⟨1⟩, .artist⟩] ∧
    reconcile true ⟨Path.ofString "c", "c"⟩ {} ⟨5, 1, 7⟩ s = .ok (.rejected .noAudio false) s := by
  obtain ⟨s, hs⟩ : ∃ s, s = [Mutation.createArtist "A" none (some someRecording),
      .createTrack "a", .createTrack "b", .addCredit ⟨2⟩ ⟨1⟩ .artist].foldl Mutation.after {} :=
    ⟨_, rfl⟩
  have reached : Reachable s := hs ▸ Reachable.empty.after _
  have row : s.tracks[(⟨2⟩ : TrackId)]? = some { id := ⟨2⟩, path := "b" } := by
    rw [hs]
    decide +kernel
  have credits : s.creditsOf ⟨2⟩ = .ok [⟨⟨1⟩, ⟨2⟩, ⟨1⟩, .artist⟩] := by
    rw [hs]
    decide +kernel
  have renamed : Succeeds (reconcile true ⟨Path.ofString "a", "a"⟩ namesakeSong ⟨5, 1, 7⟩) s
      fun outcome t => outcome = .updated ∧
        t.artists.rows[(⟨1⟩ : ArtistId)]?.map Named.name = some "B" := by
    rw [hs]
    decide +kernel
  have silent : s.trackByPath["c"]? = none ∧
      Succeeds (reconcile true ⟨Path.ofString "c", "c"⟩ {} ⟨5, 1, 7⟩) s
        fun outcome _ => outcome = .rejected .noAudio false := by
    rw [hs]
    decide +kernel
  obtain ⟨_, t, hrun, rfl, name⟩ := succeeds_iff.mp renamed
  have spares := reached.reconcile_spares true ⟨Path.ofString "a", "a"⟩ namesakeSong ⟨5, 1, 7⟩
  rw [Succeeds, Ends, hrun] at spares
  obtain ⟨spares, befalls, -⟩ := spares
  obtain ⟨hnone, rejected⟩ := silent
  obtain ⟨_, u, hrejected, rfl⟩ := succeeds_iff.mp rejected
  have still := reached.reconcile_spares true ⟨Path.ofString "c", "c"⟩ {} ⟨5, 1, 7⟩
  rw [Succeeds, Ends, hrejected] at still
  obtain rfl : u = s := still.2.2 hnone fun passes => passes.2.1 rfl
  exact ⟨u, t, reached, hrun, name, spares, befalls,
    ((spares.elsewhere row (by decide)).credits.trans credits), hrejected⟩

end Scan

end AudioCatalog
