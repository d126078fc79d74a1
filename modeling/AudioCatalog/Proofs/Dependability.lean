import AudioCatalog.Catalog.Settings
import AudioCatalog.Proofs.Identity
import AudioCatalog.Proofs.Scanning

namespace AudioCatalog

namespace Catalog

open Session

variable {s : State}

/-- Every question is answered, also those that go through an index. -/
structure State.Answers (s : State) : Prop where
  trackByPath : ∀ path, ∃ found, s.findTrackByPath path = .ok found
  tracksByRecording : ∀ mbid, ∃ found, s.findTracksByRecording mbid = .ok found
  creditsOf : ∀ id, ∃ found, s.creditsOf id = .ok found
  artistByMbid : ∀ mbid, ∃ found, s.artists.findByMbid mbid = .ok found
  artistsByName : ∀ name, ∃ found, s.artists.findByName name = .ok found
  releaseByMbid : ∀ mbid, ∃ found, s.releases.findByMbid mbid = .ok found
  releasesByName : ∀ name, ∃ found, s.releases.findByName name = .ok found
  clusterTypeByName : ∀ name, ∃ found, s.findClusterTypeByName name = .ok found
  clusterByKey : ∀ key, ∃ found, s.findClusterByKey key = .ok found

theorem State.Coherent.answers (h : s.Coherent) : s.Answers where
  trackByPath := fun path => by
    rcases h.findTrackByPath_cases path with ⟨track, -, -, -, hfind⟩ | ⟨-, hfind⟩
    · exact ⟨some track, hfind⟩
    · exact ⟨none, hfind⟩
  tracksByRecording := fun mbid => by
    obtain ⟨found, hfound, -⟩ := h.tracks.byRecording.mapM_image h.tracks.numbered.id_eq mbid
    exact ⟨found, hfound⟩
  creditsOf := fun id => by
    obtain ⟨found, hfound, -⟩ := h.credits.ofTrack.mapM_image h.credits.numbered.id_eq id
    exact ⟨found, hfound⟩
  artistByMbid := fun mbid => (h.lookupsExact.artistByMbid mbid).finds.imp fun _ => And.left
  artistsByName := fun name => (h.lookupsExact.artistsByName name).finds.imp fun _ => And.left
  releaseByMbid := fun mbid => (h.lookupsExact.releaseByMbid mbid).finds.imp fun _ => And.left
  releasesByName := fun name => (h.lookupsExact.releasesByName name).finds.imp fun _ => And.left
  clusterTypeByName := fun name =>
    (h.lookupsExact.clusterTypeByName name).finds.imp fun _ => And.left
  clusterByKey := fun key => (h.lookupsExact.clusterByKey key).finds.imp fun _ => And.left

def State.withNewType (s : State) (name : String) : State :=
  { s with
    nextClusterType := s.nextClusterType + 1
    clusterTypes := s.clusterTypes.insert ⟨s.nextClusterType⟩ ⟨⟨s.nextClusterType⟩, name⟩
    clusterTypeByName := s.clusterTypeByName.insert name ⟨s.nextClusterType⟩ }

theorem State.Coherent.getElem?_withNewType (h : s.Coherent) {name : String} {i : ClusterTypeId}
    {clusterType : ClusterType} (hrow : s.clusterTypes[i]? = some clusterType) :
    (s.withNewType name).clusterTypes[i]? = some clusterType := by
  have fresh : s.clusterTypes[(⟨s.nextClusterType⟩ : ClusterTypeId)]? = none :=
    h.clusters.typesNumbered.getElem?_next
  rw [State.withNewType, Std.ExtTreeMap.getElem?_insert, if_neg, hrow]
  intro hi
  rw [← Std.LawfulEqOrd.eq_of_compare hi, fresh] at hrow
  cases hrow

namespace Session

theorem provideClusterType_cases (h : s.Coherent) (name : String) :
    (provideClusterType name s = .ok () s ∧ ∃ (i : ClusterTypeId) (clusterType : ClusterType),
      s.clusterTypes[i]? = some clusterType ∧ clusterType.name = name) ∨
    (provideClusterType name s = .ok () (s.withNewType name) ∧ (s.withNewType name).Coherent ∧
      ∀ (i : ClusterTypeId) (clusterType : ClusterType), s.clusterTypes[i]? = some clusterType →
        clusterType.name ≠ name) := by
  rcases h.findClusterTypeByName_cases name with ⟨clusterType, hrow, hname, hfind⟩ | ⟨hfree, hfind⟩
  · have search : query (·.findClusterTypeByName name) s = .ok (some clusterType) s :=
      query_eq_of_ok hfind
    exact .inl ⟨bind_eq_of_ok search, _, clusterType, hrow, hname⟩
  · have search : query (·.findClusterTypeByName name) s = .ok none s := query_eq_of_ok hfind
    have create : createClusterType name s =
        .ok ⟨⟨s.nextClusterType⟩, name⟩ (s.withNewType name) := bind_eq_of_ok search
    refine .inr ⟨(bind_eq_of_ok search).trans (bind_eq_of_ok create), ?_, hfree⟩
    exact h.withClusterType ⟨⟨s.nextClusterType⟩, name⟩ rfl hfree

theorem provideClusterType_settles (name : String) : Settles (provideClusterType name) := by
  intro s h
  rcases provideClusterType_cases h name with ⟨hrun, -⟩ | ⟨hrun, coherent, -⟩
  · exact succeeds_iff.mpr ⟨(), s, hrun, h, .refl s⟩
  · exact succeeds_iff.mpr ⟨(), _, hrun, coherent, ⟨fun _ => rfl, rfl, rfl⟩⟩

theorem syncSettings_ends_iff {names : List String} {ok : ScanSettings → State → Prop}
    {error : Error → State → Prop} :
    Ends (syncSettings names) s ok error ↔
      Ends ((normalizedNames names).forM provideClusterType)
        { s with settings := s.settings.adjusted (normalizedNames names) }
        (fun _ => ok (s.settings.adjusted (normalizedNames names))) error := by
  unfold syncSettings
  rw [Ends.bind_iff, Ends.get_iff, Ends.bind_iff, saveSettings, Ends.modify_iff, Ends.bind_iff]
  rfl

theorem syncSettings_adjusts (h : s.Coherent) (names : List String) :
    Succeeds (syncSettings names) s fun _ t => t.Coherent ∧
      ({ s with settings := s.settings.adjusted (normalizedNames names) } : State).SameFiles t := by
  have provide : Settles ((normalizedNames names).forM provideClusterType) :=
    .forM fun name _ => provideClusterType_settles name
  exact syncSettings_ends_iff.mpr (provide _ (h.withSettings _))

theorem syncSettings_succeeds (h : s.Coherent) (names : List String) :
    Succeeds (syncSettings names) s fun _ t => t.Coherent :=
  (syncSettings_adjusts h names).imp (fun _ _ ht => ht.1) fun _ _ => id

end Session

namespace Registry.Coherent

variable {e : Entity} {δ : Type} {r : Registry e δ} (h : r.Coherent)
include h

theorem create_error {name : String} {mbid : Option Mbid} {detail : δ} {cause : Error}
    (herror : r.create name mbid detail = .error cause) : ∃ c, cause = .conflict c := by
  rw [create_eq] at herror
  rcases h.checkMbid_cases mbid (fun _ => false) with ⟨hcheck, -⟩ | ⟨m, row, -, -, -, -, hcheck⟩
  · rw [hcheck] at herror
    cases herror
  · rw [hcheck] at herror
    cases herror
    exact ⟨_, rfl⟩

theorem update_cases (row : Named e δ) :
    (r.rows[row.id]? = none ∧ r.update row = .error (missing row.id)) ∨
      (r.rows[row.id]? ≠ none ∧
        ∀ cause, r.update row = .error cause → ∃ c, cause = .conflict c) := by
  cases hrow : r.rows[row.id]? with
  | none => exact .inl ⟨rfl, by simp [update, indexed, find?, hrow, bind, Except.bind]⟩
  | some previous =>
      refine .inr ⟨by simp, fun cause herror => ?_⟩
      rw [h.update_eq hrow] at herror
      rcases h.checkMbid_cases row.mbid (fun other => other.id = row.id) with
        ⟨hcheck, -⟩ | ⟨m, other, -, -, -, -, hcheck⟩
      · rw [hcheck] at herror
        cases herror
      · rw [hcheck] at herror
        cases herror
        exact ⟨_, rfl⟩

end Registry.Coherent

def Mutation.lacking? (s : State) : Mutation → Option Error
  | .updateTrack track => if s.tracks[track.id]?.isNone then some (missing track.id) else none
  | .updateArtist artist =>
    if s.artists.rows[artist.id]?.isNone then some (missing artist.id) else none
  | .updateRelease release =>
    if s.releases.rows[release.id]?.isNone then some (missing release.id) else none
  | _ => none

/-- A row is missing to a change only where it is lacking, and then nothing has changed. -/
def Mutation.EndsCleanly (s : State) (m : Mutation) : Prop :=
  Ends m.run s (fun _ _ => m.lacking? s = none) fun e t =>
    (t = s ∧ m.lacking? s = some e) ∨ ((∃ c, e = .conflict c) ∧ m.lacking? s = none)

namespace State.Coherent

variable (h : s.Coherent)
include h

omit h in
theorem updateTrack_endsCleanly (track : Track) : (Mutation.updateTrack track).EndsCleanly s := by
  rw [Mutation.EndsCleanly, Mutation.run, updateTrack_ends_iff]
  cases hrow : s.tracks[track.id]? with
  | none => exact .inl ⟨rfl, by simp [Mutation.lacking?, hrow]⟩
  | some previous => simp [Mutation.lacking?, hrow]

theorem updateArtist_endsCleanly (artist : Artist) :
    (Mutation.updateArtist artist).EndsCleanly s := by
  rw [Mutation.EndsCleanly, Mutation.run, updateArtist, onArtists_ends_iff]
  rcases h.artists.update_cases artist with ⟨hnone, hupdate⟩ | ⟨hsome, conflicts⟩
  · rw [hupdate]
    exact .inl ⟨rfl, by simp [Mutation.lacking?, hnone]⟩
  · have present : (Mutation.updateArtist artist).lacking? s = none := by
      simp [Mutation.lacking?, hsome]
    cases hupdate : Registry.update artist s.artists with
    | error e => exact .inr ⟨conflicts e hupdate, present⟩
    | ok result => exact present

theorem updateRelease_endsCleanly (release : Release) :
    (Mutation.updateRelease release).EndsCleanly s := by
  rw [Mutation.EndsCleanly, Mutation.run, updateRelease, onReleases_ends_iff]
  rcases h.releases.update_cases release with ⟨hnone, hupdate⟩ | ⟨hsome, conflicts⟩
  · rw [hupdate]
    exact .inl ⟨rfl, by simp [Mutation.lacking?, hnone]⟩
  · have present : (Mutation.updateRelease release).lacking? s = none := by
      simp [Mutation.lacking?, hsome]
    cases hupdate : Registry.update release s.releases with
    | error e => exact .inr ⟨conflicts e hupdate, present⟩
    | ok result => exact present

theorem endsCleanly (m : Mutation) : m.EndsCleanly s := by
  have dropped {α : Type} {x : Session α} {ok : α → State → Prop} (hx : Succeeds x s ok) :
      Ends (do let _ ← x) s (fun _ _ => (none : Option Error) = none) fun e t =>
        (t = s ∧ none = some e) ∨ ((∃ c, e = .conflict c) ∧ (none : Option Error) = none) :=
    Ends.bind_iff.mpr (hx.imp (fun _ _ _ => rfl) fun _ _ => False.elim)
  cases m with
  | updateTrack track => exact updateTrack_endsCleanly track
  | updateArtist artist => exact h.updateArtist_endsCleanly artist
  | updateRelease release => exact h.updateRelease_endsCleanly release
  | removeArtist id => exact dropped (h.removeArtist_succeeds id)
  | removeRelease id => exact dropped (h.removeRelease_succeeds id)
  | removeCluster id => exact dropped (h.removeCluster_succeeds id)
  | setFeatures | removeFeatures | clearCredits | addCredit | saveSettings => exact rfl
  | removeTrack id =>
      simp only [Mutation.EndsCleanly, Mutation.run, Ends.bind_iff, Ends.pure_iff,
        removeTrack_ends_iff]
      cases s.tracks[id]? <;> rfl
  | createTrack path =>
      simp only [Mutation.EndsCleanly, Mutation.run, Ends.bind_iff, Ends.pure_iff,
        createTrack_ends_iff]
      rcases h.findTrackByPath_cases path with ⟨track, -, -, -, hfind⟩ | ⟨-, hfind⟩
      · rw [hfind]
        exact .inr ⟨⟨_, rfl⟩, rfl⟩
      · rw [hfind]
        rfl
  | createArtist name sortName mbid =>
      rw [Mutation.EndsCleanly, Mutation.run, Ends.bind_iff, createArtist, onArtists_ends_iff]
      cases hcreate : Registry.create name mbid sortName s.artists with
      | error e => exact .inr ⟨h.artists.create_error hcreate, rfl⟩
      | ok result => exact rfl
  | createRelease name mbid =>
      rw [Mutation.EndsCleanly, Mutation.run, Ends.bind_iff, createRelease, onReleases_ends_iff]
      cases hcreate : Registry.create name mbid () s.releases with
      | error e => exact .inr ⟨h.releases.create_error hcreate, rfl⟩
      | ok result => exact rfl
  | createClusterType name =>
      rw [Mutation.EndsCleanly, Mutation.run, createClusterType, Ends.bind_iff, Ends.bind_iff,
        query_ends_iff]
      rcases h.findClusterTypeByName_cases name with ⟨other, -, -, hfind⟩ | ⟨-, hfind⟩
      · rw [hfind]
        exact .inr ⟨⟨_, rfl⟩, rfl⟩
      · rw [hfind]
        exact rfl
  | createCluster key =>
      rw [Mutation.EndsCleanly, Mutation.run, createCluster, Ends.bind_iff, Ends.bind_iff,
        Ends.get_iff]
      cases s.findClusterType? key.typeId with
      | none => exact .inr ⟨⟨_, rfl⟩, rfl⟩
      | some clusterType =>
          simp only [Option.isNone_some, Bool.false_eq_true, if_false, Ends.bind_iff,
            query_ends_iff]
          rcases h.findClusterByKey_cases key with ⟨other, -, -, hfind⟩ | ⟨-, hfind⟩
          · rw [hfind]
            exact .inr ⟨⟨_, rfl⟩, rfl⟩
          · rw [hfind]
            exact rfl

theorem missing_iff (m : Mutation) (e : Entity) (number : Nat) :
    (∃ t, m.run s = .error (.missing e number) t) ↔ m.lacking? s = some (.missing e number) := by
  have ends := h.endsCleanly m
  unfold Mutation.EndsCleanly Ends at ends
  cases hrun : m.run s with
  | ok _ t =>
      rw [hrun] at ends
      simp [ends]
  | error cause t =>
      rw [hrun] at ends
      rcases ends with ⟨-, lacking⟩ | ⟨⟨c, rfl⟩, present⟩
      · simp [lacking]
      · simp [present]

end State.Coherent

def Mutation.after (s : State) (m : Mutation) : State :=
  match m.run s with
  | .ok _ t | .error _ t => t

theorem Mutation.after_of_ends {s : State} {m : Mutation} {P : State → Prop}
    (h : Ends m.run s (fun _ => P) fun _ => P) : P (m.after s) := by
  unfold Ends at h
  unfold after
  split at h <;> simp_all

end Catalog

namespace Scan

open Catalog Session

theorem Reachable.after {s : State} (h : Reachable s) (ms : List Mutation) :
    Reachable (ms.foldl Mutation.after s) := by
  induction ms generalizing s with
  | nil => exact h
  | cons m ms ih =>
      apply ih
      unfold Mutation.after
      split
      · rename_i hrun
        exact h.changed m hrun
      · rename_i hrun
        exact h.refused m hrun

/-- What a caller may rely on: no error but a conflict, and that a row to be written back is not
there. -/
structure Dependable (s : State) : Prop where
  answers : s.Answers
  resolvesArtists : ∀ infos borrows,
    Succeeds (resolveArtists infos borrows) s fun _ t => t.Coherent ∧ s.SameFiles t
  resolvesRelease : ∀ album,
    Succeeds (resolveRelease album) s fun _ t => t.Coherent ∧ s.SameFiles t
  resolvesClusters : ∀ values,
    Succeeds (resolveClusters values) s fun _ t => t.Coherent ∧ s.SameFiles t
  syncs : ∀ names, Succeeds (syncSettings names) s fun _ t => t.Coherent
  scans : ∀ {σ κ : Type} (env : Surroundings σ κ) (plan : Plan) (w : σ),
    ∃ r, process env plan (Run.start w s) = .ok () r
  missing_iff : ∀ (m : Mutation) (e : Entity) (number : Nat),
    (∃ t, m.run s = .error (.missing e number) t) ↔ m.lacking? s = some (.missing e number)

/-- In every catalog that changes and scans lead to, refused ones too, lookups, finders, the
settings and scans in any surroundings succeed. A row is missing only to a change that writes back
a row under a number that has none. -/
theorem Reachable.dependable {s : State} (h : Reachable s) : Dependable s where
  answers := h.coherent.answers
  resolvesArtists := fun infos borrows => resolveArtists_settles infos borrows s h.coherent
  resolvesRelease := fun album => resolveRelease_settles album s h.coherent
  resolvesClusters := fun values => resolveClusters_settles values s h.coherent
  syncs := syncSettings_succeeds h.coherent
  scans := fun env plan w => by
    obtain ⟨_, r, hrun, -⟩ := succeeds_iff.mp (process_coherent env plan h.coherent w)
    exact ⟨r, hrun⟩
  missing_iff := h.coherent.missing_iff

theorem dependable_displaced : ∃ s, Reachable s ∧
    (s.tracks[(⟨1⟩ : TrackId)]?.map Track.path = some "a") ∧
    (s.tracks[(⟨2⟩ : TrackId)]?.map Track.path = some "a") ∧ Dependable s ∧
    ∃ t, Session.updateTrack { id := ⟨3⟩, path := "c" } s = .error (.missing .track 3) t := by
  let ms : List Mutation := [.createTrack "a", .createTrack "b",
    .updateTrack { id := ⟨2⟩, path := "a" }, .createTrack "a"]
  have reached := Reachable.empty.after ms
  have dependable := reached.dependable
  refine ⟨_, reached, by decide +kernel, by decide +kernel, dependable, ?_⟩
  exact (dependable.missing_iff (.updateTrack { id := ⟨3⟩, path := "c" }) .track 3).mpr
    (by decide +kernel)

end Scan

end AudioCatalog
