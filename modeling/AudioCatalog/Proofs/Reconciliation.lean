import AudioCatalog.Proofs.FileView
import AudioCatalog.Proofs.Identity
import AudioCatalog.Scan.Reconciliation

namespace AudioCatalog.Scan

open Catalog Session

variable {s : State}

theorem creditArtists_settles (id : TrackId) (role : Role) (infos : List Tag.ArtistInfo) :
    Settles (creditArtists id role infos) :=
  (resolveArtists_settles infos (borrows role)).bind fun _ =>
    .forM fun artist _ => (addCredit_settles id artist.id role).bind fun _ => .pure _

theorem resolveAlbum_finds (album : Option Tag.AlbumInfo) :
    Finds (fun found t => ∀ id ∈ found, id ∈ t.releases.rows) (resolveAlbum album) := by
  intro s h
  cases album with
  | none => exact ⟨h, .refl s, by simp⟩
  | some album =>
      refine Ends.bind (resolveRelease_finds album s h) ?_
      rintro found t ⟨ht, gains, there⟩
      exact ⟨ht, gains, by simpa [HasRelease] using there⟩

theorem applyMetadata_succeeds (h : s.Coherent) {track : Track}
    (hrow : s.tracks[track.id]? = some track) (hentry : s.trackByPath[track.path]? = some track.id)
    (entry : Entry) (m : Tag.Metadata) (stamp : Stamp) :
    Succeeds (applyMetadata track entry m stamp) s fun _ t =>
      s.TouchesOnly track.path t ∧
        t.fileAt track.path = some (described track entry m stamp).unlinked := by
  have credits : Settles ((creditLists m).forM fun credit =>
      creditArtists track.id credit.1 credit.2) :=
    .forM fun credit _ => creditArtists_settles track.id credit.1 credit.2
  unfold applyMetadata Succeeds
  apply Ends.bind (clearCredits_settles track.id s h)
  rintro _ t₁ ⟨h₁, files₁⟩
  apply Ends.bind (credits t₁ h₁)
  rintro _ t₂ ⟨h₂, files₂⟩
  apply Ends.bind ((resolveAlbum_finds m.album).settles t₂ h₂)
  rintro releaseId t₃ ⟨h₃, files₃⟩
  apply Ends.bind (resolveClusters_settles m.clusters t₃ h₃)
  rintro clusters t₄ ⟨h₄, files₄⟩
  apply Ends.bind (removeFeatures_settles track.id t₄ h₄)
  rintro _ t ⟨ht, files₅⟩
  have files : s.SameFiles t := (((files₁.trans files₂).trans files₃).trans files₄).trans files₅
  obtain ⟨previous, hprevious, hsame⟩ : ∃ previous, t.tracks[track.id]? = some previous ∧
      previous.unlinked = track.unlinked := by
    have := files.tracks track.id
    rw [hrow, Option.map_some] at this
    exact Option.map_eq_some_iff.mp this
  have hpath : previous.path = track.path := by
    have := congrArg Track.path hsame
    exact this
  have hentry' : t.trackByPath[track.path]? = some track.id := by
    rw [files.trackByPath]
    exact hentry
  have write := @State.Coherent.updateTrack_succeeds t ht previous
    { described track entry m stamp with
      releaseId, clusterIds := .ofList (clusters.map Cluster.id) compare } hprevious hpath hentry'
  refine write.imp ?_ fun _ _ => id
  rintro _ u ⟨only, hfile⟩
  exact ⟨(files.touchesOnly ht track.path).trans only, hfile⟩

def Duplicated (s : State) (key : String) (m : Tag.Metadata) : Prop :=
  ∃ mbid, m.recordingMbid = some mbid ∧ ∃ (i : TrackId) (other : Track),
    s.tracks[i]? = some other ∧ other.recordingMbid = some mbid ∧ s.trackByPath[key]? ≠ some i

theorem isDuplicate_succeeds (h : s.Coherent) {existing : Option Track} {key : String}
    (hexisting : existing.map Track.id = s.trackByPath[key]?) (m : Tag.Metadata) :
    Succeeds (isDuplicate existing m) s fun isDuplicate t =>
      t = s ∧ (isDuplicate = true ↔ Duplicated s key m) := by
  unfold isDuplicate Duplicated Succeeds
  cases m.recordingMbid with
  | none => simp
  | some mbid =>
      obtain ⟨others, hothers, -, hrows⟩ :=
        h.tracks.byRecording.mapM_image h.tracks.numbered.id_eq mbid
      dsimp only
      rw [Ends.bind_iff, query_ends_iff, State.findTracksByRecording, hothers, hexisting]
      refine ⟨rfl, ?_⟩
      simp only [List.any_eq_true, decide_eq_true_eq]
      constructor
      · rintro ⟨other, hother, hne⟩
        obtain ⟨hrow, hmbid⟩ := (hrows other).mp hother
        exact ⟨mbid, rfl, other.id, other, hrow, hmbid, hne.symm⟩
      · rintro ⟨_, ⟨⟩, i, other, hrow, hmbid, hne⟩
        obtain rfl := h.tracks.numbered.id_eq hrow
        exact ⟨other, (hrows other).mpr ⟨hrow, hmbid⟩, hne.symm⟩

def soundRejection? (m : Tag.Metadata) : Option Rejection :=
  if m.audioStreams = 0 then some .noAudio
  else if m.durationMs = 0 then some .badDuration
  else none

theorem rejection?_eq (skipsDuplicates : Bool) (existing : Option Track) (m : Tag.Metadata) :
    rejection? skipsDuplicates existing m = (do
      if skipsDuplicates then
        if ← isDuplicate existing m then return some .duplicate
      return soundRejection? m) := by
  unfold rejection? soundRejection?
  split_ifs <;> rfl

/-- Duplicates are rejected as such, where they are skipped; else only the sound decides. -/
inductive Verdict (skipsDuplicates : Bool) (isDuplicated : Prop) (m : Tag.Metadata) :
    Option Rejection → Prop
  | duplicate (hskips : skipsDuplicates = true) (h : isDuplicated) :
    Verdict skipsDuplicates isDuplicated m (some .duplicate)
  | sound (h : skipsDuplicates = true → ¬ isDuplicated) :
    Verdict skipsDuplicates isDuplicated m (soundRejection? m)

theorem Verdict.eq_sound {skipsDuplicates : Bool} {isDuplicated : Prop} {m : Tag.Metadata}
    {why : Option Rejection} (h : Verdict skipsDuplicates isDuplicated m why)
    (hkeeps : skipsDuplicates = false) : why = soundRejection? m := by
  cases h with
  | duplicate hskips => simp [hkeeps] at hskips
  | sound => rfl

def Passes (skipsDuplicates : Bool) (s : State) (key : String) (m : Tag.Metadata) : Prop :=
  (skipsDuplicates = true → ¬ Duplicated s key m) ∧ m.audioStreams ≠ 0 ∧ m.durationMs ≠ 0

theorem soundRejection?_eq_none_iff {m : Tag.Metadata} :
    soundRejection? m = none ↔ m.audioStreams ≠ 0 ∧ m.durationMs ≠ 0 := by
  unfold soundRejection?
  split_ifs <;> simp_all

theorem Verdict.eq_none_iff {skipsDuplicates : Bool} {key : String} {m : Tag.Metadata}
    {why : Option Rejection} (h : Verdict skipsDuplicates (Duplicated s key m) m why) :
    why = none ↔ Passes skipsDuplicates s key m := by
  cases h with
  | duplicate hskips hduplicated =>
      exact iff_of_false (by simp) fun passes => passes.1 hskips hduplicated
  | sound hnot => exact soundRejection?_eq_none_iff.trans (and_iff_right hnot).symm

theorem rejection?_succeeds (h : s.Coherent) (skipsDuplicates : Bool) (existing : Option Track)
    {key : String} (hexisting : existing.map Track.id = s.trackByPath[key]?) (m : Tag.Metadata) :
    Succeeds (rejection? skipsDuplicates existing m) s fun why t =>
      t = s ∧ Verdict skipsDuplicates (Duplicated s key m) m why := by
  rw [rejection?_eq]
  cases skipsDuplicates with
  | false => exact ⟨rfl, .sound (by simp)⟩
  | true =>
      apply Ends.bind (isDuplicate_succeeds h hexisting m)
      rintro isDuplicate t ⟨ht, hduplicate⟩
      cases isDuplicate with
      | true => exact ⟨ht, .duplicate rfl (hduplicate.mp rfl)⟩
      | false => exact ⟨ht, .sound fun _ => by simpa using hduplicate⟩

/-- What the catalog then knows of a file: nothing where the file was rejected, else what the file
says. -/
def Settled (skipsDuplicates : Bool) (isDuplicated : Prop) (entry : Entry) (m : Tag.Metadata)
    (stamp : Stamp) (file : Option Track) : Outcome → Prop
  | .rejected why _ => file = none ∧ Verdict skipsDuplicates isDuplicated m (some why)
  | .added | .updated =>
    (∃ id, file = some (described { id, path := entry.key } entry m stamp)) ∧
      Verdict skipsDuplicates isDuplicated m none

theorem described_unlinked {track : Track} {entry : Entry} (hpath : track.path = entry.key)
    (m : Tag.Metadata) (stamp : Stamp) :
    (described track entry m stamp).unlinked =
      described { id := track.id, path := entry.key } entry m stamp := by
  simp [Track.unlinked, described, hpath]

/-- What comes of a file: its track is written, whether it was there or is new, or the file is
rejected, and its track goes where there was one. -/
theorem reconcile_of_cases (h : s.Coherent) (skipsDuplicates : Bool) (entry : Entry)
    (m : Tag.Metadata) (stamp : Stamp) {ok : Outcome → State → Prop}
    (removed : ∀ (track : Track) (why : Rejection), s.tracks[track.id]? = some track →
      s.trackByPath[track.path]? = some track.id → track.path = entry.key →
        Verdict skipsDuplicates (Duplicated s entry.key m) m (some why) →
          ok (.rejected why true) (s.withoutTrack track.id track))
    (refused : ∀ why, s.trackByPath[entry.key]? = none →
      Verdict skipsDuplicates (Duplicated s entry.key m) m (some why) → ok (.rejected why false) s)
    (updated : ∀ track : Track, s.tracks[track.id]? = some track →
      s.trackByPath[track.path]? = some track.id → track.path = entry.key →
        Verdict skipsDuplicates (Duplicated s entry.key m) m none →
          Succeeds (applyMetadata track entry m stamp) s fun _ => ok .updated)
    (added : s.trackByPath[entry.key]? = none →
      Verdict skipsDuplicates (Duplicated s entry.key m) m none →
        Succeeds (applyMetadata { id := ⟨s.nextTrack⟩, path := entry.key } entry m stamp)
          (s.withNewTrack entry.key) fun _ => ok .added) :
    Succeeds (reconcile skipsDuplicates entry m stamp) s ok := by
  unfold reconcile Succeeds
  rw [Ends.bind_iff, query_ends_iff]
  rcases h.findTrackByPath_cases entry.key with
    ⟨track, hentry, hrow, hpath, hfind⟩ | ⟨hnone, hfind⟩
  · rw [hfind]
    refine Ends.bind (rejection?_succeeds h skipsDuplicates (some track) hentry.symm m) ?_
    rintro why t ⟨rfl, verdict⟩
    cases why with
    | some why =>
        simp only [removeStale, Ends.bind_iff, State.removeTrack_ends_iff, hrow, Ends.pure_iff]
        exact removed track why hrow (hpath ▸ hentry) hpath verdict
    | none =>
        exact Ends.bind (updated track hrow (hpath ▸ hentry) hpath verdict) fun _ _ ht => ht
  · rw [hfind]
    refine Ends.bind (rejection?_succeeds h skipsDuplicates none hnone.symm m) ?_
    rintro why t ⟨rfl, verdict⟩
    cases why with
    | some why => exact refused why hnone verdict
    | none =>
        rw [Ends.bind_iff, State.createTrack_ends_iff, hfind]
        exact Ends.bind (added hnone verdict) fun _ _ ht => ht

theorem reconcile_succeeds (h : s.Coherent) (skipsDuplicates : Bool) (entry : Entry)
    (m : Tag.Metadata) (stamp : Stamp) :
    Succeeds (reconcile skipsDuplicates entry m stamp) s fun outcome t =>
      s.TouchesOnly entry.key t ∧
        Settled skipsDuplicates (Duplicated s entry.key m) entry m stamp (t.fileAt entry.key)
          outcome := by
  apply reconcile_of_cases h
  · intro track why hrow _ hpath verdict
    obtain ⟨only, hgone⟩ := h.withoutTrack_touchesOnly hrow
    exact ⟨hpath ▸ only, hpath ▸ hgone, verdict⟩
  · intro why hnone verdict
    refine ⟨(State.SameFiles.refl s).touchesOnly h entry.key, ?_, verdict⟩
    simp [State.fileAt, hnone]
  · intro track hrow hentry hpath verdict
    refine (applyMetadata_succeeds h hrow hentry entry m stamp).imp ?_ fun _ _ => id
    rintro _ t ⟨only, hfile⟩
    refine ⟨hpath ▸ only, ⟨track.id, ?_⟩, verdict⟩
    rw [← hpath, hfile, described_unlinked hpath, hpath]
  · intro hnone verdict
    have created := h.withNewTrack_touchesOnly hnone
    refine (applyMetadata_succeeds created.coherent Std.ExtTreeMap.getElem?_insert_self
      Std.ExtTreeMap.getElem?_insert_self entry m stamp).imp ?_ fun _ _ => id
    rintro _ u ⟨only, hfile⟩
    exact ⟨created.trans only, ⟨_, hfile⟩, verdict⟩

end AudioCatalog.Scan
