import AudioCatalog.Proofs.Scanned

namespace AudioCatalog

namespace Catalog.State

variable {s t : State} {mbid : Mbid}

def recordingAt (s : State) (path : String) : Option Mbid :=
  (s.fileAt path).bind Track.recordingMbid

def heldAt (s : State) (path : String) : Option (Option Mbid) :=
  (s.fileAt path).map Track.recordingMbid

/-- Every track is found by its path, and no two are of one recording. -/
structure Distinct (s : State) : Prop where
  coherent : s.Coherent
  listed : s.Listed
  oneEach : ∀ {mbid : Mbid} {p q : String},
    s.recordingAt p = some mbid → s.recordingAt q = some mbid → p = q

theorem TouchesOnly.recordingAt_eq {key path : String} (h : s.TouchesOnly key t)
    (hne : path ≠ key) : t.recordingAt path = s.recordingAt path := by
  rw [recordingAt, h.others path hne, recordingAt]

theorem SameFiles.recordingAt_eq (h : s.SameFiles t) (path : String) :
    t.recordingAt path = s.recordingAt path := by
  rw [recordingAt, h.fileAt_eq, recordingAt]

theorem TouchesOnly.heldAt_eq {key path : String} (h : s.TouchesOnly key t) (hne : path ≠ key) :
    t.heldAt path = s.heldAt path := by
  rw [heldAt, h.others path hne, heldAt]

theorem SameFiles.heldAt_eq (h : s.SameFiles t) (path : String) : t.heldAt path = s.heldAt path := by
  rw [heldAt, h.fileAt_eq, heldAt]

theorem recordingAt_eq_join (s : State) (path : String) :
    s.recordingAt path = (s.heldAt path).join := by
  rw [recordingAt, heldAt]
  cases s.fileAt path <;> rfl

theorem recordingAt_eq_some {path : String} :
    s.recordingAt path = some mbid ↔ s.heldAt path = some (some mbid) := by
  rw [recordingAt_eq_join, Option.join_eq_some_iff]

theorem Coherent.exists_row_of_recordingAt (h : s.Coherent) {path : String}
    (hpath : s.recordingAt path = some mbid) :
    ∃ (i : TrackId) (track : Track), s.trackByPath[path]? = some i ∧ s.tracks[i]? = some track ∧
      track.path = path ∧ track.recordingMbid = some mbid := by
  obtain ⟨file, hfile, hmbid⟩ := Option.bind_eq_some_iff.mp hpath
  obtain ⟨i, track, hentry, hrow, rfl⟩ := fileAt_eq_some.mp hfile
  obtain ⟨_, hrow', hsame⟩ := h.tracks.byPath hentry
  rw [hrow] at hrow'
  cases hrow'
  exact ⟨i, track, hentry, hrow, hsame, hmbid⟩

theorem Listed.heldAt_eq (h : s.Listed) {i : TrackId} {track : Track}
    (hrow : s.tracks[i]? = some track) : s.heldAt track.path = some track.recordingMbid := by
  have hfile : s.fileAt track.path = some track.unlinked :=
    fileAt_eq_some.mpr ⟨i, track, h i track hrow, hrow, rfl⟩
  rw [heldAt, hfile]
  rfl

theorem Listed.recordingAt_eq (h : s.Listed) {i : TrackId} {track : Track}
    (hrow : s.tracks[i]? = some track) : s.recordingAt track.path = track.recordingMbid := by
  rw [recordingAt_eq_join, h.heldAt_eq hrow]
  rfl

theorem Coherent.heldAt_eq_some (h : s.Coherent) (listed : s.Listed) {path : String}
    {recording : Option Mbid} : s.heldAt path = some recording ↔
      ∃ track, s.OnlyTrackAt path track ∧ track.recordingMbid = recording := by
  constructor
  · intro held
    obtain ⟨file, hfile, rfl⟩ := Option.map_eq_some_iff.mp held
    obtain ⟨track, only, rfl⟩ := h.exists_onlyTrackAt listed hfile
    exact ⟨track, only, rfl⟩
  · rintro ⟨track, only, rfl⟩
    rw [← only.path_eq, listed.heldAt_eq only.row]

theorem distinct_empty : ({} : State).Distinct where
  coherent := coherent_empty
  listed := listed_empty
  oneEach := fun hp => by simp [recordingAt, fileAt] at hp

namespace Distinct

variable (h : s.Distinct)
include h

theorem row_unique {i j : TrackId} {track other : Track}
    (hrow : s.tracks[i]? = some track) (hother : s.tracks[j]? = some other)
    (hmbid : track.recordingMbid = some mbid) (hmbid' : other.recordingMbid = some mbid) :
    i = j := by
  have hpath : track.path = other.path :=
    h.oneEach ((h.listed.recordingAt_eq hrow).trans hmbid)
      ((h.listed.recordingAt_eq hother).trans hmbid')
  have hi := h.listed i track hrow
  rw [hpath, h.listed j other hother] at hi
  exact (Option.some.inj hi).symm

theorem exists_holder (mbid : Mbid) :
    ∃ holder : Option String, ∀ path, s.recordingAt path = some mbid ↔ holder = some path := by
  by_cases hpath : ∃ path, s.recordingAt path = some mbid
  · obtain ⟨path, hpath⟩ := hpath
    refine ⟨some path, fun other => ⟨fun hother => congrArg some (h.oneEach hpath hother), ?_⟩⟩
    rintro ⟨⟩
    exact hpath
  · exact ⟨none, fun path => ⟨fun h => absurd ⟨path, h⟩ hpath, by simp⟩⟩

theorem sameFiles (ht : t.Coherent) (same : s.SameFiles t) : t.Distinct where
  coherent := ht
  listed := same.listed h.listed
  oneEach := fun hp hq => by
    rw [same.recordingAt_eq] at hp hq
    exact h.oneEach hp hq

theorem withSettings (settings : ScanSettings) : ({ s with settings } : State).Distinct where
  coherent := h.coherent.withSettings settings
  listed := h.listed
  oneEach := h.oneEach

theorem touchesOnly {key : String} (only : s.TouchesOnly key t)
    (own : ∀ {mbid path}, t.recordingAt key = some mbid → s.recordingAt path = some mbid →
      path = key) : t.Distinct where
  coherent := only.coherent
  listed := only.listed h.listed
  oneEach := fun {mbid p q} hp hq => by
    by_cases hpKey : p = key
    · by_cases hqKey : q = key
      · rw [hpKey, hqKey]
      · rw [only.recordingAt_eq hqKey] at hq
        rw [hpKey, own (hpKey ▸ hp) hq]
    · rw [only.recordingAt_eq hpKey] at hp
      by_cases hqKey : q = key
      · rw [hqKey, own (hqKey ▸ hq) hp]
      · rw [only.recordingAt_eq hqKey] at hq
        exact h.oneEach hp hq

theorem withoutTrack {id : TrackId} {track : Track} (hrow : s.tracks[id]? = some track) :
    (s.withoutTrack id track).Distinct := by
  obtain ⟨only, hgone⟩ := h.coherent.withoutTrack_touchesOnly hrow
  refine h.touchesOnly only fun hown _ => ?_
  rw [recordingAt, hgone] at hown
  cases hown

end Distinct

end Catalog.State

namespace Scan

open Catalog

variable {σ κ : Type} {s t : State}

/-- Where every track is found by its path, a duplicate has another path. -/
theorem duplicated_iff (h : s.Coherent) (listed : s.Listed) {key : String} {m : Tag.Metadata} :
    Duplicated s key m ↔ ∃ mbid, m.recordingMbid = some mbid ∧
      ∃ path, path ≠ key ∧ s.recordingAt path = some mbid := by
  constructor
  · rintro ⟨mbid, hm, i, other, hrow, hmbid, hne⟩
    refine ⟨mbid, hm, other.path, ?_, (listed.recordingAt_eq hrow).trans hmbid⟩
    rintro rfl
    exact hne (listed i other hrow)
  · rintro ⟨mbid, hm, path, hne, hpath⟩
    obtain ⟨i, other, hentry, hrow, rfl, hmbid⟩ := h.exists_row_of_recordingAt hpath
    refine ⟨mbid, hm, i, other, hrow, hmbid, fun hkey => hne ?_⟩
    obtain ⟨_, hrow', hsame⟩ := h.tracks.byPath hkey
    rw [hrow] at hrow'
    cases hrow'
    exact hsame

/-- Where duplicates are skipped, the file has a track, of the recording that it says, if it was not
rejected, and none if it was. -/
theorem Settled.heldAt_cases {isDuplicated : Prop} {entry : Entry} {m : Tag.Metadata}
    {stamp : Stamp} {outcome : Outcome}
    (h : Settled true isDuplicated entry m stamp (t.fileAt entry.key) outcome) :
    (t.heldAt entry.key = some m.recordingMbid ∧ ¬ isDuplicated ∧ soundRejection? m = none) ∨
      (t.heldAt entry.key = none ∧ (isDuplicated ∨ soundRejection? m ≠ none)) := by
  have accepted (hfile : ∃ id, t.fileAt entry.key =
      some (described { id, path := entry.key } entry m stamp)) :
      t.heldAt entry.key = some m.recordingMbid := by
    obtain ⟨id, hfile⟩ := hfile
    rw [State.heldAt, hfile]
    rfl
  have verdicts {why : Option Rejection} (h : Verdict true isDuplicated m why) :
      why = none ∧ ¬ isDuplicated ∧ soundRejection? m = none ∨
        why ≠ none ∧ (isDuplicated ∨ soundRejection? m ≠ none) := by
    cases h with
    | duplicate _ hduplicated => exact .inr ⟨by simp, .inl hduplicated⟩
    | sound hfree =>
        by_cases hsound : soundRejection? m = none
        · exact .inl ⟨hsound, hfree rfl, hsound⟩
        · exact .inr ⟨hsound, .inr hsound⟩
  cases outcome with
  | added | updated =>
      rcases verdicts h.2 with ⟨-, free⟩ | ⟨hne, -⟩
      · exact .inl ⟨accepted h.1, free⟩
      · exact absurd rfl hne
  | rejected why removesTrack =>
      rcases verdicts h.2 with ⟨hnone, -⟩ | ⟨-, rejected⟩
      · cases hnone
      · exact .inr ⟨by rw [State.heldAt, h.1]; rfl, rejected⟩

theorem Settled.recordingAt_cases {isDuplicated : Prop} {entry : Entry} {m : Tag.Metadata}
    {stamp : Stamp} {outcome : Outcome}
    (h : Settled true isDuplicated entry m stamp (t.fileAt entry.key) outcome) :
    (t.recordingAt entry.key = m.recordingMbid ∧ ¬ isDuplicated ∧ soundRejection? m = none) ∨
      (t.recordingAt entry.key = none ∧ (isDuplicated ∨ soundRejection? m ≠ none)) := by
  rw [State.recordingAt_eq_join]
  rcases h.heldAt_cases with ⟨hheld, free⟩ | ⟨hheld, rejected⟩
  · exact .inl ⟨by rw [hheld]; rfl, free⟩
  · exact .inr ⟨by rw [hheld]; rfl, rejected⟩

theorem distinct_of_taken (h : s.Distinct) {entry : Entry} {m : Tag.Metadata} {stamp : Stamp}
    {outcome : Outcome} (only : s.TouchesOnly entry.key t)
    (settled : Settled true (Duplicated s entry.key m) entry m stamp (t.fileAt entry.key) outcome) :
    t.Distinct := by
  refine h.touchesOnly only fun hown hpath => ?_
  rcases settled.recordingAt_cases with ⟨hmbid, free, -⟩ | ⟨hnone, -⟩
  · by_contra hne
    exact free ((duplicated_iff h.coherent h.listed).mpr ⟨_, hmbid.symm.trans hown, _, hne, hpath⟩)
  · rw [hnone] at hown
    cases hown

theorem distinct_evidence (env : Surroundings σ κ) {plan : Plan}
    (hskips : plan.skipsDuplicates = true) :
    Evidence env plan (fun _ s => s.Distinct) (fun _ _ _ => True) fun _ _ _ _ => True where
  coherent := fun hs => hs.coherent
  wait := id
  report := fun _ => id
  clearAbort := id
  sameFiles := fun hs ht same => hs.sameFiles ht same
  withoutTrack := fun hs hrow => hs.withoutTrack hrow
  taken := fun hs _ _ only settled => distinct_of_taken hs only (hskips ▸ settled)
  dated := fun _ => trivial
  parsed := fun _ _ => trivial
  datedWait := id
  parsedWait := id
  parsedReport := fun _ => id

/-- Scans that skip duplicates, and nothing else, lead to no two tracks of one recording. -/
theorem Scanned.distinct (h : Scanned (fun plan => plan.skipsDuplicates = true) s) : s.Distinct :=
  h.holds State.distinct_empty (fun hs => hs.coherent) (fun hs ht same => hs.sameFiles ht same)
    (fun settings hs => hs.withSettings settings)
    fun env _ hskips _ _ hs => (distinct_evidence env hskips).process_succeeds hs

end Scan

end AudioCatalog
