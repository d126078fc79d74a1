import AudioCatalog.Proofs.TrackChange

namespace AudioCatalog.Catalog.State

variable {s t u : State}

def fileAt (s : State) (path : String) : Option Track :=
  s.trackByPath[path]?.bind fun i => s.tracks[i]?.map Track.unlinked

/-- Every track is found by its path. -/
def Listed (s : State) : Prop :=
  ∀ (i : TrackId) (track : Track), s.tracks[i]? = some track → s.trackByPath[track.path]? = some i

/-- A change that bears on one path only. -/
structure TouchesOnly (key : String) (s t : State) : Prop where
  coherent : t.Coherent
  listed : s.Listed → t.Listed
  others : ∀ path, path ≠ key → t.fileAt path = s.fileAt path
  settings : t.settings = s.settings

theorem listed_empty : ({} : State).Listed := fun i track h => by simp at h

namespace SameFiles

variable (h : s.SameFiles t)
include h

theorem fileAt_eq (path : String) : t.fileAt path = s.fileAt path := by
  simp only [fileAt, h.trackByPath, h.tracks]

theorem exists_row {i : TrackId} {track : Track} (hrow : t.tracks[i]? = some track) :
    ∃ other, s.tracks[i]? = some other ∧ other.unlinked = track.unlinked := by
  have := h.tracks i
  rw [hrow, Option.map_some] at this
  exact Option.map_eq_some_iff.mp this.symm

theorem listed (hs : s.Listed) : t.Listed := by
  intro i track hrow
  obtain ⟨other, hother, hsame⟩ := h.exists_row hrow
  have hpath : other.path = track.path := by
    have := congrArg Track.path hsame
    exact this
  rw [h.trackByPath, ← hpath]
  exact hs i other hother

theorem touchesOnly (ht : t.Coherent) (key : String) : s.TouchesOnly key t :=
  ⟨ht, h.listed, fun path _ => h.fileAt_eq path, h.settings⟩

end SameFiles

namespace TouchesOnly

variable {key : String}

theorem trans (h : s.TouchesOnly key t) (h' : t.TouchesOnly key u) : s.TouchesOnly key u :=
  ⟨h'.coherent, fun hs => h'.listed (h.listed hs),
    fun path hpath => (h'.others path hpath).trans (h.others path hpath),
    h'.settings.trans h.settings⟩

end TouchesOnly

theorem fileAt_eq_some {path : String} {file : Track} :
    s.fileAt path = some file ↔ ∃ (i : TrackId) (track : Track), s.trackByPath[path]? = some i ∧
      s.tracks[i]? = some track ∧ track.unlinked = file := by
  simp [fileAt, Option.bind_eq_some_iff]

namespace Coherent

variable (h : s.Coherent)
include h

theorem withNewTrack_touchesOnly {path : String} (hfree : s.trackByPath[path]? = none) :
    s.TouchesOnly path (s.withNewTrack path) := by
  have fresh := h.tracks.numbered.getElem?_next
  refine ⟨h.withNewTrack path, fun hs i track hrow => ?_, fun other hother => ?_, rfl⟩
  · simp only [State.withNewTrack, Std.ExtTreeMap.getElem?_insert, Std.compare_eq_iff_eq] at hrow ⊢
    split_ifs at hrow with hi
    · cases hrow
      simp [hi]
    · have hlisted := hs i track hrow
      have : path ≠ track.path := by
        rintro rfl
        rw [hfree] at hlisted
        cases hlisted
      rw [if_neg this, hlisted]
  · simp only [fileAt, State.withNewTrack, Std.ExtTreeMap.getElem?_insert, Std.compare_eq_iff_eq,
      if_neg hother.symm]
    cases hi : s.trackByPath[other]? with
    | none => rfl
    | some i =>
        obtain ⟨track, hrow, -⟩ := h.tracks.byPath hi
        have : (⟨s.nextTrack⟩ : TrackId) ≠ i := by
          rintro rfl
          rw [fresh] at hrow
          cases hrow
        simp [this]

theorem withTrack_touchesOnly {previous track : Track} (hrow : s.tracks[track.id]? = some previous)
    (hpath : previous.path = track.path) : s.TouchesOnly track.path (s.withTrack previous track) := by
  refine ⟨h.withTrack hrow, fun hs i other hother => ?_, fun path hne => ?_, rfl⟩
  · simp only [State.withTrack, if_pos hpath, Std.ExtTreeMap.getElem?_insert,
      Std.compare_eq_iff_eq] at hother ⊢
    split_ifs at hother with hi
    · cases hother
      rw [← hpath, ← hi]
      exact hs track.id previous hrow
    · exact hs i other hother
  · simp only [fileAt, State.withTrack, if_pos hpath, Std.ExtTreeMap.getElem?_insert,
      Std.compare_eq_iff_eq]
    cases hi : s.trackByPath[path]? with
    | none => rfl
    | some i =>
        obtain ⟨other, hother, hsame⟩ := h.tracks.byPath hi
        have : track.id ≠ i := by
          rintro rfl
          rw [hrow] at hother
          cases hother
          exact hne (hsame.symm.trans hpath)
        simp [this]

omit h in
theorem fileAt_withTrack {previous track : Track} (hpath : previous.path = track.path)
    (hentry : s.trackByPath[track.path]? = some track.id) :
    (s.withTrack previous track).fileAt track.path = some track.unlinked := by
  refine fileAt_eq_some.mpr ⟨track.id, track, ?_, ?_, rfl⟩
  · rw [State.withTrack, if_pos hpath, hentry]
  · simp [State.withTrack]

theorem updateTrack_succeeds {previous track : Track} (hrow : s.tracks[track.id]? = some previous)
    (hpath : previous.path = track.path) (hentry : s.trackByPath[track.path]? = some track.id) :
    Succeeds (Session.updateTrack track) s fun _ t =>
      s.TouchesOnly track.path t ∧ t.fileAt track.path = some track.unlinked := by
  rw [Succeeds, updateTrack_ends_iff, hrow]
  exact ⟨h.withTrack_touchesOnly hrow hpath, fileAt_withTrack hpath hentry⟩

theorem withoutTrack_touchesOnly {id : TrackId} {track : Track} (hrow : s.tracks[id]? = some track) :
    s.TouchesOnly track.path (s.withoutTrack id track) ∧
      (s.withoutTrack id track).fileAt track.path = none := by
  refine ⟨⟨h.withoutTrack hrow, fun hs i other hother => ?_, fun path hne => ?_, rfl⟩, ?_⟩
  · obtain ⟨hold, hi⟩ := getElem?_erase_eq_some.mp hother
    have hlisted := hs i other hold
    have : track.path ≠ other.path := by
      intro hpath
      have := hs id track hrow
      rw [hpath, hlisted] at this
      exact hi (Option.some.inj this)
    simp only [State.withoutTrack, Std.ExtTreeMap.getElem?_erase, Std.compare_eq_iff_eq,
      if_neg this]
    exact hlisted
  · simp only [fileAt, State.withoutTrack, Std.ExtTreeMap.getElem?_erase, Std.compare_eq_iff_eq,
      if_neg hne.symm]
    cases hi : s.trackByPath[path]? with
    | none => rfl
    | some i =>
        obtain ⟨other, hother, hsame⟩ := h.tracks.byPath hi
        have : id ≠ i := by
          rintro rfl
          rw [hrow] at hother
          cases hother
          exact hne hsame.symm
        simp [this]
  · simp [fileAt, State.withoutTrack]

end Coherent

/-- The track has the path, and no other has it. -/
structure OnlyTrackAt (s : State) (path : String) (track : Track) : Prop where
  row : s.tracks[track.id]? = some track
  path_eq : track.path = path
  only : ∀ (i : TrackId) (other : Track), s.tracks[i]? = some other → other.path = path →
    i = track.id

theorem Coherent.onlyTrackAt (h : s.Coherent) (listed : s.Listed) {i : TrackId} {track : Track}
    (hrow : s.tracks[i]? = some track) : s.OnlyTrackAt track.path track := by
  obtain rfl := h.tracks.numbered.id_eq hrow
  refine ⟨hrow, rfl, fun j other hother hsame => ?_⟩
  have hentry := listed j other hother
  rw [hsame, listed track.id track hrow] at hentry
  exact (Option.some.inj hentry).symm

theorem Coherent.exists_onlyTrackAt (h : s.Coherent) (listed : s.Listed) {path : String}
    {file : Track} (hfile : s.fileAt path = some file) :
    ∃ track, s.OnlyTrackAt path track ∧ track.unlinked = file := by
  obtain ⟨i, track, hentry, hrow, hunlinked⟩ := fileAt_eq_some.mp hfile
  obtain ⟨listed', hlisted, rfl⟩ := h.tracks.byPath hentry
  rw [hrow] at hlisted
  cases hlisted
  exact ⟨track, h.onlyTrackAt listed hrow, hunlinked⟩

def HasTracksOf (s t : State) : Prop :=
  ∀ (i : TrackId) (track : Track), t.tracks[i]? = some track →
    ∃ other, s.tracks[i]? = some other ∧ other.path = track.path

namespace HasTracksOf

theorem refl (s : State) : s.HasTracksOf s := fun _ track hrow => ⟨track, hrow, rfl⟩

variable (h : s.HasTracksOf t)
include h

theorem sameFiles (same : t.SameFiles u) : s.HasTracksOf u := by
  intro i track hrow
  obtain ⟨other, hother, hsame⟩ := same.exists_row hrow
  have hpath : other.path = track.path := by
    have := congrArg Track.path hsame
    exact this
  exact hpath ▸ h i other hother

theorem withoutTrack (id : TrackId) (track : Track) : s.HasTracksOf (t.withoutTrack id track) :=
  fun i other hother => h i other (getElem?_erase_eq_some.mp hother).1

theorem path_eq (hs : s.Coherent) {id : TrackId} {path : String} {track : Track}
    (hpath : (id, path) ∈ s.trackPaths) (hrow : t.tracks[id]? = some track) :
    path = track.path := by
  obtain ⟨⟨_, _⟩, hentry, heq⟩ := List.mem_map.mp hpath
  cases heq
  obtain ⟨listed, hlisted, hsame⟩ :=
    hs.tracks.byPath (Std.ExtTreeMap.mem_toList_iff_getElem?_eq_some.mp hentry)
  obtain ⟨other, hother, hsame'⟩ := h id track hrow
  rw [hlisted] at hother
  cases hother
  exact hsame.symm.trans hsame'

end HasTracksOf

end AudioCatalog.Catalog.State
