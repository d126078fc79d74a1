import AudioCatalog.Proofs.FileView
import AudioCatalog.Proofs.Operation

namespace AudioCatalog.Catalog

namespace State

variable {s : State}

/-- No two tracks have the same path, the index holds the paths of the tracks and nothing else, and
no track is created at a path that there is. -/
structure PathsExact (s : State) : Prop where
  finds : ∀ path, FindsOne s.tracks (·.path = path) (s.findTrackByPath path)
  index : Matches (fun path i => s.trackByPath[path]? = some i) s.tracks fun track path =>
    track.path = path
  lists : ∀ i path, (i, path) ∈ s.trackPaths ↔
    ∃ track, s.tracks[i]? = some track ∧ track.path = path
  refuses : ∀ {i : TrackId} {track : Track}, s.tracks[i]? = some track →
    Session.createTrack track.path s = .error (.conflict (.pathTaken track.path)) s

def Displaces (s : State) (track : Track) : Prop :=
  s.tracks[track.id]?.isSome ∧ ∃ (i : TrackId) (other : Track),
    s.tracks[i]? = some other ∧ other.path = track.path ∧ i ≠ track.id

instance (s : State) (track : Track) : Decidable (s.Displaces track) :=
  decidable_of_iff (s.tracks[track.id]?.isSome ∧
      ∃ entry ∈ s.tracks.toList, entry.2.path = track.path ∧ entry.1 ≠ track.id) <| by
    simp [Displaces, Std.ExtTreeMap.mem_toList_iff_getElem?_eq_some]

theorem mem_trackPaths {i : TrackId} {path : String} :
    (i, path) ∈ s.trackPaths ↔ s.trackByPath[path]? = some i := by
  simp only [trackPaths, List.mem_map, Prod.exists, Prod.mk.injEq,
    Std.ExtTreeMap.mem_toList_iff_getElem?_eq_some]
  constructor
  · rintro ⟨_, _, hentry, rfl, rfl⟩
    exact hentry
  · exact fun hentry => ⟨path, i, hentry, rfl, rfl⟩

namespace Coherent

variable (h : s.Coherent)
include h

theorem trackByPath_matches (hs : s.Listed) :
    Matches (fun path i => s.trackByPath[path]? = some i) s.tracks fun track path =>
      track.path = path := by
  refine fun path i => ⟨h.tracks.byPath, ?_⟩
  rintro ⟨track, hrow, rfl⟩
  exact hs i track hrow

theorem pathsExact (hs : s.Listed) : s.PathsExact := by
  have index := h.trackByPath_matches hs
  have finds (path : String) : FindsOne s.tracks (·.path = path) (s.findTrackByPath path) := by
    have found : (∃ track, s.tracks[track.id]? = some track ∧ track.path = path ∧
          s.findTrackByPath path = .ok (some track)) ∨
        ((∀ (i : TrackId) (track : Track), s.tracks[i]? = some track → ¬ track.path = path) ∧
          s.findTrackByPath path = .ok none) := by
      rcases h.findTrackByPath_cases path with ⟨track, -, hrow, hpath, hfind⟩ | ⟨hfree, hfind⟩
      · exact .inl ⟨track, hrow, hpath, hfind⟩
      · refine .inr ⟨fun i track hrow hpath => ?_, hfind⟩
        have entry := (index path i).mpr ⟨track, hrow, hpath⟩
        simp [hfree] at entry
    refine .of_cases (fun {i j track other} hi hj htrack hother => ?_) found
    have first := (index path i).mpr ⟨track, hi, htrack⟩
    have second := (index path j).mpr ⟨other, hj, hother⟩
    exact Option.some.inj (first.symm.trans second)
  refine ⟨finds, index, fun i path => mem_trackPaths.trans (index path i), fun {i track} hrow => ?_⟩
  obtain ⟨found, hfind, hfound⟩ := (finds track.path).finds
  obtain rfl := (hfound track).mpr ⟨i, hrow, rfl⟩
  have refused : Ends (Session.createTrack track.path) s (fun _ _ => False)
      fun e t => e = .conflict (.pathTaken track.path) ∧ t = s := by
    rw [createTrack_ends_iff, hfind]
    exact ⟨rfl, rfl⟩
  unfold Ends at refused
  split at refused
  · exact refused.elim
  · rename_i hrun
    rw [hrun, refused.1, refused.2]

end Coherent

namespace Listed

variable (hs : s.Listed)
include hs

theorem withTrack {previous track : Track}
    (hrow : s.tracks[track.id]? = some previous) (apart : ¬ s.Displaces track) :
    (s.withTrack previous track).Listed := by
  intro i other hother
  simp only [State.withTrack, Std.ExtTreeMap.getElem?_insert, Std.compare_eq_iff_eq] at hother ⊢
  split_ifs at hother with hi
  · cases hother
    split_ifs with hpath
    · rw [← hpath, ← hi]
      exact hs track.id previous hrow
    · simp [hi]
  · have hlisted := hs i other hother
    have fresh : track.path ≠ other.path := fun hpath =>
      apart ⟨by simp [hrow], i, other, hother, hpath.symm, fun e => hi e.symm⟩
    have kept : previous.path ≠ other.path := by
      intro hpath
      have := hs track.id previous hrow
      rw [hpath, hlisted] at this
      exact hi (Option.some.inj this).symm
    split_ifs with hpath
    · exact hlisted
    · simp only [Std.ExtTreeMap.getElem?_insert, Std.ExtTreeMap.getElem?_erase,
        Std.compare_eq_iff_eq, if_neg fresh, if_neg kept]
      exact hlisted

/-- A track is written with the path of another one all the same. Both have the path then, and it
leads to the one that was written. -/
theorem updateTrack_displaces {track : Track} (hdisplaces : s.Displaces track) :
    ∃ t, Session.updateTrack track s = .ok () t ∧ t.findTrackByPath track.path = .ok (some track) ∧
      ∃ (i : TrackId) (other : Track), i ≠ track.id ∧ t.tracks[i]? = some other ∧
        other.path = track.path := by
  obtain ⟨hrow, i, other, hother, hpath, hne⟩ := hdisplaces
  obtain ⟨previous, hrow⟩ := Option.isSome_iff_exists.mp hrow
  have moves : previous.path ≠ track.path := by
    intro hsame
    have hlisted := hs i other hother
    rw [hpath, ← hsame, hs track.id previous hrow] at hlisted
    exact hne (Option.some.inj hlisted).symm
  have written : Succeeds (Session.updateTrack track) s fun _ t => t = s.withTrack previous track := by
    rw [Succeeds, updateTrack_ends_iff, hrow]
  obtain ⟨⟨⟩, t, hrun, rfl⟩ := succeeds_iff.mp written
  refine ⟨_, hrun, ?_, i, other, hne, ?_, hpath⟩
  · simp [findTrackByPath, State.withTrack, moves, indexed?, indexed, Except.map]
  · simp only [State.withTrack, Std.ExtTreeMap.getElem?_insert, Std.compare_eq_iff_eq,
      if_neg hne.symm]
    exact hother

end Listed

end State

def Mutation.Displaces (s : State) : Mutation → Prop
  | .updateTrack track => s.Displaces track
  | _ => False

instance (s : State) (m : Mutation) : Decidable (m.Displaces s) := by
  cases m <;> unfold Mutation.Displaces <;> infer_instance

theorem Mutation.keeps_listed (m : Mutation) {s : State} (h : s.Coherent) (hs : s.Listed)
    (apart : ¬ m.Displaces s) : Ends m.run s (fun _ => State.Listed) fun _ => State.Listed := by
  have settled {α : Type} {x : Session α} {error : Error → State → Prop}
      (hx : Ends x s (fun _ t => t.Coherent ∧ s.SameFiles t) error)
      (herror : ∀ e t, error e t → t.Listed) :
      Ends x s (fun _ t => t.Listed) fun _ t => t.Listed :=
    hx.imp (fun _ _ ht => ht.2.listed hs) herror
  have unchanged {p : State → Prop} (_ : Error) (t : State) (ht : t = s ∧ p t) : t.Listed :=
    ht.1 ▸ hs
  cases m with
  | createTrack path =>
      simp only [run, Ends.bind_iff, Ends.pure_iff, State.createTrack_ends_iff]
      rcases h.findTrackByPath_cases path with ⟨track, -, -, -, hfind⟩ | ⟨hfree, hfind⟩
      · rw [hfind]
        exact hs
      · rw [hfind]
        exact (h.withNewTrack_touchesOnly hfree).listed hs
  | updateTrack track =>
      rw [run, State.updateTrack_ends_iff]
      cases hrow : s.tracks[track.id]? with
      | none => exact hs
      | some previous => exact hs.withTrack hrow apart
  | removeTrack id =>
      simp only [run, Ends.bind_iff, Ends.pure_iff, State.removeTrack_ends_iff]
      cases hrow : s.tracks[id]? with
      | none => exact hs
      | some track => exact (h.withoutTrack_touchesOnly hrow).1.listed hs
  | setFeatures | removeFeatures | saveSettings | clearCredits | addCredit => exact hs
  | createArtist name sortName mbid =>
      exact Ends.bind_iff.mpr (settled (h.createArtist_ends name sortName mbid) unchanged)
  | updateArtist artist => exact settled (h.updateArtist_ends artist) unchanged
  | removeArtist id =>
      exact Ends.bind_iff.mpr (settled (h.removeArtist_succeeds id) fun _ _ => False.elim)
  | createRelease name mbid =>
      exact Ends.bind_iff.mpr (settled (h.createRelease_ends name mbid) unchanged)
  | updateRelease release => exact settled (h.updateRelease_ends release) unchanged
  | removeRelease id =>
      exact Ends.bind_iff.mpr (settled (h.removeRelease_succeeds id) fun _ _ => False.elim)
  | createClusterType name =>
      exact Ends.bind_iff.mpr (settled (h.createClusterType_ends name) unchanged)
  | createCluster key =>
      exact Ends.bind_iff.mpr (settled (h.createCluster_ends key) unchanged)
  | removeCluster id =>
      exact Ends.bind_iff.mpr (settled (h.removeCluster_succeeds id) fun _ _ => False.elim)

namespace Store

def Displaces (store : Store) : Operation → Prop
  | .change m => ∃ s ∈ store.session?, m.Displaces s
  | _ => False

instance (store : Store) (op : Operation) : Decidable (store.Displaces op) := by
  cases op <;> unfold Displaces <;> infer_instance

/-- None of the operations, when it is its turn, writes a track with the path of another one. -/
def KeepsPathsApart (store : Store) : List Operation → Prop
  | [] => True
  | op :: ops => ¬ store.Displaces op ∧ (store.step op).KeepsPathsApart ops

def KeepsPathsApart.decide (store : Store) :
    (ops : List Operation) → Decidable (store.KeepsPathsApart ops)
  | [] => isTrue trivial
  | op :: ops =>
    match KeepsPathsApart.decide (store.step op) ops with
    | isTrue h => if hop : store.Displaces op then isFalse fun h' => h'.1 hop else isTrue ⟨hop, h⟩
    | isFalse h => isFalse fun h' => h h'.2

instance (store : Store) (ops : List Operation) : Decidable (store.KeepsPathsApart ops) :=
  KeepsPathsApart.decide store ops

theorem All.keeps_listed {store : Store} (h : store.All fun s => s.Coherent ∧ s.Listed)
    {ops : List Operation} (apart : store.KeepsPathsApart ops) :
    (store.run ops).All fun s => s.Coherent ∧ s.Listed := by
  induction ops generalizing store with
  | nil => exact h
  | cons op ops ih =>
      refine ih (h.step fun m s hop hs hI => ?_) apart.2
      have hm : ¬ m.Displaces s := fun hm => apart.1 (hop ▸ ⟨s, hs, hm⟩)
      exact (m.keeps_coherent s hI.1).and (m.keeps_listed hI.1 hI.2 hm)

/-- A store that is taken from the empty catalog through operations of which none writes a track
with the path of another one has at every path one track at most, and finds it there. -/
theorem run_pathsExact {ops : List Operation} (apart : ({} : Store).KeepsPathsApart ops) :
    (run ops {}).All State.PathsExact := by
  have start : ({} : Store).All fun s => s.Coherent ∧ s.Listed :=
    ⟨⟨State.coherent_empty, State.listed_empty⟩, by simp⟩
  have h := start.keeps_listed apart
  exact ⟨h.published.1.pathsExact h.published.2,
    fun s hs => (h.session s hs).1.pathsExact (h.session s hs).2⟩

def swapping : List Operation :=
  [.beginSession, .change (.createTrack "a"), .change (.createTrack "b"),
    .change (.updateTrack { id := ⟨1⟩, path := "c" }),
    .change (.updateTrack { id := ⟨2⟩, path := "a" }),
    .change (.updateTrack { id := ⟨1⟩, path := "b" }), .commit]

theorem run_swapping_pathsExact :
    ({} : Store).KeepsPathsApart swapping ∧ (run swapping {}).All State.PathsExact :=
  ⟨by decide, run_pathsExact (by decide)⟩

def displacing : List Operation :=
  [.beginSession, .change (.createTrack "a"), .change (.createTrack "b"),
    .change (.updateTrack { id := ⟨2⟩, path := "a" }), .commit]

theorem run_displacing_not_pathsExact : ¬ (run displacing {}).All State.PathsExact := by
  intro h
  have first : (run displacing {}).published.tracks[(⟨1⟩ : TrackId)]? =
      some { id := ⟨1⟩, path := "a" } := by decide
  have second : (run displacing {}).published.tracks[(⟨2⟩ : TrackId)]? =
      some { id := ⟨2⟩, path := "a" } := by decide
  have := (h.published.finds "a").unique first second rfl rfl
  exact absurd this (by decide)

end Store

end AudioCatalog.Catalog
