import AudioCatalog.Proofs.Heirs
import AudioCatalog.Proofs.Rescan
import Mathlib.Data.List.Induction

namespace AudioCatalog.Scan

open Catalog

variable {σ κ : Type}

/-- The file can be dated and parsed, and has sound: that of the recording, or else of none. -/
def Sounds (tree : FileTree κ) (parser : Path → Except Tag.ParseError Tag.Metadata) (p : Path)
    (recording : Option Mbid) : Prop :=
  ∃ time m, tree.lastWriteSeconds p = .ok time ∧ parser p = .ok m ∧ 0 < m.audioStreams ∧
    0 < m.durationMs ∧ m.recordingMbid = recording

instance (tree : FileTree κ) (parser : Path → Except Tag.ParseError Tag.Metadata) (p : Path)
    (recording : Option Mbid) : Decidable (Sounds tree parser p recording) :=
  decidable_of_iff (∃ _time ∈ (tree.lastWriteSeconds p).toOption, ∃ m ∈ (parser p).toOption,
      0 < m.audioStreams ∧ 0 < m.durationMs ∧ m.recordingMbid = recording) <| by
    cases hdated : tree.lastWriteSeconds p <;> cases hparsed : parser p <;>
      simp [Sounds, Except.toOption, hdated, hparsed]

/-- A file with sound that is of no recording, or that is the first of its recording. -/
def ComesFirst (tree : FileTree κ) (parser : Path → Except Tag.ParseError Tag.Metadata)
    (entries : List Entry) (key : String) (recording : Option Mbid) : Prop :=
  ∃ before entry after, entries = before ++ entry :: after ∧ entry.key = key ∧
    Sounds tree parser entry.path recording ∧
      (recording.isSome → ∀ earlier ∈ before, ¬ Sounds tree parser earlier.path recording)

section

variable {tree : FileTree κ} {parser : Path → Except Tag.ParseError Tag.Metadata} {plan : Plan}
  {recording : Option Mbid} {key : String} {entry : Entry} {done entries : List Entry}
  {s t : State} {m : Tag.Metadata} {time : Int}

theorem sounds_iff (hdated : tree.lastWriteSeconds entry.path = .ok time)
    (hparsed : parser entry.path = .ok m) :
    Sounds tree parser entry.path recording ↔
      soundRejection? m = none ∧ m.recordingMbid = recording := by
  simp [Sounds, hdated, hparsed, soundRejection?_eq_none_iff, Nat.pos_iff_ne_zero, and_assoc]

theorem ComesFirst.exists_entry (h : ComesFirst tree parser entries key recording) :
    ∃ entry ∈ entries, entry.key = key ∧ Sounds tree parser entry.path recording := by
  obtain ⟨before, entry, after, rfl, hkey, sounds, -⟩ := h
  exact ⟨entry, by simp, hkey, sounds⟩

theorem comesFirst_concat :
    ComesFirst tree parser (done ++ [entry]) key recording ↔
      ComesFirst tree parser done key recording ∨
        (entry.key = key ∧ Sounds tree parser entry.path recording ∧
          (recording.isSome → ∀ earlier ∈ done, ¬ Sounds tree parser earlier.path recording)) := by
  constructor
  · rintro ⟨before, first, after, hall, hkey, sounds, earlier⟩
    rcases List.eq_nil_or_concat after with rfl | ⟨after, last, rfl⟩
    · obtain ⟨rfl, hlast⟩ := List.append_inj' hall rfl
      obtain rfl := List.head_eq_of_cons_eq hlast
      exact .inr ⟨hkey, sounds, earlier⟩
    · rw [List.concat_eq_append, ← List.cons_append, ← List.append_assoc] at hall
      exact .inl ⟨before, first, after, (List.append_inj' hall rfl).1, hkey, sounds, earlier⟩
  · rintro (⟨before, first, after, rfl, first'⟩ | last)
    · exact ⟨before, first, after ++ [entry], by simp, first'⟩
    · exact ⟨done, entry, [], rfl, last⟩

theorem exists_comesFirst (h : ∃ entry ∈ entries, Sounds tree parser entry.path recording) :
    ∃ key, ComesFirst tree parser entries key recording := by
  induction entries using List.reverseRecOn with
  | nil => simp at h
  | append_singleton done entry ih =>
      by_cases earlier : ∃ entry ∈ done, Sounds tree parser entry.path recording
      · obtain ⟨key, first⟩ := ih earlier
        exact ⟨key, comesFirst_concat.mpr (.inl first)⟩
      · push Not at earlier
        obtain ⟨last, hlast, sounds⟩ := h
        rcases List.mem_append.mp hlast with hlast | hlast
        · exact absurd sounds (earlier last hlast)
        · obtain rfl := List.mem_singleton.mp hlast
          exact ⟨last.key, comesFirst_concat.mpr (.inr ⟨rfl, sounds, fun _ => earlier⟩)⟩

theorem Taken.eq_self {reading : Reading} {now : Int} (h : Taken plan entry now s t reading)
    (unheard : ∀ time m, reading ≠ .parsed time m) : t = s := by
  cases reading with
  | parsed time m => exact absurd rfl (unheard time m)
  | unreadable | unchanged | unparsable => exact h
  | unknown => exact h.elim

theorem ComesFirst.key_unique {mbid : Mbid} {other : String}
    (h : ComesFirst tree parser entries key (some mbid))
    (h' : ComesFirst tree parser entries other (some mbid)) : key = other := by
  induction entries using List.reverseRecOn with
  | nil =>
      obtain ⟨_, hentry, -⟩ := h.exists_entry
      cases hentry
  | append_singleton done entry ih =>
      have alone {key : String} (first : ComesFirst tree parser done key (some mbid)) :
          ¬ ∀ earlier ∈ done, ¬ Sounds tree parser earlier.path (some mbid) := fun silent => by
        obtain ⟨earlier, hearlier, -, sounds⟩ := first.exists_entry
        exact silent earlier hearlier sounds
      rcases comesFirst_concat.mp h with h | ⟨rfl, -, silent⟩ <;>
        rcases comesFirst_concat.mp h' with h' | ⟨rfl, -, silent'⟩
      · exact ih h h'
      · exact absurd (silent' rfl) (alone h)
      · exact absurd (silent rfl) (alone h')
      · rfl

/-- The files that were taken over, and have come first so far, have tracks, and no others have. -/
structure FirstsHeld (tree : FileTree κ) (parser : Path → Except Tag.ParseError Tag.Metadata)
    (done : List Entry) (s : State) : Prop where
  listed : s.Listed
  heldAt_iff : ∀ key recording,
    s.heldAt key = some recording ↔ ComesFirst tree parser done key recording

namespace FirstsHeld

variable (h : FirstsHeld tree parser done s)
include h

theorem fileAt_eq_none (hnew : ∀ other ∈ done, other.key ≠ entry.key) :
    s.fileAt entry.key = none := by
  cases hfile : s.fileAt entry.key with
  | none => rfl
  | some file =>
      have held : s.heldAt entry.key = some file.recordingMbid := by
        rw [State.heldAt, hfile]
        rfl
      obtain ⟨other, hother, hkey, -⟩ := ((h.heldAt_iff _ _).mp held).exists_entry
      exact absurd hkey (hnew other hother)

theorem duplicated_iff (hs : s.Coherent) (hnew : ∀ other ∈ done, other.key ≠ entry.key) :
    Duplicated s entry.key m ↔ m.recordingMbid.isSome ∧
      ∃ earlier ∈ done, Sounds tree parser earlier.path m.recordingMbid := by
  rw [Scan.duplicated_iff hs h.listed]
  constructor
  · rintro ⟨mbid, hm, path, -, hpath⟩
    have first := (h.heldAt_iff _ _).mp (State.recordingAt_eq_some.mp hpath)
    obtain ⟨earlier, hearlier, -, sounds⟩ := first.exists_entry
    exact ⟨by simp [hm], earlier, hearlier, hm ▸ sounds⟩
  · rintro ⟨hsome, earlier⟩
    obtain ⟨mbid, hm⟩ := Option.isSome_iff_exists.mp hsome
    obtain ⟨path, first⟩ := exists_comesFirst (hm ▸ earlier)
    obtain ⟨other, hother, hkey, -⟩ := first.exists_entry
    exact ⟨mbid, hm, path, hkey ▸ hnew other hother,
      State.recordingAt_eq_some.mpr ((h.heldAt_iff _ _).mpr first)⟩

theorem heldAt_of_taken (hs : s.Coherent) (hnew : ∀ other ∈ done, other.key ≠ entry.key)
    (hskips : plan.skipsDuplicates = true) {now : Int}
    (taken : Taken plan entry now s t (readingOf tree parser plan s entry)) :
    t.heldAt entry.key = some recording ↔ Sounds tree parser entry.path recording ∧
      (recording.isSome → ∀ earlier ∈ done, ¬ Sounds tree parser earlier.path recording) := by
  have hnone := h.fileAt_eq_none hnew
  by_cases heard : ∃ time m, tree.lastWriteSeconds entry.path = .ok time ∧ parser entry.path = .ok m
  · obtain ⟨time, m, hdated, hparsed⟩ := heard
    -- Nothing is known of the file, so it is not taken for unchanged.
    have hchange : changeOf (s.fileAt entry.key) time plan.scanVersion plan.isForced =
        .needsScan := by simp [changeOf, hnone]
    rw [readingOf_of_dated hs hdated hparsed, hchange] at taken
    obtain ⟨-, outcome, settled⟩ := taken
    rw [hskips, h.duplicated_iff hs hnew] at settled
    rw [sounds_iff hdated hparsed]
    rcases settled.heldAt_cases with ⟨held, free, sound⟩ | ⟨held, rejected⟩
    · rw [held, Option.some.injEq]
      constructor
      · rintro rfl
        refine ⟨⟨sound, rfl⟩, fun hsome earlier hearlier sounds => ?_⟩
        exact free ⟨hsome, earlier, hearlier, sounds⟩
      · rintro ⟨⟨-, hrecording⟩, -⟩
        exact hrecording
    · rw [held]
      refine iff_of_false (by simp) ?_
      rintro ⟨⟨sound, rfl⟩, first⟩
      obtain ⟨hsome, earlier, hearlier, sounds⟩ := rejected.resolve_right (not_not.mpr sound)
      exact first hsome earlier hearlier sounds
  · have hsame : t = s := taken.eq_self fun time m hreading =>
      heard ⟨time, m, readingOf_eq_parsed hreading⟩
    refine iff_of_false (by simp [hsame, State.heldAt, hnone]) ?_
    rintro ⟨⟨time, m, hdated, hparsed, -⟩, -⟩
    exact heard ⟨time, m, hdated, hparsed⟩

end FirstsHeld

theorem firstsHeld_advances (hskips : plan.skipsDuplicates = true) :
    Advances tree parser plan (FirstsHeld tree parser) := by
  intro done rest entry now s t hall hs firsts taken
  have only := taken.touchesOnly hs
  have hnew (other : Entry) (hother : other ∈ done) : other.key ≠ entry.key :=
    key_ne_of_mem_before (hall ▸ entriesOf_nodup tree plan) hother
  refine ⟨only.listed firsts.listed, fun key recording => ?_⟩
  rw [comesFirst_concat]
  by_cases hkey : key = entry.key
  · subst hkey
    have unheld : ¬ ComesFirst tree parser done entry.key recording := fun first => by
      obtain ⟨other, hother, hkey, -⟩ := first.exists_entry
      exact hnew other hother hkey
    rw [firsts.heldAt_of_taken hs hnew hskips taken, or_iff_right unheld, and_iff_right rfl]
  · rw [only.heldAt_eq hkey, firsts.heldAt_iff, or_iff_left fun last => hkey last.1.symm]

theorem ComesFirst.orphanReason?_eq (agree : tree.MarkersAgree plan.excludeMarker plan.root)
    (h : ComesFirst tree parser (entriesOf tree plan) key recording) :
    orphanReason? tree plan (Path.ofString key) = none := by
  obtain ⟨entry, hentry, rfl, time, m, hdated, -⟩ := h.exists_entry
  obtain ⟨shown, accepted, hkeyed⟩ := mem_entriesOf.mp hentry
  rw [Path.ofString_of_key? hkeyed]
  exact orphanReason?_of_shown agree shown (FileTree.exists?_of_dated hdated) accepted

end

namespace Surroundings.Steady

variable {env : Surroundings σ κ} {tree : FileTree κ}
  {parser : Path → Except Tag.ParseError Tag.Metadata} (steady : env.Steady tree parser)
  (stays : env.AbortStays) {plan : Plan} (hskips : plan.skipsDuplicates = true)
  (agree : tree.MarkersAgree plan.excludeMarker plan.root) {s : State} (hs : s.Coherent)
  (hempty : s.tracks = ∅) (w : σ)
include steady stays hskips agree hs hempty

theorem process_firstsHeld :
    Succeeds (process env plan) (Run.start w s) fun _ r =>
      r.isAborted = false → FirstsHeld tree parser (entriesOf tree plan) r.catalog := by
  have begun {t : State} (same : s.SameFiles t) : FirstsHeld tree parser [] t := {
    listed := same.listed fun i track hrow => by simp [hempty] at hrow
    heldAt_iff := fun key recording => by
      rw [same.heldAt_eq]
      refine iff_of_false ?_ fun first => ?_
      · cases hentry : s.trackByPath[key]? <;> simp [State.heldAt, State.fileAt, hempty, hentry]
      · obtain ⟨_, hentry, -⟩ := first.exists_entry
        cases hentry }
  have same {t u : State} (firsts : FirstsHeld tree parser (entriesOf tree plan) t)
      (same : t.SameFiles u) : FirstsHeld tree parser (entriesOf tree plan) u := {
    listed := same.listed firsts.listed
    heldAt_iff := fun key recording => by rw [same.heldAt_eq, firsts.heldAt_iff] }
  refine steady.process_passes (firstsHeld_advances hskips) stays hs (fun _ => begun) id same ?_ w
  intro t u path firsts only hgone hreason
  refine ⟨only.listed firsts.listed, fun key recording => ?_⟩
  by_cases hkey : key = path
  · refine iff_of_false ?_ fun first => hreason (hkey ▸ first.orphanReason?_eq agree)
    simp [hkey, State.heldAt, hgone]
  · rw [only.heldAt_eq hkey, firsts.heldAt_iff]

/-- After a scan of what is not known yet that goes to its end, there is one track for each file
with sound that is of no recording or that is the first of its recording, and there are no others:
files that cannot be read, without sound, or that come later, leave no trace. -/
theorem process_keeps_first :
    ∃ r, process env plan (Run.start w s) = .ok () r ∧ (r.isAborted = false →
      (∀ (id : TrackId) (track : Track), r.catalog.tracks[id]? = some track →
        r.catalog.OnlyTrackAt track.path track) ∧
      ∀ key recording,
        (∃ track, r.catalog.OnlyTrackAt key track ∧ track.recordingMbid = recording) ↔
          ComesFirst tree parser (entriesOf tree plan) key recording) := by
  obtain ⟨_, r, hrun, firsts⟩ :=
    succeeds_iff.mp (steady.process_firstsHeld stays hskips agree hs hempty w)
  have coherent := process_coherent env plan hs w
  rw [Succeeds, Ends, hrun] at coherent
  refine ⟨r, hrun, fun finished => ?_⟩
  have listed := (firsts finished).listed
  refine ⟨fun id track hrow => coherent.onlyTrackAt listed hrow, fun key recording => ?_⟩
  rw [← (firsts finished).heldAt_iff, coherent.heldAt_eq_some listed]

end Surroundings.Steady

def mixedSongs : FileTree Unit :=
  album [("a.mp3", 1), ("b.mp3", 1), ("c.mp3", 1), ("d.mp3", 1), ("e.mp3", 1)]

def mixedParser (p : Path) : Except Tag.ParseError Tag.Metadata :=
  if p = Path.ofString "/m/a.mp3" then .ok { recordingMbid := some someRecording }
  else if p = Path.ofString "/m/b.mp3" then .error (.io "no tags")
  else if p = Path.ofString "/m/e.mp3" then .ok { audioStreams := 1, durationMs := 1000 }
  else .ok { audioStreams := 1, durationMs := 1000, recordingMbid := some someRecording }

def entryAt (path : String) : Entry := ⟨Path.ofString path, path⟩

theorem entriesOf_mixedSongs : entriesOf mixedSongs (albumPlan true) =
    [entryAt "/m/a.mp3", entryAt "/m/b.mp3", entryAt "/m/c.mp3", entryAt "/m/d.mp3",
      entryAt "/m/e.mp3"] := by
  decide +kernel

theorem sounds_of_comesFirst_mixedSongs {path : String} {recording : Option Mbid}
    (h : ComesFirst mixedSongs mixedParser (entriesOf mixedSongs (albumPlan true)) path recording) :
    Sounds mixedSongs mixedParser (Path.ofString path) recording := by
  obtain ⟨entry, hentry, rfl, sounds⟩ := h.exists_entry
  rwa [Path.ofString_of_key? (mem_entriesOf.mp hentry).2.2]

theorem process_keeps_mixedSongs : ∃ r,
    process (quiet mixedSongs mixedParser 0) (albumPlan true) (Run.start [] {}) = .ok () r ∧
      (∃ track, r.catalog.OnlyTrackAt "/m/c.mp3" track ∧
        track.recordingMbid = some someRecording) ∧
      (∃ track, r.catalog.OnlyTrackAt "/m/e.mp3" track ∧ track.recordingMbid = none) ∧
      (¬ ∃ track, r.catalog.OnlyTrackAt "/m/a.mp3" track) ∧
      ¬ ∃ track, r.catalog.OnlyTrackAt "/m/d.mp3" track := by
  have still : (quiet mixedSongs mixedParser 0).Still mixedSongs mixedParser 0 id := .quiet
  have agree : mixedSongs.MarkersAgree (albumPlan true).excludeMarker (albumPlan true).root := by
    have hkind : mixedSongs.kindOf (albumPlan true).root = .ok .directory := by decide +kernel
    rw [FileTree.MarkersAgree, hkind]
    exact .inl (by decide +kernel)
  obtain ⟨r, hrun, firsts⟩ := still.toSteady.process_keeps_first still.abortStays rfl agree
    State.coherent_empty rfl []
  obtain ⟨-, kept⟩ := firsts (isAborted_of_takeSteps still.isAborted hrun)
  have third : ComesFirst mixedSongs mixedParser (entriesOf mixedSongs (albumPlan true)) "/m/c.mp3"
      (some someRecording) :=
    ⟨[entryAt "/m/a.mp3", entryAt "/m/b.mp3"], entryAt "/m/c.mp3",
      [entryAt "/m/d.mp3", entryAt "/m/e.mp3"], entriesOf_mixedSongs, rfl, by decide +kernel,
      by decide +kernel⟩
  have last : ComesFirst mixedSongs mixedParser (entriesOf mixedSongs (albumPlan true)) "/m/e.mp3"
      none :=
    ⟨[entryAt "/m/a.mp3", entryAt "/m/b.mp3", entryAt "/m/c.mp3", entryAt "/m/d.mp3"],
      entryAt "/m/e.mp3", [], entriesOf_mixedSongs, rfl, by decide +kernel, by simp⟩
  refine ⟨r, hrun, (kept _ _).mpr third, (kept _ _).mpr last, ?_, ?_⟩
  · rintro ⟨track, only⟩
    obtain ⟨time, m, -, hparsed, haudio, -⟩ :=
      sounds_of_comesFirst_mixedSongs ((kept _ _).mp ⟨track, only, rfl⟩)
    cases hparsed
    exact absurd haudio (by decide)
  · rintro ⟨track, only⟩
    have first := (kept _ _).mp ⟨track, only, rfl⟩
    obtain ⟨time, m, -, hparsed, -, -, hrecording⟩ := sounds_of_comesFirst_mixedSongs first
    cases hparsed
    rw [← hrecording] at first
    exact absurd (first.key_unique third) (by decide)

/-- From an audio file with sound and of no recording, which a walk of the directory shows, a scan
that starts with nothing and goes to its end leaves no track. -/
def Overlooks (tree : FileTree κ) (parser : Path → Except Tag.ParseError Tag.Metadata) (plan : Plan)
    (p : Path) : Prop :=
  plan.skipsDuplicates = true ∧ tree.kindOf plan.root = .ok .directory ∧
    .file p ∈ Walk.visits tree plan.excludeMarker plan.root ∧
    FileExtension.isAccepted plan.audioExtensions p = true ∧
    ∃ key m r, p.key? = some key ∧ parser p = .ok m ∧ 0 < m.audioStreams ∧ 0 < m.durationMs ∧
      m.recordingMbid = none ∧
      process (quiet tree parser 0) plan (Run.start [] {}) = .ok () r ∧ r.isAborted = false ∧
      ∀ (id : TrackId) (track : Track), r.catalog.tracks[id]? = some track → track.path ≠ key

theorem overlooks_of_ends {tree : FileTree κ} {plan : Plan} {p : Path} {key : String}
    (hskips : plan.skipsDuplicates = true) (hroot : tree.kindOf plan.root = .ok .directory)
    (shown : .file p ∈ Walk.visits tree plan.excludeMarker plan.root)
    (accepted : FileExtension.isAccepted plan.audioExtensions p = true) (hkey : p.key? = some key)
    (lost : Succeeds (process (quiet tree soundOnly 0) plan) (Run.start [] {}) fun _ r =>
      r.isAborted = false → ∀ (id : TrackId) (track : Track),
        r.catalog.tracks[id]? = some track → track.path ≠ key) :
    Overlooks tree soundOnly plan p := by
  obtain ⟨_, r, hrun, lost⟩ := succeeds_iff.mp lost
  have finished : r.isAborted = false := isAborted_of_takeSteps (fun _ => rfl) hrun
  exact ⟨hskips, hroot, shown, accepted, key, _, r, hkey, rfl, by decide, by decide, rfl, hrun,
    finished, lost finished⟩

def encyclopedia : FileTree Unit := album [("encyclopedia.mp3", 1)]

/-- So many slashes are at the end of this root that the path of the song is too long, and that of
the marker is not. -/
@[irreducible]
def slashedRoot : Path := ⟨Text.Utf8.encode "m" ++ List.replicate 4080 Path.slash⟩

def slashedPlan : Plan := { albumPlan true with root := slashedRoot }

def slashedSong : Path := slashedRoot.join (Path.ofString "encyclopedia.mp3")

theorem guardedSong_overlooked :
    Overlooks guardedSong soundOnly { longRootPlan with skipsDuplicates := true } longRootSong := by
  obtain ⟨key, hkey⟩ := longRootSong_key
  refine overlooks_of_ends rfl guardedSong_kindOf longRootSong_shown (by decide +kernel) hkey ?_
  have still : (quiet guardedSong soundOnly 0).Still guardedSong soundOnly 0 id := .quiet
  refine (still.toSteady.process_withoutOrphans still.abortStays _ State.coherent_empty
    State.listed_empty []).imp (fun _ r clean finished id track hrow hpath => ?_) fun _ _ => id
  have orphan : (orphanReason? guardedSong { longRootPlan with skipsDuplicates := true }
      longRootSong).isSome := by
    decide +kernel
  have kept := clean finished id track hrow
  rw [hpath, Path.ofString_of_key? hkey] at kept
  rw [kept] at orphan
  cases orphan

theorem slashedSong_overlooked : Overlooks encyclopedia soundOnly slashedPlan slashedSong := by
  have hroot : encyclopedia.kindOf slashedPlan.root = .ok .directory := by decide +kernel
  have agree : encyclopedia.MarkersAgree slashedPlan.excludeMarker slashedPlan.root := by
    rw [FileTree.MarkersAgree, hroot]
    exact .inr (by decide +kernel)
  have hclear : encyclopedia.carriesMarker slashedPlan.excludeMarker slashedPlan.root = false := by
    decide +kernel
  have hlist : encyclopedia.list slashedPlan.root =
      .ok [(Text.Utf8.encode "encyclopedia.mp3", .file)] := by
    decide +kernel
  have shown : .file slashedSong ∈
      Walk.visits encyclopedia slashedPlan.excludeMarker slashedPlan.root :=
    Walk.file_mem_visits hroot hclear hlist (by simp)
  obtain ⟨key, hkey⟩ : ∃ key, slashedSong.key? = some key := by
    rw [slashedSong, slashedRoot]
    exact exists_key_join_slashes 4079 (by decide)
  refine overlooks_of_ends rfl hroot shown (by decide +kernel) hkey ?_
  have still : (quiet encyclopedia soundOnly 0).Still encyclopedia soundOnly 0 id := .quiet
  refine (still.toSteady.process_firstsHeld still.abortStays rfl agree State.coherent_empty rfl
    []).imp (fun _ r firsts finished id track hrow hpath => ?_) fun _ _ => id
  have held := (firsts finished).listed.heldAt_eq hrow
  obtain ⟨entry, hentry, hpath', time, m, hdated, -⟩ :=
    (((firsts finished).heldAt_iff _ _).mp held).exists_entry
  have hsame : entry.path = slashedSong :=
    Path.key?_inj (mem_entriesOf.mp hentry).2.2 (by rw [hkey, hpath', hpath])
  have undated : (encyclopedia.lastWriteSeconds slashedSong).isOk = false := by decide +kernel
  rw [← hsame, hdated] at undated
  cases undated

/-- A marker that is asked for below the trimmed root only, and a file whose time cannot be asked
for, keep a file from having a track that would have come first. -/
theorem process_overlooks_songs :
    Overlooks guardedSong soundOnly { longRootPlan with skipsDuplicates := true } longRootSong ∧
      Overlooks encyclopedia soundOnly slashedPlan slashedSong :=
  ⟨guardedSong_overlooked, slashedSong_overlooked⟩

end AudioCatalog.Scan
