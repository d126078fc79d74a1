import AudioCatalog.Proofs.Orphans
import AudioCatalog.Proofs.Recordings
import AudioCatalog.Proofs.ShownFiles

namespace AudioCatalog.Scan

open Catalog

variable {σ κ : Type}

/-- What a file says about a recording when it is scanned: nothing if it cannot be read, else
whether it is the recording, with sound. -/
def tellsOf (tree : FileTree κ) (parser : Path → Except Tag.ParseError Tag.Metadata) (mbid : Mbid)
    (p : Path) : Option Bool :=
  match tree.lastWriteSeconds p, parser p with
  | .ok _, .ok m => some (decide (m.recordingMbid = some mbid ∧ soundRejection? m = none))
  | _, _ => none

def inherit (tells : Path → Option Bool) (holder : Option String) (entry : Entry) : Option String :=
  match tells entry.path with
  | none => holder
  | some true => holder <|> some entry.key
  | some false => if holder = some entry.key then none else holder

def heir (tells : Path → Option Bool) (holder : Option String) (entries : List Entry) :
    Option String :=
  entries.foldl (inherit tells) holder

section

variable {tells : Path → Option Bool} {holder : Option String} {key : String} {entry : Entry}
  {entries : List Entry}

theorem inherit_eq_self (h : tells entry.path = some (decide (holder = some entry.key))) :
    inherit tells holder entry = holder := by
  by_cases hholder : holder = some entry.key
  · simp [inherit, h, hholder]
  · simp [inherit, h, hholder]

theorem heir_of_kept
    (h : ∀ entry ∈ entries, entry.key = key → tells entry.path ≠ some false) :
    heir tells (some key) entries = some key := by
  induction entries with
  | nil => rfl
  | cons entry entries ih =>
      have stays : inherit tells (some key) entry = some key := by
        unfold inherit
        split
        · rfl
        · rfl
        · rename_i htells
          rw [if_neg]
          rintro ⟨⟩
          exact h entry (by simp) rfl htells
      rw [heir, List.foldl_cons, stays]
      exact ih fun other hother => h other (by simp [hother])

theorem heir_of_none (tells : Path → Option Bool) (distinct : (entries.map Entry.key).Nodup) :
    (∃ entry ∈ entries, tells entry.path = some true ∧ heir tells none entries = some entry.key) ∨
      ((∀ entry ∈ entries, tells entry.path ≠ some true) ∧ heir tells none entries = none) := by
  induction entries with
  | nil => exact .inr ⟨by simp, rfl⟩
  | cons entry entries ih =>
      obtain ⟨hnew, distinct⟩ := List.nodup_cons.mp distinct
      by_cases htells : tells entry.path = some true
      · refine .inl ⟨entry, by simp, htells, ?_⟩
        have begins : inherit tells none entry = some entry.key := by simp [inherit, htells]
        rw [heir, List.foldl_cons, begins]
        exact heir_of_kept fun other hother hkey =>
          absurd (hkey ▸ List.mem_map_of_mem hother) hnew
      · have skips : inherit tells none entry = none := by
          unfold inherit
          split
          · rfl
          · exact absurd ‹_› htells
          · rfl
        rw [heir, List.foldl_cons, skips]
        rcases ih distinct with ⟨other, hother, hother', hheir⟩ | ⟨hnone, hheir⟩
        · exact .inl ⟨other, by simp [hother], hother', hheir⟩
        · exact .inr ⟨List.forall_mem_cons.mpr ⟨htells, hnone⟩, hheir⟩

theorem exists_heir_of_none_iff {P : String → Prop} (distinct : (entries.map Entry.key).Nodup)
    (h : ∀ entry ∈ entries, tells entry.path = some true → P entry.key) :
    (∃ key, heir tells none entries = some key ∧ P key) ↔
      ∃ entry ∈ entries, tells entry.path = some true := by
  rcases heir_of_none tells distinct with ⟨entry, hentry, htells, hheir⟩ | ⟨hnone, hheir⟩
  · exact iff_of_true ⟨entry.key, hheir, h entry hentry htells⟩ ⟨entry, hentry, htells⟩
  · refine iff_of_false ?_ fun ⟨entry, hentry, htells⟩ => hnone entry hentry htells
    rintro ⟨key, hkey, -⟩
    rw [hheir] at hkey
    cases hkey

theorem heir_of_left {before after : List Entry}
    (distinct : ((before ++ entry :: after).map Entry.key).Nodup)
    (htells : tells entry.path = some false) :
    heir tells (some entry.key) (before ++ entry :: after) = heir tells none after := by
  have hbefore : heir tells (some entry.key) before = some entry.key :=
    heir_of_kept fun _ hother hkey => absurd hkey (key_ne_of_mem_before distinct hother)
  have leaves : inherit tells (some entry.key) entry = none := by simp [inherit, htells]
  rw [heir] at hbefore
  rw [heir, List.foldl_append, hbefore, List.foldl_cons, leaves, heir]

end

section

variable {tree : FileTree κ} {parser : Path → Except Tag.ParseError Tag.Metadata} {plan : Plan}
  {mbid : Mbid} {holder : Option String} {start s t : State} {entry : Entry}

theorem tellsOf_eq_some {p : Path} {isRecording : Bool}
    (h : tellsOf tree parser mbid p = some isRecording) :
    ∃ time m, tree.lastWriteSeconds p = .ok time ∧ parser p = .ok m := by
  unfold tellsOf at h
  split at h
  · exact ⟨_, _, ‹_›, ‹_›⟩
  · cases h

/-- A file that a scan takes for unchanged parses as it did: with sound, to the recording of its
track. -/
def ParseAsBefore (tree : FileTree κ) (parser : Path → Except Tag.ParseError Tag.Metadata)
    (plan : Plan) (s : State) : Prop :=
  ∀ (id : TrackId) (track : Track), s.tracks[id]? = some track →
    tree.lastWriteSeconds (Path.ofString track.path) = .ok track.lastWriteTime →
      track.scanVersion = plan.scanVersion →
        ∃ m, parser (Path.ofString track.path) = .ok m ∧ m.recordingMbid = track.recordingMbid ∧
          soundRejection? m = none

instance : Decidable (ParseAsBefore tree parser plan s) :=
  decidable_of_iff (∀ row ∈ s.tracks.toList,
      tree.lastWriteSeconds (Path.ofString row.2.path) = .ok row.2.lastWriteTime →
        row.2.scanVersion = plan.scanVersion →
          ∃ m ∈ (parser (Path.ofString row.2.path)).toOption,
            m.recordingMbid = row.2.recordingMbid ∧ soundRejection? m = none) <| by
    have parsed (p : Path) (m : Tag.Metadata) : m ∈ (parser p).toOption ↔ parser p = .ok m := by
      cases parser p <;> simp [Except.toOption]
    simp [ParseAsBefore, Std.ExtTreeMap.mem_toList_iff_getElem?_eq_some, parsed]

theorem ParseAsBefore.tellsOf_eq (h : ParseAsBefore tree parser plan s) (hs : s.Coherent)
    (hkeyed : entry.Keyed) {file : Track} (hfile : s.fileAt entry.key = some file)
    (htime : tree.lastWriteSeconds entry.path = .ok file.lastWriteTime)
    (hversion : file.scanVersion = plan.scanVersion) :
    tellsOf tree parser mbid entry.path = some (decide (s.recordingAt entry.key = some mbid)) := by
  obtain ⟨id, track, hentry, hrow, rfl⟩ := State.fileAt_eq_some.mp hfile
  obtain ⟨_, hrow', hpath⟩ := hs.tracks.byPath hentry
  rw [hrow] at hrow'
  cases hrow'
  have hkey : Path.ofString track.path = entry.path := by
    rw [hpath]
    exact Path.ofString_of_key? hkeyed
  obtain ⟨m, hparse, hmbid, hsound⟩ := h id track hrow (by rw [hkey]; exact htime) hversion
  have hrecording : s.recordingAt entry.key = track.recordingMbid := by
    rw [State.recordingAt, hfile]
    rfl
  rw [hkey] at hparse
  simp [tellsOf, htime, hparse, hsound, hmbid, hrecording]

theorem inherit_holds {m : Tag.Metadata} {stamp : Stamp} {outcome : Outcome} (hs : s.Coherent)
    (listed : s.Listed) (only : s.TouchesOnly entry.key t)
    (settled : Settled true (Duplicated s entry.key m) entry m stamp (t.fileAt entry.key) outcome)
    {tells : Path → Option Bool}
    (htells : tells entry.path =
      some (decide (m.recordingMbid = some mbid ∧ soundRejection? m = none)))
    (holds : ∀ key, s.recordingAt key = some mbid ↔ holder = some key) (key : String) :
    t.recordingAt key = some mbid ↔ inherit tells holder entry = some key := by
  have others (hkey : key ≠ entry.key) : t.recordingAt key = some mbid ↔ holder = some key := by
    rw [only.recordingAt_eq hkey, holds]
  -- A file of the recording is taken over where there is no other holder, else it is rejected.
  by_cases hm : m.recordingMbid = some mbid ∧ soundRejection? m = none
  · have duplicated : Duplicated s entry.key m ↔ ∃ path, path ≠ entry.key ∧ holder = some path := by
      simp only [duplicated_iff hs listed, hm.1, Option.some.injEq, exists_eq_left', holds]
    rw [inherit, htells, decide_eq_true hm]
    rcases settled.recordingAt_cases with ⟨hown, free, -⟩ | ⟨hown, rejected⟩
    · have hholder : (holder <|> some entry.key) = some entry.key := by
        cases holder with
        | none => rfl
        | some path =>
            by_contra hne
            exact free (duplicated.mpr ⟨path, fun he => hne (congrArg some he), rfl⟩)
      rw [hholder]
      by_cases hkey : key = entry.key
      · simp [hkey, hown, hm.1]
      · rw [others hkey, Option.some.injEq]
        refine iff_of_false (fun h => ?_) fun he => hkey he.symm
        exact free (duplicated.mpr ⟨key, hkey, h⟩)
    · obtain ⟨path, hne, rfl⟩ := duplicated.mp (rejected.resolve_right (not_not.mpr hm.2))
      by_cases hkey : key = entry.key
      · simp [hkey, hown, hne]
      · exact others hkey
  · rw [inherit, htells, decide_eq_false hm]
    have hown : t.recordingAt entry.key ≠ some mbid := by
      rcases settled.recordingAt_cases with ⟨hown, -, hsound⟩ | ⟨hown, -⟩
      · exact fun h => hm ⟨hown.symm.trans h, hsound⟩
      · simp [hown]
    by_cases hkey : key = entry.key
    · rw [hkey]
      refine iff_of_false hown ?_
      split_ifs with hholder
      · simp
      · exact hholder
    · rw [others hkey]
      split_ifs with hholder
      · simp [hholder, Ne.symm hkey]
      · rfl

/-- How far the recording was handed on by the files that were taken over. -/
structure Inherited (tree : FileTree κ) (parser : Path → Except Tag.ParseError Tag.Metadata)
    (plan : Plan) (mbid : Mbid) (holder : Option String) (start : State) (done : List Entry)
    (s : State) : Prop where
  listed : s.Listed
  waiting : ∀ entry ∈ entriesOf tree plan, entry ∉ done →
    s.fileAt entry.key = start.fileAt entry.key
  holds : ∀ key, s.recordingAt key = some mbid ↔
    heir (tellsOf tree parser mbid) holder done = some key

theorem inherited_advances (hskips : plan.skipsDuplicates = true)
    (before : ParseAsBefore tree parser plan start) (hstart : start.Coherent) :
    Advances tree parser plan (Inherited tree parser plan mbid holder start) := by
  intro done rest entry now s t hall hs inherited taken
  have only := taken.touchesOnly hs
  have hmem : entry ∈ entriesOf tree plan := by simp [hall]
  have hkeyed := (mem_entriesOf.mp hmem).2.2
  have hnew : entry ∉ done := fun hdone =>
    key_ne_of_mem_before (hall ▸ entriesOf_nodup tree plan) hdone rfl
  -- Nothing was done about the file so far, so what is known of it is from before.
  have hfile := inherited.waiting entry hmem hnew
  refine ⟨only.listed inherited.listed, fun other hother hnot => ?_, fun key => ?_⟩
  · obtain ⟨hdone, hne⟩ : other ∉ done ∧ other ≠ entry := by simpa using hnot
    have hkey : other.key ≠ entry.key := fun he =>
      hne ((mem_entriesOf.mp hother).2.2.ext hkeyed he)
    rw [only.others other.key hkey, inherited.waiting other hother hdone]
  · rw [heir, List.foldl_append, List.foldl_cons, List.foldl_nil, ← heir]
    have unheard (htells : tellsOf tree parser mbid entry.path = none) (hsame : t = s) :
        t.recordingAt key = some mbid ↔ inherit (tellsOf tree parser mbid)
          (heir (tellsOf tree parser mbid) holder done) entry = some key := by
      rw [hsame, inherit, htells]
      exact inherited.holds key
    cases htime : tree.lastWriteSeconds entry.path with
    | error cause =>
        simp only [readingOf, htime] at taken
        exact unheard (by simp [tellsOf, htime]) taken
    | ok time =>
        cases hchange : changeOf (s.fileAt entry.key) time plan.scanVersion plan.isForced with
        | unchanged =>
            simp only [readingOf, htime, detectChange_eq hs, hchange] at taken
            obtain rfl : t = s := taken
            obtain ⟨file, hown, rfl, hversion⟩ := changeOf_eq_unchanged hchange
            have hrecording : start.recordingAt entry.key = t.recordingAt entry.key := by
              rw [State.recordingAt, State.recordingAt, hfile]
            have htells : tellsOf tree parser mbid entry.path =
                some (decide (t.recordingAt entry.key = some mbid)) := by
              rw [← hrecording]
              exact before.tellsOf_eq hstart hkeyed (hfile.symm.trans hown) htime hversion
            rw [inherit_eq_self (htells.trans (by simp only [inherited.holds])), inherited.holds]
        | needsScan =>
            cases hparse : parser entry.path with
            | error e =>
                simp only [readingOf, htime, detectChange_eq hs, hchange, hparse] at taken
                exact unheard (by simp [tellsOf, htime, hparse]) taken
            | ok m =>
                simp only [readingOf, htime, detectChange_eq hs, hchange, hparse] at taken
                obtain ⟨-, outcome, settled⟩ := taken
                rw [hskips] at settled
                exact inherit_holds hs inherited.listed only settled
                  (by simp [tellsOf, htime, hparse]) inherited.holds key

end

section

variable {tree : FileTree κ} {parser : Path → Except Tag.ParseError Tag.Metadata} {plan : Plan}
  {mbid : Mbid} {s : State} {env : Surroundings σ κ}

/-- No track but that of the heir is of the recording, and that of the heir is, unless it is the
track of an orphan. -/
structure LeftTo (tree : FileTree κ) (plan : Plan) (mbid : Mbid) (heir : Option String)
    (t : State) : Prop where
  only : ∀ {key}, t.recordingAt key = some mbid → heir = some key
  kept : ∀ {key}, heir = some key → orphanReason? tree plan (Path.ofString key) = none →
    t.recordingAt key = some mbid

namespace LeftTo

variable {t u : State} {heir : Option String} (h : LeftTo tree plan mbid heir t)
include h

theorem sameFiles (same : t.SameFiles u) : LeftTo tree plan mbid heir u where
  only := fun {key} hkey => h.only (by rwa [same.recordingAt_eq] at hkey)
  kept := fun {key} hheir hnone => by
    rw [same.recordingAt_eq]
    exact h.kept hheir hnone

theorem withoutOrphan {key : String} (only : t.TouchesOnly key u) (hgone : u.fileAt key = none)
    (hreason : orphanReason? tree plan (Path.ofString key) ≠ none) :
    LeftTo tree plan mbid heir u where
  only := fun {other} hother => by
    have hkey : other ≠ key := by
      rintro rfl
      rw [State.recordingAt, hgone] at hother
      cases hother
    exact h.only (by rwa [only.recordingAt_eq hkey] at hother)
  kept := fun {other} hheir hnone => by
    have hkey : other ≠ key := fun he => hreason (he ▸ hnone)
    rw [only.recordingAt_eq hkey]
    exact h.kept hheir hnone

end LeftTo

theorem Surroundings.Steady.process_inherits (steady : env.Steady tree parser)
    (stays : env.AbortStays) (hskips : plan.skipsDuplicates = true)
    (before : ParseAsBefore tree parser plan s) (hs : s.Coherent) (listed : s.Listed)
    {holder : Option String} (holds : ∀ key, s.recordingAt key = some mbid ↔ holder = some key)
    (w : σ) :
    Succeeds (process env plan) (Run.start w s) fun _ r => r.isAborted = false → ∀ key,
      r.catalog.recordingAt key = some mbid ↔
        heir (tellsOf tree parser mbid) holder (entriesOf tree plan) = some key ∧
          orphanReason? tree plan (Path.ofString key) = none := by
  have advances : Advances tree parser plan (Inherited tree parser plan mbid holder s) :=
    inherited_advances hskips before hs
  have begun {t : State} (same : s.SameFiles t) :
      Inherited tree parser plan mbid holder s [] t := {
    listed := same.listed listed
    waiting := fun entry _ _ => same.fileAt_eq entry.key
    holds := fun key => by
      rw [same.recordingAt_eq]
      exact holds key }
  have left := steady.process_passes advances stays
    (D := LeftTo tree plan mbid (heir (tellsOf tree parser mbid) holder (entriesOf tree plan)))
    hs (fun _ same => begun same) (fun all => ⟨(all.holds _).mp, fun h _ => (all.holds _).mpr h⟩)
    (fun done same => done.sameFiles same)
    (fun done only hgone hreason => done.withoutOrphan only hgone hreason) w
  obtain ⟨_, r, hrun, left⟩ := succeeds_iff.mp left
  have cleared := steady.process_withoutOrphans stays plan hs listed w
  have coherent := process_coherent env plan hs w
  rw [Succeeds, Ends, hrun] at cleared coherent ⊢
  intro finished key
  refine ⟨fun h => ⟨(left finished).only h, ?_⟩, fun h => (left finished).kept h.1 h.2⟩
  obtain ⟨id, track, -, hrow, rfl, -⟩ := coherent.exists_row_of_recordingAt h
  exact cleared finished id track hrow

/-- The recording that the file of the track had stays in the catalog: the file is no orphan, and
if it turns out to be another one, a file of the recording comes after it. -/
def Survives (tree : FileTree κ) (parser : Path → Except Tag.ParseError Tag.Metadata) (plan : Plan)
    (mbid : Mbid) (key : String) : Prop :=
  orphanReason? tree plan (Path.ofString key) = none ∧
    ∀ before entry after, entriesOf tree plan = before ++ entry :: after → entry.key = key →
      tellsOf tree parser mbid entry.path = some false →
        ∃ later ∈ after, tellsOf tree parser mbid later.path = some true

theorem orphanReason?_of_tells (agree : tree.MarkersAgree plan.excludeMarker plan.root)
    {entry : Entry} (hentry : entry ∈ entriesOf tree plan) {isRecording : Bool}
    (htells : tellsOf tree parser mbid entry.path = some isRecording) :
    orphanReason? tree plan (Path.ofString entry.key) = none := by
  obtain ⟨shown, accepted, hkeyed⟩ := mem_entriesOf.mp hentry
  obtain ⟨time, m, htime, -⟩ := tellsOf_eq_some htells
  rw [Path.ofString_of_key? hkeyed]
  exact orphanReason?_of_shown agree shown (FileTree.exists?_of_dated htime) accepted

theorem exists_heir_iff (agree : tree.MarkersAgree plan.excludeMarker plan.root)
    {holder : Option String} (hcarried : ∃ entry ∈ entriesOf tree plan,
      tellsOf tree parser mbid entry.path = some true) :
    (∃ key, heir (tellsOf tree parser mbid) holder (entriesOf tree plan) = some key ∧
        orphanReason? tree plan (Path.ofString key) = none) ↔
      ∀ key, holder = some key → Survives tree parser plan mbid key := by
  have distinct := entriesOf_nodup tree plan
  cases holder with
  | none =>
      rw [exists_heir_of_none_iff distinct fun _ hentry => orphanReason?_of_tells agree hentry]
      exact iff_of_true hcarried (by simp)
  | some key =>
      simp only [Option.some.injEq, forall_eq']
      -- Where the file of the holder is another one, only the files after it count.
      have left {before after : List Entry} {entry : Entry}
          (hall : entriesOf tree plan = before ++ entry :: after) (hkey : entry.key = key)
          (htells : tellsOf tree parser mbid entry.path = some false) :
          (∃ key', heir (tellsOf tree parser mbid) (some key) (entriesOf tree plan) = some key' ∧
              orphanReason? tree plan (Path.ofString key') = none) ↔
            ∃ later ∈ after, tellsOf tree parser mbid later.path = some true := by
        have hafter : (after.map Entry.key).Nodup := by
          rw [hall, List.map_append, List.map_cons] at distinct
          exact distinct.of_append_right.of_cons
        have hheir : heir (tellsOf tree parser mbid) (some key) (entriesOf tree plan) =
            heir (tellsOf tree parser mbid) none after := by
          rw [hall] at distinct ⊢
          rw [← hkey, heir_of_left distinct htells]
        rw [hheir]
        refine exists_heir_of_none_iff hafter fun later hlater => ?_
        exact orphanReason?_of_tells agree (by simp [hall, hlater])
      by_cases hleft : ∃ entry ∈ entriesOf tree plan, entry.key = key ∧
          tellsOf tree parser mbid entry.path = some false
      · obtain ⟨entry, hentry, hkey, htells⟩ := hleft
        constructor
        · refine fun hheir => ⟨hkey ▸ orphanReason?_of_tells agree hentry htells, ?_⟩
          exact fun before entry after hall hkey htells => (left hall hkey htells).mp hheir
        · rintro ⟨-, later⟩
          obtain ⟨before, after, hall⟩ := List.append_of_mem hentry
          exact (left hall hkey htells).mpr (later before entry after hall hkey htells)
      · have keeps : heir (tellsOf tree parser mbid) (some key) (entriesOf tree plan) = some key :=
          heir_of_kept fun entry hentry hkey htells => hleft ⟨entry, hentry, hkey, htells⟩
        simp only [keeps, Option.some.injEq, exists_eq_left', Survives]
        refine ⟨fun hnone => ⟨hnone, fun before entry after hall hkey htells => ?_⟩, And.left⟩
        exact absurd ⟨entry, by simp [hall], hkey, htells⟩ hleft

/-- Whatever scans that skip duplicates there were before, and whatever became of the files, no two
tracks are of one recording after another one. If it goes to its end, and some audio file that it
was shown is of a recording, there is a track of the recording if that of each former track of it
survives, and only then. -/
theorem Scanned.process_keeps_recording_iff
    (h : Scanned (fun plan => plan.skipsDuplicates = true) s) (steady : env.Steady tree parser)
    (stays : env.AbortStays) (plan : Plan) (hskips : plan.skipsDuplicates = true)
    (agree : tree.MarkersAgree plan.excludeMarker plan.root)
    (before : ParseAsBefore tree parser plan s) (w : σ) :
    ∃ r, process env plan (Run.start w s) = .ok () r ∧
      (∀ (i j : TrackId) (track other : Track) (mbid : Mbid), r.catalog.tracks[i]? = some track →
        r.catalog.tracks[j]? = some other → track.recordingMbid = some mbid →
          other.recordingMbid = some mbid → i = j) ∧
      (r.isAborted = false → ∀ mbid,
        (∃ entry ∈ entriesOf tree plan, tellsOf tree parser mbid entry.path = some true) →
          ((∃ (id : TrackId) (track : Track), r.catalog.tracks[id]? = some track ∧
              track.recordingMbid = some mbid) ↔
            ∀ (id : TrackId) (track : Track), s.tracks[id]? = some track →
              track.recordingMbid = some mbid → Survives tree parser plan mbid track.path)) := by
  have distinct := h.distinct
  obtain ⟨_, r, hrun, distinct'⟩ :=
    succeeds_iff.mp ((distinct_evidence env hskips).process_succeeds (w := w) distinct)
  refine ⟨r, hrun, fun i j track other mbid hrow hother hmbid hmbid' =>
    distinct'.row_unique hrow hother hmbid hmbid', fun finished mbid hcarried => ?_⟩
  obtain ⟨holder, holds⟩ := distinct.exists_holder mbid
  have inherits :=
    steady.process_inherits stays hskips before distinct.coherent distinct.listed holds w
  rw [Succeeds, Ends, hrun] at inherits
  have survives : (∀ (id : TrackId) (track : Track), s.tracks[id]? = some track →
      track.recordingMbid = some mbid → Survives tree parser plan mbid track.path) ↔
      ∀ key, holder = some key → Survives tree parser plan mbid key := by
    constructor
    · intro h key hkey
      obtain ⟨id, track, -, hrow, rfl, hmbid⟩ :=
        distinct.coherent.exists_row_of_recordingAt ((holds key).mpr hkey)
      exact h id track hrow hmbid
    · intro h id track hrow hmbid
      exact h track.path ((holds _).mp ((distinct.listed.recordingAt_eq hrow).trans hmbid))
  rw [survives, ← exists_heir_iff agree hcarried]
  constructor
  · rintro ⟨id, track, hrow, hmbid⟩
    exact ⟨track.path,
      (inherits finished _).mp ((distinct'.listed.recordingAt_eq hrow).trans hmbid)⟩
  · rintro ⟨key, hkey⟩
    obtain ⟨id, track, -, hrow, -, hmbid⟩ :=
      distinct'.coherent.exists_row_of_recordingAt ((inherits finished key).mpr hkey)
    exact ⟨id, track, hrow, hmbid⟩

end

def someRecording : Mbid := ⟨1, by decide, by decide⟩

def recordedIn (files : List String) : Path → Except Tag.ParseError Tag.Metadata := fun p =>
  .ok { audioStreams := 1, durationMs := 1000,
        recordingMbid := if p ∈ files.map Path.ofString then some someRecording else none }

def retagged : FileTree Unit := album [("a.mp3", 2), ("b.mp3", 2)]

theorem process_hands_recording_on : ∃ first r,
    process (quiet (album [("a.mp3", 1), ("b.mp3", 1)]) (recordedIn ["/m/a.mp3"]) 0)
      (albumPlan true) (Run.start [] {}) = .ok () first ∧
    process (quiet retagged (recordedIn ["/m/b.mp3"]) 0) (albumPlan true)
      (Run.start [] first.catalog) = .ok () r ∧
    first.catalog.tracks.toList.map (fun row => (row.2.path, row.2.recordingMbid)) =
      [("/m/a.mp3", some someRecording), ("/m/b.mp3", none)] ∧
    ∃ (id : TrackId) (track : Track), r.catalog.tracks[id]? = some track ∧
      track.recordingMbid = some someRecording := by
  obtain ⟨first, r, hfirst, hrun, before, tracks⟩ := exists_two_scans
    (quiet (album [("a.mp3", 1), ("b.mp3", 1)]) (recordedIn ["/m/a.mp3"]) 0)
    (quiet retagged (recordedIn ["/m/b.mp3"]) 0) (albumPlan true) (albumPlan true) [] []
    (Q := fun first _ =>
      ParseAsBefore retagged (recordedIn ["/m/b.mp3"]) (albumPlan true) first.catalog ∧
      first.catalog.tracks.toList.map (fun row => (row.2.path, row.2.recordingMbid)) =
        [("/m/a.mp3", some someRecording), ("/m/b.mp3", none)])
    (by decide +kernel)
  have scanned : Scanned (fun plan => plan.skipsDuplicates = true) first.catalog :=
    .scan .empty _ (by rfl) hfirst
  have still : (quiet retagged (recordedIn ["/m/b.mp3"]) 0).Still retagged _ 0 id := .quiet
  have agree : retagged.MarkersAgree (albumPlan true).excludeMarker (albumPlan true).root := by
    have hkind : retagged.kindOf (albumPlan true).root = .ok .directory := by decide +kernel
    rw [FileTree.MarkersAgree, hkind]
    exact .inl (by decide +kernel)
  obtain ⟨t, ht, -, kept⟩ := scanned.process_keeps_recording_iff still.toSteady still.abortStays
    (albumPlan true) rfl agree before []
  obtain rfl : r = t := (EStateM.Result.ok.inj (hrun.symm.trans ht)).2
  have finished := isAborted_of_takeSteps still.isAborted hrun
  refine ⟨first, r, hfirst, hrun, tracks,
    (kept finished someRecording (by decide +kernel)).mpr fun id track hrow hmbid => ?_⟩
  have hpath : track.path = "/m/a.mp3" := by
    have hmem := List.mem_map_of_mem (f := fun row : TrackId × Track =>
      (row.2.path, row.2.recordingMbid)) (Std.ExtTreeMap.mem_toList_iff_getElem?_eq_some.mpr hrow)
    rw [tracks, hmbid] at hmem
    simpa using hmem
  rw [hpath]
  refine ⟨by decide +kernel, fun before entry after hall hkey _ => ?_⟩
  have hentries : entriesOf retagged (albumPlan true) =
      [⟨Path.ofString "/m/a.mp3", "/m/a.mp3"⟩, ⟨Path.ofString "/m/b.mp3", "/m/b.mp3"⟩] := by
    decide +kernel
  rw [hentries] at hall
  cases before with
  | nil =>
      obtain ⟨-, rfl⟩ := List.cons.inj hall
      exact ⟨_, List.mem_singleton.mpr rfl, by decide +kernel⟩
  | cons first before =>
      cases before with
      | nil =>
          obtain ⟨rfl, -⟩ := List.cons.inj (List.cons.inj hall).2
          simp at hkey
      | cons second before => simp at hall

/-- A renamed song is taken for a duplicate of itself, and then the track of its former name is
removed. -/
theorem process_loses_renamedSong : ∃ first r,
    process (quiet (album [("a.mp3", 1)]) (recordedIn ["/m/a.mp3", "/m/b.mp3"]) 0) (albumPlan true)
      (Run.start [] {}) = .ok () first ∧
    process (quiet (album [("b.mp3", 1)]) (recordedIn ["/m/a.mp3", "/m/b.mp3"]) 0) (albumPlan true)
      (Run.start [] first.catalog) = .ok () r ∧
    (album [("b.mp3", 1)]).kindOf (Path.ofString "/m") = .ok .directory ∧
    ParseAsBefore (album [("b.mp3", 1)]) (recordedIn ["/m/a.mp3", "/m/b.mp3"]) (albumPlan true)
      first.catalog ∧
    (∃ entry ∈ entriesOf (album [("b.mp3", 1)]) (albumPlan true),
      tellsOf (album [("b.mp3", 1)]) (recordedIn ["/m/a.mp3", "/m/b.mp3"]) someRecording entry.path =
        some true) ∧
    r.isAborted = false ∧ ∀ (id : TrackId) (track : Track), r.catalog.tracks[id]? = some track →
      track.recordingMbid ≠ some someRecording := by
  obtain ⟨first, r, hfirst, hrun, before, finished, hempty⟩ := exists_two_scans
    (quiet (album [("a.mp3", 1)]) (recordedIn ["/m/a.mp3", "/m/b.mp3"]) 0)
    (quiet (album [("b.mp3", 1)]) (recordedIn ["/m/a.mp3", "/m/b.mp3"]) 0)
    (albumPlan true) (albumPlan true) [] []
    (Q := fun first r => ParseAsBefore (album [("b.mp3", 1)])
        (recordedIn ["/m/a.mp3", "/m/b.mp3"]) (albumPlan true) first.catalog ∧
      r.isAborted = false ∧ r.catalog.tracks = ∅)
    (by decide +kernel)
  refine ⟨first, r, hfirst, hrun, by decide +kernel, before, by decide +kernel, finished, ?_⟩
  intro id track hrow
  simp [hempty] at hrow

end AudioCatalog.Scan
