import AudioCatalog.Proofs.CleanPrefix
import AudioCatalog.Proofs.History
import AudioCatalog.Proofs.PathUniqueness
import AudioCatalog.Proofs.ShownFiles

namespace AudioCatalog.Scan

open Catalog Scan.Action Session

variable {σ τ κ : Type} {tree : FileTree κ} {parser : Path → Except Tag.ParseError Tag.Metadata}
  {plan : Plan} {entry : Entry} {s t : State}

/-- If the file can be dated and parsed at all, then its track has its time and the version of the
scan, or it is rejected for its sound and has no track. -/
def Entry.AtRest (tree : FileTree κ) (parser : Path → Except Tag.ParseError Tag.Metadata)
    (plan : Plan) (s : State) (entry : Entry) : Prop :=
  ∀ time m, tree.lastWriteSeconds entry.path = .ok time → parser entry.path = .ok m →
    (∃ file, s.fileAt entry.key = some file ∧ file.lastWriteTime = time ∧
      file.scanVersion = plan.scanVersion) ∨
    (s.fileAt entry.key = none ∧ (soundRejection? m).isSome)

theorem Entry.AtRest.of_fileAt_eq (h : entry.AtRest tree parser plan s)
    (hsame : t.fileAt entry.key = s.fileAt entry.key) : entry.AtRest tree parser plan t := by
  intro time m hdated hparsed
  rw [hsame]
  exact h time m hdated hparsed

theorem readingOf_of_dated (hs : s.Coherent) {time : Int} {m : Tag.Metadata}
    (hdated : tree.lastWriteSeconds entry.path = .ok time) (hparsed : parser entry.path = .ok m) :
    readingOf tree parser plan s entry =
      match changeOf (s.fileAt entry.key) time plan.scanVersion plan.isForced with
      | .unchanged => .unchanged
      | .needsScan => .parsed time m := by
  simp only [readingOf, hdated, detectChange_eq hs, hparsed]
  cases changeOf (s.fileAt entry.key) time plan.scanVersion plan.isForced <;> rfl

theorem Taken.atRest {now : Int} (keepsDuplicates : plan.skipsDuplicates = false) (hs : s.Coherent)
    (taken : Taken plan entry now s t (readingOf tree parser plan s entry)) :
    entry.AtRest tree parser plan t := by
  intro time m hdated hparsed
  rw [readingOf_of_dated hs hdated hparsed] at taken
  cases hchange : changeOf (s.fileAt entry.key) time plan.scanVersion plan.isForced with
  | unchanged =>
      rw [hchange] at taken
      obtain rfl : t = s := taken
      exact .inl (changeOf_eq_unchanged hchange)
  | needsScan =>
      rw [hchange] at taken
      obtain ⟨-, outcome, settled⟩ := taken
      cases outcome with
      | added | updated =>
          obtain ⟨⟨id, hfile⟩, -⟩ := settled
          exact .inl ⟨_, hfile, rfl, rfl⟩
      | rejected why removesTrack =>
          obtain ⟨hgone, verdict⟩ := settled
          exact .inr ⟨hgone, by rw [← verdict.eq_sound keepsDuplicates]; rfl⟩

theorem atRest_advances (keepsDuplicates : plan.skipsDuplicates = false) :
    Advances tree parser plan fun done s => ∀ entry ∈ done, entry.AtRest tree parser plan s := by
  intro done rest entry now s t hall hs settled taken
  refine List.forall_mem_append.mpr ⟨fun other hother => ?_, List.forall_mem_singleton.mpr
    (taken.atRest keepsDuplicates hs)⟩
  have hkey := key_ne_of_mem_before (hall ▸ entriesOf_nodup tree plan) hother
  exact (settled other hother).of_fileAt_eq ((taken.touchesOnly hs).others other.key hkey)

theorem rejection?_ends_iff (keepsDuplicates : plan.skipsDuplicates = false)
    {existing : Option Track} {m : Tag.Metadata} {ok : Option Rejection → State → Prop}
    {error : Error → State → Prop} :
    Ends (rejection? plan.skipsDuplicates existing m) s ok error ↔ ok (soundRejection? m) s := by
  rw [rejection?_eq, keepsDuplicates]
  rfl

theorem findTrackByPath_of_fileAt (hs : s.Coherent) {key : String} (hnone : s.fileAt key = none) :
    s.trackByPath[key]? = none ∧ s.findTrackByPath key = .ok none := by
  rcases hs.findTrackByPath_cases key with ⟨track, hentry, hrow, -, -⟩ | unlisted
  · simp [State.fileAt, hentry, hrow] at hnone
  · exact unlisted

section

variable (hs : s.Coherent) (keepsDuplicates : plan.skipsDuplicates = false)
  (hnone : s.fileAt entry.key = none) {m : Tag.Metadata} (stamp : Stamp)
include hs keepsDuplicates hnone

theorem reconcile_refuses {why : Rejection} (hwhy : soundRejection? m = some why) :
    Succeeds (reconcile plan.skipsDuplicates entry m stamp) s fun outcome t =>
      outcome = .rejected why false ∧ t = s := by
  rw [reconcile, Succeeds, Ends.bind_iff, query_ends_iff, (findTrackByPath_of_fileAt hs hnone).2]
  dsimp only
  rw [Ends.bind_iff, rejection?_ends_iff keepsDuplicates, hwhy]
  exact ⟨rfl, rfl⟩

theorem fileWork_adds (sound : soundRejection? m = none) :
    Succeeds (fileWork plan entry m stamp) s fun tally _ => tally = { additions := 1 } := by
  obtain ⟨unlisted, hfind⟩ := findTrackByPath_of_fileAt hs hnone
  have created := hs.withNewTrack_touchesOnly unlisted
  rw [fileWork, Succeeds, Ends.bind_iff, reconcile, Ends.bind_iff, query_ends_iff, hfind]
  dsimp only
  rw [Ends.bind_iff, rejection?_ends_iff keepsDuplicates, sound]
  dsimp only
  rw [Ends.bind_iff, State.createTrack_ends_iff, hfind]
  exact Ends.bind (applyMetadata_succeeds created.coherent Std.ExtTreeMap.getElem?_insert_self
    Std.ExtTreeMap.getElem?_insert_self entry m stamp) fun _ _ _ => rfl

end

theorem Entry.AtRest.fileWork_idle (h : entry.AtRest tree parser plan s) (hs : s.Coherent)
    (unforced : plan.isForced = false) (keepsDuplicates : plan.skipsDuplicates = false)
    {times : Entry → Int} {work : Work}
    (hwork : fileWork? tree parser plan times s entry = some work) : work s = .ok {} s := by
  unfold fileWork? at hwork
  cases hreading : readingOf tree parser plan s entry with
  | unreadable | unchanged | unparsable | unknown => simp [hreading] at hwork
  | parsed time m =>
      rw [hreading] at hwork
      obtain rfl := Option.some.inj hwork
      obtain ⟨hdated, hparsed⟩ := readingOf_eq_parsed hreading
      rcases h time m hdated hparsed with ⟨file, hfile, hstamp⟩ | ⟨hnone, hsome⟩
      · rw [readingOf_of_dated hs hdated hparsed] at hreading
        simp [changeOf, unforced, hfile, hstamp] at hreading
      · obtain ⟨why, hwhy⟩ := Option.isSome_iff_exists.mp hsome
        obtain ⟨_, _, hrun, rfl, hsame⟩ :=
          succeeds_iff.mp (reconcile_refuses hs keepsDuplicates hnone _ hwhy)
        rw [hsame] at hrun
        exact bind_eq_of_ok hrun

/-- Nothing is left that a scan removes as an orphan. -/
structure Tidy (tree : FileTree κ) (plan : Plan) (s : State) : Prop where
  coherent : s.Coherent
  paths : ∀ (path : String) (id : TrackId), s.trackByPath[path]? = some id →
    orphanReason? tree plan (Path.ofString path) = none
  orphans : ∀ kind ∈ [Orphanage.clusters, .artists, .releases], kind.all s = []

section

variable {times : Entry → Int}

theorem foldl_worksOf (planners : List Planner) (s : State × Tally) :
    (worksOf planners s).foldl carryOut s =
      planners.foldl (fun s planner => (planner s.1).foldl carryOut s) s := by
  induction planners generalizing s with
  | nil => rfl
  | cons planner planners ih => rw [worksOf, List.foldl_append, ih, List.foldl_cons]

theorem fileWork?_eq_some {work : Work} (h : fileWork? tree parser plan times s entry = some work) :
    ∃ m stamp, work = fileWork plan entry m stamp := by
  unfold fileWork? at h
  split at h
  · exact ⟨_, _, (Option.some.inj h).symm⟩
  all_goals cases h

theorem fileWork_succeeds (hs : s.Coherent) (plan : Plan) (entry : Entry) (m : Tag.Metadata)
    (stamp : Stamp) :
    Succeeds (fileWork plan entry m stamp) s fun _ => s.TouchesOnly entry.key :=
  Ends.bind (reconcile_succeeds hs plan.skipsDuplicates entry m stamp) fun _ _ ht => ht.1

theorem additions_le_foldl_carryOut (works : List Work) (s : State × Tally) :
    s.2.additions ≤ (works.foldl carryOut s).2.additions := by
  induction works generalizing s with
  | nil => exact Nat.le_refl _
  | cons work works ih =>
      refine Nat.le_trans ?_ (ih _)
      rw [carryOut]
      split
      · exact Nat.le_add_right _ _
      · exact Nat.le_refl _

theorem Subject.fileWorks_add {m : Tag.Metadata} {time : Int}
    (sub : Subject tree parser plan entry m time) (hentry : entry ∈ entriesOf tree plan)
    (hs : s.Coherent) (hnone : s.fileAt entry.key = none) :
    0 < ((fileWorks tree parser plan times s).foldl carryOut (s, {})).2.additions := by
  obtain ⟨before, after, hall⟩ := List.append_of_mem hentry
  have hwork : fileWork? tree parser plan times s entry =
      some (fileWork plan entry m ⟨time, plan.scanVersion, times entry⟩) := by
    have hchange : changeOf (s.fileAt entry.key) time plan.scanVersion plan.isForced =
        .needsScan := by simp [changeOf, hnone]
    rw [fileWork?, readingOf_of_dated hs sub.dated sub.parsed, hchange]
  -- The files before it have other keys, so nothing is known of it when its turn comes.
  have waiting :
      let works := before.filterMap (fileWork? tree parser plan times s)
      (works.foldl carryOut (s, {})).1.Coherent ∧
        (works.foldl carryOut (s, {})).1.fileAt entry.key = none := by
    refine foldl_carryOut_holds (P := fun u => u.Coherent ∧ u.fileAt entry.key = none)
      (fun work hwork u hu => ?_) ⟨hs, hnone⟩
    obtain ⟨other, hother, hwork⟩ := List.mem_filterMap.mp hwork
    obtain ⟨m, stamp, rfl⟩ := fileWork?_eq_some hwork
    have hkey := key_ne_of_mem_before (hall ▸ entriesOf_nodup tree plan) hother
    refine (fileWork_succeeds hu.1 plan other m stamp).imp (fun _ v only => ?_) fun _ _ => id
    exact ⟨only.coherent, (only.others _ hkey.symm).trans hu.2⟩
  obtain ⟨tally, t, hcarry, rfl⟩ := carryOut_eq_of_succeeds (fileWork_adds waiting.1
    sub.keepsDuplicates waiting.2 ⟨time, plan.scanVersion, times entry⟩ sub.sound)
  rw [fileWorks, hall, List.filterMap_append, List.filterMap_cons_some hwork, List.foldl_append,
    List.foldl_cons, hcarry]
  refine Nat.lt_of_lt_of_le ?_ (additions_le_foldl_carryOut _ _)
  exact Nat.succ_pos _

theorem removeTracks_unlists (ids : List TrackId) (hs : s.Coherent) :
    Succeeds (removeAll removeTrack ids) s fun _ t => t.Coherent ∧
      ∀ (path : String) (id : TrackId), t.trackByPath[path]? = some id →
        s.trackByPath[path]? = some id ∧ id ∉ ids := by
  have remove : ∀ id ∈ ids, Maintains (fun t : State => ∀ (path : String) (other : TrackId),
      t.trackByPath[path]? = some other → s.trackByPath[path]? = some other) (removeTrack id) := by
    intro id _ t listed
    rw [Succeeds, State.removeTrack_ends_iff]
    cases t.tracks[id]? with
    | none => exact listed
    | some track =>
        intro path other hentry
        simp only [State.withoutTrack, Std.ExtTreeMap.getElem?_erase] at hentry
        split_ifs at hentry
        exact listed path other hentry
  have listed := Endures.removeAll remove s fun _ _ => id
  refine ((removeTracks_succeeds ids hs).and listed).imp ?_ fun _ _ => id
  rintro _ t ⟨⟨ht, rows⟩, listed⟩
  refine ⟨ht, fun path id hentry => ⟨listed path id hentry, ?_⟩⟩
  obtain ⟨track, hrow, -⟩ := ht.tracks.byPath hentry
  exact (rows id track hrow).2

theorem foldl_tracksWork (pieces : List (List (TrackId × String))) {s t : State × Tally}
    (hs : s.1.Coherent)
    (ht : t = (pieces.map fun piece => tracksWork (orphansIn tree plan piece)).foldl carryOut s) :
    t.1.Coherent ∧ ∀ (path : String) (id : TrackId), t.1.trackByPath[path]? = some id →
      s.1.trackByPath[path]? = some id ∧
        ((id, path) ∈ pieces.flatten → orphanReason? tree plan (Path.ofString path) = none) := by
  induction pieces generalizing s with
  | nil =>
      obtain rfl : t = s := ht
      exact ⟨hs, fun path id hentry => ⟨hentry, by simp⟩⟩
  | cons piece pieces ih =>
      obtain ⟨removed, u, hrun, hu, unlisted⟩ :=
        succeeds_iff.mp (removeTracks_unlists (orphansIn tree plan piece) hs)
      rw [List.map_cons, List.foldl_cons, carryOut_eq_of_ok (tracksWork_eq_ok hrun)] at ht
      obtain ⟨coherent, kept⟩ := ih hu ht
      refine ⟨coherent, fun path id hentry => ?_⟩
      obtain ⟨hlisted, later⟩ := kept path id hentry
      obtain ⟨hlisted, spared⟩ := unlisted path id hlisted
      refine ⟨hlisted, fun hmem => ?_⟩
      rcases List.mem_append.mp (List.flatten_cons ▸ hmem) with hmem | hmem
      · by_contra orphan
        refine spared (List.mem_map.mpr ⟨(id, path), List.mem_filter.mpr ⟨hmem, ?_⟩, rfl⟩)
        exact Option.isSome_iff_ne_none.mpr orphan
      · exact later hmem

theorem Orphanage.Sound.foldl_entityWorks {kind : Orphanage} {spared : List Orphanage}
    (sound : kind.Sound spared) {s : State × Tally} (hs : s.1.Coherent) :
    kind.Removed spared s.1 [] ((entityWorks kind s.1).foldl carryOut s).1 := by
  obtain ⟨_, t, -, carried, removed⟩ := succeeds_iff.mp
    (sound.removeAll_succeeds hs (List.append_nil _).symm s.2)
  rw [entityWorks, carried]
  exact removed

/-- When all works of a scan were done, nothing is left to be removed. -/
theorem tidy_agenda (hs : s.Coherent) :
    Tidy tree plan ((agenda tree parser plan times s).foldl carryOut (s, {})).1 := by
  rw [agenda, foldl_worksOf]
  simp only [List.foldl_cons, List.foldl_nil]
  set files := (fileWorks tree parser plan times s).foldl carryOut (s, {})
  have hfiles : files.1.Coherent := by
    refine foldl_carryOut_holds (P := State.Coherent) (fun work hwork t ht => ?_) hs
    obtain ⟨entry, -, hwork⟩ := List.mem_filterMap.mp hwork
    obtain ⟨m, stamp, rfl⟩ := fileWork?_eq_some hwork
    exact (fileWork_succeeds ht plan entry m stamp).imp (fun _ _ ht => ht.coherent) fun _ _ => id
  set tracks := (trackWorks tree plan files.1).foldl carryOut files with htracks
  obtain ⟨hcoherent, kept⟩ := foldl_tracksWork _ hfiles htracks
  have clusters := Orphanage.clusters_sound.foldl_entityWorks hcoherent
  have artists := Orphanage.artists_sound.foldl_entityWorks clusters.coherent
  have releases := Orphanage.releases_sound.foldl_entityWorks artists.coherent
  have same := (clusters.sameFiles.trans artists.sameFiles).trans releases.sameFiles
  refine ⟨releases.coherent, fun path id hentry => ?_, ?_⟩
  · rw [same.trackByPath] at hentry
    obtain ⟨hlisted, spared⟩ := kept path id hentry
    exact spared (by rw [flatten_chunks]; exact State.mem_trackPaths.mpr hlisted)
  · -- What a later kind of orphans leaves as it is, it leaves empty.
    simp only [List.forall_mem_cons]
    refine ⟨?_, ?_, releases.left, by simp⟩
    · rw [releases.spares _ (by simp), artists.spares _ (by simp), clusters.left]
    · rw [releases.spares _ (by simp), artists.left]

theorem worksOf_idle {planners : List Planner} {s : State × Tally}
    (h : ∀ planner ∈ planners, ∀ work ∈ planner s.1, work s.1 = .ok {} s.1) :
    ∀ work ∈ worksOf planners s, work s.1 = .ok {} s.1 := by
  induction planners with
  | nil => simp [worksOf]
  | cons planner planners ih =>
      obtain ⟨first, others⟩ := List.forall_mem_cons.mp h
      rw [worksOf, foldl_carryOut_idle first]
      exact List.forall_mem_append.mpr ⟨first, ih others⟩

theorem Tidy.agenda_idle (tidy : Tidy tree plan s)
    (rest : ∀ entry ∈ entriesOf tree plan, entry.AtRest tree parser plan s)
    (unforced : plan.isForced = false) (keepsDuplicates : plan.skipsDuplicates = false) :
    ∀ work ∈ agenda tree parser plan times s, work s = .ok {} s := by
  have entities : ∀ kind ∈ [Orphanage.clusters, .artists, .releases],
      ∀ work ∈ entityWorks kind s, work s = .ok {} s := by
    intro kind hkind
    simp [entityWorks, tidy.orphans kind hkind]
  refine worksOf_idle (s := (s, {})) (List.forall_mem_cons.mpr ⟨fun work hwork => ?_,
    List.forall_mem_cons.mpr ⟨fun work hwork => ?_, ?_⟩⟩)
  · obtain ⟨entry, hentry, hwork⟩ := List.mem_filterMap.mp hwork
    exact (rest entry hentry).fileWork_idle tidy.coherent unforced keepsDuplicates hwork
  · obtain ⟨piece, hpiece, rfl⟩ := List.mem_map.mp hwork
    have none : orphansIn tree plan piece = [] := by
      refine List.map_eq_nil_iff.mpr (List.filter_eq_nil_iff.mpr fun track htrack => ?_)
      have hlisted := State.mem_trackPaths.mp (mem_chunks hpiece htrack)
      rw [tidy.paths track.2 track.1 hlisted]
      simp
    rw [none]
    rfl
  · exact (List.forall_mem_map (f := entityWorks) (l := [.clusters, .artists, .releases])).mpr
      entities

end

namespace Surroundings.Steady

variable {env : Surroundings σ κ} (h : env.Steady tree parser) (stays : env.AbortStays)
include h stays

theorem process_works (plan : Plan) (hs : s.Coherent) (w : σ) :
    Succeeds (process env plan) (Run.start w s) fun _ r =>
      ∃ (times : Entry → Int) (done left : List Work),
        agenda tree parser plan times s = done ++ left ∧ r.result = done.foldl carryOut (s, {}) ∧
          (r.isAborted = false → left = []) := by
  have keeps : env.Preserves fun _ => True := ⟨id, fun _ => id⟩
  refine (h.process_progresses keeps stays plan hs (w := w) trivial).imp ?_ fun _ _ => id
  rintro _ r ⟨-, -, times, -, works⟩
  exact ⟨times, works⟩

theorem process_finishes (plan : Plan) (hs : s.Coherent) (w : σ) :
    Succeeds (process env plan) (Run.start w s) fun _ r => r.isAborted = false →
      ∃ times : Entry → Int,
        r.result = (agenda tree parser plan times s).foldl carryOut (s, {}) := by
  refine (h.process_works stays plan hs w).imp ?_ fun _ _ => id
  rintro _ r ⟨times, done, left, hagenda, hresult, hleft⟩ finished
  refine ⟨times, ?_⟩
  rw [hagenda, hleft finished, List.append_nil]
  exact hresult

theorem process_tidies (plan : Plan) (hs : s.Coherent) (w : σ) :
    Succeeds (process env plan) (Run.start w s) fun _ r =>
      r.isAborted = false → Tidy tree plan r.catalog := by
  refine (h.process_finishes stays plan hs w).imp ?_ fun _ _ => id
  intro _ r hr finished
  obtain ⟨times, hresult⟩ := hr finished
  have hcatalog : r.catalog = _ := congrArg Prod.fst hresult
  exact hcatalog ▸ tidy_agenda hs

/-- What puts a file to rest is not undone by the removal of orphans. -/
theorem process_rests (keepsDuplicates : plan.skipsDuplicates = false)
    (agree : tree.MarkersAgree plan.excludeMarker plan.root) (hs : s.Coherent) (w : σ) :
    Succeeds (process env plan) (Run.start w s) fun _ r => r.isAborted = false →
      ∀ entry ∈ entriesOf tree plan, entry.AtRest tree parser plan r.catalog := by
  refine h.process_passes (atRest_advances keepsDuplicates) stays hs (fun _ _ => by simp) id
    (fun rest same entry hentry => (rest entry hentry).of_fileAt_eq (same.fileAt_eq entry.key))
    (fun {t u key} rest only _ orphan entry hentry => ?_) w
  intro time m hdated
  refine (rest entry hentry).of_fileAt_eq (only.others entry.key fun he => orphan ?_) time m hdated
  obtain ⟨shown, accepted, hkeyed⟩ := mem_entriesOf.mp hentry
  rw [← he, Path.ofString_of_key? hkeyed]
  exact orphanReason?_of_shown agree shown (FileTree.exists?_of_dated hdated) accepted

/-- Where a scan has nothing to do, it changes and counts nothing, also when it is aborted. -/
theorem process_idle (tidy : Tidy tree plan s)
    (rest : ∀ entry ∈ entriesOf tree plan, entry.AtRest tree parser plan s)
    (unforced : plan.isForced = false) (keepsDuplicates : plan.skipsDuplicates = false) (w : σ) :
    Succeeds (process env plan) (Run.start w s) fun _ r => r.result = (s, {}) := by
  refine (h.process_works stays plan tidy.coherent w).imp ?_ fun _ _ => id
  rintro _ r ⟨times, done, left, hagenda, hresult, -⟩
  have idle : ∀ work ∈ done ++ left, work s = .ok {} s :=
    hagenda ▸ tidy.agenda_idle rest unforced keepsDuplicates
  rw [hresult]
  exact foldl_carryOut_idle fun work hwork => idle work (List.mem_append_left left hwork)

/-- Once the files of a directory were scanned to the end, another scan of the same files, by the
same plan and not forced, leaves the whole catalog as it is, whatever could not be read, parsed or
accepted. -/
theorem process_again {env' : Surroundings τ κ} (h' : env'.Steady tree parser)
    (stays' : env'.AbortStays) (plan : Plan) (keepsDuplicates : plan.skipsDuplicates = false)
    (hroot : tree.kindOf plan.root = .ok .directory)
    (hmarker : FileTree.CanAsk plan.excludeMarker plan.root) (hs : Reachable s) (w : σ) (w' : τ) :
    ∃ r, process env plan (Run.start w s) = .ok () r ∧
      (r.isAborted = false →
        ∃ r', process env' { plan with isForced := false } (Run.start w' r.catalog) = .ok () r' ∧
          r'.catalog = r.catalog ∧ r'.stats.additions = 0 ∧ r'.stats.updates = 0 ∧
          r'.stats.deletions = 0) := by
  have agree : tree.MarkersAgree plan.excludeMarker plan.root := by
    rw [FileTree.MarkersAgree, hroot]
    exact hmarker
  have first := (h.process_tidies stays plan hs.coherent w).and
    (h.process_rests stays keepsDuplicates agree hs.coherent w)
  obtain ⟨_, r, hrun, tidied, rested⟩ := succeeds_iff.mp first
  refine ⟨r, hrun, fun finished => ?_⟩
  have tidy := tidied finished
  -- Whether a scan is forced has no part in what is left for it to do.
  have tidy' : Tidy tree { plan with isForced := false } r.catalog :=
    ⟨tidy.coherent, tidy.paths, tidy.orphans⟩
  obtain ⟨_, r', hrun', hresult⟩ :=
    succeeds_iff.mp (h'.process_idle stays' tidy' (rested finished) rfl keepsDuplicates w')
  obtain ⟨hcatalog, htally⟩ := Prod.mk.inj hresult
  obtain ⟨hadditions, hupdates, hdeletions⟩ := Tally.mk.inj htally
  exact ⟨r', hrun', hcatalog, hadditions, hupdates, hdeletions⟩

theorem process_adds_again {entry : Entry} {m : Tag.Metadata} {time : Int}
    (sub : Subject tree parser plan entry m time) (hentry : entry ∈ entriesOf tree plan)
    (orphan : (orphanReason? tree plan entry.path).isSome) (hs : s.Coherent) (w w' : σ) :
    Succeeds (process env plan) (Run.start w s) fun _ r => r.isAborted = false →
      Succeeds (process env plan) (Run.start w' r.catalog) fun _ t =>
        t.isAborted = false → 0 < t.stats.additions := by
  refine (h.process_tidies stays plan hs w).imp ?_ fun _ _ => id
  intro _ r tidied finished
  have tidy := tidied finished
  have hnone : r.catalog.fileAt entry.key = none := by
    cases hlisted : r.catalog.trackByPath[entry.key]? with
    | none => simp [State.fileAt, hlisted]
    | some id =>
        rw [← Path.ofString_of_key? sub.keyed, tidy.paths _ id hlisted] at orphan
        cases orphan
  refine (h.process_finishes stays plan tidy.coherent w').imp ?_ fun _ _ => id
  intro _ t ht finished'
  obtain ⟨times, hresult⟩ := ht finished'
  have htally : t.stats.tally = _ := congrArg Prod.snd hresult
  have hadditions : t.stats.additions = _ := congrArg Tally.additions htally
  rw [hadditions, agenda, worksOf, List.foldl_append]
  exact Nat.lt_of_lt_of_le (sub.fileWorks_add hentry tidy.coherent hnone)
    (additions_le_foldl_carryOut _ _)

end Surroundings.Steady

def soundsOnce (p : Path) : Except Tag.ParseError Tag.Metadata :=
  if p = Path.ofString "/m/a.mp3" then .ok { audioStreams := 1, durationMs := 1000 }
  else if p = Path.ofString "/m/b.mp3" then .ok {}
  else .error (.io "no tags")

theorem process_again_soundsOnce :
    ∃ r r', process (quiet (withUnnamed [("a.mp3", 1), ("b.mp3", 1), ("c.mp3", 1)]) soundsOnce 0)
        { albumPlan false with isForced := true } (Run.start [] {}) = .ok () r ∧
      r.stats.additions = 1 ∧ r.stats.failures.length = 3 ∧
      process (quiet (withUnnamed [("a.mp3", 1), ("b.mp3", 1), ("c.mp3", 1)]) soundsOnce 1)
        (albumPlan false) (Run.start [] r.catalog) = .ok () r' ∧ r'.catalog = r.catalog := by
  let tree := withUnnamed [("a.mp3", 1), ("b.mp3", 1), ("c.mp3", 1)]
  have still (now : Int) : (quiet tree soundsOnce now).Still tree soundsOnce now id := .quiet
  obtain ⟨r, hrun, again⟩ := (still 0).process_again (still 0).abortStays (still 1).toSteady
    (still 1).abortStays { albumPlan false with isForced := true } rfl (by decide +kernel)
    (.inl (by decide +kernel)) .empty [] []
  have first : Succeeds (process (quiet tree soundsOnce 0)
      { albumPlan false with isForced := true }) (Run.start [] {}) fun _ r =>
        r.stats.additions = 1 ∧ r.stats.failures.length = 3 := by
    decide +kernel
  rw [Succeeds, Ends, hrun] at first
  obtain ⟨r', hrun', same, -⟩ := again (isAborted_of_takeSteps (fun _ => rfl) hrun)
  exact ⟨r, r', hrun, first.1, first.2, hrun', same⟩

/-- Without the bound on the path of the marker, each scan adds the song that the one before it has
removed. -/
theorem process_adds_guardedSong_again :
    (quietAt guarded titleOf 0).Steady guardedSong (fun p => titleOf p (guardedSong.read p)) ∧
      (quietAt guarded titleOf 0).AbortStays ∧ longRootPlan.skipsDuplicates = false ∧
      guardedSong.kindOf longRootPlan.root = .ok .directory ∧ Reachable {} ∧
      ∃ r t, process (quietAt guarded titleOf 0) longRootPlan (Run.start [] {}) = .ok () r ∧
        r.isAborted = false ∧
        process (quietAt guarded titleOf 0) { longRootPlan with isForced := false }
          (Run.start [] r.catalog) = .ok () t ∧
        t.isAborted = false ∧ t.stats.additions ≠ 0 := by
  have steady : (quietAt guarded titleOf 0).Steady guardedSong
      fun p => titleOf p (guardedSong.read p) := ⟨fun _ => rfl, fun _ => rfl⟩
  have stays := quietAt_abortStays guarded titleOf 0
  have orphan : (orphanReason? guardedSong longRootPlan longRootSong).isSome := by
    decide +kernel
  have accepted : FileExtension.isAccepted longRootPlan.audioExtensions longRootSong = true := by
    decide +kernel
  have hdated : guardedSong.lastWriteSeconds longRootSong = .ok 1 := by
    decide +kernel
  have hread : guardedSong.read longRootSong = .ok "Song" := by
    decide +kernel
  obtain ⟨key, hkey⟩ := longRootSong_key
  have subject : Subject guardedSong (fun p => titleOf p (guardedSong.read p)) longRootPlan
      ⟨longRootSong, key⟩ { title := "Song", audioStreams := 1, durationMs := 1000 } 1 := {
    keyed := hkey
    dated := hdated
    parsed := by rw [hread]; rfl
    sound := by decide
    keepsDuplicates := rfl }
  have hentry : (⟨longRootSong, key⟩ : Entry) ∈ entriesOf guardedSong longRootPlan :=
    mem_entriesOf.mpr ⟨longRootSong_shown, accepted, hkey⟩
  obtain ⟨_, r, hrun, again⟩ := succeeds_iff.mp
    (steady.process_adds_again stays subject hentry orphan State.coherent_empty [] [])
  have finished : r.isAborted = false := isAborted_of_takeSteps (fun _ => rfl) hrun
  obtain ⟨_, t, hrun', added⟩ := succeeds_iff.mp (again finished)
  have finished' : t.isAborted = false := isAborted_of_takeSteps (fun _ => rfl) hrun'
  exact ⟨steady, stays, rfl, guardedSong_kindOf, .empty, r, t, hrun, finished, hrun', finished',
    Nat.ne_of_gt (added finished')⟩

end AudioCatalog.Scan
