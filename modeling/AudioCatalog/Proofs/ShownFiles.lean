import AudioCatalog.Proofs.Locating
import AudioCatalog.Proofs.Passes
import AudioCatalog.Proofs.Stillness
import Mathlib.Logic.Relation

namespace AudioCatalog

namespace FileTree

variable {κ : Type} {t : FileTree κ} {marker : String} {root p : Path}

def IsAbove (directory p : Path) : Prop :=
  Relation.TransGen (fun p q => p.parent? = some q) p directory

theorem isClearUpTo_of_above
    (h : ∀ directory, IsAbove directory p → t.carriesMarker marker directory = false)
    (depth : Nat) : t.isClearUpTo marker root depth p.parent? = true := by
  induction depth generalizing p with
  | zero => rfl
  | succ depth ih =>
      cases hparent : p.parent? with
      | none => rfl
      | some directory =>
          have above : IsAbove directory p := .single hparent
          rw [isClearUpTo, h directory above, ih fun other hother => h other (.head hparent hother),
            Bool.or_true]
          rfl

/-- No marker counts for a file on the way up that does not count on the way down. Where the root is
a file, nothing above it is looked at on the way down; where it is a link to a directory, that
directory is not. -/
def MarkersAgree (t : FileTree κ) (marker : String) (root : Path) : Prop :=
  match t.kindOf root with
  | .ok .directory => CanAsk marker root
  | .ok .link => t.carriesMarker marker root.trim = false
  | .ok .file => ∀ directory, IsAbove directory root → t.carriesMarker marker directory = false
  | .error _ => True

theorem exists?_of_dated {time : Int} (h : t.lastWriteSeconds p = .ok time) :
    t.exists? p = true := by
  rw [exists?]
  cases htarget : t.target p with
  | ok node => rfl
  | error cause =>
      rw [lastWriteSeconds, htarget] at h
      cases h

end FileTree

namespace Walk

variable {κ : Type} {t : FileTree κ} {marker : String} {root p : Path}

theorem isFile_of_mem_visitsBelow {depth : Nat} {heedsMarker : Bool} (hroot : root.bytes ≠ [])
    (hclear : heedsMarker = false → t.carriesMarker marker root = false)
    (h : .file p ∈ visitsBelow t marker depth heedsMarker root) (hexists : t.exists? p = true) :
    t.isFile p = true := by
  refine holds_of_file_mem (D := fun q => q.bytes ≠ [])
    (F := fun q => t.exists? q = true → t.isFile q = true) ?_ ?_ hroot hclear h hexists
  · intro q entries name hq _ hlist hentry _ hexists
    obtain ⟨loc, node, hlocate, hnode⟩ := FileTree.exists?_iff.mp hexists
    have htarget := FileTree.target_eq_ok.mpr ⟨loc, hlocate, hnode⟩
    have := FileTree.target_of_list hq hlist hentry (by decide) htarget
    cases node with
    | file modified content => exact FileTree.isFile_iff.mpr ⟨modified, content, htarget⟩
    | directory | link => cases this
  · intro q entries name hq _ _ _ hname
    exact (Path.join_bytes_ne hq hname.isAbsolute_eq).1

theorem isFile_and_isInRoot_of_mem (agree : FileTree.MarkersAgree t marker root)
    (h : .file p ∈ visits t marker root) (hexists : t.exists? p = true) :
    t.isFile p = true ∧ t.isInRoot marker root p = true := by
  unfold FileTree.MarkersAgree at agree
  unfold visits at h
  have below {kind : Node.Kind} {heedsMarker : Bool} (hkind : t.kindOf root = .ok kind)
      (hclear : heedsMarker = false → t.carriesMarker marker root = false)
      (htrim : t.carriesMarker marker root = false → t.carriesMarker marker root.trim = false)
      (h : .file p ∈ visitsBelow t marker maxDepth heedsMarker root) :
      t.isFile p = true ∧ t.isInRoot marker root p = true := by
    have hroot := (FileTree.checkPath_eq_ok.mp (FileTree.checkPath_of_kindOf hkind)).2.1
    exact ⟨isFile_of_mem_visitsBelow hroot hclear h hexists,
      (descends_of_mem hclear h).isInRoot hroot htrim⟩
  rcases hkind : t.kindOf root with cause | _ | _ | _ <;> rw [hkind] at agree h
  · cases List.mem_singleton.mp h
  · cases List.mem_singleton.mp h
    refine ⟨FileTree.isFile_of_kindOf hkind, ?_⟩
    rw [FileTree.isInRoot, FileTree.isClearUpTo_of_above agree, Path.liesUnder,
      List.isPrefixOf_iff_prefix.mpr List.prefix_rfl]
    rfl
  · exact below hkind (by simp)
      (FileTree.carriesMarker_trim (FileTree.checkPath_of_kindOf hkind) agree) h
  · dsimp only at h
    have hroot := (FileTree.checkPath_eq_ok.mp (FileTree.checkPath_of_kindOf hkind)).2.1
    have hclear := FileTree.carriesMarker_of_trim hroot agree
    rcases htarget : t.target root with cause | ⟨_, _⟩ | _ | _ <;> rw [htarget] at h
    · cases List.mem_singleton.mp h
    · cases h
    · exact below hkind (fun _ => hclear) (fun _ => agree) h
    · cases h

end Walk

namespace Scan

open Catalog Scan.Action

variable {σ κ : Type}

theorem orphanReason?_of_shown {t : FileTree κ} {plan : Plan} {p : Path}
    (agree : t.MarkersAgree plan.excludeMarker plan.root)
    (shown : .file p ∈ Walk.visits t plan.excludeMarker plan.root) (hexists : t.exists? p = true)
    (accepted : FileExtension.isAccepted plan.audioExtensions p = true) :
    orphanReason? t plan p = none := by
  obtain ⟨hfile, hroot⟩ := Walk.isFile_and_isInRoot_of_mem agree shown hexists
  exact orphanReason?_eq_none.mpr ⟨hfile, hroot, accepted⟩

/-- What is known of files has changed for some of these files only, which can be looked up. -/
def ChangedAt (tree : FileTree κ) (s : State) (entries : List Entry) (t : State) : Prop :=
  ∀ key, t.fileAt key ≠ s.fileAt key →
    ∃ entry ∈ entries, entry.key = key ∧ tree.exists? entry.path = true

def SameShown (tree : FileTree κ) (plan : Plan) (s t : State) : Prop :=
  ∀ entry ∈ entriesOf tree plan, tree.exists? entry.path = true →
    t.fileAt entry.key = s.fileAt entry.key

theorem changedAt_advances (tree : FileTree κ)
    (parser : Path → Except Tag.ParseError Tag.Metadata) (plan : Plan) (s : State) :
    Advances tree parser plan (ChangedAt tree s) := by
  intro done rest entry now u t hall hu changed taken key hne
  have earlier (h : t.fileAt key = u.fileAt key) :
      ∃ other ∈ done ++ [entry], other.key = key ∧ tree.exists? other.path = true := by
    obtain ⟨other, hother, hsame⟩ := changed key (h ▸ hne)
    exact ⟨other, List.mem_append_left [entry] hother, hsame⟩
  cases hreading : readingOf tree parser plan u entry with
  | unreadable | unchanged | unparsable =>
      rw [hreading] at taken
      obtain rfl : t = u := taken
      exact earlier rfl
  | unknown =>
      rw [hreading] at taken
      exact taken.elim
  | parsed time m =>
      by_cases hkey : key = entry.key
      · obtain ⟨hdated, -⟩ := readingOf_eq_parsed hreading
        exact ⟨entry, by simp, hkey.symm, FileTree.exists?_of_dated hdated⟩
      · exact earlier ((taken.touchesOnly hu).others key hkey)

namespace Surroundings.Steady

variable {env : Surroundings σ κ} {tree : FileTree κ}
  {parser : Path → Except Tag.ParseError Tag.Metadata} (h : env.Steady tree parser)
include h

theorem firstSteps_succeed (plan : Plan) {s : State} (hs : s.Coherent) (w : σ) :
    Succeeds ([Step.countFiles, .scanFiles].allM (takeStep env (perform env plan)))
      (Run.start w s) fun _ => Holds (Reached env (ChangedAt tree s (entriesOf tree plan))) := by
  have before := unscanned_lasts env s
  have count (r : Run σ) (hr : Holds (Unscanned s) r) :
      Succeeds (perform env plan .countFiles) r fun _ => Holds (Unscanned s) :=
    before.countFiles plan r hr
  have scan (r : Run σ) (hr : Holds (Unscanned s) r) :
      Succeeds (perform env plan .scanFiles) r fun _ =>
        Holds (Reached env (ChangedAt tree s (entriesOf tree plan))) :=
    h.scanFiles_passes (changedAt_advances tree parser plan s) hr.1 hr.2.2 fun key hne =>
      absurd (hr.2.1.fileAt_eq key) hne
  apply Ends.bind (before.takeStep_succeeds count ⟨hs, .refl s, rfl⟩)
  intro goesOn t ht
  cases goesOn with
  | false => exact ⟨ht.1.1, .inl ht.2⟩
  | true =>
      apply Ends.bind (before.takeStep_succeeds scan ht)
      intro goesOn u hu
      cases goesOn with
      | false => exact ⟨hu.1.1, .inl hu.2⟩
      | true => exact hu

theorem lastSteps_keep (stays : env.AbortStays) {plan : Plan}
    (agree : tree.MarkersAgree plan.excludeMarker plan.root) {P : Prop} {s : State} {step : Step}
    (hstep : step ∈ [Step.removeOrphanTracks, .removeOrphanEntities]) :
    Maintains (Holds (Reached env fun t => P ∧ SameShown tree plan s t))
      (takeStep env (perform env plan) step) := by
  have lasts : Lasts env (Reached env fun t => P ∧ SameShown tree plan s t) :=
    stays.lasts_reached fun ht same => ⟨ht.1, fun entry hentry hexists =>
      (same.fileAt_eq entry.key).trans (ht.2 entry hentry hexists)⟩
  apply lasts.takeStep
  rcases List.mem_cons.mp hstep with rfl | hstep
  · apply lasts.removeOrphanTracks plan
    intro id track v v' t es ht hrow hreason
    obtain ⟨only, -⟩ := ht.1.withoutTrack_touchesOnly hrow
    refine ⟨only.coherent, ht.2.imp (fun hAborted => hAborted) fun ⟨hP, same⟩ =>
      ⟨hP, fun entry hentry hexists => ?_⟩⟩
    -- The track that is removed is an orphan, so it is not the track of a file that is shown.
    obtain ⟨shown, accepted, hkeyed⟩ := mem_entriesOf.mp hentry
    rw [← same entry hentry hexists]
    apply only.others
    intro he
    rw [h.tree, ← he, Path.ofString_of_key? hkeyed,
      orphanReason?_of_shown agree shown hexists accepted] at hreason
    cases hreason
  · rw [List.mem_singleton.mp hstep]
    exact lasts.removeOrphanEntities

/-- What a walk shows, and what can be looked up, is no orphan. The first steps of a scan change
tracks of such files only, and the steps after them, if the scan goes to its end, do not. -/
theorem process_keeps_scanned (stays : env.AbortStays) {plan : Plan}
    (agree : tree.MarkersAgree plan.excludeMarker plan.root) {s : State} (hs : s.Coherent) (w : σ) :
    (∀ p, .file p ∈ Walk.visits tree plan.excludeMarker plan.root → tree.exists? p = true →
      FileExtension.isAccepted plan.audioExtensions p = true → orphanReason? tree plan p = none) ∧
    ∃ goesOn r t, [Step.countFiles, .scanFiles].allM (takeStep env (perform env plan))
        (Run.start w s) = .ok goesOn r ∧
      process env plan (Run.start w s) = .ok () t ∧
      (t.isAborted = false → ChangedAt tree s (entriesOf tree plan) r.catalog ∧
        SameShown tree plan r.catalog t.catalog) := by
  refine ⟨fun p shown hexists accepted => orphanReason?_of_shown agree shown hexists accepted, ?_⟩
  obtain ⟨goesOn, r, hfirst, hr⟩ := succeeds_iff.mp (h.firstSteps_succeed plan hs w)
  have steps : Succeeds (Step.all.allM (takeStep env (perform env plan))) (Run.start w s)
      fun _ => Holds (Reached env fun u =>
        ChangedAt tree s (entriesOf tree plan) r.catalog ∧ SameShown tree plan r.catalog u) := by
    have split : Step.all =
        [.countFiles, .scanFiles] ++ [.removeOrphanTracks, .removeOrphanEntities] := rfl
    have begun : Reached env (fun u => ChangedAt tree s (entriesOf tree plan) r.catalog ∧
        SameShown tree plan r.catalog u) r.outside r.catalog r.pending :=
      ⟨hr.1, hr.2.imp id fun changed => ⟨changed, fun _ _ _ => rfl⟩⟩
    rw [split, Walk.allM_append, Succeeds, Ends, bind_eq_of_ok hfirst]
    cases goesOn with
    | false => exact begun
    | true => exact Maintains.allM (fun step hstep => h.lastSteps_keep stays agree hstep) r begun
  obtain ⟨_, t, hrun, done⟩ := succeeds_iff.mp (stays.ends_reached steps)
  exact ⟨goesOn, r, t, hfirst, hrun, done⟩

end Surroundings.Steady

def linkedSong : FileTree Unit :=
  (album [("a.mp3", 1)]).put [Text.Utf8.encode "l"] (.link (Path.ofString "m"))

def linkPlan : Plan := { albumPlan false with root := Path.ofString "/l" }

theorem process_keeps_linkedSong :
    orphanReason? linkedSong linkPlan (Path.ofString "/l/a.mp3") = none ∧
      ∃ goesOn r t, [Step.countFiles, .scanFiles].allM
          (takeStep (quiet linkedSong soundOnly 0) (perform (quiet linkedSong soundOnly 0) linkPlan))
          (Run.start [] {}) = .ok goesOn r ∧
        process (quiet linkedSong soundOnly 0) linkPlan (Run.start [] {}) = .ok () t ∧
        t.catalog.fileAt "/l/a.mp3" = r.catalog.fileAt "/l/a.mp3" := by
  have agree : linkedSong.MarkersAgree linkPlan.excludeMarker linkPlan.root := by
    have hkind : linkedSong.kindOf linkPlan.root = .ok .link := by decide +kernel
    rw [FileTree.MarkersAgree, hkind]
    decide +kernel
  have still : (quiet linkedSong soundOnly 0).Still linkedSong soundOnly 0 id := .quiet
  obtain ⟨kept, goesOn, r, t, hfirst, hrun, same⟩ := still.process_keeps_scanned
    still.abortStays agree State.coherent_empty []
  refine ⟨kept _ (by decide +kernel) (by decide +kernel) (by decide +kernel), goesOn, r, t, hfirst,
    hrun, ?_⟩
  have finished := isAborted_of_takeSteps (fun _ => rfl) hrun
  have shown : (⟨Path.ofString "/l/a.mp3", "/l/a.mp3"⟩ : Entry) ∈ entriesOf linkedSong linkPlan := by
    decide +kernel
  exact (same finished).2 _ shown (by decide +kernel)

def markedSong : FileTree Unit := album [(".lmsignore", 1), ("a.mp3", 1)]

def songPlan : Plan := { albumPlan false with root := Path.ofString "/m/a.mp3" }

/-- Where the root is a file, a marker above it counts on the way up only: the file is scanned, and
its track is then removed. -/
theorem process_removes_markedSong :
    .file songPlan.root ∈ Walk.visits markedSong songPlan.excludeMarker songPlan.root ∧
      markedSong.exists? songPlan.root = true ∧
      FileExtension.isAccepted songPlan.audioExtensions songPlan.root = true ∧
      orphanReason? markedSong songPlan songPlan.root = some .outOfRoot ∧
      ∃ r t, [Step.countFiles, .scanFiles].allM
          (takeStep (quiet markedSong soundOnly 0) (perform (quiet markedSong soundOnly 0) songPlan))
          (Run.start [] {}) = .ok true r ∧
        process (quiet markedSong soundOnly 0) songPlan (Run.start [] {}) = .ok () t ∧
        t.isAborted = false ∧ (r.catalog.fileAt "/m/a.mp3").isSome ∧
        t.catalog.fileAt "/m/a.mp3" = none := by
  refine ⟨by decide +kernel, by decide +kernel, by decide +kernel, by decide +kernel, ?_⟩
  have added : Succeeds ([Step.countFiles, .scanFiles].allM
      (takeStep (quiet markedSong soundOnly 0) (perform (quiet markedSong soundOnly 0) songPlan)))
      (Run.start [] {}) fun goesOn r => goesOn = true ∧ (r.catalog.fileAt "/m/a.mp3").isSome := by
    decide +kernel
  have removed : Succeeds (process (quiet markedSong soundOnly 0) songPlan) (Run.start [] {})
      fun _ t => t.isAborted = false ∧ t.catalog.fileAt "/m/a.mp3" = none := by
    decide +kernel
  obtain ⟨_, r, hfirst, rfl, hsome⟩ := succeeds_iff.mp added
  obtain ⟨_, t, hrun, finished, hnone⟩ := succeeds_iff.mp removed
  exact ⟨r, t, hfirst, hrun, finished, hsome, hnone⟩

end Scan

end AudioCatalog
