import AudioCatalog.Proofs.Locating
import AudioCatalog.Proofs.Orphans
import AudioCatalog.Proofs.PathUniqueness
import AudioCatalog.Proofs.Scanned
import AudioCatalog.Proofs.Stillness

namespace AudioCatalog

namespace FileTree

variable {κ : Type} {t : FileTree κ} {marker : String} {root p : Path}

/-- The path is put together from the root's and the names on the way down to it, none of them the
name of a link. -/
inductive Straight (t : FileTree κ) (root : Path) : Path → Prop
  | root : Straight t root root
  | step {p : Path} {name : Path.Name} (h : Straight t root p) (hname : Path.IsName name)
      (hlink : t.kindOf (p.join ⟨name⟩) ≠ .ok .link) : Straight t root (p.join ⟨name⟩)

namespace Straight

theorem bytes_ne (hroot : root.bytes ≠ []) (h : t.Straight root p) : p.bytes ≠ [] := by
  induction h with
  | root => exact hroot
  | step _ hname _ ih => exact (Path.join_bytes_ne ih hname.isAbsolute_eq).1

theorem components_prefix (hroot : root.bytes ≠ []) (h : t.Straight root p) :
    root.components <+: p.components := by
  induction h with
  | root => exact List.prefix_rfl
  | step h hname _ ih =>
      rw [Path.components_join (h.bytes_ne hroot) hname.isAbsolute_eq]
      exact ih.trans (List.prefix_append _ _)

theorem isSame_step (hroot : root.bytes ≠ []) (h : t.Straight root p) {name : Path.Name}
    (hname : Path.IsName name) : (p.join ⟨name⟩).isSame root = false := by
  have longer := (h.components_prefix hroot).length_le
  rw [Path.isSame, beq_eq_false_iff_ne, Path.components_join (h.bytes_ne hroot) hname.isAbsolute_eq,
    Path.pieces_name hname]
  intro same
  have := congrArg List.length same
  simp [Path.bodyComponents, Path.isIdle_name hname] at this
  omega

end Straight

end FileTree

namespace Walk

variable {κ : Type} {t : FileTree κ} {marker : String} {root p : Path}

theorem straight_of_mem {depth : Nat} (hroot : root.bytes ≠ [])
    (h : .file p ∈ visitsBelow t marker depth true root) : t.Straight root p := by
  have below {q : Path} {entries : List (Path.Name × Node.Kind)} {name : Path.Name}
      {kind : Node.Kind} (hq : t.Straight root q) (hlist : t.list q = .ok entries)
      (hentry : (name, kind) ∈ entries) (hname : Path.IsName name) (hkind : kind ≠ .link) :
      t.Straight root (q.join ⟨name⟩) :=
    hq.step hname (FileTree.kindOf_ne_link_of_list (hq.bytes_ne hroot) hlist hentry hkind)
  exact holds_of_file_mem
    (fun hq _ hlist hentry hname => below hq hlist hentry hname (by decide))
    (fun hq _ hlist hentry hname => below hq hlist hentry hname (by decide)) .root (by simp) h

theorem visitsOf_subset {depth : Nat} {heedsMarker : Bool} {path : Path}
    {entries : List (Path.Name × Node.Kind)} {entry : Path.Name × Node.Kind}
    (hclear : t.carriesMarker marker path = false) (hlist : t.list path = .ok entries)
    (hentry : entry ∈ entries) :
    visitsOf (visitsBelow t marker depth true) path entry ⊆
      visitsBelow t marker (depth + 1) heedsMarker path := by
  intro v hv
  rw [visitsBelow, hclear, Bool.and_false, if_neg Bool.false_ne_true, hlist]
  exact List.mem_flatMap.mpr ⟨entry, hentry, hv⟩

theorem visitsBelow_subset (hroot : root.bytes ≠ []) (h : t.Straight root p) {modified : Int}
    (hp : t.target p = .ok (.directory modified))
    (hclear : t.isClearUpTo marker root (p.stem.length + 1) (some p.trim) = true) :
    t.carriesMarker marker p = false ∧ ∃ below, root.bytes.length + below ≤ p.bytes.length ∧
      ∀ depth, visitsBelow t marker depth true p ⊆
        visitsBelow t marker (depth + below) true root := by
  induction h generalizing modified with
  | root =>
      rw [FileTree.isClearUpTo, Bool.and_eq_true, Bool.not_eq_true'] at hclear
      exact ⟨FileTree.carriesMarker_of_trim hroot hclear.1, 0, Nat.le_refl _,
        fun depth => List.Subset.refl _⟩
  | @step p name h hname hlink ih =>
      have hne := h.bytes_ne hroot
      have hstem : (p.join ⟨name⟩).stem.length = p.stem.length + 1 := by
        rw [Path.stem_join_name p hname, List.length_append, List.length_singleton]
      rw [FileTree.isClearUpTo, Path.trim_join p hname, Path.parent?_join p hname,
        h.isSame_step hroot hname, Bool.false_or, hstem, Bool.and_eq_true,
        Bool.not_eq_true'] at hclear
      obtain ⟨modified', entries, hdirectory, hlist, hentry⟩ :=
        FileTree.list_of_target hne hname hp hlink
      obtain ⟨unmarked, below, hbelow, subset⟩ := ih hdirectory hclear.2
      -- A step down takes one from the depth that is left, and adds at least a byte to the path.
      refine ⟨hclear.1, below + 1, ?_, fun depth v hv => ?_⟩
      · have : p.bytes.length < (p.join ⟨name⟩).bytes.length :=
          Path.length_lt_length_join hname.1 hname.isAbsolute_eq
        omega
      · rw [← Nat.add_assoc, Nat.add_right_comm]
        exact subset (depth + 1) (visitsOf_subset unmarked hlist hentry hv)

/-- Of the files within a directory, the walk shows those that lie straight below it. -/
theorem file_mem_visits_iff (hroot : t.kindOf root = .ok .directory) (hfile : t.isFile p = true)
    (hin : t.isInRoot marker root p = true) :
    .file p ∈ visits t marker root ↔ t.Straight root p := by
  have hcheck := FileTree.checkPath_of_kindOf hroot
  have hne := (FileTree.checkPath_eq_ok.mp hcheck).2.1
  rw [visits, hroot]
  refine ⟨straight_of_mem hne, fun h => ?_⟩
  obtain ⟨modified, content, htarget⟩ := FileTree.isFile_iff.mp hfile
  cases h with
  | root =>
      obtain ⟨node, hnode, hkind⟩ := FileTree.target_of_kindOf hroot (by decide)
      rw [htarget] at hnode
      cases hnode
      cases hkind
  | @step q name h hname hlink =>
      have hq := h.bytes_ne hne
      rw [FileTree.isInRoot, Bool.and_eq_true, Path.parent?_join q hname,
        Path.pieces_join_name q hname, List.length_append] at hin
      obtain ⟨modified', entries, hdirectory, hlist, hentry⟩ :=
        FileTree.list_of_target hq hname htarget hlink
      obtain ⟨hclear, below, hbelow, subset⟩ := visitsBelow_subset hne h hdirectory hin.2
      -- No path is so long that the walk gives up before it comes to the directory.
      have hlength : below + 1 ≤ maxDepth := by
        obtain ⟨home, hhome, -⟩ := FileTree.target_eq_ok.mp hdirectory
        have hlong := (FileTree.checkPath_eq_ok.mp (FileTree.checkPath_of_locate hhome)).2.2
        have : maxDepth = Path.maxLength + 1 := rfl
        omega
      have shown : .file (q.join ⟨name⟩) ∈ visitsBelow t marker (maxDepth - (below + 1) + 1) true q :=
        visitsOf_subset hclear hlist hentry (List.mem_singleton.mpr rfl)
      have hdepth : maxDepth - (below + 1) + 1 + below = maxDepth := by omega
      have := subset _ shown
      rwa [hdepth] at this

end Walk

namespace Scan

open Catalog

variable {σ κ : Type} {env : Surroundings σ κ} {tree : FileTree κ}
  {parser : Path → Except Tag.ParseError Tag.Metadata}

/-- Whatever scans there were before, and whatever became of the files, after a scan of a directory
that goes to its end, each track is of an audio file that the scan was shown, if it is the track of
a file straight below the root. -/
theorem Scanned.process_leaves_straight {s : State} (h : Scanned (fun _ => True) s)
    (steady : env.Steady tree parser) (stays : env.AbortStays) (plan : Plan)
    (hroot : tree.kindOf plan.root = .ok .directory) (w : σ) :
    ∃ r, process env plan (Run.start w s) = .ok () r ∧
      (r.isAborted = false → ∀ id path, (id, path) ∈ r.catalog.trackPaths →
        FileExtension.isAccepted plan.audioExtensions (Path.ofString path) = true ∧
        (.file (Path.ofString path) ∈ Walk.visits tree plan.excludeMarker plan.root ↔
          tree.Straight plan.root (Path.ofString path))) := by
  obtain ⟨hs, listed⟩ := h.listed
  obtain ⟨_, r, hrun, cleared⟩ :=
    succeeds_iff.mp (steady.process_withoutOrphans stays plan hs listed w)
  have coherent := process_coherent env plan hs w
  rw [Succeeds, Ends, hrun] at coherent
  refine ⟨r, hrun, fun finished id path hpath => ?_⟩
  obtain ⟨track, hrow, rfl⟩ := coherent.tracks.byPath (State.mem_trackPaths.mp hpath)
  obtain ⟨hfile, hin, accepted⟩ := orphanReason?_eq_none.mp (cleared finished id track hrow)
  exact ⟨accepted, Walk.file_mem_visits_iff hroot hfile hin⟩

def secondLinked : FileTree Unit :=
  (album [("a.mp3", 1)]).put [Text.Utf8.encode "m", Text.Utf8.encode "b.mp3"]
    (.link (Path.ofString "a.mp3"))

theorem secondLinked_scanned : ∃ first r,
    process (quiet (album [("a.mp3", 1), ("b.mp3", 1)]) soundOnly 0) (albumPlan false)
      (Run.start [] {}) = .ok () first ∧
    process (quiet secondLinked soundOnly 0) (albumPlan false) (Run.start [] first.catalog) =
      .ok () r ∧
    r.isAborted = false ∧ r.catalog.trackPaths.map Prod.snd = ["/m/a.mp3", "/m/b.mp3"] :=
  exists_two_scans _ _ _ _ _ _ (by decide +kernel)

theorem process_leaves_firstSong : ∃ first r,
    process (quiet (album [("a.mp3", 1), ("b.mp3", 1)]) soundOnly 0) (albumPlan false)
      (Run.start [] {}) = .ok () first ∧
    process (quiet secondLinked soundOnly 0) (albumPlan false) (Run.start [] first.catalog) =
      .ok () r ∧
    "/m/a.mp3" ∈ r.catalog.trackPaths.map Prod.snd ∧
    .file (Path.ofString "/m/a.mp3") ∈ Walk.visits secondLinked ".lmsignore" (Path.ofString "/m") := by
  obtain ⟨first, r, hfirst, hrun, finished, paths⟩ := secondLinked_scanned
  have scanned : Scanned (fun _ => True) first.catalog := .scan .empty _ trivial hfirst
  have still : (quiet secondLinked soundOnly 0).Still secondLinked soundOnly 0 id := .quiet
  obtain ⟨t, ht, left⟩ := scanned.process_leaves_straight still.toSteady still.abortStays
    (albumPlan false) (by decide +kernel) []
  obtain rfl : r = t := (EStateM.Result.ok.inj (hrun.symm.trans ht)).2
  have straight : secondLinked.Straight (Path.ofString "/m") (Path.ofString "/m/a.mp3") := by
    have hpath : Path.ofString "/m/a.mp3" =
        (Path.ofString "/m").join ⟨Text.Utf8.encode "a.mp3"⟩ := by
      decide +kernel
    rw [hpath]
    exact .step .root (by decide +kernel) (by decide +kernel)
  have listed : "/m/a.mp3" ∈ r.catalog.trackPaths.map Prod.snd := by simp [paths]
  obtain ⟨⟨id, path⟩, hpath, rfl⟩ := List.mem_map.mp listed
  exact ⟨first, r, hfirst, hrun, listed, (left finished id _ hpath).2.mpr straight⟩

/-- The track of a file that has become a link is left, though the scan is not shown the file. -/
theorem process_leaves_linkedSong : ∃ first r,
    process (quiet (album [("a.mp3", 1), ("b.mp3", 1)]) soundOnly 0) (albumPlan false)
      (Run.start [] {}) = .ok () first ∧
    process (quiet secondLinked soundOnly 0) (albumPlan false) (Run.start [] first.catalog) =
      .ok () r ∧
    r.isAborted = false ∧ "/m/b.mp3" ∈ r.catalog.trackPaths.map Prod.snd ∧
    .file (Path.ofString "/m/b.mp3") ∉ Walk.visits secondLinked ".lmsignore" (Path.ofString "/m") := by
  obtain ⟨first, r, hfirst, hrun, finished, paths⟩ := secondLinked_scanned
  exact ⟨first, r, hfirst, hrun, finished, by simp [paths], by decide +kernel⟩

end Scan

end AudioCatalog
