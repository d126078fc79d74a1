import AudioCatalog.Proofs.Visits
import AudioCatalog.Scan.Orphans

namespace AudioCatalog

namespace FileTree

variable {κ : Type} {t : FileTree κ} {lookup : Lookup}

/-- Staying in a place that is left again only asks for a directory, as leaving it does. -/
theorem advance_stay {onLink : Location → Path → List Move → Except FileError Location}
    {post : List Move} (hpost : post ≠ [])
    (hlink : ∀ home target pre, onLink home target (pre ++ .stay :: post) =
      onLink home target (pre ++ post)) (loc : Location) (pre : List Move) :
    t.advance lookup onLink loc (pre ++ .stay :: post) =
      t.advance lookup onLink loc (pre ++ post) := by
  induction pre generalizing loc with
  | nil =>
      obtain ⟨move, rest, rfl⟩ := List.exists_cons_of_ne_nil hpost
      rw [List.nil_append, List.nil_append, advance]
      rcases hnode : t.node? loc with _ | _ | _ | _
      · simp only [advance, hnode]
      · simp only [advance, hnode]
      · rfl
      · simp only [advance, hnode]
  | cons move pre ih =>
      simp only [List.cons_append, advance]
      rcases t.node? loc with _ | _ | _ | _
      · rfl
      · rfl
      · cases move with
        | stay => exact ih loc
        | up => exact ih loc.dropLast
        | into name =>
            have more : pre ++ Move.stay :: post ≠ [] := by simp
            have more' : pre ++ post ≠ [] := by simp [hpost]
            simp only [more, more', and_false, false_and, if_false, ih, hlink]
      · rfl

theorem follow_stay {post : List Move} (hpost : post ≠ []) (links : Nat) (loc : Location)
    (pre : List Move) :
    t.follow lookup links loc (pre ++ .stay :: post) = t.follow lookup links loc (pre ++ post) := by
  induction links generalizing loc pre with
  | zero => exact advance_stay hpost (fun _ _ _ => rfl) loc pre
  | succ links ih =>
      refine advance_stay hpost (fun home target pre => ?_) loc pre
      rw [← List.append_assoc, ih, List.append_assoc]

theorem follow_stays {stays post : List Move} (hstays : ∀ move ∈ stays, move = .stay)
    (hpost : post ≠ []) (links : Nat) (loc : Location) (pre : List Move) :
    t.follow lookup links loc (pre ++ (stays ++ post)) =
      t.follow lookup links loc (pre ++ post) := by
  induction stays with
  | nil => rfl
  | cons move stays ih =>
      rw [hstays move (by simp), List.cons_append, follow_stay (by simp [hpost])]
      exact ih fun move hmove => hstays move (by simp [hmove])

theorem moves_join (base : Path) {p : Path} (h : p.isAbsolute = false) :
    moves (base.join p) = base.stem.map Move.ofPiece ++ moves p := by
  rw [moves, Path.pieces_join base h, List.map_append, moves]

theorem ofPiece_idle {piece : Path.Name} (h : Path.isIdle piece = true) :
    Move.ofPiece piece = .stay := by
  have : piece = [] ∨ piece = [Path.dot] := by simpa [Path.isIdle] using h
  rw [Move.ofPiece, if_pos this]

theorem checkPath_eq_ok {p : Path} : checkPath p = .ok () ↔
    0 ∉ p.bytes ∧ p.bytes ≠ [] ∧ p.bytes.length ≤ Path.maxLength := by
  unfold checkPath
  split_ifs <;> simp_all

theorem checkPath_join_trim {base p : Path} (hbase : base.bytes ≠ []) (hp : p.isAbsolute = false)
    (hcheck : checkPath (base.join p) = .ok ()) : checkPath (base.trim.join p) = .ok () := by
  obtain ⟨first, kept, idle, hstem, -, hstem', hne, -⟩ := Path.exists_stem_trim hbase
  have shorter : (base.trim.join p).bytes.Sublist (base.join p).bytes := by
    have hpieces := Path.pieces_join base hp
    have hpieces' := Path.pieces_join base.trim hp
    rw [hstem, List.cons_append] at hpieces
    rw [hstem', List.cons_append] at hpieces'
    rw [Path.bytes_eq_of_pieces hpieces, Path.bytes_eq_of_pieces hpieces', List.flatMap_append,
      List.flatMap_append, List.flatMap_append, List.append_assoc]
    exact .append (.refl _) (.append (.refl _) (List.sublist_append_right _ _))
  obtain ⟨hzero, -, hlength⟩ := checkPath_eq_ok.mp hcheck
  exact checkPath_eq_ok.mpr ⟨fun hmem => hzero (shorter.mem hmem),
    (Path.join_bytes_ne hne hp).1, Nat.le_trans shorter.length_le hlength⟩

/-- The same is found through a trimmed path and through the path itself, if that can be asked
for. -/
theorem locate_join_trim {base p : Path} (hbase : base.bytes ≠ []) (hp : p.isAbsolute = false)
    (hcheck : checkPath (base.join p) = .ok ()) :
    t.locate lookup (base.trim.join p) = t.locate lookup (base.join p) := by
  obtain ⟨first, kept, idle, hstem, hidle, hstem', hne, habsolute⟩ := Path.exists_stem_trim hbase
  have stays : ∀ move ∈ idle.map Move.ofPiece, move = .stay := by
    intro move hmove
    obtain ⟨piece, hpiece, rfl⟩ := List.mem_map.mp hmove
    exact ofPiece_idle (hidle piece hpiece)
  have post : moves p ≠ [] := by
    simp [moves, Path.pieces, List.splitOnP_ne_nil]
  -- The moves differ by idle pieces between others.
  have same (start : Location) :
      t.follow lookup maxLinks start (moves (base.join p)) =
        t.follow lookup maxLinks start (moves (base.trim.join p)) := by
    rw [moves_join base hp, moves_join base.trim hp, hstem, hstem', ← List.cons_append,
      List.map_append, List.append_assoc]
    exact follow_stays stays post maxLinks start _
  rw [locate, locate, hcheck, checkPath_join_trim hbase hp hcheck, (Path.join_bytes_ne hne hp).2,
    (Path.join_bytes_ne hbase hp).2, habsolute, same]

theorem exists?_iff {p : Path} : t.exists? p = true ↔
    ∃ loc node, t.locate .target p = .ok loc ∧ t.node? loc = some node := by
  rw [exists?, exists_comm]
  simp only [← target_eq_ok]
  cases t.target p with
  | error cause => simp [Except.isOk, Except.toBool]
  | ok node => simp [Except.isOk, Except.toBool]

theorem isFile_iff {p : Path} :
    t.isFile p = true ↔ ∃ modified content, t.target p = .ok (.file modified content) := by
  rw [isFile, leadsTo]
  rcases t.target p with cause | ⟨modified, content⟩ | _ | _ <;> simp [Node.kind]

theorem checkPath_of_locate {p : Path} {loc : Location} (h : t.locate lookup p = .ok loc) :
    checkPath p = .ok () := by
  rw [locate] at h
  cases hcheck : checkPath p with
  | error cause =>
      rw [hcheck] at h
      cases h
  | ok _ => rfl

variable {marker : String} {root p : Path}

/-- The path of the marker in a directory can be asked for, or there is nothing to trim about the
path of the directory. -/
def CanAsk (marker : String) (directory : Path) : Prop :=
  directory.trim = directory ∨
    (directory.join (Path.ofString marker)).bytes.length ≤ Path.maxLength

theorem carriesMarker_trim (hroot : checkPath root = .ok ()) (hmarker : CanAsk marker root)
    (h : t.carriesMarker marker root = false) : t.carriesMarker marker root.trim = false := by
  rcases hmarker with htrim | hlength
  · rwa [htrim]
  · obtain ⟨hzero, hne, -⟩ := checkPath_eq_ok.mp hroot
    by_contra hcarries
    rw [Bool.not_eq_false, carriesMarker, Bool.and_eq_true] at hcarries
    obtain ⟨hnamed, hexists⟩ := hcarries
    suffices t.exists? (root.join (Path.ofString marker)) = true by
      rw [carriesMarker, hnamed, this] at h
      cases h
    cases habsolute : (Path.ofString marker).isAbsolute with
    | true =>
        rw [Path.join, habsolute, if_pos rfl] at hexists ⊢
        exact hexists
    | false =>
        obtain ⟨loc, node, hlocate, hnode⟩ := exists?_iff.mp hexists
        obtain ⟨hzero', -, -⟩ := checkPath_eq_ok.mp (checkPath_of_locate hlocate)
        obtain ⟨gap, hgap, hbytes⟩ := Path.join_bytes_eq root habsolute
        obtain ⟨gap', -, hbytes'⟩ := Path.join_bytes_eq root.trim habsolute
        have hcheck : checkPath (root.join (Path.ofString marker)) = .ok () := by
          refine checkPath_eq_ok.mpr ⟨?_, (Path.join_bytes_ne hne habsolute).1, hlength⟩
          have hzero'' : 0 ∉ (Path.ofString marker).bytes := by
            rw [hbytes'] at hzero'
            exact fun hmem => hzero' (by simp [hmem])
          rw [hbytes]
          rcases hgap with rfl | rfl
          · simp [hzero, hzero'']
          · simp [hzero, hzero'', show (0 : UInt8) ≠ Path.slash by decide]
        rw [locate_join_trim hne habsolute hcheck] at hlocate
        exact exists?_iff.mpr ⟨loc, node, hlocate, hnode⟩

theorem carriesMarker_of_trim (hroot : root.bytes ≠ [])
    (h : t.carriesMarker marker root.trim = false) : t.carriesMarker marker root = false := by
  by_contra hcarries
  rw [Bool.not_eq_false, carriesMarker, Bool.and_eq_true] at hcarries
  obtain ⟨hnamed, hexists⟩ := hcarries
  suffices t.exists? (root.trim.join (Path.ofString marker)) = true by
    rw [carriesMarker, hnamed, this] at h
    cases h
  cases habsolute : (Path.ofString marker).isAbsolute with
  | true =>
      rw [Path.join, habsolute, if_pos rfl] at hexists ⊢
      exact hexists
  | false =>
      obtain ⟨loc, node, hlocate, hnode⟩ := exists?_iff.mp hexists
      rw [← locate_join_trim hroot habsolute (checkPath_of_locate hlocate)] at hlocate
      exact exists?_iff.mpr ⟨loc, node, hlocate, hnode⟩

/-- The path is put together from the root's and the names on the way down to it, through
directories without a marker. -/
inductive Descends (t : FileTree κ) (marker : String) (root : Path) : Path → Prop
  | entry {name : Path.Name} (hname : Path.IsName name)
      (hclear : t.carriesMarker marker root = false) : Descends t marker root (root.join ⟨name⟩)
  | step {p : Path} {name : Path.Name} (h : Descends t marker root p) (hname : Path.IsName name)
      (hclear : t.carriesMarker marker p = false) : Descends t marker root (p.join ⟨name⟩)

namespace Descends

theorem trim_eq (h : t.Descends marker root p) : p.trim = p := by
  cases h with
  | entry hname => exact Path.trim_join root hname
  | step h hname => exact Path.trim_join _ hname

theorem bytes_ne (hroot : root.bytes ≠ []) (h : t.Descends marker root p) : p.bytes ≠ [] := by
  induction h with
  | entry hname => exact (Path.join_bytes_ne hroot hname.isAbsolute_eq).1
  | step _ hname _ ih => exact (Path.join_bytes_ne ih hname.isAbsolute_eq).1

theorem liesUnder (hroot : root.bytes ≠ []) (h : t.Descends marker root p) :
    p.liesUnder root = true := by
  rw [Path.liesUnder, List.isPrefixOf_iff_prefix]
  induction h with
  | entry hname =>
      rw [Path.components_join hroot hname.isAbsolute_eq]
      exact List.prefix_append _ _
  | step h hname _ ih =>
      rw [Path.components_join (h.bytes_ne hroot) hname.isAbsolute_eq]
      exact ih.trans (List.prefix_append _ _)

theorem isClearUpTo (hroot : root.bytes ≠ [])
    (htrim : t.carriesMarker marker root = false → t.carriesMarker marker root.trim = false)
    (h : t.Descends marker root p) (depth : Nat) :
    t.isClearUpTo marker root depth p.parent? = true := by
  induction h generalizing depth with
  | entry hname hclear =>
      rw [Path.parent?_join root hname]
      cases depth with
      | zero => rfl
      | succ depth =>
          have same : root.trim.isSame root = true := by
            rw [Path.isSame, Path.components_trim hroot]
            exact beq_self_eq_true _
          rw [FileTree.isClearUpTo, htrim hclear, same]
          rfl
  | step h hname hclear ih =>
      rw [Path.parent?_join _ hname, h.trim_eq]
      cases depth with
      | zero => rfl
      | succ depth =>
          rw [FileTree.isClearUpTo, hclear, ih depth, Bool.or_true]
          rfl

theorem isInRoot (hroot : root.bytes ≠ [])
    (htrim : t.carriesMarker marker root = false → t.carriesMarker marker root.trim = false)
    (h : t.Descends marker root p) : t.isInRoot marker root p = true := by
  rw [FileTree.isInRoot, h.liesUnder hroot, h.isClearUpTo hroot htrim]
  rfl

end Descends

theorem checkPath_of_kindOf {kind : Node.Kind} (h : t.kindOf p = .ok kind) :
    checkPath p = .ok () := by
  rw [kindOf, nodeAt] at h
  cases hlocate : t.locate .link p with
  | error cause =>
      rw [hlocate] at h
      cases h
  | ok loc => exact checkPath_of_locate hlocate

end FileTree

namespace Walk

variable {κ : Type} {t : FileTree κ} {marker : String} {root p : Path}

theorem descends_of_mem {depth : Nat} {heedsMarker : Bool}
    (hclear : heedsMarker = false → t.carriesMarker marker root = false)
    (h : .file p ∈ visitsBelow t marker depth heedsMarker root) : t.Descends marker root p := by
  have below {q : Path} {name : Path.Name} (hq : q = root ∨ t.Descends marker root q)
      (unmarked : t.carriesMarker marker q = false) (hname : Path.IsName name) :
      t.Descends marker root (q.join ⟨name⟩) := by
    rcases hq with rfl | hq
    · exact .entry hname unmarked
    · exact .step hq hname unmarked
  exact holds_of_file_mem (fun hq unmarked _ _ hname => below hq unmarked hname)
    (fun hq unmarked _ _ hname => .inr (below hq unmarked hname)) (.inl rfl) hclear h

theorem isInRoot_of_mem (hroot : t.kindOf root = .ok .directory)
    (hmarker : FileTree.CanAsk marker root) (h : .file p ∈ visits t marker root) :
    t.isInRoot marker root p = true := by
  simp only [visits, hroot] at h
  have hcheck := FileTree.checkPath_of_kindOf hroot
  exact (descends_of_mem (by simp) h).isInRoot (FileTree.checkPath_eq_ok.mp hcheck).2.1
    (FileTree.carriesMarker_trim hcheck hmarker)

end Walk

namespace Scan

variable {κ : Type} {t : FileTree κ} {plan : Plan} {p : Path}

theorem orphanReason?_eq_none : orphanReason? t plan p = none ↔
    t.isFile p = true ∧ t.isInRoot plan.excludeMarker plan.root p = true ∧
      FileExtension.isAccepted plan.audioExtensions p = true := by
  unfold orphanReason?
  split_ifs <;> simp_all

/-- The track of a file that is shown, and that can be told for an audio file, is no orphan. -/
theorem orphanReason?_of_mem
    (hroot : t.kindOf plan.root = .ok .directory)
    (hmarker : FileTree.CanAsk plan.excludeMarker plan.root)
    (h : .file p ∈ Walk.visits t plan.excludeMarker plan.root) (hfile : t.isFile p = true)
    (accepted : FileExtension.isAccepted plan.audioExtensions p = true) :
    orphanReason? t plan p = none := by
  exact orphanReason?_eq_none.mpr ⟨hfile, Walk.isInRoot_of_mem hroot hmarker h, accepted⟩

end Scan

end AudioCatalog
