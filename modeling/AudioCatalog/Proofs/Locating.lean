import AudioCatalog.Proofs.Containment

namespace AudioCatalog.FileTree

variable {κ : Type} {t : FileTree κ} {lookup : Lookup}

def onward (t : FileTree κ) (lookup : Lookup) :
    Nat → Location → Path → List Move → Except FileError Location
  | 0, _, _, _ => .error .tooManyLinks
  | links + 1, home, target, rest =>
    t.follow lookup links (if target.isAbsolute then [] else home) (moves target ++ rest)

theorem follow_eq (links : Nat) (loc : Location) (ms : List Move) :
    t.follow lookup links loc ms = t.advance lookup (t.onward lookup links) loc ms := by
  cases links <;> rfl

/-- The first moves lead to a place from where the others go on, or they fail, and so do all. -/
theorem follow_append (links : Nat) (loc : Location) (pre : List Move) :
    (∃ cause, t.follow .target links loc pre = .error cause ∧
      ∀ lookup post, post ≠ [] → t.follow lookup links loc (pre ++ post) = .error cause) ∨
    ∃ place left, t.follow .target links loc pre = .ok place ∧
      ∀ lookup post, post ≠ [] →
        t.follow lookup links loc (pre ++ post) = t.follow lookup left place post := by
  induction links using Nat.strongRecOn generalizing loc pre with
  | ind links ih =>
      have atLink (home : Location) (target : Path) (rest : List Move) :
          (∃ cause, t.onward .target links home target rest = .error cause ∧
            ∀ lookup post, post ≠ [] →
              t.onward lookup links home target (rest ++ post) = .error cause) ∨
          ∃ place left, t.onward .target links home target rest = .ok place ∧
            ∀ lookup post, post ≠ [] →
              t.onward lookup links home target (rest ++ post) = t.follow lookup left place post := by
        cases links with
        | zero => exact .inl ⟨_, rfl, fun _ _ _ => rfl⟩
        | succ links =>
            have := ih links (Nat.lt_succ_self links) (if target.isAbsolute then [] else home)
              (moves target ++ rest)
            simpa only [onward, List.append_assoc] using this
      simp only [follow_eq links]
      -- On the moves up to the first link, where the lookup goes on with one link less.
      induction pre generalizing loc with
      | nil => exact .inr ⟨loc, links, rfl, fun _ _ _ => (follow_eq _ _ _).symm⟩
      | cons move pre ihMoves =>
          simp only [List.cons_append, advance]
          rcases t.node? loc with _ | _ | _ | _
          · exact .inl ⟨_, rfl, fun _ _ _ => rfl⟩
          · exact .inl ⟨_, rfl, fun _ _ _ => rfl⟩
          · cases move with
            | stay => exact ihMoves loc
            | up => exact ihMoves loc.dropLast
            | into name =>
                by_cases hlong : Path.maxNameLength < name.length
                · simp only [hlong, if_true]
                  exact .inl ⟨_, rfl, fun _ _ _ => rfl⟩
                · simp only [hlong, if_false]
                  rcases t.node? (loc ++ [name]) with _ | _ | _ | target
                  · refine .inl ⟨.notFound, by simp [Lookup.target], fun lookup post hpost => ?_⟩
                    simp [hpost]
                  · exact ihMoves _
                  · exact ihMoves _
                  · have goesOn (lookup : Lookup) {post : List Move} (hpost : post ≠ []) :
                        ¬ (pre ++ post = [] ∧ (!lookup.follows) = true) := by simp [hpost]
                    have follows : ¬ (pre = [] ∧ (!Lookup.target.follows) = true) := by
                      simp [Lookup.target]
                    simp +contextual only [goesOn, follows, if_false, ne_eq, not_false_eq_true]
                    exact atLink loc target pre
          · exact .inl ⟨_, rfl, fun _ _ _ => rfl⟩

/-- A link matters at the end of a path only. -/
theorem follow_target {links : Nat} {loc place : Location} {ms : List Move}
    (h : t.follow .link links loc ms = .ok place)
    (hplace : ∀ target, t.node? place ≠ some (.link target)) :
    t.follow .target links loc ms = .ok place := by
  induction links using Nat.strongRecOn generalizing loc ms with
  | ind links ih =>
      have atLink (home : Location) (target : Path) (rest : List Move)
          (h : t.onward .link links home target rest = .ok place) :
          t.onward .target links home target rest = .ok place := by
        cases links with
        | zero => cases h
        | succ links => exact ih links (Nat.lt_succ_self links) h
      rw [follow_eq] at h ⊢
      induction ms generalizing loc with
      | nil => exact h
      | cons move ms ihMoves =>
          simp only [advance] at h ⊢
          rcases hnode : t.node? loc with _ | _ | _ | _ <;> simp only [hnode] at h ⊢
          · cases h
          · cases h
          · cases move with
            | stay => exact ihMoves h
            | up => exact ihMoves h
            | into name =>
                by_cases hlong : Path.maxNameLength < name.length
                · simp [hlong] at h
                · simp only [hlong, if_false] at h ⊢
                  rcases hnext : t.node? (loc ++ [name]) with _ | _ | _ | target <;>
                    simp only [hnext] at h ⊢
                  · simp [Lookup.link] at h
                  · exact ihMoves h
                  · exact ihMoves h
                  · split_ifs at h with hend
                    · cases h
                      exact absurd hnext (hplace target)
                    · simpa [Lookup.target] using atLink loc target ms h
          · cases h

theorem kindOf_eq_ok {p : Path} {kind : Node.Kind} : t.kindOf p = .ok kind ↔
    ∃ place node, t.locate .link p = .ok place ∧ t.node? place = some node ∧ node.kind = kind := by
  rw [kindOf, nodeAt]
  cases t.locate .link p with
  | error cause => simp [bind, Except.bind, Except.map]
  | ok place =>
      cases hnode : t.node? place <;>
        simp [bind, Except.bind, pure, Except.pure, throw, throwThe, MonadExceptOf.throw, Except.map,
          hnode]

/-- What is no link is what its path leads to. -/
theorem target_of_kindOf {p : Path} {kind : Node.Kind} (h : t.kindOf p = .ok kind)
    (hkind : kind ≠ .link) : ∃ node, t.target p = .ok node ∧ node.kind = kind := by
  obtain ⟨place, node, hplace, hnode, rfl⟩ := kindOf_eq_ok.mp h
  refine ⟨node, target_eq_ok.mpr ⟨place, ?_, hnode⟩, rfl⟩
  have hcheck := checkPath_of_locate hplace
  rw [locate, hcheck] at hplace ⊢
  refine follow_target hplace fun target htarget => hkind ?_
  rw [hnode] at htarget
  cases htarget
  rfl

theorem isFile_of_kindOf {p : Path} (h : t.kindOf p = .ok .file) : t.isFile p = true := by
  obtain ⟨node, htarget, hkind⟩ := target_of_kindOf h (by decide)
  cases node with
  | file modified content => exact isFile_iff.mpr ⟨modified, content, htarget⟩
  | directory | link => cases hkind

theorem follow_stays_eq {stays : List Move} (hstays : ∀ move ∈ stays, move = .stay) {links : Nat}
    {loc place : Location} :
    t.follow lookup links loc stays = .ok place →
      place = loc := by
  intro h
  rw [follow_eq] at h
  induction stays with
  | nil => exact (Except.ok.inj h).symm
  | cons move stays ih =>
      obtain rfl := hstays move (by simp)
      rw [advance] at h
      rcases hnode : t.node? loc with _ | _ | _ | _ <;> rw [hnode] at h
      · cases h
      · cases h
      · exact ih (fun move hmove => hstays move (by simp [hmove])) h
      · cases h

theorem follow_stays_directory {stays : List Move} (hstays : ∀ move ∈ stays, move = .stay)
    {links : Nat} {loc : Location} {modified : Int}
    (hloc : t.node? loc = some (.directory modified)) :
    t.follow lookup links loc stays = .ok loc := by
  rw [follow_eq]
  induction stays with
  | nil => rfl
  | cons move stays ih =>
      obtain rfl := hstays move (by simp)
      rw [advance, hloc]
      exact ih fun move hmove => hstays move (by simp [hmove])

variable {q : Path} {name : Path.Name}

theorem moves_eq_stem (hq : q.bytes ≠ []) :
    ∃ stays, moves q = q.stem.map Move.ofPiece ++ stays ∧ ∀ move ∈ stays, move = .stay := by
  obtain ⟨first, rest, tail, hstem, hpieces, htail, -⟩ := Path.exists_stem hq
  refine ⟨tail.map Move.ofPiece, ?_, fun move hmove => ?_⟩
  · rw [moves, hpieces, hstem, ← List.cons_append, List.map_append]
  · obtain ⟨piece, hpiece, rfl⟩ := List.mem_map.mp hmove
    exact ofPiece_idle (htail piece hpiece)

theorem moves_name (hname : Path.IsName name) : moves ⟨name⟩ = [.into name] := by
  rw [moves, Path.pieces_name hname, List.map_singleton, Move.ofPiece,
    if_neg (by simp [hname.1, hname.2.1]), if_neg hname.2.2.1]

theorem checkPath_of_join (hq : q.bytes ≠ []) (hname : Path.IsName name)
    (hcheck : checkPath (q.join ⟨name⟩) = .ok ()) : checkPath q = .ok () := by
  obtain ⟨gap, -, hbytes⟩ := Path.join_bytes_eq q hname.isAbsolute_eq
  obtain ⟨hzero, -, hlength⟩ := checkPath_eq_ok.mp hcheck
  rw [hbytes] at hzero hlength
  refine checkPath_eq_ok.mpr ⟨fun hmem => hzero (by simp [hmem]), hq, ?_⟩
  rw [List.length_append] at hlength
  omega

theorem locate_join (hq : q.bytes ≠ []) (hname : Path.IsName name)
    (hcheck : checkPath (q.join ⟨name⟩) = .ok ()) {place : Location}
    (hplace : t.locate .target q = .ok place) :
    ∃ left, ∀ lookup, t.locate lookup (q.join ⟨name⟩) = t.follow lookup left place [.into name] := by
  obtain ⟨stays, hmoves, hstays⟩ := moves_eq_stem hq
  rw [locate, checkPath_of_join hq hname hcheck, hmoves] at hplace
  simp only [locate, hcheck, (Path.join_bytes_ne hq hname.isAbsolute_eq).2,
    moves_join q hname.isAbsolute_eq, moves_name hname]
  rcases t.follow_append maxLinks (if q.isAbsolute then [] else t.workingDirectory)
      (q.stem.map Move.ofPiece) with ⟨cause, herror, herrors⟩ | ⟨stop, left, hstop, hrest⟩
  · cases stays with
    | nil =>
        rw [List.append_nil] at hplace
        exact absurd (hplace.symm.trans herror) (by simp)
    | cons move stays => exact absurd (hplace.symm.trans (herrors _ _ (by simp))) (by simp)
  · obtain rfl : place = stop := by
      cases stays with
      | nil =>
          rw [List.append_nil] at hplace
          exact Except.ok.inj (hplace.symm.trans hstop)
      | cons move stays => exact follow_stays_eq hstays ((hrest _ _ (by simp)).symm.trans hplace)
    exact ⟨left, fun lookup => hrest lookup [.into name] (by simp)⟩

/-- What has an entry that can be looked up is a directory. -/
theorem exists_directory_of_join (hq : q.bytes ≠ []) (hname : Path.IsName name) {place : Location}
    (h : t.locate lookup (q.join ⟨name⟩) = .ok place) :
    ∃ home modified, t.locate .target q = .ok home ∧
      t.node? home = some (.directory modified) := by
  have hcheck := checkPath_of_locate h
  obtain ⟨stays, hmoves, hstays⟩ := moves_eq_stem hq
  rw [locate, hcheck, (Path.join_bytes_ne hq hname.isAbsolute_eq).2,
    moves_join q hname.isAbsolute_eq, moves_name hname] at h
  rcases t.follow_append maxLinks (if q.isAbsolute then [] else t.workingDirectory)
      (q.stem.map Move.ofPiece) with ⟨cause, -, herrors⟩ | ⟨home, left, hhome, hrest⟩
  · exact absurd (h.symm.trans (herrors lookup [.into name] (by simp))) (by simp)
  · have step := (hrest lookup [.into name] (by simp)).symm.trans h
    rw [follow_eq, advance] at step
    rcases hnode : t.node? home with _ | _ | modified | _ <;> rw [hnode] at step
    · cases step
    · cases step
    · refine ⟨home, modified, ?_, hnode⟩
      rw [locate, checkPath_of_join hq hname hcheck, hmoves]
      cases stays with
      | nil => rwa [List.append_nil]
      | cons move stays =>
          exact (hrest _ _ (by simp)).trans (follow_stays_directory hstays hnode)
    · cases step

theorem follow_into {home : Location} {modified : Int}
    (hhome : t.node? home = some (.directory modified)) (left : Nat) (name : Path.Name) :
    t.follow lookup left home [.into name] =
      if Path.maxNameLength < name.length then .error .nameTooLong
      else
        match t.node? (home ++ [name]) with
        | none => if lookup.mayMiss then .ok (home ++ [name]) else .error .notFound
        | some (.link target) =>
          if lookup.follows then t.onward lookup left home target [] else .ok (home ++ [name])
        | some _ => .ok (home ++ [name]) := by
  rw [follow_eq, advance, hhome]
  rcases t.node? (home ++ [name]) with _ | _ | _ | target
  · simp
  · rfl
  · rfl
  · cases hfollows : lookup.follows <;> simp

theorem node?_concat (loc : Location) (name : Path.Name) :
    t.node? (loc ++ [name]) = t.nodes[loc ++ [name]]? := by
  rw [node?, if_neg (by simp)]

theorem place_of_mem_entriesAt (hq : q.bytes ≠ []) {home : Location} {modified : Int}
    (hhome : t.locate .target q = .ok home) (hdirectory : t.node? home = some (.directory modified))
    {kind : Node.Kind} (hentry : (name, kind) ∈ t.entriesAt home) (hkind : kind ≠ .link)
    {place : Location} (hplace : t.locate lookup (q.join ⟨name⟩) = .ok place) :
    place = home ++ [name] := by
  have hname := isName_of_mem_entriesAt hentry
  obtain ⟨listed, hlisted, rfl⟩ := mem_entriesAt.mp hentry
  rw [← node?_concat] at hlisted
  obtain ⟨left, hjoin⟩ := locate_join hq hname (checkPath_of_locate hplace) hhome
  rw [hjoin, follow_into hdirectory, hlisted] at hplace
  by_cases hlong : Path.maxNameLength < name.length
  · simp [hlong] at hplace
  · cases listed with
    | link target => exact absurd rfl hkind
    | file | directory => simpa [hlong, eq_comm] using hplace

theorem kind_of_list (hq : q.bytes ≠ []) {entries : List (Path.Name × Node.Kind)}
    {kind : Node.Kind} (hlist : t.list q = .ok entries) (hentry : (name, kind) ∈ entries)
    (hkind : kind ≠ .link) {place : Location} (hplace : t.locate lookup (q.join ⟨name⟩) = .ok place)
    {node : Node κ} (hnode : t.node? place = some node) : node.kind = kind := by
  obtain ⟨home, modified, hhome, hdirectory, rfl⟩ := list_eq_ok.mp hlist
  obtain rfl := place_of_mem_entriesAt hq hhome hdirectory hentry hkind hplace
  obtain ⟨listed, hlisted, rfl⟩ := mem_entriesAt.mp hentry
  rw [node?_concat, hlisted] at hnode
  cases hnode
  rfl

theorem target_of_list (hq : q.bytes ≠ []) {entries : List (Path.Name × Node.Kind)}
    {kind : Node.Kind} (hlist : t.list q = .ok entries) (hentry : (name, kind) ∈ entries)
    (hkind : kind ≠ .link) {node : Node κ} (h : t.target (q.join ⟨name⟩) = .ok node) :
    node.kind = kind := by
  obtain ⟨place, hplace, hnode⟩ := target_eq_ok.mp h
  exact kind_of_list hq hlist hentry hkind hplace hnode

theorem kindOf_ne_link_of_list (hq : q.bytes ≠ []) {entries : List (Path.Name × Node.Kind)}
    {kind : Node.Kind} (hlist : t.list q = .ok entries) (hentry : (name, kind) ∈ entries)
    (hkind : kind ≠ .link) : t.kindOf (q.join ⟨name⟩) ≠ .ok .link := by
  intro hlink
  obtain ⟨place, node, hplace, hnode, hnodeKind⟩ := kindOf_eq_ok.mp hlink
  rw [kind_of_list hq hlist hentry hkind hplace hnode] at hnodeKind
  exact hkind hnodeKind

theorem list_of_target (hq : q.bytes ≠ []) (hname : Path.IsName name) {node : Node κ}
    (h : t.target (q.join ⟨name⟩) = .ok node) (hlink : t.kindOf (q.join ⟨name⟩) ≠ .ok .link) :
    ∃ modified entries, t.target q = .ok (.directory modified) ∧ t.list q = .ok entries ∧
      (name, node.kind) ∈ entries := by
  obtain ⟨place, hplace, hnode⟩ := target_eq_ok.mp h
  obtain ⟨home, modified, hhome, hdirectory⟩ := exists_directory_of_join hq hname hplace
  obtain ⟨left, hjoin⟩ := locate_join hq hname (checkPath_of_locate hplace) hhome
  suffices t.node? (home ++ [name]) = some node from
    ⟨modified, _, target_eq_ok.mpr ⟨home, hhome, hdirectory⟩,
      list_eq_ok.mpr ⟨home, modified, hhome, hdirectory, rfl⟩,
      mem_entriesAt.mpr ⟨node, node?_concat home name ▸ this, rfl⟩⟩
  by_cases hlong : Path.maxNameLength < name.length
  · rw [hjoin, follow_into hdirectory, if_pos hlong] at hplace
    cases hplace
  · rw [hjoin, follow_into hdirectory, if_neg hlong] at hplace
    rcases hnext : t.node? (home ++ [name]) with _ | _ | _ | target <;> rw [hnext] at hplace
    · simp [Lookup.target] at hplace
    · obtain rfl := Except.ok.inj hplace
      exact hnext.symm.trans hnode
    · obtain rfl := Except.ok.inj hplace
      exact hnext.symm.trans hnode
    · refine absurd (kindOf_eq_ok.mpr ⟨home ++ [name], _, ?_, hnext, rfl⟩) hlink
      rw [hjoin, follow_into hdirectory, if_neg hlong, hnext]
      rfl

end AudioCatalog.FileTree
