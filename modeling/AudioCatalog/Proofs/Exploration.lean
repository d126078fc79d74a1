import AudioCatalog.Proofs.Lexicographic
import AudioCatalog.Proofs.Locating

namespace AudioCatalog

def Path.descend (base : Path) (names : List Path.Name) : Path :=
  names.foldl (fun p name => p.join ⟨name⟩) base

namespace FileTree

variable {κ : Type} {t : FileTree κ} {marker : String} {p : Path} {loc : Location}
  {name : Path.Name} {names : List Path.Name}

/-- The names lead from a root, which stands at `home`, down through directories, no links, and none
of them has the marker in it: neither the root nor the one that they end at. -/
def Enters (t : FileTree κ) (marker : String) (root : Path) (home : Location)
    (names : List Path.Name) : Prop :=
  ∀ above, above <+: names → t.isDirectoryAt (home ++ above) = true ∧
    (marker = "" ∨ t.exists? ((root.descend above).join (Path.ofString marker)) = false)

def Reaches (t : FileTree κ) (marker : String) (root : Path) (home : Location)
    (names : List Path.Name) : Prop :=
  t.Enters marker root home names.dropLast ∧
    ∃ modified content, t.node? (home ++ names) = some (.file modified content)

/-- All directories that a walk goes into can be listed by the paths that it puts together. -/
def Readable (t : FileTree κ) (marker : String) (root : Path) (home : Location) : Prop :=
  ∀ names, t.Enters marker root home names → ∃ entries, t.list (root.descend names) = .ok entries

theorem isDirectoryAt_iff :
    t.isDirectoryAt loc = true ↔ ∃ modified, t.node? loc = some (.directory modified) := by
  rw [isDirectoryAt]
  rcases t.node? loc with _ | ⟨_, _⟩ | _ | _ <;> simp [Node.kind]

theorem carriesMarker_eq_false : t.carriesMarker marker p = false ↔
    marker = "" ∨ t.exists? (p.join (Path.ofString marker)) = false := by
  simp only [carriesMarker, Bool.and_eq_false_iff, decide_eq_false_iff_not, not_not]

theorem enters_nil : t.Enters marker p loc [] ↔
    t.isDirectoryAt loc = true ∧ t.carriesMarker marker p = false := by
  simp only [Enters, List.prefix_nil, forall_eq, List.append_nil, carriesMarker_eq_false]
  rfl

theorem enters_cons : t.Enters marker p loc (name :: names) ↔
    t.Enters marker p loc [] ∧ t.Enters marker (p.join ⟨name⟩) (loc ++ [name]) names := by
  constructor
  · intro h
    refine ⟨fun above habove => h above (habove.trans List.nil_prefix), fun above habove => ?_⟩
    rw [List.append_assoc]
    exact h (name :: above) ((List.prefix_cons_inj name).mpr habove)
  · rintro ⟨here, below⟩ above habove
    rcases List.prefix_cons_iff.mp habove with rfl | ⟨rest, rfl, hrest⟩
    · exact here [] List.prefix_rfl
    · have := below rest hrest
      rwa [List.append_assoc] at this

theorem Enters.start (h : t.Enters marker p loc names) :
    t.isDirectoryAt loc = true ∧ t.carriesMarker marker p = false :=
  enters_nil.mp fun above habove => h above (habove.trans List.nil_prefix)

theorem Reaches.ne_nil (h : t.Reaches marker p loc names) : names ≠ [] := by
  rintro rfl
  obtain ⟨henters, modified, content, hfile⟩ := h
  obtain ⟨_, hdirectory⟩ := isDirectoryAt_iff.mp henters.start.1
  rw [List.append_nil] at hfile
  cases hdirectory.symm.trans hfile

theorem reaches_singleton : t.Reaches marker p loc [name] ↔ t.Enters marker p loc [] ∧
    ∃ modified content, t.node? (loc ++ [name]) = some (.file modified content) := Iff.rfl

theorem reaches_cons (h : names ≠ []) : t.Reaches marker p loc (name :: names) ↔
    t.Enters marker p loc [] ∧ t.Reaches marker (p.join ⟨name⟩) (loc ++ [name]) names := by
  rw [Reaches, List.dropLast_cons_of_ne_nil h, enters_cons, and_assoc, Reaches, List.append_assoc,
    List.singleton_append]

theorem readable_of_keys {root : Path} {home : Location} (hhome : home ≠ [])
    (h : ∀ place ∈ t.nodes.keys, t.isDirectoryAt place = true → home <+: place →
      (t.list (root.descend (place.drop home.length))).isOk = true) :
    t.Readable marker root home := by
  intro names henters
  have hdirectory := (henters names List.prefix_rfl).1
  have hplace : home ++ names ∈ t.nodes.keys := by
    obtain ⟨modified, hnode⟩ := isDirectoryAt_iff.mp hdirectory
    rw [node?, if_neg (by simp [hhome])] at hnode
    rw [Std.ExtTreeMap.mem_keys, Std.ExtTreeMap.mem_iff_isSome_getElem?, hnode]
    rfl
  have listed := h _ hplace hdirectory (List.prefix_append _ _)
  rw [List.drop_left] at listed
  cases hlist : t.list (root.descend names) with
  | ok entries => exact ⟨entries, rfl⟩
  | error cause =>
      rw [hlist] at listed
      cases listed

theorem entriesAt_pairwise (t : FileTree κ) (loc : Location) :
    (t.entriesAt loc).Pairwise fun entry other => compare entry.1 other.1 = .lt := by
  refine Std.ExtTreeMap.ordered_keys_toList.filterMap _ ?_
  rintro ⟨place, node⟩ ⟨place', node'⟩ hlt entry hentry other hother
  simp only [Option.map_eq_some_iff, childName?_eq_some] at hentry hother
  obtain ⟨name, rfl, rfl⟩ := hentry
  obtain ⟨name', rfl, rfl⟩ := hother
  rw [compare_append_left, compare_cons] at hlt
  exact (Ordering.then_eq_lt.mp hlt).resolve_right fun he => absurd he.2 (by decide)

/-- Where a walk has come to, with so many levels left for it to go down. -/
structure Stand (t : FileTree κ) (marker : String) (depth : Nat) (p : Path) (loc : Location) :
    Prop where
  named : p.bytes ≠ []
  directory : t.isDirectoryAt loc = true
  located : t.carriesMarker marker p = false → t.locate .target p = .ok loc
  readable : t.Readable marker p loc
  short : p.bytes.length ≤ Path.maxLength
  deep : Path.maxLength < p.bytes.length + depth

theorem length_le_of_carriesMarker (hclear : t.carriesMarker marker p = false)
    (hcarries : t.carriesMarker marker (p.join ⟨name⟩) = true) :
    (p.join ⟨name⟩).bytes.length ≤ Path.maxLength := by
  obtain ⟨hnamed, hexists⟩ : marker ≠ "" ∧
      t.exists? ((p.join ⟨name⟩).join (Path.ofString marker)) = true := by
    simpa [carriesMarker] using hcarries
  cases habsolute : (Path.ofString marker).isAbsolute with
  | true =>
      -- The marker is the same for all directories.
      have same (q : Path) : q.join (Path.ofString marker) = Path.ofString marker := by
        rw [Path.join, habsolute, if_pos rfl]
      have hmissing := (carriesMarker_eq_false.mp hclear).resolve_left hnamed
      rw [same] at hexists hmissing
      cases hexists.symm.trans hmissing
  | false =>
      obtain ⟨place, node, hplace, -⟩ := exists?_iff.mp hexists
      obtain ⟨gap, -, hbytes⟩ := Path.join_bytes_eq (p.join ⟨name⟩) habsolute
      have hlength := (checkPath_eq_ok.mp (checkPath_of_locate hplace)).2.2
      rw [hbytes, List.length_append] at hlength
      omega

namespace Stand

variable {depth : Nat}

theorem not_zero (h : t.Stand marker 0 p loc) : False := by
  have := h.short
  have := h.deep
  omega

theorem list_eq (h : t.Stand marker depth p loc) (hclear : t.carriesMarker marker p = false) :
    t.list p = .ok (t.entriesAt loc) := by
  obtain ⟨modified, hdirectory⟩ := isDirectoryAt_iff.mp h.directory
  exact list_eq_ok.mpr ⟨loc, modified, h.located hclear, hdirectory, rfl⟩

theorem step (h : t.Stand marker (depth + 1) p loc) (hclear : t.carriesMarker marker p = false)
    (hentry : (name, .directory) ∈ t.entriesAt loc) :
    t.Stand marker depth (p.join ⟨name⟩) (loc ++ [name]) := by
  have hname : Path.IsName name := isName_of_mem_entriesAt hentry
  have named := (Path.join_bytes_ne h.named hname.isAbsolute_eq).1
  obtain ⟨modified, hdirectory⟩ := isDirectoryAt_iff.mp h.directory
  have below : t.isDirectoryAt (loc ++ [name]) = true := by
    obtain ⟨node, hnode, hkind⟩ := mem_entriesAt.mp hentry
    rw [isDirectoryAt, node?_concat, hnode]
    simp [hkind]
  have readable : t.Readable marker (p.join ⟨name⟩) (loc ++ [name]) := fun names henters =>
    h.readable (name :: names) (enters_cons.mpr ⟨enters_nil.mpr ⟨h.directory, hclear⟩, henters⟩)
  have located (hunmarked : t.carriesMarker marker (p.join ⟨name⟩) = false) :
      t.locate .target (p.join ⟨name⟩) = .ok (loc ++ [name]) := by
    obtain ⟨entries, hlist⟩ := readable [] (enters_nil.mpr ⟨below, hunmarked⟩)
    obtain ⟨place, _, hplace, -, -⟩ := list_eq_ok.mp hlist
    rwa [place_of_mem_entriesAt h.named (h.located hclear) hdirectory hentry (by decide) hplace]
      at hplace
  refine ⟨named, below, located, readable, ?_, ?_⟩
  · cases hmarked : t.carriesMarker marker (p.join ⟨name⟩) with
    | true => exact length_le_of_carriesMarker hclear hmarked
    | false => exact (checkPath_eq_ok.mp (checkPath_of_locate (located hmarked))).2.2
  · have longer : p.bytes.length < (p.join ⟨name⟩).bytes.length :=
      Path.length_lt_length_join hname.1 hname.isAbsolute_eq
    have := h.deep
    omega

end Stand

theorem mem_entriesAt_file : (name, .file) ∈ t.entriesAt loc ↔
    ∃ modified content, t.node? (loc ++ [name]) = some (.file modified content) := by
  rw [mem_entriesAt, ← node?_concat]
  rcases t.node? (loc ++ [name]) with _ | _ | _ | _ <;> simp [Node.kind]

theorem mem_entriesAt_directory :
    (name, .directory) ∈ t.entriesAt loc ↔ t.isDirectoryAt (loc ++ [name]) = true := by
  rw [mem_entriesAt, ← node?_concat, isDirectoryAt]
  rcases t.node? (loc ++ [name]) with _ | _ | _ | _ <;> simp [Node.kind]

def namesOf (below : Path.Name → List Location) : Path.Name × Node.Kind → List Location
  | (name, .file) => [[name]]
  | (name, .directory) => (below name).map (name :: ·)
  | (_, .link) => []

/-- The files below a directory, by the names on the way down to them, in the order in which a walk
comes to them. -/
def filesBelow (t : FileTree κ) (marker : String) : Nat → Path → Location → List Location
  | 0, _, _ => []
  | depth + 1, p, loc =>
    if t.carriesMarker marker p then []
    else (t.entriesAt loc).flatMap
      (namesOf fun name => t.filesBelow marker depth (p.join ⟨name⟩) (loc ++ [name]))

theorem exists_cons_of_mem_namesOf {below : Path.Name → List Location}
    {entry : Path.Name × Node.Kind} (h : names ∈ namesOf below entry) :
    ∃ rest, names = entry.1 :: rest := by
  obtain ⟨name, _ | _ | _⟩ := entry
  · exact ⟨[], List.mem_singleton.mp h⟩
  · obtain ⟨rest, -, rfl⟩ := List.mem_map.mp h
    exact ⟨rest, rfl⟩
  · cases h

/-- The order is that of the names from the first on, not that of the bytes of the paths. -/
theorem filesBelow_pairwise (depth : Nat) (p : Path) (loc : Location) :
    (t.filesBelow marker depth p loc).Pairwise fun names others => compare names others = .lt := by
  induction depth generalizing p loc with
  | zero => exact .nil
  | succ depth ih =>
      rw [filesBelow]
      split_ifs
      · exact .nil
      · refine List.pairwise_flatMap.mpr ⟨fun (name, kind) _ => ?_, ?_⟩
        · cases kind with
          | file => exact List.pairwise_singleton _ _
          | directory =>
              refine List.pairwise_map.mpr ((ih _ _).imp fun {names others} hlt => ?_)
              rw [compare_cons, Std.ReflOrd.compare_self, hlt]
              rfl
          | link => exact .nil
        · refine (t.entriesAt_pairwise loc).imp ?_
          intro entry other hlt names hnames others hothers
          obtain ⟨rest, rfl⟩ := exists_cons_of_mem_namesOf hnames
          obtain ⟨rest', rfl⟩ := exists_cons_of_mem_namesOf hothers
          rw [compare_cons, hlt]
          rfl

namespace Stand

variable {depth : Nat}

theorem mem_filesBelow (h : t.Stand marker depth p loc) :
    names ∈ t.filesBelow marker depth p loc ↔ t.Reaches marker p loc names := by
  induction depth generalizing p loc names with
  | zero => exact h.not_zero.elim
  | succ depth ih =>
      rw [filesBelow]
      cases hmarked : t.carriesMarker marker p with
      | true =>
          refine iff_of_false List.not_mem_nil fun hreaches => ?_
          cases hmarked.symm.trans hreaches.1.start.2
      | false =>
          have entered : t.Enters marker p loc [] := enters_nil.mpr ⟨h.directory, hmarked⟩
          rw [if_neg Bool.false_ne_true, List.mem_flatMap]
          constructor
          · rintro ⟨⟨name, kind⟩, hentry, hnames⟩
            cases kind with
            | file =>
                rw [List.mem_singleton.mp hnames, reaches_singleton]
                exact ⟨entered, mem_entriesAt_file.mp hentry⟩
            | directory =>
                obtain ⟨rest, hrest, rfl⟩ := List.mem_map.mp hnames
                have hreaches := (ih (h.step hmarked hentry)).mp hrest
                exact (reaches_cons hreaches.ne_nil).mpr ⟨entered, hreaches⟩
            | link => cases hnames
          · intro hreaches
            obtain ⟨name, rest, rfl⟩ := List.exists_cons_of_ne_nil hreaches.ne_nil
            by_cases hrest : rest = []
            · subst hrest
              exact ⟨(name, .file), mem_entriesAt_file.mpr hreaches.2, List.mem_singleton.mpr rfl⟩
            · have hreaches := ((reaches_cons hrest).mp hreaches).2
              have hentry : (name, .directory) ∈ t.entriesAt loc :=
                mem_entriesAt_directory.mpr hreaches.1.start.1
              have hfiles := (ih (h.step hmarked hentry)).mpr hreaches
              exact ⟨_, hentry, List.mem_map.mpr ⟨rest, hfiles, rfl⟩⟩

theorem visitsBelow_eq (h : t.Stand marker depth p loc) :
    Walk.visitsBelow t marker depth true p =
      (t.filesBelow marker depth p loc).map fun names => .file (p.descend names) := by
  induction depth generalizing p loc with
  | zero => exact h.not_zero.elim
  | succ depth ih =>
      rw [Walk.visitsBelow, filesBelow, Bool.true_and]
      cases hmarked : t.carriesMarker marker p with
      | true => rfl
      | false =>
          rw [if_neg Bool.false_ne_true, if_neg Bool.false_ne_true, h.list_eq hmarked,
            List.map_flatMap]
          refine List.flatMap_congr ?_
          rintro ⟨name, kind⟩ hentry
          cases kind with
          | file => rfl
          | directory =>
              rw [Walk.visitsOf, ih (h.step hmarked hentry), namesOf, List.map_map]
              rfl
          | link => rfl

end Stand

end FileTree

namespace Walk

section Noting

variable {σ : Type}

def noting (visit : Visit → StateM σ Bool) (v : Visit) : StateM (σ × List (Visit × Bool)) Bool := do
  let (s, noted) ← get
  let (goesOn, s) := (visit v).run s
  set (s, noted ++ [(v, goesOn)])
  return goesOn

def Made (visits : List Visit) (noted : List (Visit × Bool)) : Bool → Prop
  | true => noted = visits.map (·, true)
  | false => ∃ n v, visits[n]? = some v ∧ noted = (visits.take n).map (·, true) ++ [(v, false)]

theorem Made.cons {v : Visit} {visits : List Visit} {noted : List (Visit × Bool)} {goesOn : Bool}
    (h : Made visits noted goesOn) : Made (v :: visits) ((v, true) :: noted) goesOn := by
  cases goesOn with
  | true => exact congrArg ((v, true) :: ·) h
  | false =>
      obtain ⟨n, declined, hn, rfl⟩ := h
      exact ⟨n + 1, declined, hn, rfl⟩

theorem allM_cons_run (visit : Visit → StateM σ Bool) (v : Visit) (visits : List Visit) (s : σ) :
    ((v :: visits).allM visit).run s =
      match (visit v).run s with
      | (true, s) => (visits.allM visit).run s
      | (false, s) => (false, s) := by
  rw [List.allM, StateT.run_bind]
  rcases (visit v).run s with ⟨_ | _, s⟩ <;> rfl

theorem noting_run (visit : Visit → StateM σ Bool) (v : Visit) (s : σ)
    (before : List (Visit × Bool)) :
    (noting visit v).run (s, before) =
      (((visit v).run s).1, ((visit v).run s).2, before ++ [(v, ((visit v).run s).1)]) := rfl

theorem made_allM (visit : Visit → StateM σ Bool) (visits : List Visit) (s : σ)
    (before : List (Visit × Bool)) :
    ∃ noted goesOn s', (visits.allM visit).run s = (goesOn, s') ∧
      (visits.allM (noting visit)).run (s, before) = (goesOn, s', before ++ noted) ∧
      Made visits noted goesOn := by
  induction visits generalizing s before with
  | nil => exact ⟨[], true, s, rfl, by rw [List.append_nil]; rfl, rfl⟩
  | cons v visits ih =>
      rw [allM_cons_run, allM_cons_run, noting_run]
      rcases (visit v).run s with ⟨_ | _, s⟩
      · exact ⟨[(v, false)], false, s, rfl, rfl, 0, v, rfl, rfl⟩
      · obtain ⟨noted, goesOn, s', hrun, hnoting, made⟩ := ih s (before ++ [(v, true)])
        refine ⟨(v, true) :: noted, goesOn, s', hrun, ?_, made.cons⟩
        simpa using hnoting

end Noting

variable {κ : Type} {t : FileTree κ} {marker : String} {root : Path} {home : Location}

theorem stand_root (hroot : t.kindOf root = .ok .directory)
    (hhome : t.locate .target root = .ok home) (readable : t.Readable marker root home) :
    t.Stand marker maxDepth root home := by
  obtain ⟨node, htarget, hkind⟩ := FileTree.target_of_kindOf hroot (by decide)
  obtain ⟨place, hplace, hnode⟩ := FileTree.target_eq_ok.mp htarget
  obtain rfl := Except.ok.inj (hhome.symm.trans hplace)
  obtain ⟨-, named, short⟩ := FileTree.checkPath_eq_ok.mp (FileTree.checkPath_of_locate hhome)
  have directory : t.isDirectoryAt home = true := by
    rw [FileTree.isDirectoryAt, hnode]
    simp [hkind]
  refine ⟨named, directory, fun _ => hhome, readable, short, ?_⟩
  rw [maxDepth]
  omega

structure Listing (t : FileTree κ) (marker : String) (root : Path) (home : Location)
    (files : List Location) : Prop where
  ordered : files.Pairwise fun names others => compare names others = .lt
  complete : ∀ names, names ∈ files ↔ t.Reaches marker root home names
  distinct : (files.map root.descend).Nodup

/-- For any visitor, the walk makes these visits in turn, and tells if the last was declined. -/
def Shows (t : FileTree κ) (marker : String) (root : Path) (shown : List Visit) : Prop :=
  ∀ (σ : Type) (visit : Visit → StateM σ Bool) (s : σ), ∃ noted goesOn s',
    (run ⟨pure t, marker, visit⟩ root).run s = (goesOn, s') ∧
    (run ⟨pure t, marker, noting visit⟩ root).run (s, []) = (goesOn, s', noted) ∧
    Made shown noted goesOn

theorem run_shows_reached (hroot : t.kindOf root = .ok .directory)
    (hhome : t.locate .target root = .ok home) (readable : t.Readable marker root home) :
    ∃ files, Listing t marker root home files ∧
      Shows t marker root (files.map fun names => .file (root.descend names)) := by
  have stand := stand_root hroot hhome readable
  have hvisits : visits t marker root =
      (t.filesBelow marker maxDepth root home).map fun names => .file (root.descend names) := by
    rw [visits, hroot]
    exact stand.visitsBelow_eq
  refine ⟨_, ⟨FileTree.filesBelow_pairwise _ _ _, fun _ => stand.mem_filesBelow, ?_⟩, ?_⟩
  · have distinct : ((visits t marker root).map Visit.path).Nodup := visits_nodup root
    rwa [hvisits, List.map_map] at distinct
  · intro σ visit s
    rw [run_pure, run_pure, hvisits]
    exact made_allM visit _ s []

def shelf : FileTree Unit :=
  let place (names : List String) : Location := ("m" :: names).map Text.Utf8.encode
  let tree := [[], ["a"], ["hidden"], ["hidden", "deep"]].foldl
    (fun tree names => tree.put (place names) (.directory 0)) (FileTree.empty [])
  let tree := [["a", "1.mp3"], ["a.b"], ["hidden", ".lmsignore"], ["hidden", "deep", "2.mp3"]].foldl
    (fun tree names => tree.put (place names) (.file 0 ())) tree
  tree.put (place ["l"]) (.link (Path.ofString "a"))

def shelfRoot : Path := Path.ofString "/m"

theorem run_shows_shelf :
    shelf.kindOf shelfRoot = .ok .directory ∧
      shelf.locate .target shelfRoot = .ok [Text.Utf8.encode "m"] ∧
      shelf.Readable ".lmsignore" shelfRoot [Text.Utf8.encode "m"] ∧
      ∃ files, Listing shelf ".lmsignore" shelfRoot [Text.Utf8.encode "m"] files ∧
        Shows shelf ".lmsignore" shelfRoot
          (files.map fun names => .file (shelfRoot.descend names)) := by
  have hroot : shelf.kindOf shelfRoot = .ok .directory := by decide +kernel
  have hhome : shelf.locate .target shelfRoot = .ok [Text.Utf8.encode "m"] := by decide +kernel
  have readable : shelf.Readable ".lmsignore" shelfRoot [Text.Utf8.encode "m"] :=
    FileTree.readable_of_keys (by simp) (by decide +kernel)
  exact ⟨hroot, hhome, readable, run_shows_reached hroot hhome readable⟩

example : visits shelf ".lmsignore" shelfRoot =
    [.file (Path.ofString "/m/a/1.mp3"), .file (Path.ofString "/m/a.b")] := by decide +kernel

end Walk

end AudioCatalog
