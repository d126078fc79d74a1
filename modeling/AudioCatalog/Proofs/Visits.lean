import AudioCatalog.FileTree.Walk
import AudioCatalog.Proofs.PathParts
import Mathlib.Data.List.Nodup

namespace AudioCatalog

namespace Path

def opening (p : Path) : List UInt8 :=
  if p.bytes = [] ∨ p.bytes.getLast? = some slash then p.bytes else p.bytes ++ [slash]

theorem join_bytes (base : Path) {name : Name} (h : IsName name) :
    (base.join ⟨name⟩).bytes = base.opening ++ name := by
  rw [join, h.isAbsolute_eq, opening]
  split_ifs <;> simp_all

def Within (p q : Path) : Prop :=
  ∃ rest, p.bytes = q.bytes ++ rest ∧ (rest = [] ∨ rest.head? = some slash)

theorem Within.refl (p : Path) : p.Within p := ⟨[], by simp, .inl rfl⟩

theorem Within.trans {p q r : Path} (h : p.Within q) (h' : q.Within r) : p.Within r := by
  obtain ⟨first, hp, hfirst⟩ := h
  obtain ⟨second, hq, hsecond⟩ := h'
  refine ⟨second ++ first, by rw [hp, hq, List.append_assoc], ?_⟩
  rcases hsecond with rfl | hsecond
  · simpa using hfirst
  · cases second with
    | nil => simp at hsecond
    | cons b second => exact .inr (by simpa using hsecond)

/-- Only in the place of a path that ends with a slash is there no slash between it and its
entries. -/
theorem join_within {base : Path} {name : Name} (h : IsName name) (hne : base.bytes ≠ [])
    (hlast : base.bytes.getLast? ≠ some slash) : (base.join ⟨name⟩).Within base := by
  refine ⟨slash :: name, ?_, .inr rfl⟩
  rw [join_bytes base h, opening, if_neg (by simp [hne, hlast])]
  simp

theorem join_getLast? (base : Path) {name : Name} (h : IsName name) :
    (base.join ⟨name⟩).bytes ≠ [] ∧ (base.join ⟨name⟩).bytes.getLast? ≠ some slash := by
  rw [join_bytes base h]
  obtain ⟨hne, -, -, hslash⟩ := h
  refine ⟨by simp [hne], fun hlast => hslash ?_⟩
  rw [List.getLast?_append_of_ne_nil _ hne] at hlast
  exact List.mem_of_getLast? hlast

theorem eq_of_within_join {base p : Path} {name other : Name} (hname : IsName name)
    (hother : IsName other) (h : p.Within (base.join ⟨name⟩)) (h' : p.Within (base.join ⟨other⟩)) :
    name = other := by
  have first {name : Name} {rest : List UInt8} (hname : IsName name)
      (hrest : rest = [] ∨ rest.head? = some slash) :
      (name ++ rest).takeWhile (· ≠ slash) = name := by
    rw [List.takeWhile_append_of_pos]
    · rcases hrest with rfl | hrest
      · simp
      · cases rest with
        | nil => simp at hrest
        | cons b rest => simp_all
    · intro b hb
      have : b ≠ slash := fun e => hname.2.2.2 (by rwa [e] at hb)
      simpa using this
  obtain ⟨rest, hp, hrest⟩ := h
  obtain ⟨rest', hp', hrest'⟩ := h'
  rw [join_bytes base hname] at hp
  rw [join_bytes base hother, hp, List.append_assoc, List.append_assoc,
    List.append_cancel_left_eq] at hp'
  rw [← first hname hrest, ← first hother hrest', hp']

end Path

namespace FileTree

variable {κ : Type} {t : FileTree κ}

theorem childName?_eq_some {above loc : Location} {name : Path.Name} :
    childName? above loc = some name ↔ loc = above ++ [name] := by
  unfold childName?
  split_ifs with h
  · obtain ⟨rest, rfl⟩ := List.isPrefixOf_iff_prefix.mp h
    rw [List.drop_left, List.append_cancel_left_eq]
    split <;> simp_all
  · apply iff_of_false (by simp)
    rintro rfl
    exact h (List.isPrefixOf_iff_prefix.mpr (List.prefix_append _ _))

theorem mem_entriesAt {loc : Location} {name : Path.Name} {kind : Node.Kind} :
    (name, kind) ∈ t.entriesAt loc ↔
      ∃ node, t.nodes[loc ++ [name]]? = some node ∧ node.kind = kind := by
  simp only [entriesAt, List.mem_filterMap, Option.map_eq_some_iff, childName?_eq_some,
    Prod.exists, Prod.mk.injEq]
  constructor
  · rintro ⟨place, node, hmem, _, rfl, rfl, rfl⟩
    exact ⟨node, Std.ExtTreeMap.mem_toList_iff_getElem?_eq_some.mp hmem, rfl⟩
  · rintro ⟨node, hnode, rfl⟩
    exact ⟨_, node, Std.ExtTreeMap.mem_toList_iff_getElem?_eq_some.mpr hnode, name, rfl, rfl, rfl⟩

theorem isName_of_mem_entriesAt {loc : Location} {entry : Path.Name × Node.Kind}
    (h : entry ∈ t.entriesAt loc) : Path.IsName entry.1 := by
  obtain ⟨node, hnode, -⟩ := mem_entriesAt.mp h
  refine t.isName_of_mem (loc ++ [entry.1]) ?_ entry.1 (by simp)
  exact Std.ExtTreeMap.mem_iff_isSome_getElem?.mpr (by simp [hnode])

theorem entriesAt_nodup (t : FileTree κ) (loc : Location) :
    ((t.entriesAt loc).map Prod.fst).Nodup := by
  have distinct : t.nodes.toList.Pairwise fun a b => a.1 ≠ b.1 :=
    Std.ExtTreeMap.distinct_keys_toList.imp fun hne he => hne (by simp [he])
  rw [entriesAt, List.map_filterMap]
  refine List.Pairwise.filterMap _ ?_ distinct
  rintro ⟨place, node⟩ ⟨place', node'⟩ hne name hname name' hname' rfl
  simp only [Option.map_map, Option.map_eq_some_iff, childName?_eq_some] at hname hname'
  obtain ⟨_, rfl, rfl⟩ := hname
  obtain ⟨_, rfl, rfl⟩ := hname'
  exact hne rfl

theorem target_eq_ok {p : Path} {node : Node κ} :
    t.target p = .ok node ↔ ∃ loc, t.locate .target p = .ok loc ∧ t.node? loc = some node := by
  unfold target nodeAt
  cases t.locate .target p with
  | error cause => simp [bind, Except.bind]
  | ok loc =>
      cases hnode : t.node? loc with
      | none => simp [bind, Except.bind, throw, throwThe, MonadExceptOf.throw, hnode]
      | some other => simp [bind, Except.bind, pure, Except.pure, hnode]

theorem list_eq_ok {p : Path} {entries : List (Path.Name × Node.Kind)} :
    t.list p = .ok entries ↔ ∃ loc modified, t.locate .target p = .ok loc ∧
      t.node? loc = some (.directory modified) ∧ entries = t.entriesAt loc := by
  unfold list
  cases t.locate .target p with
  | error cause => simp [bind, Except.bind]
  | ok loc =>
      rcases hnode : t.node? loc with _ | ⟨_, _⟩ | _ | _ <;>
        simp [bind, Except.bind, pure, Except.pure, throw, throwThe, MonadExceptOf.throw, hnode,
          eq_comm]

end FileTree

namespace Walk

variable {κ : Type} (t : FileTree κ) (marker : String)

def visitsOf (below : Path → List Visit) (path : Path) : Path.Name × Node.Kind → List Visit
  | (name, .file) => [.file (path.join ⟨name⟩)]
  | (name, .directory) => below (path.join ⟨name⟩)
  | (_, .link) => []

def visitsBelow : Nat → Bool → Path → List Visit
  | 0, _, path => [.failure path .nameTooLong]
  | depth + 1, heedsMarker, path =>
    if heedsMarker && t.carriesMarker marker path then []
    else
      match t.list path with
      | .error cause => [.failure path cause]
      | .ok entries => entries.flatMap (visitsOf (visitsBelow depth true) path)

def visits (root : Path) : List Visit :=
  match t.kindOf root with
  | .error cause => [.failure root cause]
  | .ok .file => [.file root]
  | .ok .directory => visitsBelow t marker maxDepth true root
  | .ok .link =>
    match t.target root with
    | .error cause => [.failure root cause]
    | .ok (.directory _) => visitsBelow t marker maxDepth false root
    | .ok (.file ..) | .ok (.link _) => []

section Pure

variable {m : Type → Type} [Monad m] [LawfulMonad m] {α β : Type} {p : α → m Bool}

theorem allM_singleton (a : α) : [a].allM p = p a := by
  conv_rhs => rw [← bind_pure (p a)]
  apply bind_congr
  intro b
  cases b <;> rfl

theorem allM_append (l l' : List α) :
    (l ++ l').allM p = do if ← l.allM p then l'.allM p else return false := by
  induction l with
  | nil => simp [List.allM]
  | cons a l ih =>
      simp only [List.cons_append, List.allM, bind_assoc]
      apply bind_congr
      intro b
      cases b with
      | false => simp
      | true => simpa using ih

theorem allM_flatMap (f : β → List α) (l : List β) :
    (l.flatMap f).allM p = l.allM fun b => (f b).allM p := by
  induction l with
  | nil => rfl
  | cons b l ih =>
      rw [List.flatMap_cons, allM_append, ih]
      simp only [List.allM]
      apply bind_congr
      intro b
      cases b <;> rfl

theorem directory_pure (visit : Visit → m Bool) (depth : Nat) (heedsMarker : Bool) (path : Path) :
    directory ⟨pure t, marker, visit⟩ depth heedsMarker path =
      (visitsBelow t marker depth heedsMarker path).allM visit := by
  induction depth generalizing heedsMarker path with
  | zero => exact (allM_singleton _).symm
  | succ depth ih =>
      simp only [directory, visitsBelow, pure_bind]
      split
      · rfl
      · cases t.list path with
        | error cause => exact (allM_singleton _).symm
        | ok entries =>
            simp only [allM_flatMap]
            congr 1
            funext (name, kind)
            cases kind with
            | file => exact (allM_singleton _).symm
            | directory => exact ih true _
            | link => rfl

theorem run_pure (visit : Visit → m Bool) (root : Path) :
    run ⟨pure t, marker, visit⟩ root = (visits t marker root).allM visit := by
  simp only [run, visits, pure_bind]
  rcases t.kindOf root with cause | _ | _ | _
  · exact (allM_singleton _).symm
  · exact (allM_singleton _).symm
  · exact directory_pure t marker visit _ _ root
  · rcases t.target root with cause | ⟨_, _⟩ | _ | _
    · exact (allM_singleton _).symm
    · rfl
    · exact directory_pure t marker visit _ _ root
    · rfl

end Pure

variable {t marker}

/-- What holds of the files that are shown below a path, as something holds of each directory that
the walk goes through on its way down to them. -/
theorem holds_of_file_mem {D F : Path → Prop} {depth : Nat} {heedsMarker : Bool} {path p : Path}
    (file : ∀ {q entries name}, D q → t.carriesMarker marker q = false → t.list q = .ok entries →
      (name, .file) ∈ entries → Path.IsName name → F (q.join ⟨name⟩))
    (directory : ∀ {q entries name}, D q → t.carriesMarker marker q = false →
      t.list q = .ok entries → (name, .directory) ∈ entries → Path.IsName name →
        D (q.join ⟨name⟩))
    (hpath : D path) (hclear : heedsMarker = false → t.carriesMarker marker path = false)
    (h : .file p ∈ visitsBelow t marker depth heedsMarker path) : F p := by
  induction depth generalizing heedsMarker path with
  | zero => simp [visitsBelow] at h
  | succ depth ih =>
      rw [visitsBelow] at h
      cases hcarries : heedsMarker && t.carriesMarker marker path with
      | true => simp [hcarries] at h
      | false =>
          have hclear : t.carriesMarker marker path = false := by
            cases heedsMarker with
            | false => exact hclear rfl
            | true => exact hcarries
          rw [hcarries, if_neg Bool.false_ne_true] at h
          cases hlist : t.list path with
          | error cause => simp [hlist] at h
          | ok entries =>
              rw [hlist] at h
              obtain ⟨⟨name, kind⟩, hentry, hv⟩ := List.mem_flatMap.mp h
              have hname : Path.IsName name := by
                obtain ⟨loc, _, -, -, rfl⟩ := FileTree.list_eq_ok.mp hlist
                exact FileTree.isName_of_mem_entriesAt hentry
              cases kind with
              | file =>
                  cases List.mem_singleton.mp hv
                  exact file hpath hclear hlist hentry hname
              | directory => exact ih (directory hpath hclear hlist hentry hname) (by simp) hv
              | link => cases hv

theorem within_of_mem {depth : Nat} {heedsMarker : Bool} {path : Path} {v : Visit}
    (hne : path.bytes ≠ []) (hlast : path.bytes.getLast? ≠ some Path.slash)
    (h : v ∈ visitsBelow t marker depth heedsMarker path) : v.path.Within path := by
  induction depth generalizing heedsMarker path with
  | zero =>
      rw [List.mem_singleton.mp h]
      exact .refl path
  | succ depth ih =>
      rw [visitsBelow] at h
      split_ifs at h
      · cases h
      · cases hlist : t.list path with
        | error cause =>
            rw [hlist] at h
            rw [List.mem_singleton.mp h]
            exact .refl path
        | ok entries =>
            rw [hlist] at h
            obtain ⟨⟨name, kind⟩, hentry, hv⟩ := List.mem_flatMap.mp h
            obtain ⟨loc, _, -, -, rfl⟩ := FileTree.list_eq_ok.mp hlist
            have hname := FileTree.isName_of_mem_entriesAt hentry
            have below := Path.join_within hname hne hlast
            obtain ⟨hne', hlast'⟩ := Path.join_getLast? path hname
            cases kind with
            | file =>
                rw [List.mem_singleton.mp hv]
                exact below
            | directory => exact (ih hne' hlast' hv).trans below
            | link => exact absurd hv List.not_mem_nil

theorem within_of_mem_entry {depth : Nat} {path : Path} {entry : Path.Name × Node.Kind} {v : Visit}
    (hname : Path.IsName entry.1) (h : v ∈ visitsOf (visitsBelow t marker depth true) path entry) :
    v.path.Within (path.join ⟨entry.1⟩) := by
  obtain ⟨hne, hlast⟩ := Path.join_getLast? path hname
  obtain ⟨name, _ | _ | _⟩ := entry
  · rw [List.mem_singleton.mp h]
    exact .refl _
  · exact within_of_mem hne hlast h
  · exact absurd h List.not_mem_nil

theorem visitsBelow_nodup (depth : Nat) (heedsMarker : Bool) (path : Path) :
    ((visitsBelow t marker depth heedsMarker path).map Visit.path).Nodup := by
  induction depth generalizing heedsMarker path with
  | zero => simp [visitsBelow]
  | succ depth ih =>
      rw [visitsBelow]
      split_ifs
      · simp
      · cases hlist : t.list path with
        | error cause => simp
        | ok entries =>
            obtain ⟨loc, _, -, -, rfl⟩ := FileTree.list_eq_ok.mp hlist
            rw [List.map_flatMap, List.nodup_flatMap]
            refine ⟨fun (name, kind) _ => ?_, ?_⟩
            · cases kind with
              | file => simp [visitsOf]
              | directory => exact ih true _
              | link => simp [visitsOf]
            · have names := t.entriesAt_nodup loc
              rw [List.Nodup, List.pairwise_map] at names
              refine names.imp_of_mem fun {entry other} hentry hother hne p hp hp' => hne ?_
              obtain ⟨v, hv, rfl⟩ := List.mem_map.mp hp
              obtain ⟨v', hv', hsame⟩ := List.mem_map.mp hp'
              have hname := FileTree.isName_of_mem_entriesAt hentry
              have hother := FileTree.isName_of_mem_entriesAt hother
              have within := within_of_mem_entry hother hv'
              rw [hsame] at within
              exact Path.eq_of_within_join hname hother (within_of_mem_entry hname hv) within

theorem visits_nodup (root : Path) : ((visits t marker root).map Visit.path).Nodup := by
  unfold visits
  rcases t.kindOf root with cause | _ | _ | _
  · simp
  · simp
  · exact visitsBelow_nodup _ _ root
  · rcases t.target root with cause | ⟨_, _⟩ | _ | _
    · simp
    · simp
    · exact visitsBelow_nodup _ _ root
    · simp

theorem file_mem_visits {root : Path} {name : Path.Name} {entries : List (Path.Name × Node.Kind)}
    (hroot : t.kindOf root = .ok .directory) (hclear : t.carriesMarker marker root = false)
    (hlist : t.list root = .ok entries) (hentry : (name, .file) ∈ entries) :
    .file (root.join ⟨name⟩) ∈ visits t marker root := by
  rw [visits, hroot]
  show _ ∈ visitsBelow t marker (Path.maxLength + 1) true root
  rw [visitsBelow, hclear, hlist]
  exact List.mem_flatMap.mpr ⟨(name, .file), hentry, List.mem_singleton.mpr rfl⟩

end Walk

end AudioCatalog
