import AudioCatalog.Proofs.ScanStep
import AudioCatalog.Proofs.Visits
import Mathlib.Logic.Function.Iterate

namespace AudioCatalog.Scan

open Catalog Scan.Action

variable {σ κ : Type}

/-- Throughout, there are the same files with the same tags. -/
structure Surroundings.Steady (env : Surroundings σ κ) (tree : FileTree κ)
    (parser : Path → Except Tag.ParseError Tag.Metadata) : Prop where
  tree : ∀ w, env.tree w = tree
  parse : ∀ w, env.parse w = parser

/-- The second run is the first after some time in which only others did something. -/
def Waits (env : Surroundings σ κ) (r t : Run σ) : Prop :=
  ∃ n, t = { r with outside := env.wait^[n] r.outside }

namespace Waits

variable {env : Surroundings σ κ} {r t u : Run σ}

theorem refl (r : Run σ) : Waits env r r := ⟨0, rfl⟩

theorem once (r : Run σ) : Waits env r { r with outside := env.wait r.outside } := ⟨1, rfl⟩

theorem trans (h : Waits env r t) (h' : Waits env t u) : Waits env r u := by
  obtain ⟨n, rfl⟩ := h
  obtain ⟨m, rfl⟩ := h'
  exact ⟨m + n, by rw [Function.iterate_add_apply]⟩

theorem catalog_eq (h : Waits env r t) : t.catalog = r.catalog := by
  obtain ⟨n, rfl⟩ := h
  rfl

theorem pending_eq (h : Waits env r t) : t.pending = r.pending := by
  obtain ⟨n, rfl⟩ := h
  rfl

theorem outside {P : σ → Prop} (hwait : ∀ w, P w → P (env.wait w)) (h : Waits env r t)
    (hr : P r.outside) : P t.outside := by
  obtain ⟨n, rfl⟩ := h
  exact Function.Iterate.rec P hr hwait n

end Waits

def readingOf (tree : FileTree κ) (parser : Path → Except Tag.ParseError Tag.Metadata) (plan : Plan)
    (s : State) (entry : Entry) : Reading :=
  match tree.lastWriteSeconds entry.path with
  | .error cause => .unreadable cause
  | .ok time =>
    match detectChange s entry.key time plan.scanVersion plan.isForced with
    | .error e => .unknown e
    | .ok .unchanged => .unchanged
    | .ok .needsScan =>
      match parser entry.path with
      | .ok m => .parsed time m
      | .error e => .unparsable e

theorem readingOf_known {tree : FileTree κ}
    {parser : Path → Except Tag.ParseError Tag.Metadata} {plan : Plan} {s : State}
    (hs : s.Coherent) (entry : Entry) : (readingOf tree parser plan s entry).IsKnown := by
  unfold readingOf
  split
  · trivial
  · rw [detectChange_eq hs]
    split <;> rename_i h
    · cases h
    · trivial
    · split <;> trivial

theorem readingOf_eq_parsed {tree : FileTree κ}
    {parser : Path → Except Tag.ParseError Tag.Metadata} {plan : Plan} {s : State} {entry : Entry}
    {time : Int} {m : Tag.Metadata} (h : readingOf tree parser plan s entry = .parsed time m) :
    tree.lastWriteSeconds entry.path = .ok time ∧ parser entry.path = .ok m := by
  unfold readingOf at h
  cases htime : tree.lastWriteSeconds entry.path with
  | error cause => simp [htime] at h
  | ok time' =>
      rcases hchange : detectChange s entry.key time' plan.scanVersion plan.isForced with _ | _ | _
      · simp [htime, hchange] at h
      · cases hparse : parser entry.path <;> simp_all
      · simp [htime, hchange] at h

/-- Changes that bear on the paths of other files do not change what is learned from a file. -/
theorem readingOf_eq {tree : FileTree κ}
    {parser : Path → Except Tag.ParseError Tag.Metadata} {plan : Plan} {key : String} {s t : State}
    (hs : s.Coherent) (h : s.TouchesOnly key t) {entry : Entry} (hkey : entry.key ≠ key) :
    readingOf tree parser plan t entry = readingOf tree parser plan s entry := by
  have change (time : Int) :
      detectChange t entry.key time plan.scanVersion plan.isForced =
        detectChange s entry.key time plan.scanVersion plan.isForced := by
    rw [detectChange_eq h.coherent, detectChange_eq hs, h.others entry.key hkey]
  simp only [readingOf, change]

/-- A worker has come as far with a file as it says, and the rest will give this reading. -/
def Stage.LeadsTo (parser : Path → Except Tag.ParseError Tag.Metadata) (entry : Entry)
    (reading : Reading) : Stage → Prop
  | .waiting => True
  | .dated time => reading =
    match parser entry.path with
    | .ok m => .parsed time m
    | .error e => .unparsable e
  | .done reading' => reading' = reading

structure Underway (tree : FileTree κ) (parser : Path → Except Tag.ParseError Tag.Metadata)
    (plan : Plan) (s : State) (entries : List Entry) (files : List (Entry × Stage)) : Prop where
  entries : files.map Prod.fst = entries
  leadsTo : ∀ file ∈ files, file.2.LeadsTo parser file.1 (readingOf tree parser plan s file.1)

theorem observe_succeeds {env : Surroundings σ κ} {r : Run σ} {α : Type} {f : σ → α} {a : α}
    (hf : ∀ w, f w = a) :
    Succeeds (Scan.Action.observe env f : Action σ α) r fun b t =>
      b = a ∧ Waits env r t := by
  exact ⟨hf _, .once r⟩

namespace Surroundings.Steady

variable {env : Surroundings σ κ} {tree : FileTree κ}
  {parser : Path → Except Tag.ParseError Tag.Metadata} (h : env.Steady tree parser)
include h

variable {plan : Plan} {r : Run σ}

theorem parseFile_succeeds (entry : Entry) (time : Int) :
    Succeeds (parseFile env entry time) r fun reading t =>
      (Stage.dated time).LeadsTo parser entry reading ∧
        Waits env r t := by
  refine Ends.bind (observe_succeeds fun w => by rw [h.parse]) ?_
  rintro result t ⟨rfl, ht⟩
  cases hresult : parser entry.path with
  | ok m => exact ⟨by simp [Stage.LeadsTo, hresult], ht⟩
  | error e => exact ⟨by simp [Stage.LeadsTo, hresult], ht⟩

theorem dateFile_ends {α : Type} (entry : Entry) {settled : Reading → α}
    {dated : Int → Action σ α} {ok : α → Run σ → Prop} {error : Catalog.Error → Run σ → Prop}
    (hsettled : ∀ t : Run σ, Waits env r t →
      ok (settled (readingOf tree parser plan r.catalog entry)) t)
    (hdated : ∀ (t : Run σ) (time : Int), Waits env r t →
      (Stage.dated time).LeadsTo parser entry (readingOf tree parser plan r.catalog entry) →
      Ends (dated time) t ok error) :
    Ends (dateFile env plan entry settled dated) r ok error := by
  unfold dateFile
  refine Ends.bind_iff.mpr ((observe_succeeds h.tree).imp ?_ fun _ _ => False.elim)
  rintro _ t ⟨htree, ht⟩
  rw [htree]
  unfold readingOf at hsettled hdated
  cases htime : tree.lastWriteSeconds entry.path with
  | error cause =>
      rw [htime] at hsettled
      exact hsettled t ht
  | ok time =>
      rw [htime] at hsettled hdated
      dsimp only at hsettled hdated ⊢
      rw [Ends.bind_iff, Ends.get_iff, ht.catalog_eq]
      rcases hchange : detectChange r.catalog entry.key time plan.scanVersion plan.isForced with
        e | _ | _
      · rw [hchange] at hsettled
        exact hsettled t ht
      · rw [hchange] at hdated
        exact hdated t time ht rfl
      · rw [hchange] at hsettled
        exact hsettled t ht

theorem takeTurn_succeeds {entry : Entry} {stage : Stage}
    (hstage : stage.LeadsTo parser entry (readingOf tree parser plan r.catalog entry)) :
    Succeeds (takeTurn env plan entry stage) r fun stage' t =>
      stage'.LeadsTo parser entry (readingOf tree parser plan r.catalog entry) ∧
        Waits env r t := by
  cases stage with
  | waiting =>
      apply h.dateFile_ends entry (fun t ht => ⟨rfl, ht⟩)
      intro t time ht hdated
      exact ⟨hdated, ht⟩
  | dated time =>
      apply Ends.bind (h.parseFile_succeeds entry time)
      rintro reading t ⟨hreading, ht⟩
      exact ⟨hreading.trans hstage.symm, ht⟩
  | done reading => exact ⟨hstage, .refl r⟩

theorem finishReading_succeeds {entry : Entry} {stage : Stage}
    (hstage : stage.LeadsTo parser entry (readingOf tree parser plan r.catalog entry)) :
    Succeeds (finishReading env plan entry stage) r fun reading t =>
      reading = readingOf tree parser plan r.catalog entry ∧
        Waits env r t := by
  cases stage with
  | waiting =>
      apply h.dateFile_ends entry (fun t ht => ⟨rfl, ht⟩)
      intro t time ht hdated
      refine (h.parseFile_succeeds entry time).imp ?_ fun _ _ => id
      exact fun reading u ⟨hreading, hu⟩ => ⟨hreading.trans hdated.symm, ht.trans hu⟩
  | dated time =>
      refine (h.parseFile_succeeds entry time).imp ?_ fun _ _ => id
      exact fun reading t ⟨hreading, ht⟩ => ⟨hreading.trans hstage.symm, ht⟩
  | done reading => exact ⟨hstage, .refl r⟩

theorem takeTurnAt_succeeds {entries : List Entry}
    {files : List (Entry × Stage)} (hfiles : Underway tree parser plan r.catalog entries files)
    (place : Nat) :
    Succeeds (takeTurnAt env plan files place) r fun files' t =>
      Underway tree parser plan r.catalog entries files' ∧ Waits env r t := by
  unfold takeTurnAt Succeeds
  cases hfile : files[place]? with
  | none => exact ⟨hfiles, .refl r⟩
  | some file =>
      have hstage := hfiles.leadsTo file (List.mem_of_getElem? hfile)
      apply Ends.bind (h.takeTurn_succeeds hstage)
      rintro stage' t ⟨hstage', ht⟩
      refine ⟨⟨?_, fun other hother => ?_⟩, ht⟩
      · have hentry : (files.map Prod.fst)[place]? = some file.1 := by
          rw [List.getElem?_map, hfile, Option.map_some]
        obtain ⟨hlt, hget⟩ := List.getElem?_eq_some_iff.mp hentry
        have unchanged := List.set_getElem_self hlt
        rw [hget] at unchanged
        rw [List.map_set, unchanged, hfiles.entries]
      · rcases List.mem_or_eq_of_mem_set hother with hother | rfl
        · exact hfiles.leadsTo other hother
        · exact hstage'

/-- Whatever turns the workers take, the readings are those of the files one by one. -/
theorem readAll_succeeds (entries : List Entry) :
    Succeeds (readAll env plan entries) r fun readings t =>
      readings = entries.map (fun entry => (entry, readingOf tree parser plan r.catalog entry)) ∧
        Waits env r t := by
  unfold readAll Succeeds
  rw [Ends.bind_iff, observe_ends_iff]
  refine Ends.bind (Ends.foldlM (I := fun files t =>
    Underway tree parser plan r.catalog entries files ∧ Waits env r t)
    ?_ ⟨⟨by simp [Function.comp_def], ?_⟩, ?_⟩) ?_
  · rintro place - files t ⟨hfiles, ht⟩
    rw [← ht.catalog_eq] at hfiles ⊢
    refine (h.takeTurnAt_succeeds hfiles place).imp ?_ fun _ _ => id
    exact fun files' u ⟨hfiles', hu⟩ => ⟨hfiles', ht.trans hu⟩
  · rintro file hfile
    obtain ⟨entry, -, rfl⟩ := List.mem_map.mp hfile
    trivial
  · exact .once r
  · rintro files t ⟨hfiles, ht⟩
    refine (Ends.mapM_map (I := fun u => Waits env r u)
      (g := fun file => (file.1, readingOf tree parser plan r.catalog file.1)) ?_ ht).imp ?_ fun _ _ => id
    · rintro file hfile u hu
      have hstage := hfiles.leadsTo file hfile
      rw [← hu.catalog_eq] at hstage ⊢
      apply Ends.bind (h.finishReading_succeeds hstage)
      rintro reading v ⟨rfl, hv⟩
      exact ⟨rfl, hu.trans hv⟩
    · rintro readings u ⟨rfl, hu⟩
      refine ⟨?_, hu⟩
      rw [← hfiles.entries, List.map_map]
      rfl

end Surroundings.Steady

/-- The action deals with these items in their order, or is given up. The invariant is about what
was dealt with so far. -/
def Covers {ι : Type} (I : List ι → Run σ → Prop) (E : Run σ → Prop) (items : List ι)
    (x : Action σ Bool) : Prop :=
  ∀ before r, I before r → Succeeds x r fun goesOn t =>
    if goesOn then I (before ++ items) t else E t

namespace Covers

variable {ι : Type} {I : List ι → Run σ → Prop} {E : Run σ → Prop}

theorem nil : Covers I E [] (pure true) := fun before r hr => by simpa [Succeeds] using hr

theorem flatMap {α : Type} {f : α → List ι} {p : α → Action σ Bool} {l : List α}
    (h : ∀ a ∈ l, Covers I E (f a) (p a)) : Covers I E (l.flatMap f) (l.allM p) := by
  induction l with
  | nil => exact nil
  | cons a l ih =>
      intro before r hr
      apply Ends.bind (h a (by simp) before r hr)
      intro goesOn t ht
      cases goesOn with
      | false => exact ht
      | true =>
          rw [List.flatMap_cons, ← List.append_assoc]
          exact ih (fun b hb => h b (by simp [hb])) _ t ht

end Covers

/-- The action deals with these items, which are the next ones, or is given up. The invariant is
about what is left to deal with. -/
def Spends {ι : Type} (J : List ι → Run σ → Prop) (E : Run σ → Prop) (items : List ι)
    (x : Action σ Bool) : Prop :=
  ∀ rest r, J (items ++ rest) r → Succeeds x r fun goesOn t =>
    if goesOn then J rest t else E t

namespace Spends

variable {ι : Type} {J : List ι → Run σ → Prop} {E : Run σ → Prop}

theorem nil : Spends J E [] (pure true) := fun rest r hr => by simpa [Succeeds] using hr

theorem flatMap {α : Type} {f : α → List ι} {p : α → Action σ Bool} {l : List α}
    (h : ∀ a ∈ l, Spends J E (f a) (p a)) : Spends J E (l.flatMap f) (l.allM p) := by
  induction l with
  | nil => exact nil
  | cons a l ih =>
      intro rest r hr
      rw [List.flatMap_cons, List.append_assoc] at hr
      apply Ends.bind (h a (by simp) _ r hr)
      intro goesOn t ht
      cases goesOn with
      | false => exact ht
      | true => exact ih (fun b hb => h b (by simp [hb])) rest t ht

end Spends

section

variable {env : Surroundings σ κ} {tree : FileTree κ} (still : ∀ w, env.tree w = tree)
  {J : List Visit → Run σ → Prop} {E : Run σ → Prop} {marker : String}
  {visit : Visit → Action σ Bool}
  (hwait : ∀ rest r, J rest r → J rest { r with outside := env.wait r.outside })
include still hwait

theorem look_spends {shown : List Visit} {f : FileTree κ → Action σ Bool}
    (hf : Spends J E shown (f tree)) : Spends J E shown (look env >>= f) := by
  intro rest r hr
  rw [Succeeds, Ends.bind_iff, look, observe_ends_iff, still]
  exact hf rest _ (hwait _ r hr)

variable (hvisit : ∀ v, Spends J E [v] (visit v))
include hvisit

theorem walkDirectory_spends (depth : Nat) (heedsMarker : Bool) (path : Path) :
    Spends J E (Walk.visitsBelow tree marker depth heedsMarker path)
      (Walk.directory ⟨look env, marker, visit⟩ depth heedsMarker path) := by
  induction depth generalizing heedsMarker path with
  | zero => exact hvisit _
  | succ depth ih =>
      apply look_spends still hwait
      dsimp only
      rw [Walk.visitsBelow]
      split
      · exact .nil
      · cases tree.list path with
        | error cause => exact hvisit _
        | ok entries =>
            refine .flatMap fun entry _ => ?_
            obtain ⟨name, kind⟩ := entry
            cases kind with
            | file => exact hvisit _
            | directory => exact ih true _
            | link => exact .nil

theorem walk_spends (root : Path) :
    Spends J E (Walk.visits tree marker root) (Walk.run ⟨look env, marker, visit⟩ root) := by
  apply look_spends still hwait
  rw [Walk.visits]
  rcases tree.kindOf root with cause | _ | _ | _
  · exact hvisit _
  · exact hvisit _
  · exact walkDirectory_spends still hwait hvisit _ _ root
  · dsimp only
    rcases tree.target root with cause | ⟨_, _⟩ | _ | _
    · exact hvisit _
    · exact .nil
    · exact walkDirectory_spends still hwait hvisit _ _ root
    · exact .nil

end

end AudioCatalog.Scan
