import AudioCatalog.Proofs.Scanning

namespace AudioCatalog.Scan

open Catalog Scan.Action

variable {σ κ : Type}

/-- The audio file that a visit puts in a batch. -/
def entryOf? (plan : Plan) : Visit → Option Entry
  | .file path =>
    if FileExtension.isAccepted plan.audioExtensions path then
      path.key?.map fun key => ⟨path, key⟩
    else none
  | .failure .. => none

def entriesOf (tree : FileTree κ) (plan : Plan) : List Entry :=
  (Walk.visits tree plan.excludeMarker plan.root).filterMap (entryOf? plan)

section

variable {tree : FileTree κ} {plan : Plan} {entry : Entry}

theorem entryOf?_eq_some {visit : Visit} (hentry : entryOf? plan visit = some entry) :
    entry.path = visit.path ∧ entry.Keyed := by
  cases visit with
  | failure path cause => simp [entryOf?] at hentry
  | file path =>
      rw [entryOf?] at hentry
      split_ifs at hentry
      obtain ⟨key, hkey, rfl⟩ := Option.map_eq_some_iff.mp hentry
      exact ⟨rfl, hkey⟩

theorem mem_entriesOf : entry ∈ entriesOf tree plan ↔
    .file entry.path ∈ Walk.visits tree plan.excludeMarker plan.root ∧
      FileExtension.isAccepted plan.audioExtensions entry.path = true ∧ entry.Keyed := by
  rw [entriesOf, List.mem_filterMap]
  constructor
  · rintro ⟨_ | _, hvisit, hentry⟩
    · obtain ⟨rfl, hkeyed⟩ := entryOf?_eq_some hentry
      rw [entryOf?] at hentry
      split_ifs at hentry with accepted
      exact ⟨hvisit, accepted, hkeyed⟩
    · cases hentry
  · rintro ⟨hvisit, accepted, hkeyed⟩
    refine ⟨_, hvisit, ?_⟩
    rw [entryOf?, if_pos accepted, hkeyed]
    rfl

theorem key_ne_of_mem_before {before after : List Entry} {other : Entry}
    (distinct : ((before ++ entry :: after).map Entry.key).Nodup) (hother : other ∈ before) :
    other.key ≠ entry.key := by
  rw [List.map_append, List.map_cons] at distinct
  exact (List.nodup_append.mp distinct).2.2 _ (List.mem_map_of_mem hother) _ (by simp)

variable (tree plan)

theorem entriesOf_nodup : ((entriesOf tree plan).map Entry.key).Nodup := by
  have distinct : ((Walk.visits tree plan.excludeMarker plan.root).map Visit.path).Nodup :=
    Walk.visits_nodup plan.root
  rw [List.Nodup, List.pairwise_map] at distinct ⊢
  refine List.Pairwise.filterMap _ ?_ distinct
  intro visit other hne entry hentry entry' hentry' hkey
  obtain ⟨hpath, hkeyed⟩ := entryOf?_eq_some hentry
  obtain ⟨hpath', hkeyed'⟩ := entryOf?_eq_some hentry'
  exact hne (by rw [← hpath, ← hpath', hkeyed.ext hkeyed' hkey])

end

def Unscanned (s : State) (_ : σ) (t : State) (es : List Entry) : Prop :=
  t.Coherent ∧ s.SameFiles t ∧ es = []

theorem unscanned_lasts (env : Surroundings σ κ) (s : State) : Lasts env (Unscanned s) where
  coherent := fun ht => ht.1
  wait := id
  report := fun _ => id
  sameFiles := fun ht hu same => ⟨hu, ht.2.1.trans same, ht.2.2⟩

/-- The property, of the files that were taken over and the catalog, survives the next file being
taken over. -/
def Advances (tree : FileTree κ) (parser : Path → Except Tag.ParseError Tag.Metadata) (plan : Plan)
    (K : List Entry → State → Prop) : Prop :=
  ∀ {done rest : List Entry} {entry : Entry} {now : Int} {s t : State},
    entriesOf tree plan = done ++ entry :: rest → s.Coherent → K done s →
      Taken plan entry now s t (readingOf tree parser plan s entry) → K (done ++ [entry]) t

def Ahead (tree : FileTree κ) (plan : Plan) (K : List Entry → State → Prop) (left : List Visit)
    (r : Run σ) : Prop :=
  ∃ done, entriesOf tree plan = done ++ (r.pending ++ left.filterMap (entryOf? plan)) ∧
    r.catalog.Coherent ∧ K done r.catalog

namespace Surroundings.Steady

variable {env : Surroundings σ κ} {tree : FileTree κ}
  {parser : Path → Except Tag.ParseError Tag.Metadata} (h : env.Steady tree parser) {plan : Plan}
  {K : List Entry → State → Prop} (advances : Advances tree parser plan K)
include advances

omit h in
theorem finishFiles_passes {s : State} {entries done rest : List Entry} {r : Run σ}
    (hall : entriesOf tree plan = done ++ (entries ++ rest)) (hr : r.catalog.Coherent)
    (hK : K done r.catalog)
    (same : ∀ entry ∈ entries,
      readingOf tree parser plan s entry = readingOf tree parser plan r.catalog entry) :
    Succeeds ((entries.map fun entry => (entry, readingOf tree parser plan s entry)).allM
        fun (entry, reading) => finishFile env plan entry reading) r
      fun goesOn t => t.pending = r.pending ∧
        if goesOn then t.catalog.Coherent ∧ K (done ++ entries) t.catalog else GivenUp env t := by
  induction entries generalizing done r with
  | nil => exact ⟨rfl, hr, by rwa [List.append_nil]⟩
  | cons entry entries ih =>
      have known : (readingOf tree parser plan r.catalog entry).IsKnown := readingOf_known hr entry
      rw [List.map_cons, same entry (by simp)]
      apply Ends.bind (finishFile_succeeds hr entry known)
      rintro goesOn t ⟨hpending, ht⟩
      cases goesOn with
      | false => exact ⟨hpending, by rw [ht.1]; exact hr, ht.2⟩
      | true =>
          obtain ⟨now, taken⟩ := ht
          have only := taken.touchesOnly hr
          have distinct := entriesOf_nodup tree plan
          rw [hall, List.map_append, List.cons_append, List.map_cons] at distinct
          have others : ∀ other ∈ entries, other.key ≠ entry.key := by
            intro other hother hkey
            have := (List.nodup_cons.mp distinct.of_append_right).1
            exact this (hkey ▸ List.mem_map_of_mem (List.mem_append_left rest hother))
          have next : entriesOf tree plan = (done ++ [entry]) ++ (entries ++ rest) := by
            rw [hall, List.append_assoc]
            rfl
          refine (ih next only.coherent (advances hall hr hK taken)
            fun other hother => ?_).imp ?_ fun _ _ => id
          · rw [same other (by simp [hother]), readingOf_eq hr only (others other hother)]
          · rintro goesOn u ⟨hpending', hu⟩
            rw [List.append_assoc] at hu
            exact ⟨hpending'.trans hpending, hu⟩

include h

theorem flush_passes {left : List Visit} {r : Run σ} (hr : Ahead tree plan K left r) :
    Succeeds (flush env plan) r fun goesOn t =>
      if goesOn then Ahead tree plan K left t ∧ t.pending = [] else GivenUp env t := by
  obtain ⟨done, hall, hcoherent, hK⟩ := hr
  rw [flush, Succeeds, Ends.bind_iff, Ends.get_iff, Ends.bind_iff, Ends.modify_iff]
  apply Ends.bind (h.readAll_succeeds (r := { r with pending := [] }) r.pending)
  rintro readings t ⟨rfl, ht⟩
  rw [← ht.catalog_eq] at hcoherent hK ⊢
  refine (finishFiles_passes advances hall hcoherent hK fun _ _ => rfl).imp ?_ fun _ _ => id
  rintro goesOn u ⟨hpending, hu⟩
  cases goesOn with
  | false => exact hu
  | true =>
      rw [ht.pending_eq] at hpending
      refine ⟨⟨done ++ r.pending, ?_, hu⟩, hpending⟩
      rw [hall, hpending, List.append_assoc, List.nil_append]

theorem scanVisit_passes (visit : Visit) :
    Spends (Ahead tree plan K) (GivenUp env) [visit] (scanVisit env plan visit) := by
  intro left r ⟨done, hall, hcoherent, hK⟩
  -- A visit that puts no file in a batch.
  have skipped (hnone : entryOf? plan visit = none) :
      Ahead tree plan K left { r with outside := env.wait r.outside } := by
    refine ⟨done, ?_, hcoherent, hK⟩
    rwa [List.singleton_append, List.filterMap_cons_none hnone] at hall
  have refused (hnone : entryOf? plan visit = none) (path : Path) (message : String)
      (isAudioFile : Bool) :
      Succeeds (refuse env plan path message isAudioFile)
        { r with outside := env.wait r.outside }
        fun goesOn t => if goesOn then Ahead tree plan K left t else GivenUp env t := by
    apply Ends.bind (h.flush_passes advances (skipped hnone))
    intro goesOn t ht
    cases goesOn with
    | false => exact ht
    | true =>
        cases isAudioFile with
        | true => exact ht.1
        | false => exact ht.1
  unfold scanVisit Succeeds
  rw [Ends.bind_iff, Action.isAborted, observe_ends_iff]
  cases hAborted : env.isAborted (env.wait r.outside) with
  | true => exact ⟨hcoherent, hAborted⟩
  | false =>
      rw [if_neg Bool.false_ne_true]
      cases visit with
      | failure path cause => exact refused rfl _ _ _
      | file path =>
          by_cases accepted : FileExtension.isAccepted plan.audioExtensions path = true
          · simp only [accepted, if_true]
            cases hkey : path.key? with
            | none => exact refused (by simp [entryOf?, hkey]) _ _ _
            | some key =>
                have hentry : entryOf? plan (.file path) = some ⟨path, key⟩ := by
                  simp [entryOf?, accepted, hkey]
                have queued : Ahead tree plan K left
                    { r with
                      outside := env.wait r.outside
                      pending := r.pending ++ [(⟨path, key⟩ : Entry)] } := by
                  refine ⟨done, ?_, hcoherent, hK⟩
                  rw [List.singleton_append, List.filterMap_cons_some hentry] at hall
                  rw [hall, List.append_assoc, List.singleton_append]
                unfold enqueue
                rw [Ends.bind_iff, Ends.modify_iff, Ends.bind_iff, Ends.get_iff]
                split
                · exact queued
                · refine (h.flush_passes advances queued).imp ?_ fun _ _ => id
                  intro goesOn t ht
                  cases goesOn with
                  | false => exact ht
                  | true => exact ht.1
          · simp only [accepted]
            exact skipped (by simp [entryOf?, accepted])

theorem scanFiles_passes {r : Run σ} (hr : r.catalog.Coherent) (hpending : r.pending = [])
    (hK : K [] r.catalog) :
    Succeeds (scanFiles env plan) r fun _ => Holds (Reached env (K (entriesOf tree plan))) := by
  have start : Ahead tree plan K (Walk.visits tree plan.excludeMarker plan.root ++ [])
      { r with progress := { r.progress with total := r.stats.filesToScan } } :=
    ⟨[], by rw [hpending, List.append_nil]; rfl, hr, hK⟩
  unfold scanFiles Succeeds
  rw [Ends.bind_iff, Ends.get_iff, Ends.bind_iff, expect, Ends.modify_iff]
  apply Ends.bind (walk_spends h.tree (fun _ _ ht => ht) (h.scanVisit_passes advances) plan.root [] _ start)
  intro goesOn t ht
  cases goesOn with
  | false => exact ⟨ht.coherent, .inl ht.isAborted⟩
  | true =>
      apply Ends.bind (h.flush_passes advances ht)
      intro goesOn u hu
      cases goesOn with
      | false => exact ⟨hu.coherent, .inl hu.isAborted⟩
      | true =>
          obtain ⟨⟨done, hall, hcoherent, hK⟩, hnone⟩ := hu
          rw [hnone] at hall
          have : done = entriesOf tree plan := by simpa using hall.symm
          exact ⟨hcoherent, .inr (this ▸ hK)⟩

/-- What a pass over all files brings about holds after a scan that goes to its end, if the removal
of the track of an orphan leaves it so. -/
theorem process_passes (stays : env.AbortStays) {D : State → Prop} {s : State} (hs : s.Coherent)
    (start : ∀ {t}, t.Coherent → s.SameFiles t → K [] t)
    (finish : ∀ {t}, K (entriesOf tree plan) t → D t)
    (same : ∀ {t u}, D t → t.SameFiles u → D u)
    (removal : ∀ {t u : State} {key : String}, D t → t.TouchesOnly key u → u.fileAt key = none →
      orphanReason? tree plan (Path.ofString key) ≠ none → D u) (w : σ) :
    Succeeds (process env plan) (Run.start w s) fun _ r => r.isAborted = false → D r.catalog := by
  have before := unscanned_lasts env s
  have after := stays.lasts_reached same
  have orphans : Maintains (Holds (Reached env D)) (removeOrphanTracks env plan) := by
    apply after.removeOrphanTracks plan
    intro id track v v' t es ht hrow hreason
    obtain ⟨only, hgone⟩ := ht.1.withoutTrack_touchesOnly hrow
    rw [h.tree] at hreason
    exact ⟨only.coherent, ht.2.imp (fun hAborted => hAborted) fun done =>
      removal done only hgone (Option.isSome_iff_ne_none.mp hreason)⟩
  refine before.takeSteps_reaches stays [.countFiles] .scanFiles
    [.removeOrphanTracks, .removeOrphanEntities] rfl ?_ (fun r hr => ?_) same ?_
    ⟨hs, .refl s, rfl⟩
  · intro step hstep
    rw [List.mem_singleton.mp hstep]
    exact before.countFiles plan
  · refine (h.scanFiles_passes advances hr.1 hr.2.2 (start hr.1 hr.2.1)).imp ?_ fun _ _ => id
    exact fun _ t ht => ⟨ht.1, ht.2.imp (fun hAborted => hAborted) finish⟩
  · intro step hstep
    rcases List.mem_cons.mp hstep with rfl | hstep
    · exact orphans
    · rw [List.mem_singleton.mp hstep]
      exact after.removeOrphanEntities

end Surroundings.Steady

end AudioCatalog.Scan
