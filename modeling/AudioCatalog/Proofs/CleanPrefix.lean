import AudioCatalog.Proofs.Interruption
import AudioCatalog.Proofs.OrphanBatches
import AudioCatalog.Proofs.Orphans

namespace AudioCatalog.Scan

open Catalog Scan.Action Session

variable {σ κ : Type}

/-- What holds of the world at first holds of it throughout a scan. -/
structure Surroundings.Preserves (env : Surroundings σ κ) (Q : σ → Prop) : Prop where
  wait : ∀ {w}, Q w → Q (env.wait w)
  report : ∀ {w} (progress : Progress), Q w → Q (env.report progress w)

structure Progressed (env : Surroundings σ κ) (Q : σ → Prop) (works : List Work) (s : State × Tally)
    (r : Run σ) : Prop where
  coherent : r.catalog.Coherent
  world : Q r.outside
  dealt : ∃ done left, works = done ++ left ∧ r.result = done.foldl carryOut s ∧
    (left = [] ∨ env.isAborted r.outside = true)

/-- After works that were done, the action goes on with the works that are planned then. After an
abort it does nothing. -/
def Carries (env : Surroundings σ κ) (Q : σ → Prop) (planners : List Planner) {α : Type}
    (x : Action σ α) : Prop :=
  ∀ {works : List Work} {s : State × Tally} {r : Run σ}, Progressed env Q works s r →
    Succeeds x r fun _ =>
      Progressed env Q (works ++ worksOf planners (works.foldl carryOut s)) s

namespace Progressed

variable {env : Surroundings σ κ} {Q : σ → Prop} {works more : List Work} {s : State × Tally}
  {r t : Run σ}

theorem moved (h : Progressed env Q works s r) (hresult : t.result = r.result)
    (hworld : Q t.outside)
    (stays : env.isAborted r.outside = true → env.isAborted t.outside = true) :
    Progressed env Q works s t := by
  obtain ⟨hr, -, done, left, hworks, hdone, hleft⟩ := h
  have hcatalog : t.catalog = r.catalog := congrArg Prod.fst hresult
  exact ⟨hcatalog ▸ hr, hworld, done, left, hworks, hresult.trans hdone, hleft.imp id stays⟩

theorem aborted (h : Progressed env Q works s r) (hAborted : env.isAborted r.outside = true) :
    Progressed env Q (works ++ more) s r := by
  obtain ⟨hr, hworld, done, left, rfl, hdone, -⟩ := h
  exact ⟨hr, hworld, done, left ++ more, by rw [List.append_assoc], hdone, .inr hAborted⟩

theorem trans (h : r.result = works.foldl carryOut s) (h' : Progressed env Q more r.result t) :
    Progressed env Q (works ++ more) s t := by
  obtain ⟨ht, hworld, done, left, rfl, hdone, hleft⟩ := h'
  refine ⟨ht, hworld, works ++ done, left, by rw [List.append_assoc], ?_, hleft⟩
  rw [hdone, h, List.foldl_append]

end Progressed

namespace Carries

variable {env : Surroundings σ κ} {Q : σ → Prop} {planners others : List Planner} {α β : Type}
  {x : Action σ α} {f : α → Action σ β}

theorem of_planner {planner : Planner}
    (works : ∀ {r : Run σ}, r.catalog.Coherent → Q r.outside →
      Succeeds x r fun _ => Progressed env Q (planner r.catalog) r.result)
    (idle : ∀ {r : Run σ}, Q r.outside → env.isAborted r.outside = true → Succeeds x r fun _ t =>
      t.result = r.result ∧ Q t.outside ∧ env.isAborted t.outside = true) :
    Carries env Q [planner] x := by
  intro before s r hr
  by_cases hAborted : env.isAborted r.outside = true
  · refine (idle hr.world hAborted).imp (fun _ t ht => ?_) fun _ _ => id
    exact (hr.aborted hAborted).moved ht.1 ht.2.1 fun _ => ht.2.2
  · obtain ⟨hcoherent, hworld, done, left, rfl, hdone, hleft⟩ := hr
    obtain rfl := hleft.resolve_right hAborted
    rw [List.append_nil, ← hdone, worksOf, worksOf, List.append_nil]
    exact (works hcoherent hworld).imp (fun _ t ht => .trans hdone ht) fun _ _ => id

theorem expected (total : Nat) : Carries env Q [] (expect total : Action σ Unit) := by
  intro works s r hr
  rw [worksOf, List.append_nil]
  exact hr.moved rfl hr.world id

theorem advanced (n : Nat) : Carries env Q [] (advance n : Action σ Unit) := by
  intro works s r hr
  rw [worksOf, List.append_nil]
  exact hr.moved rfl hr.world id

theorem bind (hx : Carries env Q planners x) (hf : ∀ a, Carries env Q others (f a)) :
    Carries env Q (planners ++ others) (x >>= f) := by
  intro works s r hr
  rw [worksOf_append, ← List.append_assoc, ← List.foldl_append]
  exact Ends.bind (hx hr) fun a t ht => hf a ht

theorem allM_takeStep (stays : env.AbortStays) (keeps : env.Preserves Q)
    {perform : Step → Action σ Unit} {planners : Step → List Planner} {steps : List Step}
    (h : ∀ step ∈ steps, Carries env Q (planners step) (perform step)) :
    Carries env Q (steps.flatMap planners) (steps.allM (takeStep env perform)) := by
  induction steps with
  | nil =>
      intro works s r hr
      rw [List.flatMap_nil, worksOf, List.append_nil]
      exact hr
  | cons step steps ih =>
      intro works s r hr
      have waited (progress : Progress) : Progressed env Q works s
          { r with outside := env.wait r.outside, progress := progress } :=
        hr.moved rfl (keeps.wait hr.world) stays.wait
      refine allM_takeStep_ends (waited r.progress).aborted fun _ => ?_
      rw [List.flatMap_cons, worksOf_append, ← List.append_assoc, ← List.foldl_append]
      refine (h step (by simp) (waited _)).imp (fun _ t ht => ?_) fun _ _ => id
      exact ih (fun other hother => h other (by simp [hother])) ht

end Carries

theorem Surroundings.Preserves.chronicle {env : Surroundings σ κ} {Q : σ → Prop}
    (keeps : env.Preserves Q) (tree : FileTree κ)
    (parser : Path → Except Tag.ParseError Tag.Metadata) (plan : Plan) (a : Account) :
    Chronicle env tree parser plan a (fun _ => True) fun _ => Q where
  calmed := fun _ => trivial
  calmWait := id
  wait := keeps.wait
  ignored := fun hw _ => hw
  refused := fun _ hw _ _ => hw
  unopened := fun _ hw _ _ _ => hw
  opened := fun progress _ hw _ _ _ _ => keeps.report progress hw

namespace Surroundings.Steady

variable {env : Surroundings σ κ} {tree : FileTree κ}
  {parser : Path → Except Tag.ParseError Tag.Metadata} (h : env.Steady tree parser) {plan : Plan}
  {Q : σ → Prop} (keeps : env.Preserves Q) {r : Run σ}
include h keeps

theorem scanFiles_progresses (hr : r.catalog.Coherent) (hpending : r.pending = [])
    (hworld : Q r.outside) :
    Succeeds (scanFiles env plan) r fun _ t => ∃ times : Entry → Int,
      (∀ entry, ∃ w, times entry = env.now w) ∧
        Progressed env Q (fileWorks tree parser plan times r.catalog) r.result t := by
  let a : Account :=
    { r.account with progress := { r.progress with total := r.stats.filesToScan } }
  have chronicle := keeps.chronicle tree parser plan a
  refine (chronicle.scanFiles_accounts hr h hpending rfl hworld).imp ?_ fun _ _ => id
  rintro _ t ⟨done, rest, hall, accounted, hend⟩
  have coherent := accounted.coherent hr
  obtain ⟨⟨times, clock, haccount⟩, hworld⟩ := accounted
  refine ⟨times, clock, coherent, hworld,
    (done.filterMap (entryOf? plan)).filterMap (fileWork? tree parser plan times r.catalog),
    (rest.filterMap (entryOf? plan)).filterMap (fileWork? tree parser plan times r.catalog),
    ?_, ?_, ?_⟩
  · rw [← List.filterMap_append, ← List.filterMap_append, ← hall]
    rfl
  · exact (congrArg Account.result haccount).trans (foldl_settle_result a done)
  · refine hend.imp (fun hrest => ?_) id
    rw [hrest]
    rfl

omit keeps in
theorem orphansAmong_eq {Q : σ → Prop} (wait : ∀ {w}, Q w → Q (env.wait w))
    (tracks : List (TrackId × String)) {r : Run σ} (hr : Q r.outside) :
    Succeeds (orphansAmong? env plan tracks) r fun found t => t.result = r.result ∧
      Q t.outside ∧ (found = some (orphansIn tree plan tracks) ∨
        found = none ∧ env.isAborted t.outside = true) := by
  induction tracks generalizing r with
  | nil => exact ⟨rfl, hr, .inl rfl⟩
  | cons track tracks ih =>
      obtain ⟨id, path⟩ := track
      rw [orphansAmong?, Succeeds, Ends.bind_iff, Action.isAborted, observe_ends_iff]
      cases hAborted : env.isAborted (env.wait r.outside) with
      | true => exact ⟨rfl, wait hr, .inr ⟨rfl, hAborted⟩⟩
      | false =>
          rw [if_neg Bool.false_ne_true, Ends.bind_iff, look, observe_ends_iff, h.tree,
            Ends.bind_iff, advance, Ends.modify_iff]
          refine Ends.bind (ih (wait (wait hr))) ?_
          rintro found t ⟨hresult, hworld, rfl | ⟨rfl, hAborted⟩⟩
          · refine ⟨hresult, hworld, .inl (congrArg some ?_)⟩
            simp only [orphansIn, List.filter_cons]
            split_ifs <;> rfl
          · exact ⟨hresult, hworld, .inr ⟨rfl, hAborted⟩⟩

theorem removeOrphansOf_spends (works : List Work) (s : State × Tally)
    (tracks : List (TrackId × String)) :
    Spends (fun left t => t.catalog.Coherent ∧ Q t.outside ∧ ∃ done,
        works = done ++ left.map (fun piece => tracksWork (orphansIn tree plan piece)) ∧
          t.result = done.foldl carryOut s)
      (Progressed env Q works s) [tracks] (removeOrphansOf env plan tracks) := by
  rintro left t ⟨ht, hworld, done, hworks, hdone⟩
  apply Ends.bind (h.orphansAmong_eq (Q := Q) keeps.wait tracks hworld)
  rintro found u ⟨hresult, hworld', rfl | ⟨rfl, hAborted⟩⟩
  · have hcatalog : u.catalog = t.catalog := congrArg Prod.fst hresult
    obtain ⟨removed, s', hrun, hs', -⟩ :=
      succeeds_iff.mp (removeTracks_succeeds (orphansIn tree plan tracks) (hcatalog ▸ ht))
    have carried := carryOut_eq_of_ok (s := u.result) (tracksWork_eq_ok hrun)
    dsimp only
    rw [Ends.bind_iff, transact_ends_iff, Ends, hrun]
    refine ⟨hs', keeps.report _ hworld', done ++ [tracksWork (orphansIn tree plan tracks)], ?_, ?_⟩
    · rw [hworks, List.singleton_append, List.map_cons, List.append_cons]
    · rw [List.foldl_append, ← hdone, ← hresult]
      exact carried.symm
  · have hcatalog : u.catalog = t.catalog := congrArg Prod.fst hresult
    exact ⟨hcatalog ▸ ht, hworld', done, _, hworks, hresult.trans hdone, .inr hAborted⟩

theorem removeOrphanTracks_progresses (hr : r.catalog.Coherent) (hworld : Q r.outside) :
    Succeeds (removeOrphanTracks env plan) r fun _ =>
      Progressed env Q (trackWorks tree plan r.catalog) r.result := by
  rw [removeOrphanTracks, Succeeds, Ends.bind_iff, Ends.get_iff, Ends.bind_iff, expect,
    Ends.modify_iff]
  refine Ends.bind (Spends.flatMap (f := fun piece => [piece]) (fun piece _ =>
    h.removeOrphansOf_spends keeps (trackWorks tree plan r.catalog) r.result piece) [] _
      ⟨hr, hworld, [], ?_, rfl⟩) ?_
  · rw [List.append_nil, List.flatMap_singleton', List.nil_append]
    rfl
  · intro goesOn t ht
    cases goesOn with
    | false => exact ht
    | true =>
        obtain ⟨ht, hworld, done, hworks, hdone⟩ := ht
        exact ⟨ht, hworld, done, [], hworks, hdone, .inl rfl⟩

omit h in
theorem removeOrphanTracks_idle (stays : env.AbortStays) (hworld : Q r.outside)
    (hAborted : env.isAborted r.outside = true) :
    Succeeds (removeOrphanTracks env plan) r fun _ t =>
      t.result = r.result ∧ Q t.outside ∧ env.isAborted t.outside = true := by
  rw [removeOrphanTracks, Succeeds, Ends.bind_iff, Ends.get_iff, Ends.bind_iff, expect,
    Ends.modify_iff]
  cases r.catalog.trackPaths with
  | nil =>
      rw [chunks]
      exact ⟨rfl, hworld, hAborted⟩
  | cons track tracks =>
      rw [chunks, List.allM, Ends.bind_iff, Ends.bind_iff, removeOrphansOf, Ends.bind_iff,
        orphansAmong?, Ends.bind_iff, Action.isAborted, observe_ends_iff, stays.wait hAborted]
      exact ⟨rfl, keeps.wait hworld, stays.wait hAborted⟩

end Surroundings.Steady

namespace Orphanage

variable {env : Surroundings σ κ} {Q : σ → Prop} (keeps : env.Preserves Q) {r : Run σ}
include keeps

omit keeps in
theorem Sound.batch_carries {kind : Orphanage} {spared : List Orphanage} (sound : kind.Sound spared)
    {n : Nat} {goesOn : Bool} {t : Run σ} (hr : r.catalog.Coherent)
    (batch : Batch env kind spared Q r n goesOn t) : t.catalog.Coherent ∧
      ∃ done, entityWorks kind r.catalog = done ++ entityWorks kind t.catalog ∧
        t.result = done.foldl carryOut r.result := by
  obtain ⟨others, -, ⟨taken, rest, hall, hrun, gone⟩, -⟩ := batch
  have carried := sound.removeAll_succeeds hr hall r.stats.tally
  rw [Succeeds, Ends, hrun] at carried
  refine ⟨gone.coherent, taken.map (entityWork kind), ?_, ?_⟩
  · rw [entityWorks, entityWorks, hall, gone.left, List.map_append]
  · have hresult : t.result = (t.catalog, r.stats.tally) := by rw [Run.result, others]
    rw [hresult]
    exact carried.1.symm

theorem Sound.batches_progress {kind : Orphanage} {spared : List Orphanage}
    (sound : kind.Sound spared) {n : Nat} {t : Run σ} (hr : r.catalog.Coherent)
    (hworld : Q r.outside) (h : Batches env kind r n t) :
    Progressed env Q (entityWorks kind r.catalog) r.result t := by
  induction h with
  | last hrun =>
      have batch := sound.batch_of_ok (Q := Q) (fun _ => keeps.wait) hr hworld hrun
      obtain ⟨ht, done, works, carried⟩ := sound.batch_carries hr batch
      refine ⟨ht, batch.world, done, _, works, carried, batch.ends.imp (fun none => ?_) id⟩
      rw [entityWorks, none, List.map_nil]
  | more hrun _ ih =>
      have batch := sound.batch_of_ok (Q := Q) (fun _ => keeps.wait) hr hworld hrun
      obtain ⟨ht, done, works, carried⟩ := sound.batch_carries hr batch
      rw [works]
      exact .trans carried (ih ht batch.world)

theorem Sound.removeOrphans_carries {kind : Orphanage} {spared : List Orphanage}
    (sound : kind.Sound spared) (stays : env.AbortStays) :
    Carries env Q [entityWorks kind] (removeOrphans env kind) := by
  refine Carries.of_planner (fun {r} hr hworld => ?_) fun {r} hworld hAborted => ?_
  · refine (sound.removeOrphans_batches hr).imp (fun _ _ batches => ?_) fun _ _ => id
    exact sound.batches_progress keeps hr hworld batches
  · rw [removeOrphans, Succeeds, Ends.bind_iff, Ends.get_iff, removeBatches, Ends.bind_iff,
      Action.isAborted, observe_ends_iff, stays.wait hAborted]
    exact ⟨rfl, keeps.wait hworld, stays.wait hAborted⟩

theorem removeOrphanEntities_carries (stays : env.AbortStays) :
    Carries env Q [entityWorks .clusters, entityWorks .artists, entityWorks .releases]
      (removeOrphanEntities env) := by
  refine Carries.bind (clusters_sound.removeOrphans_carries keeps stays) fun _ => ?_
  refine Carries.bind (artists_sound.removeOrphans_carries keeps stays) fun _ => ?_
  refine Carries.bind (releases_sound.removeOrphans_carries keeps stays) fun _ => ?_
  exact Carries.bind (Carries.expected _) fun _ => Carries.advanced _

end Orphanage

def orphanPlanners (tree : FileTree κ) (plan : Plan) : Step → List Planner
  | .countFiles | .scanFiles => []
  | .removeOrphanTracks => [trackWorks tree plan]
  | .removeOrphanEntities => [entityWorks .clusters, entityWorks .artists, entityWorks .releases]

namespace Surroundings.Steady

variable {env : Surroundings σ κ} {tree : FileTree κ}
  {parser : Path → Except Tag.ParseError Tag.Metadata} (h : env.Steady tree parser) {Q : σ → Prop}
  (keeps : env.Preserves Q) (stays : env.AbortStays)
include h keeps stays

theorem steps_progress (plan : Plan) {s : State} (hs : s.Coherent) {w : σ} (hw : Q w) :
    Succeeds (Step.all.allM (takeStep env (perform env plan))) (Run.start w s) fun _ t =>
      ∃ times : Entry → Int, (∀ entry, ∃ w, times entry = env.now w) ∧
        Progressed env Q (agenda tree parser plan times s) (s, {}) t := by
  have given {t : Run σ} (hresult : t.result = (s, {})) (hworld : Q t.outside)
      (hAborted : env.isAborted t.outside = true) : ∃ times : Entry → Int,
        (∀ entry, ∃ w, times entry = env.now w) ∧
          Progressed env Q (agenda tree parser plan times s) (s, {}) t := by
    have hcatalog : t.catalog = s := congrArg Prod.fst hresult
    exact ⟨fun _ => env.now w, fun _ => ⟨w, rfl⟩, hcatalog ▸ hs, hworld, [], _, rfl, hresult,
      .inr hAborted⟩
  refine allM_takeStep_ends (fun hAborted => given rfl (keeps.wait hw) hAborted) fun _ => ?_
  refine (countFiles_counts (Q := Q) keeps.wait h.tree (keeps.wait hw)).imp ?_ fun _ _ => id
  rintro _ t ⟨hworld, rfl, hpending, files, hstats, -⟩
  have hresult : t.result = (t.catalog, {}) := by
    rw [Run.result, hstats]
    rfl
  refine allM_takeStep_ends (fun hAborted => given hresult (keeps.wait hworld) hAborted) fun _ => ?_
  let begun : Run σ := { t with
    outside := env.wait t.outside
    progress := { step := .scanFiles } }
  refine (h.scanFiles_progresses keeps (r := begun) hs hpending (keeps.wait hworld)).imp ?_
    fun _ _ => id
  rintro _ u ⟨times, clock, hu⟩
  rw [show begun.result = (t.catalog, {}) from hresult] at hu
  have later : ∀ step ∈ [Step.removeOrphanTracks, .removeOrphanEntities],
      Carries env Q (orphanPlanners tree plan step) (perform env plan step) := by
    refine List.forall_mem_cons.mpr ⟨?_, List.forall_mem_singleton.mpr ?_⟩
    · exact Carries.of_planner (h.removeOrphanTracks_progresses keeps)
        (removeOrphanTracks_idle keeps stays)
    · exact Orphanage.removeOrphanEntities_carries keeps stays
  refine (Carries.allM_takeStep stays keeps later hu).imp ?_ fun _ _ => id
  exact fun _ v hv => ⟨times, clock, hv⟩

theorem process_progresses (plan : Plan) {s : State} (hs : s.Coherent) {w : σ} (hw : Q w) :
    Succeeds (process env plan) (Run.start w s) fun _ r => r.catalog.Coherent ∧
      (∃ v, Q v ∧ r.isAborted = env.isAborted (env.wait v) ∧
        r.outside = env.clearAbort (env.wait v)) ∧
        ∃ times : Entry → Int, (∀ entry, ∃ w, times entry = env.now w) ∧ ∃ done left,
          agenda tree parser plan times s = done ++ left ∧
            r.result = done.foldl carryOut (s, {}) ∧ (r.isAborted = false → left = []) := by
  apply Ends.bind (h.steps_progress keeps stays plan hs hw)
  rintro _ t ⟨times, clock, ht, hworld, done, left, hagenda, hdone, hleft⟩
  rw [Ends.bind_iff, Action.isAborted, observe_ends_iff, Ends.modify_iff]
  refine ⟨ht, ⟨_, hworld, rfl, rfl⟩, times, clock, done, left, hagenda, hdone, ?_⟩
  intro finished
  refine hleft.resolve_right fun hAborted => ?_
  exact Bool.false_ne_true (finished.symm.trans (stays.wait hAborted))

end Surroundings.Steady

/-- The world keeps in mind whether any look at it found a request to abort. -/
structure Surroundings.Notes (env : Surroundings σ κ) (seen : σ → Prop) : Prop where
  wait : ∀ w, seen (env.wait w) ↔ seen w ∨ env.isAborted (env.wait w) = true
  report : ∀ progress w, seen (env.report progress w) ↔ seen w
  clearAbort : ∀ w, seen (env.clearAbort w) ↔ seen w

/-- A scan that nobody disturbs does its works in order, those of the files, those of the tracks and
those of the other entities. Whenever a request to abort is seen, a beginning of them was done, and
nothing else: what the catalog holds and what is counted are the results of these works. That it was
seen is noted, and the request is dropped. -/
theorem Surroundings.Steady.process_keeps_beginning {env : Surroundings σ κ} {tree : FileTree κ}
    {parser : Path → Except Tag.ParseError Tag.Metadata} (h : env.Steady tree parser)
    (stays : env.AbortStays) (clears : ∀ w, env.isAborted (env.clearAbort w) = false) (plan : Plan)
    {s : State} (hs : Reachable s) (w : σ) :
    ∃ r, process env plan (Run.start w s) = .ok () r ∧
      (∃ times : Entry → Int, (∀ entry, ∃ v, times entry = env.now v) ∧ ∃ done left,
        agenda tree parser plan times s = done ++ left ∧
          r.result = done.foldl carryOut (s, {}) ∧ (r.isAborted = false → left = [])) ∧
      env.isAborted r.outside = false ∧
      ∀ seen, env.Notes seen → ¬ seen w → (r.isAborted = true ↔ seen r.outside) := by
  -- What was seen is still there at the end of the scan.
  let Q (v : σ) : Prop := ∀ seen, env.Notes seen → ¬ seen w → seen v → env.isAborted v = true
  have keeps : env.Preserves Q := {
    wait := fun hv seen notes hseen hwait => ((notes.wait _).mp hwait).elim
      (fun earlier => stays.wait (hv seen notes hseen earlier)) id
    report := fun progress hv seen notes hseen hreport =>
      stays.report progress (hv seen notes hseen ((notes.report progress _).mp hreport)) }
  obtain ⟨_, r, hrun, -, ⟨v, hv, hAborted, houtside⟩, kept⟩ := succeeds_iff.mp
    (h.process_progresses keeps stays plan hs.coherent (w := w) fun _ _ hseen hw => absurd hw hseen)
  refine ⟨r, hrun, kept, houtside ▸ clears _, fun seen notes hseen => ?_⟩
  rw [hAborted, houtside, notes.clearAbort, notes.wait]
  exact ⟨.inr, Or.rec (fun earlier => stays.wait (hv seen notes hseen earlier)) id⟩

def Surroundings.noting (env : Surroundings σ κ) : Surroundings (σ × Bool) κ where
  wait := fun (w, seen) => (env.wait w, seen || env.isAborted (env.wait w))
  tree := fun w => env.tree w.1
  parse := fun w => env.parse w.1
  isAborted := fun w => env.isAborted w.1
  clearAbort := fun (w, seen) => (env.clearAbort w, seen)
  report := fun progress (w, seen) => (env.report progress w, seen)
  now := fun w => env.now w.1
  turns := fun w => env.turns w.1

theorem Surroundings.Steady.noting {env : Surroundings σ κ} {tree : FileTree κ}
    {parser : Path → Except Tag.ParseError Tag.Metadata} (h : env.Steady tree parser) :
    env.noting.Steady tree parser := ⟨fun w => h.tree w.1, fun w => h.parse w.1⟩

theorem Surroundings.AbortStays.noting {env : Surroundings σ κ} (h : env.AbortStays) :
    env.noting.AbortStays := ⟨h.wait, h.report⟩

theorem Surroundings.noting_notes (env : Surroundings σ κ) : env.noting.Notes fun w => w.2 = true where
  wait := fun _ => Bool.or_eq_true_iff
  report := fun _ _ => Iff.rfl
  clearAbort := fun _ => Iff.rfl

/-- Of two songs that were read together the first is kept, since its report stops the scan. -/
theorem process_keeps_oneSong :
    ∃ r, process (listening (album [("a.mp3", 1), ("b.mp3", 1)]) soundOnly 1).noting
        (albumPlan false) (Run.start (0, false) {}) = .ok () r ∧
      r.isAborted = true ∧ r.outside.2 = true ∧ r.stats.additions = 1 ∧
      ∃ times done left, agenda (album [("a.mp3", 1), ("b.mp3", 1)]) soundOnly (albumPlan false)
          times {} = done ++ left ∧
        r.result = done.foldl carryOut ({}, {}) ∧
        ((done ++ left).foldl carryOut ({}, {})).2.additions = 2 := by
  let env := (listening (album [("a.mp3", 1), ("b.mp3", 1)]) soundOnly 1).noting
  have stops := listening_stopsAt (album [("a.mp3", 1), ("b.mp3", 1)]) soundOnly 1
  obtain ⟨r, hrun, ⟨times, clock, done, left, hagenda, hresult, -⟩, -, noted⟩ :=
    stops.noting.process_keeps_beginning stops.abortStays.noting (fun _ => rfl) (albumPlan false)
      .empty (0, false)
  have ends : Succeeds (process env (albumPlan false)) (Run.start (0, false) {}) fun _ r =>
      r.isAborted = true ∧ r.stats.additions = 1 := by decide +kernel
  rw [Succeeds, Ends, hrun] at ends
  have seen := (noted _ (Surroundings.noting_notes _) (by decide)).mp ends.1
  refine ⟨r, hrun, ends.1, seen, ends.2, times, done, left, hagenda, hresult, ?_⟩
  obtain rfl : times = fun _ => 0 := funext fun entry => (clock entry).choose_spec
  rw [← hagenda]
  decide +kernel

end AudioCatalog.Scan
