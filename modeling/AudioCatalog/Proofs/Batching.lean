import AudioCatalog.Proofs.Account
import AudioCatalog.Proofs.Passes
import AudioCatalog.Proofs.Stillness

namespace AudioCatalog.Scan

open Catalog Scan.Action

variable {σ κ : Type}

def processEntry (env : Surroundings σ κ) (plan : Plan) (entry : Entry) : Action σ Bool := do
  finishFile env plan entry (← readFile env plan entry)

def processVisit (env : Surroundings σ κ) (plan : Plan) (visit : Visit) : Action σ Bool := do
  if ← isAborted env then return false
  match visit with
  | .failure path cause =>
    fail path .cannotRead (some (Visit.failureMessage path cause))
    return true
  | .file path =>
    if FileExtension.isAccepted plan.audioExtensions path then
      match path.key? with
      | some key => processEntry env plan ⟨path, key⟩
      | none =>
        count fun s => { s with skipsOnError := s.skipsOnError + 1 }
        advance 1
        fail path .cannotRead (some "path is not valid UTF-8")
        return true
    else return true

def scanOneByOne (env : Surroundings σ κ) (plan : Plan) : Action σ Unit := do
  expect (← get).stats.filesToScan
  let _ ← Walk.run ⟨look env, plan.excludeMarker, processVisit env plan⟩ plan.root

def processOneByOne (env : Surroundings σ κ) (plan : Plan) : Action σ Unit :=
  takeSteps env fun step =>
    match step with
    | .scanFiles => scanOneByOne env plan
    | step => perform env plan step

section

variable {τ : Type} {env : Surroundings σ κ} {env' : Surroundings τ κ} {World : σ → τ → Prop}
  {T : {α : Type} → Action σ α → Action τ α → Prop}

theorem Lockstep.processOneByOne (h : Lockstep env env' World T) (plan : Plan) :
    T (processOneByOne env plan) (processOneByOne env' plan) := by
  apply h.takeSteps
  intro step
  cases step with
  | countFiles => exact h.countFiles plan
  | removeOrphanTracks => exact h.removeOrphanTracks plan h.ofReport
  | removeOrphanEntities => exact h.removeOrphanEntities
  | scanFiles =>
      apply h.ofGet
      intro r r' hr _
      rw [hr.stats]
      refine h.ofBind (h.expect _) fun _ => h.ofBind (h.walk (fun visit => ?_) plan.root) fun _ =>
        h.ofPure _
      apply h.ofBind h.ofIsAborted
      intro isAborted
      cases isAborted with
      | true => exact h.ofPure false
      | false =>
          cases visit with
          | failure path cause => exact h.ofBind (h.fail _ _ _) fun _ => h.ofPure true
          | file path =>
              by_cases accepted : FileExtension.isAccepted plan.audioExtensions path
              · simp only [accepted, if_true]
                cases path.key? with
                | some key =>
                    exact h.ofBind (h.readFile plan _) fun reading =>
                      h.finishFile plan h.ofReport _ reading
                | none =>
                    exact h.ofBind (h.count _) fun _ => h.ofBind (h.advance 1) fun _ =>
                      h.ofBind (h.fail _ _ _) fun _ => h.ofPure true
              · simp only [accepted]
                exact h.ofPure true

end

def scanVisits (env : Surroundings σ κ) (plan : Plan) (visits : List Visit) : Action σ Unit := do
  if ← visits.allM (scanVisit env plan) then
    let _ ← flush env plan

/-- The first run is behind the second by the files that are waiting. -/
structure Behind (env : Surroundings σ κ) (plan : Plan) (r u : Run σ) : Prop where
  coherent : r.catalog.Coherent
  caughtUp : r.pending.allM (processEntry env plan) { r with pending := [] } = .ok true u
  distinct : (r.pending.map Entry.key).Nodup

namespace Surroundings.Still

variable {env : Surroundings (List Progress) κ} {tree : FileTree κ}
  {parser : Path → Except Tag.ParseError Tag.Metadata} {now : Int} {r : Run (List Progress)}
  (h : env.Still tree parser now id) (plan : Plan)
include h

omit plan in
theorem observe_eq {α : Type} {f : List Progress → α} {a : α} (hf : ∀ w, f w = a) :
    (Scan.Action.observe env f : Action (List Progress) α) = pure a := by
  funext r
  obtain ⟨_, t, hrun, rfl, ht⟩ := succeeds_iff.mp (observe_succeeds hf)
  rw [hrun, show t = r from h.around_eq ht]
  rfl

theorem readFile_eq (entry : Entry) :
    readFile env plan entry r = .ok (readingOf tree parser plan r.catalog entry) r := by
  have read : Succeeds (finishReading env plan entry .waiting) r fun reading t =>
      reading = readingOf tree parser plan r.catalog entry ∧ Waits env r t :=
    h.toSteady.finishReading_succeeds trivial
  obtain ⟨_, t, hrun, rfl, ht⟩ := succeeds_iff.mp read
  rw [show t = r from h.around_eq ht] at hrun
  exact hrun

theorem readAll_eq (entries : List Entry) :
    Scan.readAll env plan entries r = .ok
      (entries.map fun entry => (entry, readingOf tree parser plan r.catalog entry)) r := by
  obtain ⟨_, t, hrun, rfl, ht⟩ := succeeds_iff.mp (h.toSteady.readAll_succeeds entries)
  rw [hrun, show t = r from h.around_eq ht]

theorem finishFile_eq (hr : r.catalog.Coherent) (entry : Entry) {reading : Reading}
    (known : reading.IsKnown) :
    ∃ t, (finishFile env plan entry reading) r = .ok true t ∧ t.pending = r.pending ∧
      r.catalog.TouchesOnly entry.key t.catalog := by
  obtain ⟨goesOn, t, hrun, hpending, hgoesOn⟩ :=
    succeeds_iff.mp (finishFile_succeeds hr entry known)
  cases goesOn with
  | true =>
      obtain ⟨_, taken⟩ := hgoesOn
      exact ⟨t, hrun, hpending, taken.touchesOnly hr⟩
  | false =>
      have := hgoesOn.2
      rw [h.isAborted] at this
      cases this

theorem processEntry_eq (entry : Entry) :
    processEntry env plan entry r =
      (finishFile env plan entry (readingOf tree parser plan r.catalog entry)) r :=
  bind_eq_of_ok (h.readFile_eq plan entry)

theorem processEntry_ok (hr : r.catalog.Coherent) (entry : Entry) :
    ∃ t, processEntry env plan entry r = .ok true t ∧ t.pending = r.pending ∧
      r.catalog.TouchesOnly entry.key t.catalog := by
  rw [h.processEntry_eq]
  exact h.finishFile_eq plan hr entry (readingOf_known hr entry)

theorem processAll_ok (entries : List Entry) (hr : r.catalog.Coherent) :
    ∃ t, entries.allM (processEntry env plan) r = .ok true t ∧ t.pending = r.pending ∧
      t.catalog.Coherent := by
  induction entries generalizing r with
  | nil => exact ⟨r, rfl, rfl, hr⟩
  | cons entry entries ih =>
      obtain ⟨t, ht, hpending, only⟩ := h.processEntry_ok plan hr entry
      obtain ⟨u, hu, hpending', hcoherent⟩ := ih only.coherent
      exact ⟨u, (allM_cons_eq_of_ok ht).trans hu, hpending'.trans hpending, hcoherent⟩

/-- What was learned before is what would be learned when the file's turn comes, since the files
before it bear on other paths. -/
theorem finishAll_eq {s : State} {entries : List Entry} (hr : r.catalog.Coherent)
    (distinct : (entries.map Entry.key).Nodup)
    (same : ∀ entry ∈ entries,
      readingOf tree parser plan s entry = readingOf tree parser plan r.catalog entry) :
    (entries.map fun entry => (entry, readingOf tree parser plan s entry)).allM
        (fun file => finishFile env plan file.1 file.2) r =
      entries.allM (processEntry env plan) r := by
  induction entries generalizing r with
  | nil => rfl
  | cons entry entries ih =>
      rw [List.map_cons, List.nodup_cons] at distinct
      obtain ⟨t, ht, -, only⟩ := h.processEntry_ok plan hr entry
      have rest : ∀ other ∈ entries,
          readingOf tree parser plan s other = readingOf tree parser plan t.catalog other := by
        intro other hother
        have hkey : other.key ≠ entry.key := fun e =>
          distinct.1 (e ▸ List.mem_map_of_mem hother)
        rw [same other (by simp [hother]), readingOf_eq hr only hkey]
      have first :
          (finishFile env plan entry (readingOf tree parser plan s entry)) r = .ok true t := by
        rw [same entry (by simp), ← h.processEntry_eq, ht]
      calc
        _ = (entries.map fun entry => (entry, readingOf tree parser plan s entry)).allM
              (fun file => finishFile env plan file.1 file.2) t := allM_cons_eq_of_ok first
        _ = entries.allM (processEntry env plan) t := ih only.coherent distinct.2 rest
        _ = _ := (allM_cons_eq_of_ok ht).symm

theorem flush_eq (hr : r.catalog.Coherent) (distinct : (r.pending.map Entry.key).Nodup) :
    (flush env plan) r = r.pending.allM (processEntry env plan) { r with pending := [] } := by
  have read := h.readAll_eq plan (r := { r with pending := [] }) r.pending
  have finish := h.finishAll_eq plan (r := { r with pending := [] }) (s := r.catalog) hr distinct
    fun _ _ => rfl
  rw [← finish]
  exact bind_eq_of_ok read

variable {plan} {u : Run (List Progress)}

theorem caughtUp (hbehind : Behind env plan r u) :
    (flush env plan) r = .ok true u ∧ u.pending = [] ∧ u.catalog.Coherent := by
  refine ⟨(h.flush_eq plan hbehind.coherent hbehind.distinct).trans hbehind.caughtUp, ?_⟩
  obtain ⟨t, ht, hpending, hcoherent⟩ := h.processAll_ok plan
    (r := { r with pending := [] }) r.pending hbehind.coherent
  have hsame := ht.symm.trans hbehind.caughtUp
  cases hsame
  exact ⟨hpending, hcoherent⟩

omit h in
theorem behind_self (hu : u.catalog.Coherent) (hpending : u.pending = []) : Behind env plan u u := by
  obtain ⟨outside, catalog, progress, stats, pending, isAborted⟩ := u
  obtain rfl : pending = [] := hpending
  exact ⟨hu, rfl, .nil⟩

theorem scanVisit_step (hbehind : Behind env plan r u) {visit : Visit}
    (distinct : ((r.pending ++ (entryOf? plan visit).toList).map Entry.key).Nodup) :
    ∃ r' u', (scanVisit env plan visit) r = .ok true r' ∧
      processVisit env plan visit u = .ok true u' ∧ Behind env plan r' u' ∧
        (r'.pending = r.pending ++ (entryOf? plan visit).toList ∨ r'.pending = []) := by
  obtain ⟨hflush, hpending, hcoherent⟩ := h.caughtUp hbehind
  have unaborted : (Scan.Action.isAborted env : Action _ Bool) = pure false := h.observe_eq h.isAborted
  simp only [scanVisit, processVisit, unaborted, pure_bind, Bool.false_eq_true, if_false]
  cases visit with
  | failure path cause =>
      refine ⟨_, _, bind_eq_of_ok hflush, rfl, behind_self ?_ ?_, .inr ?_⟩
      · exact hcoherent
      · exact hpending
      · exact hpending
  | file path =>
      by_cases accepted : FileExtension.isAccepted plan.audioExtensions path
      · cases hkey : path.key? with
        | none =>
            simp only [accepted, if_true, hkey]
            refine ⟨_, _, bind_eq_of_ok hflush, rfl, behind_self ?_ ?_, .inr ?_⟩
            · exact hcoherent
            · exact hpending
            · exact hpending
        | some key =>
            have hentry : entryOf? plan (.file path) = some ⟨path, key⟩ := by
              simp [entryOf?, accepted, hkey]
            rw [hentry] at distinct ⊢
            obtain ⟨u', hu', -, only⟩ := h.processEntry_ok plan hcoherent ⟨path, key⟩
            have waiting : Behind env plan { r with pending := r.pending ++ [⟨path, key⟩] } u' := by
              refine ⟨hbehind.coherent, ?_, distinct⟩
              rw [Walk.allM_append, Walk.allM_singleton]
              exact (bind_eq_of_ok hbehind.caughtUp).trans hu'
            obtain ⟨hflush', hpending', hcoherent'⟩ := h.caughtUp waiting
            simp only [accepted, if_true, hkey, enqueue]
            by_cases room : (r.pending ++ [(⟨path, key⟩ : Entry)]).length < plan.batchSize
            · refine ⟨_, u', ?_, hu', waiting, .inl rfl⟩
              exact congrFun (if_pos room) _
            · refine ⟨u', u', ?_, hu', behind_self hcoherent' hpending', .inr hpending'⟩
              exact (congrFun (if_neg room) _).trans hflush'
      · simp only [accepted]
        refine ⟨r, u, rfl, rfl, hbehind, .inl ?_⟩
        simp [entryOf?, accepted]

variable (plan)

theorem scanVisits_eq (visits : List Visit) (hbehind : Behind env plan r u)
    (distinct : ((r.pending ++ visits.filterMap (entryOf? plan)).map Entry.key).Nodup) :
    ∃ t, scanVisits env plan visits r = .ok () t ∧
      visits.allM (processVisit env plan) u = .ok true t ∧ t.catalog.Coherent ∧ t.pending = [] := by
  induction visits generalizing r u with
  | nil =>
      obtain ⟨hflush, hpending, hcoherent⟩ := h.caughtUp hbehind
      exact ⟨u, bind_eq_of_ok hflush, rfl, hcoherent, hpending⟩
  | cons visit visits ih =>
      have split : (visit :: visits).filterMap (entryOf? plan) =
          (entryOf? plan visit).toList ++ visits.filterMap (entryOf? plan) := by
        cases hentry : entryOf? plan visit <;> simp [hentry]
      rw [split, ← List.append_assoc, List.map_append] at distinct
      obtain ⟨r', u', hr', hu', hbehind', hpending⟩ :=
        h.scanVisit_step hbehind (List.Nodup.of_append_left distinct)
      have rest : ((r'.pending ++ visits.filterMap (entryOf? plan)).map Entry.key).Nodup := by
        rcases hpending with hpending | hpending
        · rwa [hpending, List.map_append]
        · rw [hpending]
          exact List.Nodup.of_append_right distinct
      obtain ⟨t, ht, ht', settled⟩ := ih hbehind' rest
      refine ⟨t, ?_, (allM_cons_eq_of_ok hu').trans ht', settled⟩
      exact (bind_eq_of_eq (allM_cons_eq_of_ok (p := (scanVisit env plan ·)) hr')).trans ht

theorem scanFiles_eq (hr : r.catalog.Coherent) (hpending : r.pending = []) :
    ∃ t, (scanFiles env plan) r = .ok () t ∧ scanOneByOne env plan r = .ok () t ∧
      t.catalog.Coherent ∧ t.pending = [] := by
  have looks : look env = pure tree := h.observe_eq h.tree
  obtain ⟨t, ht, ht', settled⟩ := h.scanVisits_eq plan
    (r := { r with progress := { r.progress with total := r.stats.filesToScan } })
    (Walk.visits tree plan.excludeMarker plan.root) (behind_self hr hpending) (by
      rw [hpending]
      exact entriesOf_nodup tree plan)
  refine ⟨t, ?_, ?_, settled⟩
  · rw [Scan.scanFiles, looks, Walk.run_pure]
    exact ht
  · rw [scanOneByOne, looks, Walk.run_pure]
    exact bind_eq_of_ok ht'

theorem process_eq (hr : r.catalog.Coherent) (hpending : r.pending = []) :
    ∃ t, Scan.process env plan r = .ok () t ∧ processOneByOne env plan r = .ok () t := by
  have lasts : Lasts env fun _ s es => s.Coherent ∧ es = [] := {
    coherent := fun hs => hs.1
    wait := id
    report := fun _ => id
    sameFiles := fun hs ht _ => ⟨ht, hs.2⟩ }
  have maintained (step : Step) :
      Maintains (Holds fun _ s es => s.Coherent ∧ es = []) (perform env plan step) := by
    cases step with
    | countFiles => exact lasts.countFiles plan
    | scanFiles =>
        intro r hr
        obtain ⟨t, ht, -, settled⟩ := h.scanFiles_eq plan hr.1 hr.2
        exact succeeds_iff.mpr ⟨(), t, ht, settled⟩
    | removeOrphanTracks =>
        exact lasts.removeOrphanTracks plan fun hs hrow _ => ⟨hs.1.withoutTrack hrow, hs.2⟩
    | removeOrphanEntities => exact lasts.removeOrphanEntities
  obtain ⟨_, t, ht, -⟩ := succeeds_iff.mp (lasts.takeSteps maintained id r ⟨hr, hpending⟩)
  refine ⟨t, ht, ?_⟩
  rw [← ht]
  refine (lasts.takeSteps_eq maintained (fun step r hr => ?_) ⟨hr, hpending⟩).symm
  cases step with
  | countFiles | removeOrphanTracks | removeOrphanEntities => rfl
  | scanFiles =>
      obtain ⟨t, ht, ht', -⟩ := h.scanFiles_eq plan hr.1 hr.2
      exact ht.trans ht'.symm

end Surroundings.Still

theorem process_eq_processOneByOne {env : Surroundings σ κ} {tree : FileTree κ}
    {parser : Path → Except Tag.ParseError Tag.Metadata} {now : Int} {reports : σ → List Progress}
    (h : env.Still tree parser now reports) {s : State} (hs : Reachable s) (plan : Plan) (w : σ) :
    ∃ r r', process env plan (Run.start w s) = .ok () r ∧
      processOneByOne env plan (Run.start w s) = .ok () r' ∧ r.Alike r' ∧
        reports r.outside = reports r'.outside := by
  have still : (quiet tree parser now).Still tree parser now id := Surroundings.Still.quiet
  obtain ⟨t, ht, ht'⟩ := still.process_eq plan
    (r := (Run.start w s).around reports) hs.coherent rfl
  have batched := h.process plan (Run.start w s)
  have single := h.lockstep.processOneByOne plan (Run.start w s)
  rw [ht] at batched
  rw [ht'] at single
  cases hr : process env plan (Run.start w s) with
  | error e r =>
      rw [hr] at batched
      cases batched
  | ok _ r =>
      cases hr' : processOneByOne env plan (Run.start w s) with
      | error e r' =>
          rw [hr'] at single
          cases single
      | ok _ r' =>
          rw [hr] at batched
          rw [hr'] at single
          cases batched
          obtain ⟨alike, houtside⟩ := Run.alike_of_around_eq (EStateM.Result.ok.inj single).2
          exact ⟨r, r', rfl, rfl, alike, houtside⟩

section

variable {env : Surroundings σ κ} {plan : Plan}

theorem takeStep_adaptExcept {ε : Type} (fault : Catalog.Error → ε)
    (perform : Step → Action σ Unit) (step : Step) :
    takeStep env (fun step => (perform step).adaptExcept fault) step =
      (takeStep env perform step).adaptExcept fault := by
  unfold takeStep
  rw [adaptExcept_bind]
  congr 1
  funext isAborted
  cases isAborted with
  | true => rfl
  | false =>
      simp only [Bool.false_eq_true, if_false, adaptExcept_bind]
      rfl

theorem takeSteps_adaptExcept {ε : Type} (fault : Catalog.Error → ε)
    (perform : Step → Action σ Unit) :
    takeSteps env (fun step => (perform step).adaptExcept fault) =
      (takeSteps env perform).adaptExcept fault := by
  unfold takeSteps
  rw [adaptExcept_bind, adaptExcept_allM, funext (takeStep_adaptExcept fault perform)]
  rfl

/-- Where there is room for a batch, nothing is seen of it. -/
theorem scan_eq_process (room : plan.batchSize ≤ maxBatchSize) :
    scan env plan = (process env plan).adaptExcept .catalog := by
  have performs (step : Step) :
      performInRoom env plan step = (perform env plan step).adaptExcept .catalog := by
    funext r
    unfold performInRoom reserve
    rw [if_pos room]
    cases step <;> rfl
  rw [scan, funext performs]
  exact takeSteps_adaptExcept Fault.catalog _

/-- Where there is none, a scan that nobody aborts comes to its end before the first file. -/
theorem scan_overflows (never : ∀ w, env.isAborted w = false)
    (full : maxBatchSize < plan.batchSize) (r : Run σ) :
    ∃ t, scan env plan r = .error .capacityOverflow t ∧ t.catalog = r.catalog := by
  have still : Timeless env fun t => t.catalog = r.catalog := ⟨fun ht => ht⟩
  have counts : Maintains (fun t => t.catalog = r.catalog) (countFiles env plan) :=
    still.countFiles (fun _ _ ht => ht) fun _ ht => ht
  have unaborted (w : σ) : ¬ env.isAborted w = true := by
    rw [never]
    exact Bool.false_ne_true
  have ends : Ends (scan env plan) r (fun _ _ => False)
      fun fault t => fault = .capacityOverflow ∧ t.catalog = r.catalog := by
    unfold scan takeSteps
    rw [Ends.bind_iff]
    refine allM_takeStep_ends (fun hAborted => ?_) fun _ => ?_
    · exact absurd hAborted (unaborted _)
    · have counted := counts
        { r with outside := env.wait r.outside, progress := { step := .countFiles } } rfl
      refine Ends.adaptExcept_iff.mpr (counted.imp (fun _ t ht => ?_) fun _ _ => False.elim)
      refine allM_takeStep_ends (fun hAborted => ?_) fun _ => ?_
      · exact absurd hAborted (unaborted _)
      · unfold performInRoom reserve
        rw [if_neg (Nat.not_le_of_lt full)]
        exact ⟨rfl, ht⟩
  cases hrun : scan env plan r with
  | ok _ t => rw [Ends, hrun] at ends; exact ends.elim
  | error fault t =>
      rw [Ends, hrun] at ends
      obtain ⟨rfl, hcatalog⟩ := ends
      exact ⟨t, rfl, hcatalog⟩

end

/-- Batching is invisible: from every catalog that can be reached, over files that do not change,
with the clock at rest and nobody aborting, a scan leaves the catalog, the statistics with their
failures, the progress and the reports of a scan that is done with each entry of the walk before
the next. The turns of the workers are any, and so is the size of the batches as long as a list can
have it. -/
theorem scan_eq_processOneByOne_iff {env : Surroundings σ κ} {tree : FileTree κ}
    {parser : Path → Except Tag.ParseError Tag.Metadata} {now : Int} {reports : σ → List Progress}
    (h : env.Still tree parser now reports) {s : State} (hs : Reachable s) (plan : Plan) (w : σ) :
    ∃ r', processOneByOne env plan (Run.start w s) = .ok () r' ∧
      ((∃ r, scan env plan (Run.start w s) = .ok () r ∧ r.Alike r' ∧
        reports r.outside = reports r'.outside) ↔ plan.batchSize ≤ maxBatchSize) := by
  obtain ⟨r, r', hrun, hrun', alike⟩ := process_eq_processOneByOne h hs plan w
  refine ⟨r', hrun', ?_, fun room => ⟨r, ?_, alike⟩⟩
  · rintro ⟨t, ht, -⟩
    by_contra full
    obtain ⟨u, hu, -⟩ := scan_overflows h.isAborted (Nat.lt_of_not_le full) (Run.start w s)
    cases ht.symm.trans hu
  · rw [scan_eq_process room, EStateM.adaptExcept, hrun]

def twoSongs : FileTree Unit :=
  let directory : Location := [Text.Utf8.encode "music"]
  (((FileTree.empty []).put directory (.directory 0)).put
    (directory ++ [Text.Utf8.encode "one.mp3"]) (.file nanosecondsInSecond ())).put
    (directory ++ [Text.Utf8.encode "two.mp3"]) (.file (2 * nanosecondsInSecond) ())

def twoSongsReadBackwards : Surroundings (List Progress) Unit :=
  { quiet twoSongs (fun _ => .ok { audioStreams := 1, durationMs := 1000 }) 0 with
    turns := fun _ => [1, 1, 0] }

theorem twoSongsReadBackwards_still : twoSongsReadBackwards.Still twoSongs
    (fun _ => .ok { audioStreams := 1, durationMs := 1000 }) 0 id where
  tree := fun _ => rfl
  parse := fun _ => rfl
  isAborted := fun _ => rfl
  now := fun _ => rfl
  wait := fun _ => rfl
  report := fun _ _ => rfl
  clearAbort := fun _ => rfl

def twoSongsPlan : Plan :=
  ⟨Path.ofString "/music", false, 1, ["mp3"], ".nomedia", true, 2⟩

theorem scan_twoSongsReadBackwards : ∃ r r',
    scan twoSongsReadBackwards twoSongsPlan (Run.start [] {}) = .ok () r ∧
      processOneByOne twoSongsReadBackwards twoSongsPlan (Run.start [] {}) = .ok () r' ∧
      r.Alike r' ∧ r.outside = r'.outside := by
  obtain ⟨r', hrun', alike⟩ :=
    scan_eq_processOneByOne_iff twoSongsReadBackwards_still .empty twoSongsPlan []
  obtain ⟨r, hrun, same⟩ := alike.mpr (by decide)
  exact ⟨r, r', hrun, hrun', same⟩

/-- The least size for which there is no list passes for a setting like any other. -/
theorem scan_overflows_twoSongs : ∃ scanner r r',
    Scanner.ofConfig { batchSize := 192153584101141163 } {} = .ok scanner ∧
    processOneByOne twoSongsReadBackwards (scanner.plan (Path.ofString "/music") false)
      (Run.start [] {}) = .ok () r' ∧
    scan twoSongsReadBackwards (scanner.plan (Path.ofString "/music") false)
      (Run.start [] {}) = .error .capacityOverflow r := by
  obtain ⟨scanner, hmade, hsize⟩ : ∃ scanner,
      Scanner.ofConfig { batchSize := 192153584101141163 } {} = .ok scanner ∧
        scanner.batchSize = maxBatchSize + 1 := ⟨_, rfl, by decide⟩
  have full : maxBatchSize < (scanner.plan (Path.ofString "/music") false).batchSize :=
    Nat.lt_of_lt_of_eq (Nat.lt_succ_self _) hsize.symm
  obtain ⟨-, r', -, hrun', -⟩ := process_eq_processOneByOne twoSongsReadBackwards_still .empty
    (scanner.plan (Path.ofString "/music") false) []
  obtain ⟨r, hrun, -⟩ := scan_overflows twoSongsReadBackwards_still.isAborted full
    (Run.start [] {})
  exact ⟨scanner, r, r', hmade, hrun', hrun⟩

end AudioCatalog.Scan
