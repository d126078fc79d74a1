import AudioCatalog.Proofs.Passes

namespace AudioCatalog.Scan

open Catalog Scan.Action

variable {σ κ : Type}

inductive Matter where
  | ignored
  | refused (path : Path) (message : String) (isAudioFile : Bool)
  | file (entry : Entry)
deriving DecidableEq

def Matter.isRefused : Matter → Bool
  | .refused .. => true
  | .ignored | .file _ => false

def matterOf (plan : Plan) : Visit → Matter
  | .failure path cause => .refused path (Visit.failureMessage path cause) false
  | .file path =>
    if FileExtension.isAccepted plan.audioExtensions path then
      match path.key? with
      | some key => .file ⟨path, key⟩
      | none => .refused path "path is not valid UTF-8" true
    else .ignored

def waits (plan : Plan) (visits : List Visit) : Nat :=
  visits.foldl (fun n visit =>
    match matterOf plan visit with
    | .ignored => n
    | .refused .. => 0
    | .file _ => if n + 1 < plan.batchSize then n + 1 else 0) 0

/-- All that a scan has done, the world and the files that are waiting apart. -/
structure Account where
  catalog : State
  stats : Stats
  progress : Progress

def Run.account (r : Run σ) : Account := ⟨r.catalog, r.stats, r.progress⟩

def Stats.withFailure (s : Stats) (failure : Failure) : Stats :=
  { s with failures := s.failures ++ [failure] }

def Outcome.countedIn (path : Path) (s : Stats) : Outcome → Stats
  | .added => { s with additions := s.additions + 1 }
  | .updated => { s with updates := s.updates + 1 }
  | .rejected why removesTrack =>
    let s := { s with deletions := s.deletions + removesTrack.toNat }
    match why with
    | .duplicate => s
    | .noAudio => s.withFailure ⟨path, .noAudio, none⟩
    | .badDuration => s.withFailure ⟨path, .badDuration, none⟩

def Reading.isOpened : Reading → Bool
  | .unparsable _ | .parsed .. => true
  | .unreadable _ | .unchanged | .unknown _ => false

namespace Account

def take (plan : Plan) (entry : Entry) (now : Int) (a : Account) : Reading → Account
  | .unreadable cause =>
    let stats := { a.stats with skipsOnError := a.stats.skipsOnError + 1 }
    { a with stats := stats.withFailure ⟨entry.path, .cannotRead, some cause.message⟩ }
  | .unchanged => { a with stats := { a.stats with skips := a.stats.skips + 1 } }
  | .unparsable e =>
    { a with stats := a.stats.withFailure ⟨entry.path, .cannotParse, some e.message⟩ }
  | .unknown _ => a
  | .parsed time m =>
    let stamp : Stamp := ⟨time, plan.scanVersion, now⟩
    match a.catalog.transact (reconcile plan.skipsDuplicates entry m stamp) with
    | .ok (outcome, s) =>
      let stats := { a.stats with scans := a.stats.scans + 1 }
      { a with catalog := s, stats := outcome.countedIn entry.path stats }
    | .error _ => a

def advance (a : Account) : Account :=
  { a with progress := { a.progress with processed := a.progress.processed + 1 } }

def refuse (path : Path) (message : String) (isAudioFile : Bool) (a : Account) : Account :=
  let failure : Failure := ⟨path, .cannotRead, some message⟩
  if isAudioFile then
    let stats := { a.stats with skipsOnError := a.stats.skipsOnError + 1 }
    { a with stats := stats.withFailure failure }.advance
  else { a with stats := a.stats.withFailure failure }

def settle (plan : Plan) (read : Entry → Reading) (times : Entry → Int) (a : Account)
    (visit : Visit) : Account :=
  match matterOf plan visit with
  | .ignored => a
  | .refused path message isAudioFile => a.refuse path message isAudioFile
  | .file entry => (a.take plan entry (times entry) (read entry)).advance

end Account

section

variable {plan : Plan} {visit : Visit} {entry : Entry}

theorem entryOf?_eq_some_iff : entryOf? plan visit = some entry ↔ matterOf plan visit = .file entry := by
  cases visit with
  | failure path cause => simp [entryOf?, matterOf]
  | file path =>
      rw [entryOf?, matterOf]
      split_ifs
      · cases path.key? <;> simp
      · simp

theorem entryOf?_eq_none (h : ∀ entry, matterOf plan visit ≠ .file entry) :
    entryOf? plan visit = none :=
  Option.eq_none_iff_forall_ne_some.mpr fun entry he => h entry (entryOf?_eq_some_iff.mp he)

theorem scanVisit_eq (env : Surroundings σ κ) (plan : Plan) (visit : Visit) :
    scanVisit env plan visit = (do
      if ← isAborted env then return false
      match matterOf plan visit with
      | .ignored => return true
      | .refused path message isAudioFile => refuse env plan path message isAudioFile
      | .file entry => enqueue env plan entry) := by
  unfold scanVisit
  congr 1
  funext isAborted
  cases isAborted with
  | true => rfl
  | false =>
      cases visit with
      | failure path cause => rfl
      | file path =>
          simp only [Bool.false_eq_true, if_false, matterOf]
          by_cases accepted : FileExtension.isAccepted plan.audioExtensions path
          · simp only [accepted, if_true]
            cases path.key? <;> rfl
          · simp only [accepted]
            rfl

variable {done : List Visit}

theorem waits_append : waits plan (done ++ [visit]) =
    match matterOf plan visit with
    | .ignored => waits plan done
    | .refused .. => 0
    | .file _ => if waits plan done + 1 < plan.batchSize then waits plan done + 1 else 0 := by
  rw [waits, List.foldl_append]
  rfl

end

theorem countOutcome_eq (path : Path) (outcome : Outcome) :
    (countOutcome path outcome : Action σ Unit) = count fun s => outcome.countedIn path s := by
  cases outcome with
  | added | updated => rfl
  | rejected why removesTrack => cases removesTrack <;> cases why <;> rfl

theorem exists_transact_eq {α : Type} {s : State} {work : Session α} {ok : α → State → Prop}
    (h : Succeeds work s ok) : ∃ a t, s.transact work = .ok (a, t) ∧ ok a t := by
  obtain ⟨a, t, hrun, ht⟩ := succeeds_iff.mp h
  exact ⟨a, t, by rw [State.transact, hrun], ht⟩

theorem readingOf_congr {tree : FileTree κ} {parser : Path → Except Tag.ParseError Tag.Metadata}
    {plan : Plan} {s t : State} (hs : s.Coherent) (ht : t.Coherent) {entry : Entry}
    (h : t.fileAt entry.key = s.fileAt entry.key) :
    readingOf tree parser plan t entry = readingOf tree parser plan s entry := by
  simp only [readingOf, detectChange_eq hs, detectChange_eq ht, h]

namespace Account

variable {plan : Plan} {read : Entry → Reading} {times : Entry → Int} {a : Account}

theorem take_touchesOnly (h : a.catalog.Coherent) (entry : Entry) (now : Int) (reading : Reading) :
    a.catalog.TouchesOnly entry.key (a.take plan entry now reading).catalog := by
  have unchanged := (State.SameFiles.refl a.catalog).touchesOnly h entry.key
  cases reading with
  | unreadable | unchanged | unparsable | unknown => exact unchanged
  | parsed time m =>
      obtain ⟨outcome, s, hrun, only, -⟩ := exists_transact_eq
        (reconcile_succeeds h plan.skipsDuplicates entry m ⟨time, plan.scanVersion, now⟩)
      simp only [take, hrun]
      exact only

theorem take_progress (entry : Entry) (now : Int) (reading : Reading) :
    (a.take plan entry now reading).progress = a.progress := by
  cases reading with
  | unreadable | unchanged | unparsable | unknown => rfl
  | parsed time m =>
      rw [take]
      split <;> rfl

theorem advance_step : a.advance.progress.step = a.progress.step := rfl

theorem refuse_catalog (path : Path) (message : String) (isAudioFile : Bool) :
    (a.refuse path message isAudioFile).catalog = a.catalog := by
  cases isAudioFile <;> rfl

theorem settle_step (visit : Visit) :
    (a.settle plan read times visit).progress.step = a.progress.step := by
  unfold settle
  cases matterOf plan visit with
  | ignored => rfl
  | refused path message isAudioFile => cases isAudioFile <;> rfl
  | file entry =>
      show (a.take plan entry (times entry) (read entry)).progress.step = a.progress.step
      rw [take_progress]

theorem foldl_settle_step (visits : List Visit) :
    (visits.foldl (settle plan read times) a).progress.step = a.progress.step := by
  induction visits generalizing a with
  | nil => rfl
  | cons visit visits ih => rw [List.foldl_cons, ih, settle_step]

theorem foldl_settle_fileAt (visits : List Visit) (h : a.catalog.Coherent) :
    (visits.foldl (settle plan read times) a).catalog.Coherent ∧
      ∀ key, (∀ entry ∈ visits.filterMap (entryOf? plan), entry.key ≠ key) →
        (visits.foldl (settle plan read times) a).catalog.fileAt key = a.catalog.fileAt key := by
  induction visits generalizing a with
  | nil => exact ⟨h, fun _ _ => rfl⟩
  | cons visit visits ih =>
      rw [List.foldl_cons]
      cases hmatter : matterOf plan visit with
      | file entry =>
          have only : a.catalog.TouchesOnly entry.key
              (a.take plan entry (times entry) (read entry)).catalog := take_touchesOnly h entry _ _
          have hstep : a.settle plan read times visit =
              (a.take plan entry (times entry) (read entry)).advance := by rw [settle, hmatter]
          rw [hstep, List.filterMap_cons_some (entryOf?_eq_some_iff.mpr hmatter)]
          obtain ⟨coherent, same⟩ := ih (a := (a.take plan entry _ _).advance) only.coherent
          refine ⟨coherent, fun key hkey => ?_⟩
          rw [same key fun other hother => hkey other (by simp [hother])]
          exact only.others key fun he => hkey entry (by simp) he.symm
      | ignored =>
          have hstep : a.settle plan read times visit = a := by rw [settle, hmatter]
          rw [hstep, List.filterMap_cons_none (entryOf?_eq_none (by simp [hmatter]))]
          exact ih h
      | refused path message isAudioFile =>
          have hstep : a.settle plan read times visit = a.refuse path message isAudioFile := by
            rw [settle, hmatter]
          rw [hstep, List.filterMap_cons_none (entryOf?_eq_none (by simp [hmatter])),
            ← refuse_catalog (a := a) path message isAudioFile]
          exact ih (by rw [refuse_catalog]; exact h)

theorem foldl_settle_congr {times' : Entry → Int} {visits : List Visit}
    (h : ∀ entry ∈ visits.filterMap (entryOf? plan), times' entry = times entry) :
    visits.foldl (settle plan read times') a = visits.foldl (settle plan read times) a := by
  apply List.foldl_ext
  intro b visit hvisit
  unfold settle
  cases hmatter : matterOf plan visit with
  | ignored | refused => rfl
  | file entry =>
      have := h entry (List.mem_filterMap.mpr ⟨visit, hvisit, entryOf?_eq_some_iff.mpr hmatter⟩)
      simp only [this]

end Account

section

variable {env : Surroundings σ κ} {plan : Plan} {r : Run σ}

theorem takeOver_accounts (h : r.catalog.Coherent) (entry : Entry) {reading : Reading}
    (known : reading.IsKnown) :
    Succeeds (takeOver env plan entry reading) r fun isOpened t =>
      isOpened = reading.isOpened ∧
        t.account = r.account.take plan entry (env.now r.outside) reading ∧
        t.outside = r.outside ∧ t.pending = r.pending := by
  cases reading with
  | unreadable | unchanged | unparsable => exact ⟨rfl, rfl, rfl, rfl⟩
  | unknown => exact known.elim
  | parsed time m =>
      obtain ⟨outcome, s, hrun, -⟩ := exists_transact_eq (reconcile_succeeds h plan.skipsDuplicates
        entry m ⟨time, plan.scanVersion, env.now r.outside⟩)
      have hrun' := hrun
      unfold State.transact at hrun'
      unfold takeOver Succeeds
      simp only [Ends.bind_iff, Ends.get_iff, transact_ends_iff, Ends.pure_iff, countOutcome_eq,
        count, Ends.modify_iff]
      unfold Ends
      split at hrun'
      · rename_i hresult
        cases hrun'
        rw [hresult]
        refine ⟨rfl, ?_, trivial, trivial⟩
        simp only [Account.take, Run.account, hrun]
      · cases hrun'

/-- A file is taken over and counted, unless the scan is given up before. -/
theorem finishFile_accounts (h : r.catalog.Coherent) (entry : Entry) {reading : Reading}
    (known : reading.IsKnown) :
    Succeeds (finishFile env plan entry reading) r fun goesOn t => t.pending = r.pending ∧
      env.isAborted (env.wait r.outside) = !goesOn ∧
      if goesOn then
        t.account = (r.account.take plan entry (env.now (env.wait r.outside)) reading).advance ∧
          t.outside = if reading.isOpened then env.report t.progress (env.wait r.outside)
            else env.wait r.outside
      else t = { r with outside := env.wait r.outside } := by
  unfold finishFile Succeeds
  rw [Ends.bind_iff, Action.isAborted, observe_ends_iff]
  cases hAborted : env.isAborted (env.wait r.outside) with
  | true => exact ⟨rfl, rfl, rfl⟩
  | false =>
      rw [if_neg Bool.false_ne_true, Ends.bind_iff]
      refine (takeOver_accounts (r := { r with outside := env.wait r.outside }) h entry known).imp
        ?_ fun _ _ => id
      rintro _ t ⟨rfl, haccount, houtside, hpending⟩
      have advanced : Run.account { t with
          progress := { t.progress with processed := t.progress.processed + 1 } } =
          (r.account.take plan entry (env.now (env.wait r.outside)) reading).advance := by
        rw [← show t.account = r.account.take plan entry (env.now (env.wait r.outside)) reading
          from haccount]
        rfl
      rw [Ends.bind_iff, Action.advance, Ends.modify_iff]
      cases reading.isOpened with
      | true =>
          refine ⟨hpending, rfl, advanced, ?_⟩
          show env.report _ t.outside = _
          rw [houtside]
          rfl
      | false => exact ⟨hpending, rfl, advanced, houtside⟩

theorem takeStep_ends_iff {ε : Type} {perform : Step → EStateM ε (Run σ) Unit} {step : Step}
    {ok : Bool → Run σ → Prop} {error : ε → Run σ → Prop} :
    Ends (takeStep env perform step) r ok error ↔
      if env.isAborted (env.wait r.outside) then ok false { r with outside := env.wait r.outside }
      else Ends (perform step) { r with outside := env.wait r.outside, progress := { step } }
        (fun _ t => ok true t) error := by
  unfold takeStep
  rw [Ends.bind_iff, Action.isAborted, observe_ends_iff]
  cases env.isAborted (env.wait r.outside) with
  | true => rfl
  | false => rw [if_neg Bool.false_ne_true, Ends.bind_iff, Ends.modify_iff, Ends.bind_iff]; rfl

theorem allM_takeStep_ends {ε : Type} {perform : Step → EStateM ε (Run σ) Unit} {step : Step}
    {steps : List Step} {ok : Bool → Run σ → Prop} {error : ε → Run σ → Prop}
    (aborted : env.isAborted (env.wait r.outside) = true →
      ok false { r with outside := env.wait r.outside })
    (taken : env.isAborted (env.wait r.outside) = false →
      Ends (perform step) { r with outside := env.wait r.outside, progress := { step } }
        (fun _ t => Ends (steps.allM (takeStep env perform)) t ok error) error) :
    Ends ((step :: steps).allM (takeStep env perform)) r ok error := by
  rw [List.allM, Ends.bind_iff, takeStep_ends_iff]
  cases hAborted : env.isAborted (env.wait r.outside) with
  | true => exact aborted hAborted
  | false => exact taken hAborted

end

end AudioCatalog.Scan
