import AudioCatalog.Proofs.Interruption
import AudioCatalog.Proofs.Ledger

namespace AudioCatalog.Scan

open Catalog Scan.Action

variable {σ κ : Type} {env : Surroundings σ κ} {plan : Plan}

theorem isAudio_eq (plan : Plan) (visit : Visit) : isAudio plan visit =
    match matterOf plan visit with
    | .ignored => false
    | .refused _ _ isAudioFile => isAudioFile
    | .file _ => true := by
  cases visit with
  | failure path cause => rfl
  | file path =>
      rw [isAudio, matterOf]
      split_ifs with accepted
      · rw [accepted]
        cases path.key? <;> rfl
      · exact Bool.eq_false_iff.mpr accepted

structure Advanced (n : Nat) (r t : Run σ) : Prop where
  coherent : t.catalog.Coherent
  pending : t.pending = r.pending
  filesToScan : t.stats.filesToScan = r.stats.filesToScan
  progress : t.progress = { r.progress with processed := r.progress.processed + n }

theorem Advanced.trans {n k : Nat} {r t u : Run σ} (h : Advanced n r t) (h' : Advanced k t u) :
    Advanced (n + k) r u where
  coherent := h'.coherent
  pending := h'.pending.trans h.pending
  filesToScan := h'.filesToScan.trans h.filesToScan
  progress := by rw [h'.progress, h.progress, Nat.add_assoc]

theorem Account.take_filesToScan {a : Account} (entry : Entry) (now : Int) (reading : Reading) :
    (a.take plan entry now reading).stats.filesToScan = a.stats.filesToScan := by
  cases reading with
  | unreadable | unchanged | unparsable | unknown => rfl
  | parsed time m =>
      rw [take]
      split
      · rename_i outcome _ _
        rcases outcome with _ | _ | ⟨_ | _ | _, removesTrack⟩ <;> rfl
      · rfl

theorem finishFile_advances {r : Run σ} (hr : r.catalog.Coherent) (entry : Entry)
    {reading : Reading} (known : reading.IsKnown) :
    Succeeds (finishFile env plan entry reading) r fun goesOn t =>
      if goesOn then Advanced 1 r t else GivenUp env t := by
  refine (finishFile_accounts hr entry known).imp ?_ fun _ _ => id
  rintro goesOn t ⟨hpending, polled, ht⟩
  cases goesOn with
  | false =>
      obtain rfl := ht
      exact ⟨hr, polled⟩
  | true =>
      obtain ⟨haccount, -⟩ := ht
      have only : r.catalog.TouchesOnly entry.key
          (r.account.take plan entry (env.now (env.wait r.outside)) reading).catalog :=
        Account.take_touchesOnly (a := r.account) hr entry _ reading
      refine ⟨?_, hpending, ?_, (congrArg Account.progress haccount).trans ?_⟩
      · rw [show t.catalog = _ from congrArg Account.catalog haccount]
        exact only.coherent
      · exact (congrArg (fun a => a.stats.filesToScan) haccount).trans
          (Account.take_filesToScan entry _ reading)
      · rw [Account.advance, Account.take_progress]
        rfl

theorem finishFiles_advance {readings : List (Entry × Reading)}
    (known : ∀ file ∈ readings, file.2.IsKnown) {r : Run σ} (hr : r.catalog.Coherent) :
    Succeeds (readings.allM fun (entry, reading) => finishFile env plan entry reading) r
      fun goesOn t => if goesOn then Advanced readings.length r t else GivenUp env t := by
  induction readings generalizing r with
  | nil => exact ⟨hr, rfl, rfl, rfl⟩
  | cons file readings ih =>
      apply Ends.bind (finishFile_advances hr file.1 (known file (by simp)))
      intro goesOn t ht
      cases goesOn with
      | false => exact ht
      | true =>
          have ht : Advanced 1 r t := ht
          refine (ih (fun other hother => known other (by simp [hother])) ht.coherent).imp ?_
            fun _ _ => id
          intro goesOn u hu
          cases goesOn with
          | false => exact hu
          | true =>
              have hu : Advanced readings.length t u := hu
              have both := ht.trans hu
              rwa [Nat.add_comm] at both

/-- As many audio files as there are in all were finished, or wait, or are left to be shown. -/
structure Paced (plan : Plan) (files : Nat) (left : List Visit) (r : Run σ) : Prop where
  coherent : r.catalog.Coherent
  step : r.progress.step = .scanFiles
  filesToScan : r.stats.filesToScan = files
  processed : r.progress.processed + r.pending.length + left.countP (isAudio plan) = files

section

variable {files : Nat} {left : List Visit} {v : Visit} {r : Run σ}

theorem flush_paces (hr : Paced plan files left r) :
    Succeeds (flush env plan) r fun goesOn t =>
      if goesOn then Paced plan files left t ∧ t.pending = [] else GivenUp env t := by
  rw [flush, Succeeds, Ends.bind_iff, Ends.get_iff, Ends.bind_iff, Ends.modify_iff]
  apply Ends.bind (readAll_known (r := { r with pending := [] }) hr.coherent r.pending)
  rintro readings t ⟨ht, known, hlength⟩
  have coherent : t.catalog.Coherent := ht.catalog_eq ▸ hr.coherent
  refine (finishFiles_advance known coherent).imp ?_ fun _ _ => id
  intro goesOn u hu
  cases goesOn with
  | false => exact hu
  | true =>
      have hu : Advanced readings.length t u := hu
      have hpending : u.pending = [] := hu.pending.trans ht.pending_eq
      obtain ⟨n, rfl⟩ := ht
      refine ⟨⟨hu.coherent, ?_, hu.filesToScan.trans hr.filesToScan, ?_⟩, hpending⟩
      · rw [hu.progress]
        exact hr.step
      · rw [hu.progress, hpending, hlength, List.length_nil, Nat.add_zero]
        exact hr.processed

variable (hr : Paced plan files (v :: left) r)
include hr

theorem refuse_paces {path : Path} {message : String} {isAudioFile : Bool}
    (hmatter : matterOf plan v = .refused path message isAudioFile) :
    Succeeds (refuse env plan path message isAudioFile) r fun goesOn t =>
      if goesOn then Paced plan files left t else GivenUp env t := by
  have haudio : isAudio plan v = isAudioFile := by rw [isAudio_eq, hmatter]
  apply Ends.bind (flush_paces hr)
  intro goesOn t ht
  cases goesOn with
  | false => exact ht
  | true =>
      obtain ⟨ht, -⟩ := ht
      have hprocessed := ht.processed
      cases isAudioFile with
      | true =>
          rw [List.countP_cons_of_pos haudio] at hprocessed
          refine ⟨ht.coherent, ht.step, ht.filesToScan, ?_⟩
          show t.progress.processed + 1 + t.pending.length + left.countP (isAudio plan) = files
          omega
      | false =>
          rw [List.countP_cons_of_neg (by rw [haudio]; exact Bool.false_ne_true)] at hprocessed
          exact ⟨ht.coherent, ht.step, ht.filesToScan, hprocessed⟩

theorem enqueue_paces {entry : Entry} (hmatter : matterOf plan v = .file entry) :
    Succeeds (enqueue env plan entry) r fun goesOn t =>
      if goesOn then Paced plan files left t else GivenUp env t := by
  have haudio : isAudio plan v = true := by rw [isAudio_eq, hmatter]
  have queued : Paced plan files left { r with pending := r.pending ++ [entry] } := by
    refine ⟨hr.coherent, hr.step, hr.filesToScan, ?_⟩
    have hprocessed := hr.processed
    rw [List.countP_cons_of_pos haudio] at hprocessed
    show r.progress.processed + (r.pending ++ [entry]).length + left.countP (isAudio plan) = files
    rw [List.length_append, List.length_singleton]
    omega
  rw [enqueue, Succeeds, Ends.bind_iff, Ends.modify_iff, Ends.bind_iff, Ends.get_iff]
  split
  · exact queued
  · refine (flush_paces queued).imp ?_ fun _ _ => id
    intro goesOn t ht
    cases goesOn with
    | false => exact ht
    | true => exact ht.1

end

theorem scanVisit_paces (files : Nat) (v : Visit) :
    Spends (Paced plan files) (GivenUp env) [v] (scanVisit env plan v) := by
  intro left r hr
  have looked : Paced plan files (v :: left) { r with outside := env.wait r.outside } :=
    ⟨hr.coherent, hr.step, hr.filesToScan, hr.processed⟩
  rw [scanVisit_eq, Succeeds, Ends.bind_iff, Action.isAborted, observe_ends_iff]
  cases hAborted : env.isAborted (env.wait r.outside) with
  | true => exact ⟨hr.coherent, hAborted⟩
  | false =>
      rw [if_neg Bool.false_ne_true]
      cases hmatter : matterOf plan v with
      | ignored =>
          have haudio : ¬ isAudio plan v = true := by
            rw [isAudio_eq, hmatter]
            exact Bool.false_ne_true
          refine ⟨looked.coherent, looked.step, looked.filesToScan, ?_⟩
          rw [← List.countP_cons_of_neg haudio]
          exact looked.processed
      | refused path message isAudioFile => exact refuse_paces looked hmatter
      | file entry => exact enqueue_paces looked hmatter

/-- Every audio file is finished in the end, those too whose names are no text. -/
theorem scanFiles_paces {tree : FileTree κ} (still : ∀ w, env.tree w = tree) {files : Nat}
    {r : Run σ} (hr : Paced plan files (shown tree plan) r) :
    Succeeds (scanFiles env plan) r fun _ t => t.catalog.Coherent ∧
      (env.isAborted t.outside = true ∨ Paced plan files [] t ∧ t.pending = []) := by
  have begun : Paced plan files (shown tree plan ++ [])
      { r with progress := { r.progress with total := r.stats.filesToScan } } := by
    rw [List.append_nil]
    exact ⟨hr.coherent, hr.step, hr.filesToScan, hr.processed⟩
  unfold scanFiles Succeeds
  rw [Ends.bind_iff, Ends.get_iff, Ends.bind_iff, expect, Ends.modify_iff]
  refine Ends.bind (walk_spends still ?_ (scanVisit_paces files) plan.root [] _ begun) ?_
  · exact fun _ _ ht => ⟨ht.coherent, ht.step, ht.filesToScan, ht.processed⟩
  · intro goesOn t ht
    cases goesOn with
    | false => exact ⟨ht.coherent, .inl ht.isAborted⟩
    | true =>
        apply Ends.bind (flush_paces ht)
        intro goesOn u hu
        cases goesOn with
        | false => exact ⟨hu.coherent, .inl hu.isAborted⟩
        | true => exact ⟨hu.1.coherent, .inr hu⟩

def Minutes.Complete (files : Nat) (x : Minutes) : Prop :=
  ∃ m ∈ x.ends, m.progress.step = .scanFiles ∧ m.progress.processed = files ∧
    m.stats.filesToScan = files

theorem complete_outlives (files : Nat) :
    Outlives fun a x => a.catalog.Coherent ∧ x.Complete files where
  coherent := fun h => h.1
  paced := fun _ _ h => h
  reported := fun h => h
  removed := fun h ht _ => ⟨ht, h.2⟩

def Closed (env : Surroundings σ κ) (files : Nat) (r : Run (σ × Minutes)) : Prop :=
  r.catalog.Coherent ∧ (env.isAborted r.outside.1 = true ∨ r.outside.2.Complete files)

structure Prepared (env : Surroundings σ κ) (files : Nat) (r : Run (σ × Minutes)) : Prop where
  coherent : r.catalog.Coherent
  pending : r.pending = []
  counted : env.isAborted r.outside.1 = true ∨ r.stats.filesToScan = files

section

variable {files : Nat} {tree : FileTree κ}

theorem leads_closed (stays : env.AbortStays) {step : Step} {steps : List Step}
    (work : Maintains (Noted fun a x => a.catalog.Coherent ∧ x.Complete files)
      (perform env.minuted plan step (noteReport env)))
    (rest : Leads env plan (Closed env files) (Closed env files) steps) :
    Leads env plan (Closed env files) (Closed env files) (step :: steps) := by
  refine .cons (fun h hAborted => ⟨h.1, .inl hAborted⟩) (fun {r} h hAborted => ?_) rest
  have begun : Noted (fun a x => a.catalog.Coherent ∧ x.Complete files)
      { r with outside := env.minuted.wait r.outside, progress := { step } } :=
    ⟨h.1, stays.unaborted h.2 hAborted⟩
  refine (work _ begun).imp (fun _ t ht => ?_) fun _ _ => id
  obtain ⟨ht, m, hm, hcomplete⟩ := ht
  exact ⟨ht, .inr ⟨m, List.mem_append_left _ hm, hcomplete⟩⟩

variable (still : ∀ w, env.tree w = tree) (hfiles : (shown tree plan).countP (isAudio plan) = files)
include still hfiles

theorem leads_scanned (stays : env.AbortStays) {steps : List Step}
    (rest : Leads env plan (Closed env files) (Closed env files) steps) :
    Leads env plan (Prepared env files) (Closed env files) (.scanFiles :: steps) := by
  refine .cons (fun h hAborted => ⟨h.coherent, .inl hAborted⟩) (fun {r} h hAborted => ?_) rest
  have begun : Paced plan files (shown tree plan) (Run.around Prod.fst
      { r with outside := env.minuted.wait r.outside, progress := { step := .scanFiles } }) := by
    refine ⟨h.coherent, rfl, stays.unaborted h.counted hAborted, ?_⟩
    show 0 + r.pending.length + _ = _
    rw [h.pending, hfiles, List.length_nil, Nat.zero_add]
  refine ((scanFiles_forgets env plan).succeeds (scanFiles_paces still begun)).imp
    (fun _ t ht => ?_) fun _ _ => id
  obtain ⟨coherent, hdone⟩ := ht
  refine ⟨coherent, hdone.imp id fun ⟨hpaced, hpending⟩ => ⟨t.moment, ?_, hpaced.step, ?_,
    hpaced.filesToScan⟩⟩
  · exact List.mem_append_right _ (List.mem_singleton.mpr rfl)
  · have hprocessed := hpaced.processed
    rwa [hpending] at hprocessed

theorem leads_counted {s : State} (hs : s.Coherent) (w : σ) {steps : List Step}
    (rest : Leads env plan (Prepared env files) (Closed env files) steps) :
    Leads env plan (fun r => r = Run.start (w, {}) s) (Closed env files)
      (.countFiles :: steps) := by
  refine .cons (fun h hAborted => ⟨h ▸ hs, .inl hAborted⟩) (fun {r} h _ => ?_) rest
  subst h
  refine (countFiles_counts (Q := fun _ => True) (fun h => h) (fun w => still w.1) trivial).imp
    (fun _ t ht => ?_) fun _ _ => id
  obtain ⟨-, hcatalog, hpending, counted, hstats, hcounted⟩ := ht
  refine ⟨hcatalog ▸ hs, hpending, hcounted.symm.imp id fun hcounted => ?_⟩
  show t.stats.filesToScan = files
  rw [hstats, hcounted, hfiles]
  exact Nat.zero_add _

end

theorem Surroundings.AbortStays.minuted (stays : env.AbortStays) : env.minuted.AbortStays :=
  ⟨stays.wait, stays.report⟩

theorem processNoted_completes {tree : FileTree κ} (still : ∀ w, env.tree w = tree)
    (stays : env.AbortStays) {s : State} (hs : s.Coherent) (plan : Plan) (w : σ) :
    Succeeds (processNoted env plan) (Run.start (w, {}) s) fun _ t => t.isAborted = false →
      t.outside.2.Complete ((shown tree plan).countP (isAudio plan)) := by
  generalize hfiles : (shown tree plan).countP (isAudio plan) = files
  have steps : Leads env plan (fun r => r = Run.start (w, {}) s) (Closed env files) Step.all :=
    leads_counted still hfiles hs w <| leads_scanned still hfiles stays <|
      leads_closed stays (complete_outlives files).removeOrphanTracks <|
        leads_closed stays (complete_outlives files).removeOrphanEntities fun _ ht => ht
  exact stays.minuted.ends (fun _ complete => complete)
    ((steps _ rfl).imp (fun _ _ ht => ht.2) fun _ _ => id)

/-- The minutes of any scan agree with its counts at every report and after every step, and the
counts with the tracks that came and went. In a tree that stands still, a scan that is not aborted
gets through all the audio files that it counted, those included whose names are no text. -/
theorem Reachable.process_adds_up {s : State} (h : Reachable s) (env : Surroundings σ κ)
    (plan : Plan) (w : σ) :
    ∃ t, processNoted env plan (Run.start (w, {}) s) = .ok () t ∧
      process env plan (Run.start w s) = .ok () (t.around Prod.fst) ∧
      t.outside.2.Sound plan.skipsDuplicates ∧ t.stats.Balanced plan.skipsDuplicates ∧
      t.catalog.tracks.size + t.stats.deletions = s.tracks.size + t.stats.additions ∧
      ∀ tree, (∀ w, env.tree w = tree) → env.AbortStays → t.isAborted = false →
        t.outside.2.Complete ((shown tree plan).countP (isAudio plan)) := by
  obtain ⟨_, t, hnoted, ledger⟩ := succeeds_iff.mp (processNoted_ledger h.coherent env plan w)
  refine ⟨t, hnoted, ?_, ledger.minutes, ledger.account.balanced, ledger.account.tracks, ?_⟩
  · have forgets := process_forgets env plan (Run.start (w, {}) s)
    rwa [hnoted] at forgets
  · intro tree still stays
    have completes := processNoted_completes still stays h.coherent plan w
    rwa [Succeeds, Ends, hnoted] at completes

theorem process_adds_up_unnamedSong : ∃ t,
    processNoted (quiet (withUnnamed [("a.mp3", 1), ("b.mp3", 1)]) soundOnly 0) (albumPlan false)
      (Run.start ([], {}) {}) = .ok () t ∧ t.outside.2.Sound false ∧ t.outside.2.Complete 3 ∧
      t.catalog.tracks.size + t.stats.deletions = t.stats.additions := by
  have still : (quiet (withUnnamed [("a.mp3", 1), ("b.mp3", 1)]) soundOnly 0).Still
      (withUnnamed [("a.mp3", 1), ("b.mp3", 1)]) soundOnly 0 id := .quiet
  obtain ⟨t, hnoted, hrun, sound, -, tracks, completes⟩ := Reachable.empty.process_adds_up
    (quiet (withUnnamed [("a.mp3", 1), ("b.mp3", 1)]) soundOnly 0) (albumPlan false) []
  have complete := completes _ still.tree still.abortStays
    (isAborted_of_takeSteps still.isAborted hrun)
  have hfiles : (shown (withUnnamed [("a.mp3", 1), ("b.mp3", 1)]) (albumPlan false)).countP
      (isAudio (albumPlan false)) = 3 := by
    decide +kernel
  rw [hfiles] at complete
  exact ⟨t, hnoted, sound, complete, tracks.trans (Nat.zero_add _)⟩

end AudioCatalog.Scan
