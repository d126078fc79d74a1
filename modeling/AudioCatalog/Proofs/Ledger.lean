import AudioCatalog.Proofs.Minutes

namespace AudioCatalog.Scan

open Catalog Scan.Action

variable {σ κ : Type} {s : State}

/-- As many files have been processed as were finished, in the step that scans them. -/
structure Moment.Sound (skipsDuplicates : Bool) (m : Moment) : Prop where
  processed : m.progress.step = .scanFiles → m.progress.processed = m.stats.finished
  balanced : m.stats.Balanced skipsDuplicates

structure Minutes.Sound (skipsDuplicates : Bool) (x : Minutes) : Prop where
  moments : ∀ m ∈ x.reports ++ x.ends, m.Sound skipsDuplicates
  rising : x.scanReports.Pairwise fun m m' => m.progress.processed < m'.progress.processed

namespace Minutes

variable {skipsDuplicates : Bool} {x : Minutes} {m : Moment}

theorem scanReports_append (h : m.progress.step = .scanFiles) :
    scanReports { x with reports := x.reports ++ [m] } = x.scanReports ++ [m] := by
  simp [scanReports, h]

theorem scanReports_append_of_ne (h : m.progress.step ≠ .scanFiles) :
    scanReports { x with reports := x.reports ++ [m] } = x.scanReports := by
  simp [scanReports, h]

namespace Sound

theorem empty : ({} : Minutes).Sound skipsDuplicates := ⟨by simp, .nil⟩

variable (h : x.Sound skipsDuplicates) (hm : m.Sound skipsDuplicates)
include h hm

theorem withReport (last : m.progress.step = .scanFiles →
      ∀ m' ∈ x.scanReports, m'.progress.processed < m.progress.processed) :
    Sound skipsDuplicates { x with reports := x.reports ++ [m] } := by
  refine ⟨fun m' hm' => ?_, ?_⟩
  · rcases List.mem_append.mp hm' with hm' | hm'
    · rcases List.mem_append.mp hm' with hm' | hm'
      · exact h.moments m' (List.mem_append_left _ hm')
      · rwa [List.mem_singleton.mp hm']
    · exact h.moments m' (List.mem_append_right _ hm')
  · by_cases hstep : m.progress.step = .scanFiles
    · rw [scanReports_append hstep, List.pairwise_append]
      refine ⟨h.rising, List.pairwise_singleton _ _, fun m' hm' m'' hm'' => ?_⟩
      rw [List.mem_singleton.mp hm'']
      exact last hstep m' hm'
    · rw [scanReports_append_of_ne hstep]
      exact h.rising

theorem withEnd : Sound skipsDuplicates { x with ends := x.ends ++ [m] } := by
  refine ⟨fun m' hm' => ?_, h.rising⟩
  rw [← List.append_assoc] at hm'
  rcases List.mem_append.mp hm' with hm' | hm'
  · exact h.moments m' hm'
  · rwa [List.mem_singleton.mp hm']

end Sound

end Minutes

structure Ledger (plan : Plan) (s : State) (a : Account) (x : Minutes) : Prop where
  account : a.Tallies plan s
  minutes : x.Sound plan.skipsDuplicates

structure Ledger.Fresh (plan : Plan) (s : State) (a : Account) (x : Minutes) : Prop
    extends Ledger plan s a x where
  finished : a.stats.finished = 0
  unreported : x.scanReports = []

structure Ledger.OnFiles (plan : Plan) (s : State) (a : Account) (x : Minutes) : Prop
    extends Ledger plan s a x where
  step : a.progress.step = .scanFiles
  processed : a.progress.processed = a.stats.finished
  reported : ∀ m ∈ x.scanReports, m.progress.processed ≤ a.progress.processed

structure Ledger.Aside (plan : Plan) (s : State) (a : Account) (x : Minutes) : Prop
    extends Ledger plan s a x where
  step : a.progress.step ≠ .scanFiles

namespace Ledger

variable {env : Surroundings σ κ} {plan : Plan} {s : State} {a b : Account} {x : Minutes}

theorem withEnd (h : Ledger plan s a x) (processed : a.progress.step = .scanFiles →
      a.progress.processed = a.stats.finished) :
    Ledger plan s a { x with ends := x.ends ++ [⟨a.progress, a.stats⟩] } :=
  ⟨h.account, h.minutes.withEnd ⟨processed, h.account.balanced⟩⟩

namespace OnFiles

theorem withReport (h : OnFiles plan s a x)
    (last : ∀ m ∈ x.scanReports, m.progress.processed < a.progress.processed) :
    OnFiles plan s a { x with reports := x.reports ++ [⟨a.progress, a.stats⟩] } where
  account := h.account
  minutes := h.minutes.withReport ⟨fun _ => h.processed, h.account.balanced⟩ fun _ => last
  step := h.step
  processed := h.processed
  reported := by
    rw [Minutes.scanReports_append h.step]
    intro m hm
    rcases List.mem_append.mp hm with hm | hm
    · exact h.reported m hm
    · rw [List.mem_singleton.mp hm]

theorem moved (h : OnFiles plan s a x) {n : Nat} (hb : b.Tallies plan s)
    (hstep : b.progress.step = a.progress.step)
    (hprocessed : b.progress.processed = a.progress.processed + n)
    (hfinished : b.stats.finished = a.stats.finished + n) : OnFiles plan s b x where
  account := hb
  minutes := h.minutes
  step := hstep.trans h.step
  processed := by rw [hprocessed, hfinished, h.processed]
  reported := fun m hm => by
    rw [hprocessed]
    exact Nat.le_add_right_of_le (h.reported m hm)

theorem taken (h : OnFiles plan s a x) (entry : Entry) (now : Int) {reading : Reading}
    (known : reading.IsKnown) : OnFiles plan s (a.take plan entry now reading).advance x ∧
      ∀ m ∈ x.scanReports,
        m.progress.processed < (a.take plan entry now reading).advance.progress.processed := by
  obtain ⟨tallies, hfinished⟩ := h.account.take entry now known
  have hprogress : (a.take plan entry now reading).advance.progress =
      { a.progress with processed := a.progress.processed + 1 } := by
    rw [Account.advance, Account.take_progress]
  refine ⟨h.moved (n := 1) (tallies.noted rfl rfl rfl rfl) ?_ ?_ hfinished, fun m hm => ?_⟩
  · rw [hprogress]
  · rw [hprogress]
  · rw [hprogress]
    exact Nat.lt_succ_of_le (h.reported m hm)

end OnFiles

theorem aside_outlives (plan : Plan) (s : State) : Outlives (Aside plan s) where
  coherent := fun h => h.account.coherent
  paced := fun _ _ h => ⟨⟨h.account.noted rfl rfl rfl rfl, h.minutes⟩, h.step⟩
  reported := fun h => by
    have unasked {p : Prop} (hstep : _) : p := absurd hstep h.step
    exact ⟨⟨h.account, h.minutes.withReport ⟨unasked, h.account.balanced⟩ unasked⟩, h.step⟩
  removed := fun h ht htracks => ⟨⟨h.account.removed ht htracks, h.minutes⟩, h.step⟩

theorem finishFile_maintains (entry : Entry) {reading : Reading} (known : reading.IsKnown) :
    Maintains (Noted (OnFiles plan s))
      (finishFile env.minuted plan entry reading (noteReport env)) := by
  intro r hr
  have h : OnFiles plan s r.account r.outside.2 := hr
  unfold finishFile Succeeds
  rw [Ends.bind_iff, Action.isAborted, observe_ends_iff]
  cases env.minuted.isAborted (env.minuted.wait r.outside) with
  | true => exact hr
  | false =>
      rw [if_neg Bool.false_ne_true]
      apply Ends.bind (takeOver_accounts (r := { r with outside := env.minuted.wait r.outside })
        h.account.coherent entry known)
      rintro isOpened t ⟨-, haccount, houtside, -⟩
      obtain ⟨next, last⟩ := h.taken entry (env.minuted.now (env.minuted.wait r.outside)) known
      rw [show r.account.take plan entry _ reading = t.account from haccount.symm] at next last
      have hminutes : t.outside.2 = r.outside.2 := by rw [houtside]; rfl
      rw [← hminutes] at next last
      cases isOpened with
      | true => exact next.withReport last
      | false => exact next

theorem flush_maintains : Maintains (Noted (OnFiles plan s))
    (flush env.minuted plan (noteReport env)) := by
  refine .getBind fun r hr => ?_
  rw [Succeeds, Ends.bind_iff, Ends.modify_iff]
  apply Ends.bind (readAll_known (r := { r with pending := [] }) hr.account.coherent r.pending)
  rintro readings t ⟨ht, known, -⟩
  have begun : Noted (OnFiles plan s) t := by
    have hminutes : t.outside.2 = r.outside.2 :=
      ht.outside (P := fun w => w.2 = r.outside.2) (fun _ hw => hw) rfl
    obtain ⟨n, rfl⟩ := ht
    rw [Noted, hminutes]
    exact hr
  exact Maintains.allM (fun file hfile =>
    finishFile_maintains file.1 (known file hfile)) t begun

theorem scanFiles_maintains : Maintains (Noted (OnFiles plan s))
    (scanFiles env.minuted plan (noteReport env)) := by
  have noted (path : Path) (message : Option String) :
      Maintains (Noted (OnFiles plan s)) (fail (σ := σ × Minutes) path .cannotRead message) := by
    refine .modify fun r hr => hr.moved (n := 0) (hr.account.noted rfl rfl ?_ rfl) rfl rfl ?_
    · simp [Stats.outcomes, Stats.failed, Run.account]
    · simp [Stats.finished, Stats.failed, Run.account]
  have skipped : Maintains (Noted (OnFiles plan s)) (do
      count (σ := σ × Minutes) fun s => { s with skipsOnError := s.skipsOnError + 1 }
      advance 1) := by
    refine fun r hr => OnFiles.moved (n := 1) hr (hr.account.noted rfl rfl rfl rfl) rfl rfl ?_
    simp +arith [Stats.finished, Stats.failed, Run.account]
  refine (noted_timeless env _).scanFiles flush_maintains (fun _ hr => hr)
    (refuse_maintains flush_maintains skipped noted) fun total => ?_
  exact .modify fun r hr => hr.moved (n := 0) (hr.account.noted rfl rfl rfl rfl) rfl rfl rfl

namespace Fresh

theorem start (hs : s.Coherent) (plan : Plan) (w : σ) :
    Fresh plan s (Run.start (w, ({} : Minutes)) s).account {} where
  account := ⟨hs, rfl, Nat.le_refl _, fun _ => rfl⟩
  minutes := .empty
  finished := rfl
  unreported := rfl

variable (h : Fresh plan s a x)
include h

theorem noted (files : Nat) (progress : Progress) :
    Fresh plan s ⟨a.catalog, { a.stats with filesToScan := files }, progress⟩ x :=
  ⟨⟨h.account.noted rfl rfl rfl rfl, h.minutes⟩, h.finished, h.unreported⟩

theorem withEnd (hstep : a.progress.step ≠ .scanFiles) :
    Fresh plan s a { x with ends := x.ends ++ [⟨a.progress, a.stats⟩] } :=
  ⟨h.toLedger.withEnd fun h => absurd h hstep, h.finished, h.unreported⟩

theorem onFiles : OnFiles plan s { a with progress := { step := .scanFiles } } x where
  account := h.account.noted rfl rfl rfl rfl
  minutes := h.minutes
  step := rfl
  processed := h.finished.symm
  reported := by simp [h.unreported]

end Fresh

theorem countFiles_maintains : Maintains
    (Noted fun a x => Fresh plan s a x ∧ a.progress.step ≠ .scanFiles)
    (countFiles env.minuted plan) :=
  (noted_timeless env _).countFiles (fun _ _ hr => ⟨hr.1.noted _ _, hr.2⟩)
    fun files hr => ⟨hr.1.noted files _, hr.2⟩

theorem leads_aside {step : Step} (hstep : step ≠ .scanFiles)
    (work : Maintains (Noted (Aside plan s))
      (perform env.minuted plan step (noteReport env))) {steps : List Step}
    (rest : Leads env plan (Noted (Ledger plan s)) (Noted (Ledger plan s)) steps) :
    Leads env plan (Noted (Ledger plan s)) (Noted (Ledger plan s)) (step :: steps) := by
  refine .cons (fun h _ => h) (fun {r} h _ => ?_) rest
  have begun : Noted (Aside plan s)
      { r with outside := env.minuted.wait r.outside, progress := { step } } :=
    ⟨⟨h.account.noted rfl rfl rfl rfl, h.minutes⟩, hstep⟩
  refine (work _ begun).imp (fun _ t ht => ?_) fun _ _ => id
  exact Ledger.withEnd ht.toLedger fun h => absurd h ht.step

end Ledger

open Ledger in
/-- However a scan goes on, its ledger is in order after it. -/
theorem processNoted_ledger (hs : s.Coherent) (env : Surroundings σ κ) (plan : Plan) (w : σ) :
    Succeeds (processNoted env plan) (Run.start (w, {}) s) fun _ => Noted (Ledger plan s) := by
  have cleanup : Leads env plan (Noted (Ledger plan s)) (Noted (Ledger plan s))
      [.removeOrphanTracks, .removeOrphanEntities] :=
    leads_aside (by decide) (aside_outlives plan s).removeOrphanTracks <|
      leads_aside (by decide) (aside_outlives plan s).removeOrphanEntities fun _ ht => ht
  have files : Leads env plan (Noted (Fresh plan s)) (Noted (Ledger plan s))
      [.scanFiles, .removeOrphanTracks, .removeOrphanEntities] := by
    refine .cons (fun h _ => h.toLedger) (fun {r} h _ => ?_) cleanup
    have begun : Noted (OnFiles plan s)
        { r with outside := env.minuted.wait r.outside, progress := { step := .scanFiles } } :=
      Fresh.onFiles h
    refine (scanFiles_maintains _ begun).imp (fun _ t ht => ?_) fun _ _ => id
    exact Ledger.withEnd ht.toLedger fun _ => ht.processed
  have steps : Leads env plan (Noted (Fresh plan s)) (Noted (Ledger plan s)) Step.all := by
    refine .cons (fun h _ => h.toLedger) (fun {r} h _ => ?_) files
    have begun : Noted (fun a x => Fresh plan s a x ∧ a.progress.step ≠ .scanFiles)
        { r with outside := env.minuted.wait r.outside, progress := { step := .countFiles } } :=
      ⟨Fresh.noted h _ _, nofun⟩
    refine (countFiles_maintains _ begun).imp (fun _ t ht => ?_) fun _ _ => id
    exact Fresh.withEnd ht.1 ht.2
  exact Ends.bind (steps _ (Fresh.start hs plan w)) fun _ t ht => ht

end AudioCatalog.Scan
