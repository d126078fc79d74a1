import AudioCatalog.Proofs.Chronicle
import AudioCatalog.Proofs.Stillness

namespace AudioCatalog.Scan

open Catalog Scan.Action

variable {σ κ : Type}

/-- Throughout, there are the same files with the same tags. The scan is asked to abort at the report
number `k` on its files, and by nothing else. -/
structure Surroundings.StopsAt (env : Surroundings σ κ) (tree : FileTree κ)
    (parser : Path → Except Tag.ParseError Tag.Metadata) (k : Nat) (heard : σ → Nat) : Prop
    extends env.Steady tree parser where
  isAborted : ∀ w, env.isAborted w = decide (k ≤ heard w)
  wait : ∀ w, heard (env.wait w) = heard w
  report : ∀ progress w, heard (env.report progress w) =
    if progress.step = .scanFiles then heard w + 1 else heard w

def beginning (tree : FileTree κ) (plan : Plan) (s : State) : Account :=
  let files := (shown tree plan).countP (isAudio plan)
  ⟨s, { filesToScan := files }, { step := .scanFiles, total := files }⟩

def opens (tree : FileTree κ) (parser : Path → Except Tag.ParseError Tag.Metadata) (plan : Plan)
    (s : State) (visit : Visit) : Bool :=
  match matterOf plan visit with
  | .file entry => (readingOf tree parser plan s entry).isOpened
  | .ignored | .refused .. => false

section

variable {plan : Plan} {p : Visit → Bool} {k : Nat} {before done after rest m : List Visit}
  {v : Visit}

theorem foldl_ignored {β : Type} {f : β → Visit → β} (h : ∀ b, ∀ u ∈ m, f b u = b) (b : β) :
    m.foldl f b = b := by
  induction m with
  | nil => rfl
  | cons u m ih =>
      rw [List.foldl_cons, h b u List.mem_cons_self]
      exact ih fun b u hu => h b u (List.mem_cons_of_mem _ hu)

theorem waits_ignored (h : ∀ u ∈ m, matterOf plan u = .ignored) :
    waits plan (done ++ m) = waits plan done := by
  rw [waits, List.foldl_append, ← waits]
  exact foldl_ignored (fun n u hu => by rw [h u hu]) _

/-- What has more of the openings than come before the visit goes beyond it. -/
theorem exists_of_countP_lt (hall : before ++ v :: after = done ++ rest)
    (hlt : before.countP p < done.countP p) :
    ∃ m, done = before ++ v :: m ∧ after = m ++ rest := by
  rcases List.append_eq_append_iff.mp hall with ⟨m, rfl, hm⟩ | ⟨m, rfl, -⟩
  · cases m with
    | nil => simp at hlt
    | cons u m =>
        obtain ⟨rfl, rfl⟩ := List.cons.inj hm
        exact ⟨m, rfl, rfl⟩
  · rw [List.countP_append] at hlt
    omega

def Begun (plan : Plan) (p : Visit → Bool) (k : Nat) (done : List Visit) : Prop :=
  ∀ d x d', done = d ++ x :: d' → matterOf plan x ≠ .ignored → d.countP p < k

theorem begun_nil : Begun plan p k [] := fun d x d' h => by simp at h

theorem Begun.append (h : Begun plan p k done)
    (hv : matterOf plan v ≠ .ignored → done.countP p < k) : Begun plan p k (done ++ [v]) := by
  intro d x d' hsplit hx
  rcases List.eq_nil_or_concat d' with rfl | ⟨d'', u, rfl⟩
  · obtain ⟨rfl, hsame⟩ := List.append_inj' hsplit rfl
    cases hsame
    exact hv hx
  · rw [List.concat_eq_append, ← List.cons_append, ← List.append_assoc] at hsplit
    exact h d x d'' (List.append_inj' hsplit rfl).1 hx

theorem Begun.ignored (h : Begun plan p k (before ++ v :: m)) (hv : p v = true)
    (hk : before.countP p + 1 = k) : ∀ u ∈ m, matterOf plan u = .ignored := by
  intro u hu
  by_contra hne
  obtain ⟨m₁, m₂, rfl⟩ := List.append_of_mem hu
  have hlt := h (before ++ v :: m₁) u m₂ (by simp) hne
  rw [List.countP_append, List.countP_cons_of_pos hv] at hlt
  omega

end

namespace Surroundings.StopsAt

variable {env : Surroundings σ κ} {tree : FileTree κ}
  {parser : Path → Except Tag.ParseError Tag.Metadata} {k : Nat} {heard : σ → Nat}
  (h : env.StopsAt tree parser k heard)
include h

theorem isAborted_eq_false {w : σ} : env.isAborted w = false ↔ heard w < k := by
  rw [h.isAborted, decide_eq_false_iff_not, Nat.not_le]

theorem abortStays : env.AbortStays where
  wait := fun {w} hw => by
    rw [h.isAborted, h.wait, ← h.isAborted]
    exact hw
  report := fun {w} progress hw => by
    rw [h.isAborted, decide_eq_true_eq] at hw ⊢
    rw [h.report]
    split_ifs
    · omega
    · exact hw

variable {plan : Plan} {a : Account} {before after : List Visit} {v : Visit}
  (ha : a.progress.step = .scanFiles) (hall : shown tree plan = before ++ v :: after)
  (hopens : opens tree parser plan a.catalog v = true)
  (hk : before.countP (opens tree parser plan a.catalog) + 1 = k)
  (next : ∀ m x rest, after = m ++ x :: rest → (∀ u ∈ m, matterOf plan u = .ignored) →
    (matterOf plan x).isRefused = true → waits plan (before ++ [v]) = 0)
include ha hall hopens hk next

theorem chronicle : Chronicle env tree parser plan a (fun w => heard w < k) fun done w =>
    heard w = done.countP (opens tree parser plan a.catalog) ∧
      Begun plan (opens tree parser plan a.catalog) k done where
  calmed := fun hw => h.isAborted_eq_false.mp hw
  calmWait := fun hw => by rwa [h.wait]
  wait := fun hw => by rwa [h.wait]
  ignored := by
    intro done u w ⟨hheard, begun⟩ hu
    refine ⟨?_, begun.append fun hne => absurd hu hne⟩
    rw [hheard, List.countP_append]
    simp [opens, hu]
  unopened := by
    intro done rest u w entry _ ⟨hheard, begun⟩ calm hu hclosed
    refine ⟨?_, begun.append fun _ => hheard ▸ calm⟩
    rw [hheard, List.countP_append]
    simp [opens, hu, hclosed]
  opened := by
    intro done rest u w entry progress _ ⟨hheard, begun⟩ calm hu hopened hstep
    refine ⟨?_, begun.append fun _ => hheard ▸ calm⟩
    rw [h.report, if_pos (hstep.trans ha), hheard, List.countP_append]
    simp [opens, hu, hopened]
  refused := by
    intro done rest x w hsplit ⟨hheard, begun⟩ asked hx
    have closed : opens tree parser plan a.catalog x = false := by
      unfold opens
      cases hmatter : matterOf plan x with
      | ignored | refused => rfl
      | file entry =>
          rw [hmatter] at hx
          cases hx
    refine ⟨?_, begun.append fun _ => ?_⟩
    · rw [hheard, List.countP_append]
      simp [closed]
    · by_contra hle
      -- The scan was told to stop, so the file that it heard of last was still waiting.
      obtain ⟨m, rfl, hafter⟩ := exists_of_countP_lt
        (p := opens tree parser plan a.catalog) (hall ▸ hsplit) (by omega)
      have ignored := begun.ignored hopens hk
      have waiting : waits plan (before ++ v :: m) ≠ 0 := asked.resolve_left (by omega)
      rw [List.append_cons, waits_ignored ignored] at waiting
      exact waiting (next m x rest hafter ignored hx)

theorem scanFiles_stops (hcoherent : a.catalog.Coherent) {r : Run σ} (hpending : r.pending = [])
    (hr : a = { r.account with progress := { r.progress with total := r.stats.filesToScan } })
    (hheard : heard r.outside = 0) :
    Succeeds (scanFiles env plan) r fun _ t => k ≤ heard t.outside ∧ ∃ times : Entry → Int,
      (∀ entry, ∃ w, times entry = env.now w) ∧ t.account = (before ++ [v]).foldl
        (Account.settle plan (readingOf tree parser plan a.catalog) times) a := by
  have chronicle := h.chronicle ha hall hopens hk next
  refine (chronicle.scanFiles_accounts hcoherent h.toSteady hpending hr ⟨hheard, begun_nil⟩).imp ?_
    fun _ _ => id
  rintro _ t ⟨done, rest, hsplit, ⟨⟨times, clock, haccount⟩, hcount, begun⟩, hend⟩
  have reached : k ≤ heard t.outside := by
    rcases hend with rfl | hAborted
    · rw [hcount, ← List.append_nil done, ← hsplit, hall, List.countP_append,
        List.countP_cons_of_pos hopens]
      omega
    · exact of_decide_eq_true (h.isAborted t.outside ▸ hAborted)
  refine ⟨reached, ?_⟩
  -- Whatever was begun after the last file is ignored.
  obtain ⟨m, rfl, -⟩ := exists_of_countP_lt (p := opens tree parser plan a.catalog)
    (hall ▸ hsplit) (by omega)
  have ignored := begun.ignored hopens hk
  refine ⟨times, clock, ?_⟩
  rw [haccount, List.append_cons, List.foldl_append]
  exact foldl_ignored (fun a u hu => by rw [Account.settle, ignored u hu]) _

omit ha hopens hk next

variable (plan) in
theorem steps_stop {s : State} (hs : s.Coherent) (hopens : opens tree parser plan s v = true)
    (hk : before.countP (opens tree parser plan s) + 1 = k)
    (next : ∀ m x rest, after = m ++ x :: rest → (∀ u ∈ m, matterOf plan u = .ignored) →
      (matterOf plan x).isRefused = true → waits plan (before ++ [v]) = 0)
    {w : σ} (hw : heard w = 0) :
    Succeeds (Step.all.allM (takeStep env (perform env plan))) (Run.start w s) fun _ t =>
      k ≤ heard t.outside ∧ ∃ times : Entry → Int, (∀ entry, ∃ w, times entry = env.now w) ∧
        t.account = (before ++ [v]).foldl
          (Account.settle plan (readingOf tree parser plan s) times) (beginning tree plan s) := by
  have unheard {w : σ} (hw : heard w = 0) : env.isAborted w = false :=
    h.isAborted_eq_false.mpr (by omega)
  have quiet {w : σ} (hw : heard w = 0) : heard (env.wait w) = 0 := (h.wait w).trans hw
  refine allM_takeStep_ends (fun hAborted => ?_) fun _ => ?_
  · exact absurd ((unheard (quiet hw)).symm.trans hAborted) Bool.false_ne_true
  refine (countFiles_counts (Q := fun w => heard w = 0) quiet h.tree (quiet hw)).imp ?_ fun _ _ => id
  rintro _ t ⟨hheard, hcatalog, hpending, files, hstats, hfiles⟩
  have counted := hfiles.resolve_right (by simp [unheard hheard])
  refine allM_takeStep_ends (fun hAborted => ?_) fun _ => ?_
  · exact absurd ((unheard (quiet hheard)).symm.trans hAborted) Bool.false_ne_true
  have begun : beginning tree plan s =
      ⟨t.catalog, t.stats, { step := .scanFiles, total := t.stats.filesToScan }⟩ := by
    simp [beginning, hcatalog, hstats, counted, Run.start]
  refine (h.scanFiles_stops (a := beginning tree plan s) rfl hall hopens hk next hs
    (r := { t with outside := env.wait t.outside, progress := { step := .scanFiles } }) hpending
    begun (quiet hheard)).imp ?_ fun _ _ => id
  rintro _ u ⟨reached, hu⟩
  refine allM_takeStep_ends (fun _ => ⟨?_, hu⟩) fun hAborted => ?_
  · rwa [h.wait]
  · have := h.isAborted_eq_false.mp hAborted
    rw [h.wait] at this
    omega

/-- A scan that is told to stop by the report on a file deals with nothing after that file, whatever
the size of its batches, unless an entry that cannot be taken comes next, in the same batch. -/
theorem process_stops {s : State} (hs : Reachable s)
    (hopens : opens tree parser plan s v = true)
    (hk : before.countP (opens tree parser plan s) + 1 = k) (size : Nat)
    (next : ∀ m x rest, after = m ++ x :: rest → (∀ u ∈ m, matterOf plan u = .ignored) →
      (matterOf plan x).isRefused = true →
        waits { plan with batchSize := size } (before ++ [v]) = 0)
    {w : σ} (hw : heard w = 0) :
    ∃ r, process env { plan with batchSize := size } (Run.start w s) = .ok () r ∧
      r.isAborted = true ∧ ∃ times : Entry → Int, (∀ entry, ∃ w, times entry = env.now w) ∧
        r.account = (before ++ [v]).foldl
          (Account.settle plan (readingOf tree parser plan s) times) (beginning tree plan s) := by
  have told {w : σ} (hw : k ≤ heard w) : env.isAborted (env.wait w) = true := by
    rw [h.isAborted, h.wait]
    exact decide_eq_true hw
  have stopped := h.steps_stop { plan with batchSize := size } hall hs.coherent hopens hk next hw
  have done : Succeeds (process env { plan with batchSize := size }) (Run.start w s) fun _ r =>
      r.isAborted = true ∧ ∃ times : Entry → Int, (∀ entry, ∃ w, times entry = env.now w) ∧
        r.account = (before ++ [v]).foldl
          (Account.settle plan (readingOf tree parser plan s) times) (beginning tree plan s) := by
    apply Ends.bind stopped
    rintro _ t ⟨reached, ht⟩
    rw [Ends.bind_iff, Action.isAborted, observe_ends_iff, Ends.modify_iff]
    exact ⟨told reached, ht⟩
  obtain ⟨_, r, hrun, hr⟩ := succeeds_iff.mp done
  exact ⟨r, hrun, hr⟩

end Surroundings.StopsAt

/-- A world in which the scan is told to stop at its report number `k` on files. -/
def listening (tree : FileTree κ) (parser : Path → Except Tag.ParseError Tag.Metadata) (k : Nat) :
    Surroundings Nat κ where
  wait := id
  tree := fun _ => tree
  parse := fun _ => parser
  isAborted := fun heard => decide (k ≤ heard)
  clearAbort := fun _ => 0
  report := fun progress heard => if progress.step = .scanFiles then heard + 1 else heard
  now := fun _ => 0

theorem listening_stopsAt (tree : FileTree κ)
    (parser : Path → Except Tag.ParseError Tag.Metadata) (k : Nat) :
    (listening tree parser k).StopsAt tree parser k id :=
  ⟨⟨fun _ => rfl, fun _ => rfl⟩, fun _ => rfl, fun _ => rfl, fun _ _ => rfl⟩

def withUnnamed (songs : List (String × Int)) : FileTree Unit :=
  (album songs).put [Text.Utf8.encode "m", 0xff :: Text.Utf8.encode ".mp3"] (.file 0 ())

theorem process_stops_in_time : ∃ r,
    process (listening (withUnnamed [("a.mp3", 1), ("b.mp3", 1)]) soundOnly 2) (albumPlan false)
      (Run.start 0 {}) = .ok () r ∧ r.isAborted = true ∧ r.stats.filesToScan = 3 ∧
      r.stats.scans = 2 ∧ r.stats.failures = [] ∧ r.progress.processed = 2 := by
  have stops := listening_stopsAt (withUnnamed [("a.mp3", 1), ("b.mp3", 1)]) soundOnly 2
  have hall : shown (withUnnamed [("a.mp3", 1), ("b.mp3", 1)]) (albumPlan false) =
      [.file (Path.ofString "/m/a.mp3")] ++ .file (Path.ofString "/m/b.mp3") ::
        [.file ⟨Text.Utf8.encode "/m/" ++ 0xff :: Text.Utf8.encode ".mp3"⟩] := by
    decide +kernel
  obtain ⟨r, hrun, hAborted, times, clock, haccount⟩ := stops.process_stops (w := 0) hall .empty
    (by decide +kernel) (by decide +kernel) 2 (fun _ _ _ _ _ _ => by decide +kernel) rfl
  obtain rfl : times = fun _ => 0 := funext fun entry => (clock entry).choose_spec
  have hstats : r.stats = _ := congrArg Account.stats haccount
  have hprogress : r.progress = _ := congrArg Account.progress haccount
  refine ⟨r, hrun, hAborted, ?_⟩
  rw [hstats, hprogress]
  decide +kernel

/-- The song is still waiting when the entry after it comes, and it is reported in between: whether
that entry is noted depends on the size of the batches. -/
theorem process_outlasts_stop :
    (listening (withUnnamed [("a.mp3", 1)]) soundOnly 1).StopsAt (withUnnamed [("a.mp3", 1)])
        soundOnly 1 id ∧
      ∃ r t, process (listening (withUnnamed [("a.mp3", 1)]) soundOnly 1) (albumPlan false)
          (Run.start 0 {}) = .ok () r ∧
        process (listening (withUnnamed [("a.mp3", 1)]) soundOnly 1)
          { albumPlan false with batchSize := 1 } (Run.start 0 {}) = .ok () t ∧
        r.isAborted = true ∧ t.isAborted = true ∧ r.progress.processed = 2 ∧
        t.progress.processed = 1 ∧ r.stats.skipsOnError = 1 ∧ t.stats.skipsOnError = 0 ∧
        r.stats.failures ≠ [] ∧ t.stats.failures = [] := by
  have late : Succeeds (process (listening (withUnnamed [("a.mp3", 1)]) soundOnly 1)
      (albumPlan false)) (Run.start 0 {}) fun _ r => r.isAborted = true ∧
        r.progress.processed = 2 ∧ r.stats.skipsOnError = 1 ∧ r.stats.failures ≠ [] := by
    decide +kernel
  have inTime : Succeeds (process (listening (withUnnamed [("a.mp3", 1)]) soundOnly 1)
      { albumPlan false with batchSize := 1 }) (Run.start 0 {}) fun _ t => t.isAborted = true ∧
        t.progress.processed = 1 ∧ t.stats.skipsOnError = 0 ∧ t.stats.failures = [] := by
    decide +kernel
  obtain ⟨_, r, hrun, hr⟩ := succeeds_iff.mp late
  obtain ⟨_, t, hrun', ht⟩ := succeeds_iff.mp inTime
  exact ⟨listening_stopsAt _ _ _, r, t, hrun, hrun', hr.1, ht.1, hr.2.1, ht.2.1, hr.2.2.1,
    ht.2.2.1, hr.2.2.2, ht.2.2.2⟩

end AudioCatalog.Scan
