import AudioCatalog.Proofs.Account

namespace AudioCatalog.Scan

open Catalog Scan.Action

variable {σ κ : Type}

abbrev shown (tree : FileTree κ) (plan : Plan) : List Visit :=
  Walk.visits tree plan.excludeMarker plan.root

def isAudio (plan : Plan) : Visit → Bool
  | .file path => FileExtension.isAccepted plan.audioExtensions path
  | .failure .. => false

structure Counted (Q : σ → Prop) (r : Run σ) (files : Nat) (t : Run σ) : Prop where
  world : Q t.outside
  catalog : t.catalog = r.catalog
  pending : t.pending = r.pending
  stats : t.stats = { r.stats with filesToScan := files }

section

variable {env : Surroundings σ κ} {tree : FileTree κ} {plan : Plan} {Q : σ → Prop}
  (wait : ∀ {w}, Q w → Q (env.wait w)) {r : Run σ}
include wait

theorem countVisit_spends (visit : Visit) :
    Spends (fun left t => ∃ done, shown tree plan = done ++ left ∧
        Counted Q r (r.stats.filesToScan + done.countP (isAudio plan)) t)
      (fun t => env.isAborted t.outside = true ∧ ∃ files, Counted Q r files t)
      [visit] (countVisit env plan visit) := by
  rintro left t ⟨done, hall, ht⟩
  have next : shown tree plan = (done ++ [visit]) ++ left := by rw [hall, List.append_assoc]
  have looked {files : Nat} {stats : Stats}
      (hstats : stats = { r.stats with filesToScan := files }) :
      Counted Q r files { t with outside := env.wait t.outside, stats := stats } :=
    ⟨wait ht.world, ht.catalog, ht.pending, hstats⟩
  rw [countVisit, Succeeds, Ends.bind_iff, Action.isAborted, observe_ends_iff]
  cases hAborted : env.isAborted (env.wait t.outside) with
  | true => exact ⟨hAborted, _, looked ht.stats⟩
  | false =>
      rw [if_neg Bool.false_ne_true]
      cases visit with
      | failure path cause => exact ⟨_, next, looked (by simp [ht.stats, isAudio])⟩
      | file path =>
          by_cases accepted : FileExtension.isAccepted plan.audioExtensions path = true
          · simp only [accepted, if_true]
            refine ⟨_, next, looked ?_⟩
            simp [ht.stats, isAudio, accepted, Nat.add_assoc]
          · simp only [accepted]
            exact ⟨_, next, looked (by simp [ht.stats, isAudio, accepted])⟩

/-- Counting the files changes nothing but the number of files to scan. Unless the scan is aborted,
that becomes the number of all audio files. -/
theorem countFiles_counts (still : ∀ w, env.tree w = tree) (hr : Q r.outside) :
    Succeeds (countFiles env plan) r fun _ t => Q t.outside ∧ t.catalog = r.catalog ∧
      t.pending = r.pending ∧ ∃ files, t.stats = { r.stats with filesToScan := files } ∧
        (files = r.stats.filesToScan + (shown tree plan).countP (isAudio plan) ∨
          env.isAborted t.outside = true) := by
  have begun : ∃ done, shown tree plan = done ++ (shown tree plan ++ []) ∧
      Counted Q r (r.stats.filesToScan + done.countP (isAudio plan)) r :=
    ⟨[], by rw [List.append_nil, List.nil_append], hr, rfl, rfl, rfl⟩
  refine Ends.bind (walk_spends still ?_ (countVisit_spends (Q := Q) wait) plan.root [] r begun) ?_
  · rintro left t ⟨done, hall, ht⟩
    exact ⟨done, hall, wait ht.world, ht.catalog, ht.pending, ht.stats⟩
  · intro goesOn t ht
    cases goesOn with
    | false =>
        obtain ⟨hAborted, files, ht⟩ := ht
        exact ⟨ht.world, ht.catalog, ht.pending, files, ht.stats, .inr hAborted⟩
    | true =>
        obtain ⟨done, hall, ht⟩ := ht
        rw [List.append_nil] at hall
        exact ⟨ht.world, ht.catalog, ht.pending, _, hall ▸ ht.stats, .inl rfl⟩

end

/-- What the world knows of the visits that were dealt with, in a scan that began with the account
`a`. It is kept while time passes; `calm` is what holds from a look at the world that found no
request to abort, until the scan reports something. An entry that cannot be taken is noted after
such a look, or after the files that waited. -/
structure Chronicle (env : Surroundings σ κ) (tree : FileTree κ)
    (parser : Path → Except Tag.ParseError Tag.Metadata) (plan : Plan) (a : Account)
    (calm : σ → Prop) (P : List Visit → σ → Prop) : Prop where
  calmed : ∀ {w}, env.isAborted w = false → calm w
  calmWait : ∀ {w}, calm w → calm (env.wait w)
  wait : ∀ {done w}, P done w → P done (env.wait w)
  ignored : ∀ {done v w}, P done w → matterOf plan v = .ignored → P (done ++ [v]) w
  refused : ∀ {done rest v w}, shown tree plan = done ++ v :: rest → P done w →
    calm w ∨ waits plan done ≠ 0 → (matterOf plan v).isRefused = true → P (done ++ [v]) w
  unopened : ∀ {done rest v w entry}, shown tree plan = done ++ v :: rest → P done w → calm w →
    matterOf plan v = .file entry →
      (readingOf tree parser plan a.catalog entry).isOpened = false → P (done ++ [v]) w
  opened : ∀ {done rest v w entry} (progress : Progress), shown tree plan = done ++ v :: rest →
    P done w → calm w → matterOf plan v = .file entry →
      (readingOf tree parser plan a.catalog entry).isOpened = true →
        progress.step = a.progress.step → P (done ++ [v]) (env.report progress w)

structure Accounted (env : Surroundings σ κ) (tree : FileTree κ)
    (parser : Path → Except Tag.ParseError Tag.Metadata) (plan : Plan) (a : Account)
    (P : List Visit → σ → Prop) (done : List Visit) (r : Run σ) : Prop where
  account : ∃ times : Entry → Int, (∀ entry, ∃ w, times entry = env.now w) ∧
    r.account = done.foldl (Account.settle plan (readingOf tree parser plan a.catalog) times) a
  world : P done r.outside

structure Stopped (env : Surroundings σ κ) (tree : FileTree κ)
    (parser : Path → Except Tag.ParseError Tag.Metadata) (plan : Plan) (a : Account)
    (P : List Visit → σ → Prop) (r : Run σ) : Prop where
  isAborted : env.isAborted r.outside = true
  dealt : ∃ done rest, shown tree plan = done ++ rest ∧ Accounted env tree parser plan a P done r

/-- All visits were dealt with but those of a batch that is waiting, and those that are left. -/
structure Midway (env : Surroundings σ κ) (tree : FileTree κ)
    (parser : Path → Except Tag.ParseError Tag.Metadata) (plan : Plan) (a : Account)
    (P : List Visit → σ → Prop) (done waiting left : List Visit) (r : Run σ) : Prop where
  all : shown tree plan = done ++ (waiting ++ left)
  dealt : Accounted env tree parser plan a P done r
  pending : r.pending = waiting.filterMap (entryOf? plan)
  unrefused : ∀ v ∈ waiting, (matterOf plan v).isRefused = false

def Batched (env : Surroundings σ κ) (tree : FileTree κ)
    (parser : Path → Except Tag.ParseError Tag.Metadata) (plan : Plan) (a : Account)
    (P : List Visit → σ → Prop) (left : List Visit) (r : Run σ) : Prop :=
  ∃ done waiting, Midway env tree parser plan a P done waiting left r ∧
    r.pending.length = waits plan (done ++ waiting)

section

variable {tree : FileTree κ} {plan : Plan} {done rest : List Visit}

theorem key_ne_of_shown (hall : shown tree plan = done ++ rest) {entry other : Entry}
    (hentry : entry ∈ rest.filterMap (entryOf? plan))
    (hother : other ∈ done.filterMap (entryOf? plan)) : other.key ≠ entry.key := by
  have distinct := entriesOf_nodup tree plan
  rw [entriesOf, show Walk.visits tree _ _ = done ++ rest from hall, List.filterMap_append,
    List.map_append] at distinct
  have apart := (List.nodup_append.mp distinct).2.2
  exact apart _ (List.mem_map_of_mem hother) _ (List.mem_map_of_mem hentry)

end

namespace Accounted

variable {env : Surroundings σ κ} {tree : FileTree κ}
  {parser : Path → Except Tag.ParseError Tag.Metadata} {plan : Plan} {a : Account}
  {P : List Visit → σ → Prop} {done rest : List Visit} {v : Visit} {entry : Entry} {r t : Run σ}
  (h : Accounted env tree parser plan a P done r)
include h

theorem coherent (ha : a.catalog.Coherent) : r.catalog.Coherent := by
  obtain ⟨times, -, haccount⟩ := h.account
  rw [show r.catalog = _ from congrArg Account.catalog haccount]
  exact (Account.foldl_settle_fileAt done ha).1

theorem readingOf_eq (ha : a.catalog.Coherent) (hall : shown tree plan = done ++ rest)
    (hentry : entry ∈ rest.filterMap (entryOf? plan)) :
    readingOf tree parser plan r.catalog entry = readingOf tree parser plan a.catalog entry := by
  apply readingOf_congr ha (h.coherent ha)
  obtain ⟨times, -, haccount⟩ := h.account
  rw [show r.catalog = _ from congrArg Account.catalog haccount]
  exact (Account.foldl_settle_fileAt done ha).2 entry.key fun other hother =>
    key_ne_of_shown hall hentry hother

theorem moved (haccount : t.account = r.account) (hworld : P done t.outside) :
    Accounted env tree parser plan a P done t :=
  ⟨haccount ▸ h.account, hworld⟩

theorem settled (haccount : ∀ read times, t.account = r.account.settle plan read times v)
    (hworld : P (done ++ [v]) t.outside) : Accounted env tree parser plan a P (done ++ [v]) t := by
  obtain ⟨times, clock, hr⟩ := h.account
  refine ⟨⟨times, clock, ?_⟩, hworld⟩
  rw [List.foldl_append, ← hr]
  exact haccount _ times

theorem taken {w : σ} (hall : shown tree plan = done ++ v :: rest)
    (hmatter : matterOf plan v = .file entry)
    (haccount : t.account = (r.account.take plan entry (env.now w)
      (readingOf tree parser plan a.catalog entry)).advance)
    (hworld : P (done ++ [v]) t.outside) : Accounted env tree parser plan a P (done ++ [v]) t := by
  obtain ⟨times, clock, hr⟩ := h.account
  refine ⟨⟨Function.update times entry (env.now w), fun other => ?_, ?_⟩, hworld⟩
  · by_cases hother : other = entry
    · exact ⟨w, by rw [hother, Function.update_self]⟩
    · rw [Function.update_of_ne hother]
      exact clock other
  · have earlier : done.foldl (Account.settle plan (readingOf tree parser plan a.catalog)
        (Function.update times entry (env.now w))) a = r.account := by
      rw [hr]
      apply Account.foldl_settle_congr
      intro other hother
      apply Function.update_of_ne
      rintro rfl
      have first : other ∈ (v :: rest).filterMap (entryOf? plan) := by
        rw [List.filterMap_cons_some (entryOf?_eq_some_iff.mpr hmatter)]
        exact List.mem_cons_self
      exact key_ne_of_shown hall first hother rfl
    rw [haccount, List.foldl_append, earlier, List.foldl_cons, List.foldl_nil, Account.settle,
      hmatter]
    simp only [Function.update_self]

end Accounted

namespace Midway

variable {env : Surroundings σ κ} {tree : FileTree κ}
  {parser : Path → Except Tag.ParseError Tag.Metadata} {plan : Plan} {a : Account}
  {P : List Visit → σ → Prop} {done waiting left : List Visit} {v : Visit} {r t : Run σ}

theorem begin (hall : shown tree plan = done ++ left)
    (ht : Accounted env tree parser plan a P done t) (hpending : t.pending = []) :
    Midway env tree parser plan a P done [] left t :=
  ⟨hall, ht, hpending, by simp⟩

theorem append (hr : Midway env tree parser plan a P done waiting (v :: left) r)
    (hv : (matterOf plan v).isRefused = false) (haccount : t.account = r.account)
    (hworld : P done t.outside) (hpending : t.pending = r.pending ++ (entryOf? plan v).toList) :
    Midway env tree parser plan a P done (waiting ++ [v]) left t where
  all := by rw [hr.all, List.append_assoc waiting, List.singleton_append]
  dealt := hr.dealt.moved haccount hworld
  pending := by
    rw [hpending, hr.pending, List.filterMap_append]
    cases hentry : entryOf? plan v <;> simp [hentry]
  unrefused := by
    intro other hother
    rcases List.mem_append.mp hother with hother | hother
    · exact hr.unrefused other hother
    · rwa [List.mem_singleton.mp hother]

end Midway

namespace Chronicle

variable {env : Surroundings σ κ} {tree : FileTree κ}
  {parser : Path → Except Tag.ParseError Tag.Metadata} {plan : Plan} {a : Account}
  {calm : σ → Prop} {P : List Visit → σ → Prop}
  (h : Chronicle env tree parser plan a calm P) (ha : a.catalog.Coherent)
  {done waiting left : List Visit} {r : Run σ}
include h ha

theorem finishFile_accounts {v : Visit} {rest : List Visit} {entry : Entry}
    (hall : shown tree plan = done ++ v :: rest) (hmatter : matterOf plan v = .file entry)
    (hr : Accounted env tree parser plan a P done r) :
    Succeeds (finishFile env plan entry (readingOf tree parser plan a.catalog entry)) r
      fun goesOn t => t.pending = r.pending ∧
        if goesOn then Accounted env tree parser plan a P (done ++ [v]) t
        else Stopped env tree parser plan a P t := by
  have known : (readingOf tree parser plan a.catalog entry).IsKnown := readingOf_known ha entry
  refine (Scan.finishFile_accounts (hr.coherent ha) entry known).imp ?_ fun _ _ => id
  rintro goesOn t ⟨hpending, polled, ht⟩
  refine ⟨hpending, ?_⟩
  cases goesOn with
  | false =>
      obtain rfl := ht
      exact ⟨polled, done, v :: rest, hall, hr.moved rfl (h.wait hr.world)⟩
  | true =>
      obtain ⟨haccount, houtside⟩ := ht
      have world := h.wait hr.world
      have nowCalm := h.calmed polled
      refine hr.taken hall hmatter haccount ?_
      cases hopened : (readingOf tree parser plan a.catalog entry).isOpened with
      | false =>
          rw [hopened] at houtside
          rw [houtside]
          exact h.unopened hall world nowCalm hmatter hopened
      | true =>
          rw [hopened] at houtside
          rw [houtside]
          refine h.opened t.progress hall world nowCalm hmatter hopened ?_
          obtain ⟨times, -, hr⟩ := hr.account
          have hprogress : t.progress.step = r.account.progress.step := by
            have := congrArg (fun a : Account => a.progress.step) haccount
            rwa [Account.advance_step, Account.take_progress] at this
          rw [hprogress, hr, Account.foldl_settle_step]

theorem finishFiles_accounts (hall : shown tree plan = done ++ (waiting ++ left))
    (unrefused : ∀ v ∈ waiting, (matterOf plan v).isRefused = false)
    (hr : Accounted env tree parser plan a P done r) :
    Succeeds (((waiting.filterMap (entryOf? plan)).map fun entry =>
        (entry, readingOf tree parser plan a.catalog entry)).allM
          fun (entry, reading) => finishFile env plan entry reading) r
      fun goesOn t => t.pending = r.pending ∧
        if goesOn then Accounted env tree parser plan a P (done ++ waiting) t
        else Stopped env tree parser plan a P t := by
  induction waiting generalizing done r with
  | nil => exact ⟨rfl, by rwa [List.append_nil]⟩
  | cons v waiting ih =>
      have next : shown tree plan = (done ++ [v]) ++ (waiting ++ left) := by
        rw [hall, List.append_assoc]
        rfl
      have rest : ∀ other ∈ waiting, (matterOf plan other).isRefused = false := fun other hother =>
        unrefused other (List.mem_cons_of_mem v hother)
      have together : done ++ v :: waiting = (done ++ [v]) ++ waiting := by
        rw [List.append_assoc]
        rfl
      rw [together]
      cases hmatter : matterOf plan v with
      | refused path message isAudioFile =>
          have := unrefused v List.mem_cons_self
          rw [hmatter] at this
          cases this
      | ignored =>
          rw [List.filterMap_cons_none (entryOf?_eq_none (by simp [hmatter]))]
          refine ih next rest (hr.settled (fun _ _ => ?_) (h.ignored hr.world hmatter))
          rw [Account.settle, hmatter]
      | file entry =>
          rw [List.filterMap_cons_some (entryOf?_eq_some_iff.mpr hmatter), List.map_cons]
          apply Ends.bind (h.finishFile_accounts ha hall hmatter hr)
          rintro goesOn t ⟨hpending, ht⟩
          cases goesOn with
          | false => exact ⟨hpending, ht⟩
          | true =>
              refine (ih next rest ht).imp ?_ fun _ _ => id
              exact fun _ u hu => ⟨hu.1.trans hpending, hu.2⟩

variable (steady : env.Steady tree parser)
include steady

theorem flush_accounts (hr : Midway env tree parser plan a P done waiting left r) :
    Succeeds (flush env plan) r fun goesOn t =>
      if goesOn then Accounted env tree parser plan a P (done ++ waiting) t ∧ t.pending = [] ∧
        (calm r.outside → calm t.outside ∨ r.pending ≠ [])
      else Stopped env tree parser plan a P t := by
  rw [flush, Succeeds, Ends.bind_iff, Ends.get_iff, Ends.bind_iff, Ends.modify_iff]
  apply Ends.bind (steady.readAll_succeeds (r := { r with pending := [] }) r.pending)
  rintro _ t ⟨rfl, ht⟩
  have dealt : Accounted env tree parser plan a P done t := by
    refine hr.dealt.moved ?_ (ht.outside (fun _ => h.wait) hr.dealt.world)
    obtain ⟨n, rfl⟩ := ht
    rfl
  have readings : (r.pending.map fun entry => (entry, readingOf tree parser plan r.catalog entry)) =
      (waiting.filterMap (entryOf? plan)).map fun entry =>
        (entry, readingOf tree parser plan a.catalog entry) := by
    rw [hr.pending]
    apply List.map_congr_left
    intro entry hentry
    rw [hr.dealt.readingOf_eq ha hr.all]
    rw [List.filterMap_append]
    exact List.mem_append_left _ hentry
  have finished := h.finishFiles_accounts ha hr.all hr.unrefused dealt
  rw [readings]
  cases hpending : r.pending with
  | nil =>
      rw [← hr.pending, hpending] at finished ⊢
      exact ⟨finished.2, ht.pending_eq, fun hcalm => .inl (ht.outside (fun _ => h.calmWait) hcalm)⟩
  | cons entry entries =>
      refine finished.imp ?_ fun _ _ => id
      rintro goesOn u ⟨hu, taken⟩
      cases goesOn with
      | false => exact taken
      | true =>
          exact ⟨taken, hu.trans ht.pending_eq, fun _ => .inr (by simp)⟩

section

variable {v : Visit} (hr : Midway env tree parser plan a P done waiting (v :: left) r)
  (hcount : r.pending.length = waits plan (done ++ waiting))
include hr hcount

theorem refuse_accounts (hcalm : calm r.outside) {path : Path} {message : String}
    {isAudioFile : Bool} (hmatter : matterOf plan v = .refused path message isAudioFile) :
    Succeeds (refuse env plan path message isAudioFile) r fun goesOn t =>
      if goesOn then Batched env tree parser plan a P left t
      else Stopped env tree parser plan a P t := by
  have hall : shown tree plan = (done ++ waiting) ++ v :: left := by
    rw [hr.all, List.append_assoc]
  apply Ends.bind (h.flush_accounts ha steady hr)
  intro goesOn t ht
  cases goesOn with
  | false => exact ht
  | true =>
      obtain ⟨dealt, hpending, stayed⟩ := ht
      have asked : calm t.outside ∨ waits plan (done ++ waiting) ≠ 0 := by
        refine (stayed hcalm).imp id fun hne => ?_
        rw [← hcount]
        exact fun he => hne (List.length_eq_zero_iff.mp he)
      have noted := h.refused hall dealt.world asked (by rw [hmatter]; rfl)
      have finished {u : Run σ} (haccount : u.account = t.account.refuse path message isAudioFile)
          (houtside : u.outside = t.outside) (hu : u.pending = []) :
          Batched env tree parser plan a P left u := by
        refine ⟨(done ++ waiting) ++ [v], [], .begin ?_ (dealt.settled ?_ ?_) hu, ?_⟩
        · rw [hall, List.append_assoc _ [v], List.singleton_append]
        · intro read times
          rw [haccount, Account.settle, hmatter]
        · rwa [houtside]
        · rw [List.append_nil, waits_append, hmatter, hu]
          rfl
      cases isAudioFile with
      | true => exact finished rfl rfl hpending
      | false => exact finished rfl rfl hpending

theorem enqueue_accounts {entry : Entry} (hmatter : matterOf plan v = .file entry) :
    Succeeds (enqueue env plan entry) r fun goesOn t =>
      if goesOn then Batched env tree parser plan a P left t
      else Stopped env tree parser plan a P t := by
  have hentry := entryOf?_eq_some_iff.mpr hmatter
  have queued : Midway env tree parser plan a P done (waiting ++ [v]) left
      { r with pending := r.pending ++ [entry] } :=
    hr.append (by rw [hmatter]; rfl) rfl hr.dealt.world (by rw [hentry]; rfl)
  have hlength : (r.pending ++ [entry]).length = waits plan (done ++ waiting) + 1 := by
    rw [List.length_append, hcount]
    rfl
  rw [enqueue, Succeeds, Ends.bind_iff, Ends.modify_iff, Ends.bind_iff, Ends.get_iff]
  split
  · rename_i room
    refine ⟨done, waiting ++ [v], queued, ?_⟩
    rw [← List.append_assoc, waits_append, hmatter]
    simp only [hlength] at room ⊢
    rw [if_pos room]
  · rename_i full
    refine (h.flush_accounts ha steady queued).imp ?_ fun _ _ => id
    intro goesOn t ht
    cases goesOn with
    | false => exact ht
    | true =>
        obtain ⟨dealt, hpending, -⟩ := ht
        have next := queued.all.trans (List.append_assoc _ _ _).symm
        refine ⟨done ++ (waiting ++ [v]), [], .begin next dealt hpending, ?_⟩
        rw [List.append_nil, ← List.append_assoc, waits_append, hmatter, hpending]
        simp only [hlength] at full ⊢
        rw [if_neg full]
        rfl

end

theorem scanVisit_accounts (v : Visit) :
    Spends (Batched env tree parser plan a P) (Stopped env tree parser plan a P) [v]
      (scanVisit env plan v) := by
  rintro left r ⟨done, waiting, hr, hcount⟩
  have world : P done (env.wait r.outside) := h.wait hr.dealt.world
  have looked : Midway env tree parser plan a P done waiting (v :: left)
      { r with outside := env.wait r.outside } :=
    ⟨hr.all, hr.dealt.moved rfl world, hr.pending, hr.unrefused⟩
  rw [scanVisit_eq, Succeeds, Ends.bind_iff, Action.isAborted, observe_ends_iff]
  cases hAborted : env.isAborted (env.wait r.outside) with
  | true => exact ⟨hAborted, done, _, looked.all, looked.dealt⟩
  | false =>
      rw [if_neg Bool.false_ne_true]
      cases hmatter : matterOf plan v with
      | ignored =>
          refine ⟨done, waiting ++ [v], looked.append (by rw [hmatter]; rfl) rfl world ?_, ?_⟩
          · simp [entryOf?_eq_none, hmatter]
          · rw [← List.append_assoc, waits_append, hmatter]
            exact hcount
      | refused path message isAudioFile =>
          exact h.refuse_accounts ha steady looked hcount (h.calmed hAborted) hmatter
      | file entry => exact h.enqueue_accounts ha steady looked hcount hmatter

/-- Where the scan of the files is given up, its account is that of the first visits, and else of
all of them. -/
theorem scanFiles_accounts (hpending : r.pending = [])
    (hr : a = { r.account with progress := { r.progress with total := r.stats.filesToScan } })
    (hworld : P [] r.outside) :
    Succeeds (scanFiles env plan) r fun _ t => ∃ done rest, shown tree plan = done ++ rest ∧
      Accounted env tree parser plan a P done t ∧
        (rest = [] ∨ env.isAborted t.outside = true) := by
  have stopped {t : Run σ} (ht : Stopped env tree parser plan a P t) :
      ∃ done rest, shown tree plan = done ++ rest ∧ Accounted env tree parser plan a P done t ∧
        (rest = [] ∨ env.isAborted t.outside = true) := by
    obtain ⟨done, rest, hall, dealt⟩ := ht.dealt
    exact ⟨done, rest, hall, dealt, .inr ht.isAborted⟩
  have begun : Accounted env tree parser plan a P []
      { r with progress := { r.progress with total := r.stats.filesToScan } } :=
    ⟨⟨fun _ => env.now r.outside, fun _ => ⟨r.outside, rfl⟩, hr.symm⟩, hworld⟩
  unfold scanFiles Succeeds
  rw [Ends.bind_iff, Ends.get_iff, Ends.bind_iff, expect, Ends.modify_iff]
  refine Ends.bind (walk_spends steady.tree ?_ (h.scanVisit_accounts ha steady) plan.root [] _
    ⟨[], [], .begin (by simp) begun hpending, ?_⟩) ?_
  · rintro left t ⟨done, waiting, ht, hcount⟩
    exact ⟨done, waiting, ⟨ht.all, ht.dealt.moved rfl (h.wait ht.dealt.world), ht.pending,
      ht.unrefused⟩, hcount⟩
  · show r.pending.length = _
    rw [hpending]
    rfl
  · intro goesOn t ht
    cases goesOn with
    | false => exact stopped ht
    | true =>
        obtain ⟨done, waiting, ht, -⟩ := ht
        apply Ends.bind (h.flush_accounts ha steady ht)
        intro goesOn u hu
        cases goesOn with
        | false => exact stopped hu
        | true =>
            refine ⟨done ++ waiting, [], ?_, hu.1, .inl rfl⟩
            rw [ht.all, List.append_assoc]

end Chronicle

end AudioCatalog.Scan
