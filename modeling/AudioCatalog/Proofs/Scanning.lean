import AudioCatalog.Proofs.Cleanup
import AudioCatalog.Proofs.Operation
import AudioCatalog.Proofs.Reading

namespace AudioCatalog.Scan

open Catalog Scan.Action

variable {σ κ : Type}

def Entry.Keyed (entry : Entry) : Prop := entry.path.key? = some entry.key

theorem Entry.Keyed.ext {entry other : Entry} (h : entry.Keyed) (h' : other.Keyed)
    (hkey : entry.key = other.key) : entry = other := by
  obtain ⟨path, key⟩ := entry
  obtain ⟨path', key'⟩ := other
  obtain rfl : key = key' := hkey
  obtain rfl : path = path' := Path.key?_inj h h'
  rfl

section

variable {env : Surroundings σ κ} {plan : Plan} {tell : Action σ Unit} {I : Run σ → Prop}
  (h : Timeless env I) (flushed : Maintains I (flush env plan tell))
  (queued : ∀ {r : Run σ} {entry : Entry}, entry.Keyed → I r →
    I { r with pending := r.pending ++ [entry] })

theorem refuse_maintains (flushed : Maintains I (flush env plan tell))
    (skipped : Maintains I (do
      count fun s => { s with skipsOnError := s.skipsOnError + 1 }
      advance 1))
    (failed : ∀ path message, Maintains I (fail path .cannotRead message)) (path : Path)
    (message : String) (isAudioFile : Bool) :
    Maintains I (refuse env plan path message isAudioFile tell) := by
  apply flushed.bind
  intro goesOn
  cases goesOn with
  | false => exact .pure false
  | true =>
      have noted : Maintains I (do
          fail path .cannotRead (some message)
          return true) := (failed path _).bind fun _ => .pure true
      cases isAudioFile with
      | true => exact skipped.bind fun _ => noted
      | false => exact noted

include h flushed queued

namespace Timeless

/-- Where a property survives a batch of files, it survives whatever a walk shows. -/
theorem scanVisit (refused : ∀ path message isAudioFile,
      Maintains I (refuse env plan path message isAudioFile tell)) (visit : Visit) :
    Maintains I (scanVisit env plan visit tell) := by
  apply (h.observe env.isAborted).bind
  intro isAborted
  cases isAborted with
  | true => exact .pure false
  | false =>
      cases visit with
      | failure path cause => exact refused _ _ _
      | file path =>
          by_cases accepted : FileExtension.isAccepted plan.audioExtensions path
          · cases hkey : path.key? with
            | none =>
                simp only [accepted, if_true, hkey]
                exact refused _ _ _
            | some key =>
                simp only [accepted, if_true, hkey]
                refine Maintains.bind (.modify fun r hr => queued hkey hr) fun _ => ?_
                refine .getBind fun r hr => ?_
                split
                · exact hr
                · exact flushed r hr
          · simp only [accepted]
            exact .pure true

theorem scanFiles (refused : ∀ path message isAudioFile,
      Maintains I (refuse env plan path message isAudioFile tell))
    (expected : ∀ total, Maintains I (expect total : Action σ Unit)) :
    Maintains I (scanFiles env plan tell) := by
  refine .getBind fun r hr => ?_
  refine ((expected _).bind fun _ =>
    (h.walk (h.scanVisit flushed queued refused) plan.root).bind ?_) r hr
  intro goesOn
  cases goesOn with
  | true => exact flushed.bind fun _ => .pure _
  | false => exact .pure _

end Timeless

end

theorem Endures.scanFiles {env : Surroundings σ κ} {plan : Plan} {P : σ → State → List Entry → Prop}
    (h : Endures env P) (flushed : Maintains (Holds P) (flush env plan))
    (queued : ∀ {w s es entry}, entry.Keyed → P w s es → P w s (es ++ [entry])) :
    Maintains (Holds P) (scanFiles env plan) :=
  h.timeless.scanFiles flushed queued
    (refuse_maintains flushed ((counted _).bind fun _ => advanced 1) fun _ _ => counted _)
    expected


/-- What survives a scan, given that files are taken over with evidence, which is kept while time
passes. -/
structure Evidence (env : Surroundings σ κ) (plan : Plan) (P : σ → State → Prop)
    (Dated : σ → Path → Int → Prop) (Parsed : σ → Path → Int → Tag.Metadata → Prop) : Prop where
  coherent : ∀ {w s}, P w s → s.Coherent
  wait : ∀ {w s}, P w s → P (env.wait w) s
  report : ∀ {w s} (progress : Progress), P w s → P (env.report progress w) s
  clearAbort : ∀ {w s}, P w s → P (env.clearAbort w) s
  sameFiles : ∀ {w s t}, P w s → t.Coherent → s.SameFiles t → P w t
  withoutTrack : ∀ {w s id track}, P w s → s.tracks[id]? = some track → P w (s.withoutTrack id track)
  taken : ∀ {w s t entry time m now outcome}, P w s → entry.Keyed → Parsed w entry.path time m →
    s.TouchesOnly entry.key t →
      Settled plan.skipsDuplicates (Duplicated s entry.key m) entry m ⟨time, plan.scanVersion, now⟩
        (t.fileAt entry.key) outcome → P w t
  dated : ∀ {w p time}, (env.tree w).lastWriteSeconds p = .ok time → Dated w p time
  parsed : ∀ {w p time m}, Dated w p time → env.parse w p = .ok m → Parsed w p time m
  datedWait : ∀ {w p time}, Dated w p time → Dated (env.wait w) p time
  parsedWait : ∀ {w p time m}, Parsed w p time m → Parsed (env.wait w) p time m
  parsedReport : ∀ {w p time m} (progress : Progress), Parsed w p time m →
    Parsed (env.report progress w) p time m

section

variable (Dated : σ → Path → Int → Prop) (Parsed : σ → Path → Int → Tag.Metadata → Prop)

def Reading.Backed (w : σ) (p : Path) : Reading → Prop
  | .parsed time m => Parsed w p time m
  | .unreadable _ | .unchanged | .unparsable _ => True
  | .unknown _ => False

def Stage.Backed (w : σ) (p : Path) : Stage → Prop
  | .waiting => True
  | .dated time => Dated w p time
  | .done reading => reading.Backed Parsed w p

theorem Reading.Backed.isKnown {Parsed : σ → Path → Int → Tag.Metadata → Prop} {w : σ} {p : Path}
    {reading : Reading} (h : reading.Backed Parsed w p) : reading.IsKnown := by
  cases reading with
  | unknown => exact h
  | unreadable | unchanged | unparsable | parsed => trivial

end

namespace Evidence

/-- What survives changes that bear on one path needs no evidence but for where metadata come from. -/
theorem of_source (env : Surroundings σ κ) (plan : Plan) {P : State → Prop}
    {source : Tag.Metadata → Prop} (tells : ∀ {w p m}, env.parse w p = .ok m → source m)
    (coherent : ∀ {s}, P s → s.Coherent)
    (touches : ∀ {s t key}, P s → s.TouchesOnly key t → P t) :
    Evidence env plan (fun _ => P) (fun _ _ _ => True) fun _ _ _ => source where
  coherent := coherent
  wait := id
  report := fun _ => id
  clearAbort := id
  sameFiles := fun hs ht same => touches hs (same.touchesOnly ht "")
  withoutTrack := fun hs hrow => touches hs ((coherent hs).withoutTrack_touchesOnly hrow).1
  taken := fun hs _ _ only _ => touches hs only
  dated := fun _ => trivial
  parsed := fun _ => tells
  datedWait := id
  parsedWait := id
  parsedReport := fun _ => id

theorem of_touchesOnly (env : Surroundings σ κ) (plan : Plan) {P : State → Prop}
    (coherent : ∀ {s}, P s → s.Coherent)
    (touches : ∀ {s t key}, P s → s.TouchesOnly key t → P t) :
    Evidence env plan (fun _ => P) (fun _ _ _ => True) fun _ _ _ _ => True :=
  of_source env plan (fun _ => trivial) coherent touches

variable {env : Surroundings σ κ} {plan : Plan} {P : σ → State → Prop}
  {Dated : σ → Path → Int → Prop} {Parsed : σ → Path → Int → Tag.Metadata → Prop}
  (h : Evidence env plan P Dated Parsed) {r t : Run σ}
include h

theorem ofWaits (ht : Waits env r t) (hr : P r.outside r.catalog) : P t.outside t.catalog := by
  rw [ht.catalog_eq]
  exact ht.outside (P := fun w => P w r.catalog) (fun _ => h.wait) hr

theorem readingWaits {p : Path} {reading : Reading} (ht : Waits env r t)
    (hreading : reading.Backed Parsed r.outside p) : reading.Backed Parsed t.outside p := by
  cases reading with
  | parsed time m =>
      exact ht.outside (P := fun w => Parsed w p time m) (fun _ => h.parsedWait) hreading
  | unreadable | unchanged | unparsable | unknown => exact hreading

theorem stageWaits {p : Path} {stage : Stage} (ht : Waits env r t)
    (hstage : stage.Backed Dated Parsed r.outside p) : stage.Backed Dated Parsed t.outside p := by
  cases stage with
  | waiting => trivial
  | dated time => exact ht.outside (P := fun w => Dated w p time) (fun _ => h.datedWait) hstage
  | done reading => exact h.readingWaits ht hstage

theorem parseFile_succeeds (entry : Entry) {time : Int} (hdated : Dated r.outside entry.path time) :
    Succeeds (parseFile env entry time) r fun reading t =>
      Waits env r t ∧ reading.Backed Parsed t.outside entry.path := by
  rw [parseFile, Succeeds, Ends.bind_iff, observe_ends_iff]
  cases hparse : env.parse (env.wait r.outside) entry.path with
  | ok m => exact ⟨.once r, h.parsed (h.datedWait hdated) hparse⟩
  | error e => exact ⟨.once r, trivial⟩

theorem dateFile_ends {α : Type} (hr : P r.outside r.catalog) (entry : Entry)
    {settled : Reading → α} {dated : Int → Action σ α} {ok : α → Run σ → Prop}
    {error : Catalog.Error → Run σ → Prop}
    (hsettled : ∀ (t : Run σ) (reading : Reading), Waits env r t →
      reading.Backed Parsed t.outside entry.path → ok (settled reading) t)
    (hdated : ∀ (t : Run σ) (time : Int), Waits env r t → Dated t.outside entry.path time →
      Ends (dated time) t ok error) :
    Ends (dateFile env plan entry settled dated) r ok error := by
  rw [dateFile, look, Ends.bind_iff, observe_ends_iff]
  cases htime : (env.tree (env.wait r.outside)).lastWriteSeconds entry.path with
  | error cause => exact hsettled _ _ (.once r) trivial
  | ok time =>
      dsimp only
      rw [Ends.bind_iff, Ends.get_iff, detectChange_eq (h.coherent hr)]
      cases changeOf (r.catalog.fileAt entry.key) time plan.scanVersion plan.isForced with
      | needsScan => exact hdated _ time (.once r) (h.dated htime)
      | unchanged => exact hsettled _ .unchanged (.once r) trivial

theorem takeTurn_succeeds (hr : P r.outside r.catalog) {entry : Entry} {stage : Stage}
    (hstage : stage.Backed Dated Parsed r.outside entry.path) :
    Succeeds (takeTurn env plan entry stage) r fun stage' t =>
      Waits env r t ∧ stage'.Backed Dated Parsed t.outside entry.path := by
  cases stage with
  | waiting =>
      apply h.dateFile_ends hr entry (fun t reading ht hreading => ⟨ht, hreading⟩)
      exact fun t time ht hdated => ⟨ht, hdated⟩
  | dated time => exact Ends.bind (h.parseFile_succeeds entry hstage) fun _ _ ht => ht
  | done reading => exact ⟨.refl r, hstage⟩

theorem finishReading_succeeds (hr : P r.outside r.catalog) {entry : Entry} {stage : Stage}
    (hstage : stage.Backed Dated Parsed r.outside entry.path) :
    Succeeds (finishReading env plan entry stage) r fun reading t =>
      Waits env r t ∧ reading.Backed Parsed t.outside entry.path := by
  cases stage with
  | waiting =>
      apply h.dateFile_ends hr entry (fun t reading ht hreading => ⟨ht, hreading⟩)
      intro t time ht hdated
      refine (h.parseFile_succeeds entry hdated).imp ?_ fun _ _ => id
      exact fun reading u ⟨hu, hreading⟩ => ⟨ht.trans hu, hreading⟩
  | dated time => exact h.parseFile_succeeds entry hstage
  | done reading => exact ⟨.refl r, hstage⟩

theorem readAll_succeeds (hr : P r.outside r.catalog) (entries : List Entry) :
    Succeeds (readAll env plan entries) r fun readings t => Waits env r t ∧
      ∀ file ∈ readings, file.1 ∈ entries ∧ file.2.Backed Parsed t.outside file.1.path := by
  unfold readAll Succeeds
  rw [Ends.bind_iff, observe_ends_iff]
  refine Ends.bind (Ends.foldlM (I := fun files t => Waits env r t ∧ ∀ file ∈ files,
    file.1 ∈ entries ∧ file.2.Backed Dated Parsed t.outside file.1.path) ?_ ⟨.once r, ?_⟩) ?_
  · rintro place - files t ⟨ht, hfiles⟩
    unfold takeTurnAt
    cases hfile : files[place]? with
    | none => exact ⟨ht, hfiles⟩
    | some file =>
        obtain ⟨hentry, hstage⟩ := hfiles file (List.mem_of_getElem? hfile)
        apply Ends.bind (h.takeTurn_succeeds (h.ofWaits ht hr) hstage)
        rintro stage u ⟨hu, hstage'⟩
        refine ⟨ht.trans hu, fun other hother => ?_⟩
        rcases List.mem_or_eq_of_mem_set hother with hother | rfl
        · exact ⟨(hfiles other hother).1, h.stageWaits hu (hfiles other hother).2⟩
        · exact ⟨hentry, hstage'⟩
  · rintro file hfile
    obtain ⟨entry, hentry, rfl⟩ := List.mem_map.mp hfile
    exact ⟨hentry, trivial⟩
  · rintro files t ⟨ht, hfiles⟩
    refine (Ends.mapM (I := fun readings u => Waits env t u ∧ ∀ file ∈ readings,
      file.1 ∈ entries ∧ file.2.Backed Parsed u.outside file.1.path) ?_ ⟨.refl t, by simp⟩).imp ?_
        fun _ _ => id
    · rintro file hfile readings u ⟨hu, hreadings⟩
      obtain ⟨hentry, hstage⟩ := hfiles file hfile
      refine Ends.bind (h.finishReading_succeeds (h.ofWaits (ht.trans hu) hr)
        (h.stageWaits hu hstage)) fun reading v ⟨hv, hreading⟩ => ?_
      refine ⟨hu.trans hv, fun other hother => ?_⟩
      rcases List.mem_append.mp hother with hother | hother
      · exact ⟨(hreadings other hother).1, h.readingWaits hv (hreadings other hother).2⟩
      · rw [List.mem_singleton.mp hother]
        exact ⟨hentry, hreading⟩
    · exact fun readings u ⟨hu, hreadings⟩ => ⟨ht.trans hu, hreadings⟩

theorem lasts : Lasts env fun w s es => P w s ∧ ∀ entry ∈ es, entry.Keyed where
  coherent := fun hs => h.coherent hs.1
  wait := fun hs => ⟨h.wait hs.1, hs.2⟩
  report := fun progress hs => ⟨h.report progress hs.1, hs.2⟩
  sameFiles := fun hs ht same => ⟨h.sameFiles hs.1 ht same, hs.2⟩

/-- While files are taken over, what was learned from the others stays true. -/
theorem lastsBacked (readings : List (Entry × Reading)) : Lasts env fun w s es =>
    (P w s ∧ ∀ entry ∈ es, entry.Keyed) ∧
      ∀ file ∈ readings, file.1.Keyed ∧ file.2.Backed Parsed w file.1.path where
  coherent := fun hs => h.coherent hs.1.1
  wait := fun {w s es} hs => by
    refine ⟨h.lasts.wait hs.1, fun (entry, reading) hfile => ⟨(hs.2 _ hfile).1, ?_⟩⟩
    have backed := (hs.2 _ hfile).2
    cases reading with
    | parsed time m => exact h.parsedWait backed
    | unreadable | unchanged | unparsable | unknown => exact backed
  report := fun progress hs => by
    refine ⟨h.lasts.report progress hs.1, fun (entry, reading) hfile => ⟨(hs.2 _ hfile).1, ?_⟩⟩
    have backed := (hs.2 _ hfile).2
    cases reading with
    | parsed time m => exact h.parsedReport progress backed
    | unreadable | unchanged | unparsable | unknown => exact backed
  sameFiles := fun hs ht same => ⟨h.lasts.sameFiles hs.1 ht same, hs.2⟩

theorem finishFiles (readings : List (Entry × Reading)) :
    Maintains (Holds fun w s es => (P w s ∧ ∀ entry ∈ es, entry.Keyed) ∧
        ∀ file ∈ readings, file.1.Keyed ∧ file.2.Backed Parsed w file.1.path)
      (readings.allM fun (entry, reading) => finishFile env plan entry reading) := by
  have backed := h.lastsBacked readings
  refine .allM fun (entry, reading) hfile => ?_
  apply (backed.observe env.isAborted).bind
  intro isAborted
  cases isAborted with
  | true => exact .pure false
  | false =>
      refine Maintains.bind (fun r hr => ?_) fun isOpened => ?_
      · obtain ⟨hkeyed, hreading⟩ := hr.2 _ hfile
        refine (takeOver_succeeds (h.coherent hr.1.1) entry hreading.isKnown).imp ?_ fun _ _ => id
        rintro isOpened t ⟨taken, houtside, hpending⟩
        rw [Holds, houtside, hpending]
        refine ⟨⟨?_, hr.1.2⟩, hr.2⟩
        cases reading with
        | parsed time m =>
            obtain ⟨only, outcome, settled⟩ := taken
            exact h.taken hr.1.1 hkeyed hreading only settled
        | unreadable | unchanged | unparsable => exact taken ▸ hr.1.1
        | unknown => exact hreading.elim
      · apply (Endures.advanced 1).bind
        intro _
        cases isOpened with
        | true => exact backed.reported.bind fun _ => .pure true
        | false => exact .pure true

theorem flush : Maintains (Holds fun w s es => P w s ∧ ∀ entry ∈ es, entry.Keyed)
    (flush env plan) := by
  refine .getBind fun r hr => ?_
  rw [Succeeds, Ends.bind_iff, Ends.modify_iff]
  apply Ends.bind (h.readAll_succeeds (r := { r with pending := [] }) hr.1 r.pending)
  rintro readings t ⟨ht, hreadings⟩
  refine (h.finishFiles readings t ⟨⟨h.ofWaits ht hr.1, ?_⟩, ?_⟩).imp (fun _ _ hu => hu.1)
    fun _ _ => id
  · rw [ht.pending_eq]
    simp
  · exact fun file hfile => ⟨hr.2 _ (hreadings file hfile).1, (hreadings file hfile).2⟩

theorem scanFiles : Maintains (Holds fun w s es => P w s ∧ ∀ entry ∈ es, entry.Keyed)
    (scanFiles env plan) :=
  h.lasts.scanFiles h.flush fun hkeyed hs =>
    ⟨hs.1, List.forall_mem_append.mpr ⟨hs.2, List.forall_mem_singleton.mpr hkeyed⟩⟩

theorem process_succeeds {w : σ} {s : State} (hs : P w s) :
    Succeeds (process env plan) (Run.start w s) fun _ r => P r.outside r.catalog := by
  have steps : Maintains (Holds fun w s es => P w s ∧ ∀ entry ∈ es, entry.Keyed)
      (process env plan) := by
    refine h.lasts.takeSteps (fun step => ?_) fun hs => ⟨h.clearAbort hs.1, hs.2⟩
    cases step with
    | countFiles => exact h.lasts.countFiles plan
    | scanFiles => exact h.scanFiles
    | removeOrphanTracks =>
        exact h.lasts.removeOrphanTracks plan fun hs hrow _ => ⟨h.withoutTrack hs.1 hrow, hs.2⟩
    | removeOrphanEntities => exact h.lasts.removeOrphanEntities
  exact (steps _ ⟨hs, by simp [Run.start]⟩).imp (fun _ _ hr => hr.1) fun _ _ => id

end Evidence

section

variable {env : Surroundings σ κ} {plan : Plan}

theorem readAll_length (entries : List Entry) (r : Run σ) :
    Ends (readAll env plan entries) r (fun readings _ => readings.length = entries.length)
      fun _ _ => True := by
  unfold readAll
  rw [Ends.bind_iff, observe_ends_iff]
  refine Ends.bind (Ends.foldlM (I := fun files _ => files.length = entries.length) ?_ ?_) ?_
  · intro place _ files t hfiles
    unfold takeTurnAt
    cases files[place]? with
    | none => exact hfiles
    | some file =>
        refine Ends.bind (.intro _ t) fun stage u _ => ?_
        rw [Ends.pure_iff, List.length_set, hfiles]
  · exact List.length_map _
  · intro files t hfiles
    refine (Ends.mapM_along (I := fun (done : List (Entry × Stage))
      (readings : List (Entry × Reading)) _ => readings.length = done.length) ?_ rfl).imp ?_
        fun _ _ => id
    · intro file _ done readings u hreadings
      refine Ends.bind (.intro _ u) fun reading v _ => ?_
      simp [hreadings]
    · exact fun readings _ hreadings => hreadings.trans hfiles

theorem readAll_known {r : Run σ} (hr : r.catalog.Coherent) (entries : List Entry) :
    Succeeds (readAll env plan entries) r fun readings t => Waits env r t ∧
      (∀ file ∈ readings, file.2.IsKnown) ∧ readings.length = entries.length := by
  have evidence := Evidence.of_touchesOnly env plan (P := State.Coherent) id
    fun _ only => only.coherent
  refine (Ends.and (evidence.readAll_succeeds hr entries) (readAll_length entries r)).imp ?_
    fun _ _ => And.left
  rintro readings t ⟨⟨ht, hreadings⟩, hlength⟩
  exact ⟨ht, fun file hfile => (hreadings file hfile).2.isKnown, hlength⟩

end

/-- A scan of a coherent catalog succeeds and leaves a coherent one, whatever happens around it. -/
theorem process_coherent (env : Surroundings σ κ) (plan : Plan) {s : State} (hs : s.Coherent)
    (w : σ) : Succeeds (process env plan) (Run.start w s) fun _ r => r.catalog.Coherent :=
  (Evidence.of_touchesOnly env plan id fun _ only => only.coherent).process_succeeds hs

/-- Catalogs that changes and scans lead to, from the empty one on, in whatever surroundings. A
change or a scan may also end with an error. -/
inductive Reachable : State → Prop
  | empty : Reachable {}
  | changed {s t : State} (hs : Reachable s) (m : Mutation) (hrun : m.run s = .ok () t) :
      Reachable t
  | refused {s t : State} (hs : Reachable s) (m : Mutation) {e : Catalog.Error}
      (hrun : m.run s = .error e t) : Reachable t
  | scanned {s : State} (hs : Reachable s) {σ κ : Type} (env : Surroundings σ κ) (plan : Plan)
      {w : σ} {r : Run σ} (hrun : process env plan (Run.start w s) = .ok () r) :
      Reachable r.catalog
  | failed {s : State} (hs : Reachable s) {σ κ : Type} (env : Surroundings σ κ) (plan : Plan)
      {w : σ} {r : Run σ} {e : Catalog.Error}
      (hrun : process env plan (Run.start w s) = .error e r) : Reachable r.catalog

theorem Reachable.coherent {s : State} (h : Reachable s) : s.Coherent := by
  induction h with
  | empty => exact State.coherent_empty
  | changed _ m hrun ih =>
      have := m.keeps_coherent _ ih
      rwa [Ends, hrun] at this
  | refused _ m hrun ih =>
      have := m.keeps_coherent _ ih
      rwa [Ends, hrun] at this
  | @scanned _ _ _ _ env plan w _ hrun ih =>
      have := process_coherent env plan ih w
      rwa [Succeeds, Ends, hrun] at this
  | @failed _ _ _ _ env plan w _ _ hrun ih =>
      have := process_coherent env plan ih w
      rw [Succeeds, Ends, hrun] at this
      exact this.elim

end AudioCatalog.Scan
