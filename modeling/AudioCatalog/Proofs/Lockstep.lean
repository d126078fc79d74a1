import AudioCatalog.Scan.Scanner

namespace AudioCatalog.Scan

open Scan.Action

variable {σ τ κ : Type}

structure Run.Alike (r : Run σ) (r' : Run τ) : Prop where
  catalog : r.catalog = r'.catalog
  progress : r.progress = r'.progress
  stats : r.stats = r'.stats
  pending : r.pending = r'.pending
  isAborted : r.isAborted = r'.isAborted

/-- The run in another world, which is to be read off from its own. -/
def Run.around (f : σ → τ) (r : Run σ) : Run τ :=
  ⟨f r.outside, r.catalog, r.progress, r.stats, r.pending, r.isAborted⟩

theorem Run.alike_around (f : σ → τ) (r : Run σ) : r.Alike (r.around f) :=
  ⟨rfl, rfl, rfl, rfl, rfl⟩

theorem Run.Alike.around_eq {f : σ → τ} {r : Run σ} {r' : Run τ} (h : r.Alike r')
    (houtside : f r.outside = r'.outside) : r.around f = r' := by
  obtain ⟨hcatalog, hprogress, hstats, hpending, hAborted⟩ := h
  cases r'
  simp_all [Run.around]

theorem Run.alike_of_around_eq {f : σ → τ} {r r' : Run σ} (h : r.around f = r'.around f) :
    r.Alike r' ∧ f r.outside = f r'.outside := by
  obtain ⟨houtside, hcatalog, hprogress, hstats, hpending, hAborted⟩ := Run.mk.inj h
  exact ⟨⟨hcatalog, hprogress, hstats, hpending, hAborted⟩, houtside⟩

/-- A relation of actions in two surroundings, and one of their worlds, so that equal changes of the
run are related and related actions can be put together. -/
structure Binds (World : σ → τ → Prop) (T : {α : Type} → Action σ α → Action τ α → Prop) :
    Prop where
  ofPure : ∀ {α : Type} (a : α), T (pure a) (pure a)
  ofThrow : ∀ {α : Type} (e : Catalog.Error), T (throw e : Action σ α) (throw e)
  ofBind : ∀ {α β : Type} {x : Action σ α} {y : Action τ α} {f : α → Action σ β}
    {g : α → Action τ β}, T x y → (∀ a, T (f a) (g a)) → T (x >>= f) (y >>= g)
  ofGet : ∀ {α : Type} {f : Run σ → Action σ α} {g : Run τ → Action τ α},
    (∀ r r', r.Alike r' → World r.outside r'.outside → T (f r) (g r')) → T (get >>= f) (get >>= g)
  ofModify : ∀ {f : Run σ → Run σ} {g : Run τ → Run τ},
    (∀ r r', r.Alike r' → (f r).Alike (g r')) → (∀ r, (f r).outside = r.outside) →
      (∀ r, (g r).outside = r.outside) → T (modify f) (modify g)

structure Lockstep (env : Surroundings σ κ) (env' : Surroundings τ κ) (World : σ → τ → Prop)
    (T : {α : Type} → Action σ α → Action τ α → Prop) : Prop extends Binds World T where
  ofLook : T (look env) (look env')
  ofIsAborted : T (isAborted env) (isAborted env')
  ofReport : T (report env) (report env')
  ofClearAbort : ∀ b : Bool,
    T (modify fun r => { r with isAborted := b, outside := env.clearAbort r.outside })
      (modify fun r => { r with isAborted := b, outside := env'.clearAbort r.outside })
  ofParse : ∀ path, T (observe env fun world => env.parse world path)
    (observe env' fun world => env'.parse world path)
  ofNow : ∀ {w : σ} {w' : τ}, World w w' → env.now w = env'.now w'

/-- The second action does in the other world what the first does in its own. -/
def Shadows (f : σ → τ) {α : Type} (x : Action σ α) (y : Action τ α) : Prop :=
  ∀ r, y (r.around f) =
    match x r with
    | .ok a t => .ok a (t.around f)
    | .error e t => .error e (t.around f)

theorem Shadows.binds (f : σ → τ) : Binds (fun w v => f w = v) (Shadows f) where
  ofPure := fun _ _ => rfl
  ofThrow := fun _ _ => rfl
  ofBind := by
    intro α β x y p q hxy hpq r
    simp only [Bind.bind, EStateM.bind, hxy r]
    cases x r with
    | ok a t => exact hpq a t
    | error e t => rfl
  ofGet := fun hpq r => hpq r (r.around f) (r.alike_around f) rfl r
  ofModify := by
    intro p q halike hp hq r
    have same := (halike r (r.around f) (r.alike_around f)).around_eq (f := f)
    show EStateM.Result.ok _ (q (r.around f)) = .ok _ ((p r).around f)
    rw [same (by rw [hp, hq]; rfl)]

namespace Lockstep

variable {env : Surroundings σ κ} {env' : Surroundings τ κ} {World : σ → τ → Prop}
  {T : {α : Type} → Action σ α → Action τ α → Prop} (h : Lockstep env env' World T)
include h

theorem allM {α : Type} {p : α → Action σ Bool} {q : α → Action τ Bool} {l : List α}
    (hpq : ∀ a ∈ l, T (p a) (q a)) : T (l.allM p) (l.allM q) := by
  induction l with
  | nil => exact h.ofPure true
  | cons a l ih =>
      apply h.ofBind (hpq a (by simp))
      intro b
      cases b with
      | false => exact h.ofPure false
      | true => exact ih fun b hb => hpq b (by simp [hb])

theorem mapM {α β : Type} {f : α → Action σ β} {g : α → Action τ β} {l : List α}
    (hfg : ∀ a ∈ l, T (f a) (g a)) : T (l.mapM f) (l.mapM g) := by
  induction l with
  | nil => exact h.ofPure []
  | cons a l ih =>
      rw [List.mapM_cons, List.mapM_cons]
      apply h.ofBind (hfg a (by simp))
      intro _
      exact h.ofBind (ih fun b hb => hfg b (by simp [hb])) fun _ => h.ofPure _

theorem foldlM {α β : Type} {f : β → α → Action σ β} {g : β → α → Action τ β} {l : List α}
    (hfg : ∀ b a, T (f b a) (g b a)) (b : β) : T (l.foldlM f b) (l.foldlM g b) := by
  induction l generalizing b with
  | nil => exact h.ofPure b
  | cons a l ih =>
      rw [List.foldlM_cons, List.foldlM_cons]
      exact h.ofBind (hfg b a) ih

theorem count (f : Stats → Stats) : T (count f) (count f) :=
  h.ofModify (fun _ _ hr => { hr with stats := congrArg f hr.stats }) (fun _ => rfl) fun _ => rfl

theorem advance (n : Nat) : T (advance n) (advance n) :=
  h.ofModify (fun _ _ hr => { hr with progress := by rw [hr.progress] }) (fun _ => rfl) fun _ => rfl

theorem expect (total : Nat) : T (expect total) (expect total) :=
  h.ofModify (fun _ _ hr => { hr with progress := by rw [hr.progress] }) (fun _ => rfl) fun _ => rfl

theorem fail (path : Path) (kind : FailureKind) (message : Option String) :
    T (fail path kind message) (fail path kind message) := h.count _

theorem transact {α : Type} (work : Catalog.Session α) : T (transact work) (transact work) := by
  apply h.ofGet
  intro r r' hr _
  rw [hr.catalog]
  cases r'.catalog.transact work with
  | error e => exact h.ofThrow e
  | ok result =>
      refine h.ofBind (h.ofModify ?_ (fun _ => rfl) fun _ => rfl) fun _ => h.ofPure _
      exact fun _ _ hr => { hr with catalog := rfl }

section Walk

variable {marker : String} {visit : Visit → Action σ Bool} {visit' : Visit → Action τ Bool}

theorem walkDirectory (hvisit : ∀ v, T (visit v) (visit' v)) (depth : Nat) (heedsMarker : Bool)
    (path : Path) :
    T (Walk.directory ⟨look env, marker, visit⟩ depth heedsMarker path)
      (Walk.directory ⟨look env', marker, visit'⟩ depth heedsMarker path) := by
  induction depth generalizing heedsMarker path with
  | zero => exact hvisit _
  | succ depth ih =>
      apply h.ofBind h.ofLook
      intro t
      dsimp only
      split
      · exact h.ofPure true
      · cases t.list path with
        | error cause => exact hvisit _
        | ok entries =>
            apply h.allM
            rintro ⟨name, kind⟩ _
            cases kind with
            | file => exact hvisit _
            | directory => exact ih true _
            | link => exact h.ofPure true

theorem walk (hvisit : ∀ v, T (visit v) (visit' v)) (root : Path) :
    T (Walk.run ⟨look env, marker, visit⟩ root) (Walk.run ⟨look env', marker, visit'⟩ root) := by
  apply h.ofBind h.ofLook
  intro t
  rcases t.kindOf root with cause | _ | _ | _
  · exact hvisit _
  · exact hvisit _
  · exact h.walkDirectory hvisit _ _ root
  · rcases t.target root with cause | ⟨_, _⟩ | _ | _
    · exact hvisit _
    · exact h.ofPure true
    · exact h.walkDirectory hvisit _ _ root
    · exact h.ofPure true

end Walk

variable (plan : Plan)

theorem countFiles : T (countFiles env plan) (countFiles env' plan) := by
  refine h.ofBind (h.walk (fun visit => ?_) plan.root) fun _ => ?_
  · apply h.ofBind h.ofIsAborted
    intro isAborted
    cases isAborted with
    | true => exact h.ofPure false
    | false =>
        cases visit with
        | failure path cause => exact h.ofPure true
        | file path =>
            by_cases accepted : FileExtension.isAccepted plan.audioExtensions path
            · simp only [accepted, if_true]
              exact h.ofBind (h.count _) fun _ => h.ofPure true
            · simp only [accepted]
              exact h.ofPure true
  · apply h.ofGet
    intro r r' hr _
    rw [hr.stats]
    exact h.ofBind (h.expect _) fun _ => h.advance _

theorem parseFile (entry : Entry) (time : Int) :
    T (parseFile env entry time) (parseFile env' entry time) := by
  apply h.ofBind (h.ofParse entry.path)
  intro result
  cases result with
  | ok m => exact h.ofPure _
  | error e => exact h.ofPure _

theorem dateFile {α : Type} (entry : Entry) (settled : Reading → α) {dated : Int → Action σ α}
    {dated' : Int → Action τ α} (hdated : ∀ time, T (dated time) (dated' time)) :
    T (dateFile env plan entry settled dated) (dateFile env' plan entry settled dated') := by
  apply h.ofBind h.ofLook
  intro t
  cases t.lastWriteSeconds entry.path with
  | error cause => exact h.ofPure _
  | ok time =>
      apply h.ofGet
      intro r r' hr _
      rw [hr.catalog]
      rcases detectChange r'.catalog entry.key time plan.scanVersion plan.isForced with e | _ | _
      · exact h.ofPure _
      · exact hdated time
      · exact h.ofPure _

theorem readFile (entry : Entry) : T (readFile env plan entry) (readFile env' plan entry) :=
  h.dateFile plan entry id fun time => h.parseFile entry time

theorem takeTurn (entry : Entry) (stage : Stage) :
    T (takeTurn env plan entry stage) (takeTurn env' plan entry stage) := by
  cases stage with
  | waiting => exact h.dateFile plan entry Stage.done fun time => h.ofPure _
  | dated time => exact h.ofBind (h.parseFile entry time) fun _ => h.ofPure _
  | done reading => exact h.ofPure _

theorem finishReading (entry : Entry) (stage : Stage) :
    T (finishReading env plan entry stage) (finishReading env' plan entry stage) := by
  cases stage with
  | waiting => exact h.readFile plan entry
  | dated time => exact h.parseFile entry time
  | done reading => exact h.ofPure _

theorem readAll (turns : T (observe env env.turns) (observe env' env'.turns))
    (entries : List Entry) : T (readAll env plan entries) (readAll env' plan entries) := by
  refine h.ofBind turns fun places => h.ofBind (h.foldlM (fun files place => ?_) _) fun files => ?_
  · unfold takeTurnAt
    cases files[place]? with
    | none => exact h.ofPure _
    | some file => exact h.ofBind (h.takeTurn plan file.1 file.2) fun _ => h.ofPure _
  · exact h.mapM fun (entry, stage) _ => h.ofBind (h.finishReading plan entry stage) fun _ => h.ofPure _

theorem countOutcome (path : Path) (outcome : Outcome) :
    T (countOutcome path outcome) (countOutcome path outcome) := by
  cases outcome with
  | added => exact h.count fun s => { s with additions := s.additions + 1 }
  | updated => exact h.count fun s => { s with updates := s.updates + 1 }
  | rejected why removesTrack =>
      cases removesTrack with
      | true =>
          apply h.ofBind (h.count _)
          intro _
          cases why with
          | duplicate => exact h.ofPure _
          | noAudio | badDuration => exact h.fail _ _ _
      | false =>
          cases why with
          | duplicate => exact h.ofPure _
          | noAudio | badDuration => exact h.fail _ _ _

theorem takeOver (entry : Entry) (reading : Reading) :
    T (takeOver env plan entry reading) (takeOver env' plan entry reading) := by
  cases reading with
  | unreadable cause =>
      exact h.ofBind (h.count _) fun _ => h.ofBind (h.fail _ _ _) fun _ => h.ofPure false
  | unchanged => exact h.ofBind (h.count _) fun _ => h.ofPure false
  | unparsable e => exact h.ofBind (h.fail _ _ _) fun _ => h.ofPure true
  | unknown e => exact h.ofThrow e
  | parsed time m =>
      refine h.ofBind (h.count _) fun _ => h.ofGet fun r r' _ hworld => ?_
      rw [h.ofNow hworld]
      exact h.ofBind (h.transact _) fun outcome =>
        h.ofBind (h.countOutcome entry.path outcome) fun _ => h.ofPure true

section Telling

variable {tell : Action σ Unit} {tell' : Action τ Unit} (telling : T tell tell')
include telling

theorem finishFile (entry : Entry) (reading : Reading) :
    T (finishFile env plan entry reading tell)
      (finishFile env' plan entry reading tell') := by
  apply h.ofBind h.ofIsAborted
  intro isAborted
  cases isAborted with
  | true => exact h.ofPure false
  | false =>
      refine h.ofBind (h.takeOver plan entry reading) fun isOpened => h.ofBind (h.advance 1) fun _ => ?_
      cases isOpened with
      | true => exact h.ofBind telling fun _ => h.ofPure true
      | false => exact h.ofPure true

section Batches

variable (hread : ∀ entries, T (Scan.readAll env plan entries) (Scan.readAll env' plan entries))
include hread

theorem flush : T (flush env plan tell) (flush env' plan tell') := by
  apply h.ofGet
  intro r r' hr _
  rw [hr.pending]
  refine h.ofBind (h.ofModify ?_ (fun _ => rfl) fun _ => rfl) fun _ => ?_
  · exact fun _ _ hr => { hr with pending := rfl }
  · exact h.ofBind (hread _) fun readings => h.allM fun (entry, reading) _ =>
      h.finishFile plan telling entry reading

theorem refuse (path : Path) (message : String) (isAudioFile : Bool) :
    T (refuse env plan path message isAudioFile tell)
      (refuse env' plan path message isAudioFile tell') := by
  apply h.ofBind (h.flush plan telling hread)
  intro goesOn
  cases goesOn with
  | false => exact h.ofPure false
  | true =>
      cases isAudioFile with
      | true =>
          exact h.ofBind (h.count _) fun _ => h.ofBind (h.advance 1) fun _ =>
            h.ofBind (h.fail _ _ _) fun _ => h.ofPure true
      | false => exact h.ofBind (h.fail _ _ _) fun _ => h.ofPure true

theorem enqueue (entry : Entry) :
    T (enqueue env plan entry tell) (enqueue env' plan entry tell') := by
  refine h.ofBind (h.ofModify ?_ (fun _ => rfl) fun _ => rfl) fun _ => ?_
  · exact fun _ _ hr => { hr with pending := by rw [hr.pending] }
  · apply h.ofGet
    intro r r' hr _
    rw [hr.pending]
    split
    · exact h.ofPure true
    · exact h.flush plan telling hread

theorem scanFiles : T (scanFiles env plan tell) (scanFiles env' plan tell') := by
  apply h.ofGet
  intro r r' hr _
  rw [hr.stats]
  refine h.ofBind (h.expect _) fun _ => h.ofBind (h.walk (fun visit => ?_) plan.root) fun goesOn => ?_
  · apply h.ofBind h.ofIsAborted
    intro isAborted
    cases isAborted with
    | true => exact h.ofPure false
    | false =>
        cases visit with
        | failure path cause => exact h.refuse plan telling hread _ _ _
        | file path =>
            by_cases accepted : FileExtension.isAccepted plan.audioExtensions path
            · simp only [accepted, if_true]
              cases path.key? with
              | some key => exact h.enqueue plan telling hread _
              | none => exact h.refuse plan telling hread _ _ _
            · simp only [accepted]
              exact h.ofPure true
  · cases goesOn with
    | true => exact h.ofBind (h.flush plan telling hread) fun _ => h.ofPure _
    | false => exact h.ofPure _

end Batches

omit telling in
theorem orphansAmong (tracks : List (TrackId × String)) :
    T (orphansAmong? env plan tracks) (orphansAmong? env' plan tracks) := by
  induction tracks with
  | nil => exact h.ofPure _
  | cons track rest ih =>
      apply h.ofBind h.ofIsAborted
      intro isAborted
      cases isAborted with
      | true => exact h.ofPure none
      | false =>
          refine h.ofBind h.ofLook fun t => h.ofBind (h.advance 1) fun _ => h.ofBind ih fun ids => ?_
          cases ids with
          | none => exact h.ofPure none
          | some ids => exact h.ofPure _

theorem removeOrphanTracks :
    T (removeOrphanTracks env plan tell) (removeOrphanTracks env' plan tell') := by
  apply h.ofGet
  intro r r' hr _
  rw [hr.catalog]
  refine h.ofBind (h.expect _) fun _ => h.ofBind (h.allM fun piece _ => ?_) fun _ => h.ofPure _
  apply h.ofBind (h.orphansAmong plan piece)
  intro ids
  cases ids with
  | none => exact h.ofPure false
  | some ids =>
      exact h.ofBind (h.transact _) fun _ => h.ofBind (h.count _) fun _ =>
        h.ofBind telling fun _ => h.ofPure true

end Telling

omit plan in
theorem takeUntilAborted {α : Type} (l : List α) :
    T (takeUntilAborted env l) (takeUntilAborted env' l) := by
  induction l with
  | nil => exact h.ofPure _
  | cons a rest ih =>
      apply h.ofBind h.ofIsAborted
      intro isAborted
      cases isAborted with
      | true => exact h.ofPure _
      | false => exact h.ofBind ih fun _ => h.ofPure _

omit plan in
theorem removeOrphans (kind : Orphanage) : T (removeOrphans env kind) (removeOrphans env' kind) := by
  have batches (rounds : Nat) : T (removeBatches env kind rounds) (removeBatches env' kind rounds) := by
    induction rounds with
    | zero => exact h.ofPure 0
    | succ rounds ih =>
        apply h.ofBind h.ofIsAborted
        intro isAborted
        cases isAborted with
        | true => exact h.ofPure 0
        | false =>
            apply h.ofGet
            intro r r' hr _
            rw [hr.catalog]
            apply h.ofBind (h.takeUntilAborted _)
            rintro ⟨taken, isAll⟩
            apply h.ofBind (h.transact _)
            intro removed
            split
            · exact h.ofPure removed
            · exact h.ofBind ih fun _ => h.ofPure _
  apply h.ofGet
  intro r r' hr _
  rw [hr.catalog]
  exact batches _

omit plan in
theorem removeOrphanEntities : T (removeOrphanEntities env) (removeOrphanEntities env') :=
  h.ofBind (h.removeOrphans _) fun _ => h.ofBind (h.removeOrphans _) fun _ =>
    h.ofBind (h.removeOrphans _) fun _ => h.ofBind (h.expect _) fun _ => h.advance _

omit plan in
theorem takeSteps {perform : Step → Action σ Unit} {perform' : Step → Action τ Unit}
    (hperform : ∀ step, T (perform step) (perform' step)) :
    T (takeSteps env perform) (takeSteps env' perform') := by
  refine h.ofBind (h.allM fun step _ => ?_) fun _ => ?_
  · apply h.ofBind h.ofIsAborted
    intro isAborted
    cases isAborted with
    | true => exact h.ofPure false
    | false =>
        refine h.ofBind (h.ofModify ?_ (fun _ => rfl) fun _ => rfl) fun _ => ?_
        · exact fun _ _ hr => { hr with progress := rfl }
        · exact h.ofBind (hperform step) fun _ => h.ofPure true
  · exact h.ofBind h.ofIsAborted fun isAborted => h.ofClearAbort isAborted

section Scans

variable (hread : ∀ entries, T (Scan.readAll env plan entries) (Scan.readAll env' plan entries))
include hread

theorem perform {tell : Action σ Unit} {tell' : Action τ Unit} (telling : T tell tell')
    (step : Step) : T (perform env plan step tell) (perform env' plan step tell') := by
  cases step with
  | countFiles => exact h.countFiles plan
  | scanFiles => exact h.scanFiles plan telling hread
  | removeOrphanTracks => exact h.removeOrphanTracks plan telling
  | removeOrphanEntities => exact h.removeOrphanEntities

theorem process : T (process env plan) (process env' plan) :=
  h.takeSteps fun step => h.perform plan hread h.ofReport step

end Scans

end Lockstep

end AudioCatalog.Scan
