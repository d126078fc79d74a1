import AudioCatalog.Proofs.Counts
import AudioCatalog.Proofs.ScanIntegrity

namespace AudioCatalog.Scan

open Catalog Scan.Action

variable {σ κ : Type}

structure Moment where
  progress : Progress
  stats : Stats
deriving DecidableEq

structure Minutes where
  reports : List Moment := []
  ends : List Moment := []
deriving DecidableEq

namespace Minutes

def scanReports (x : Minutes) : List Moment :=
  x.reports.filter fun m => m.progress.step = .scanFiles

end Minutes

def Run.moment (r : Run σ) : Moment := ⟨r.progress, r.stats⟩

/-- The same world, beside which minutes are taken. -/
def Surroundings.minuted (env : Surroundings σ κ) : Surroundings (σ × Minutes) κ where
  wait w := (env.wait w.1, w.2)
  tree w := env.tree w.1
  parse w := env.parse w.1
  isAborted w := env.isAborted w.1
  clearAbort w := (env.clearAbort w.1, w.2)
  report progress w := (env.report progress w.1, w.2)
  now w := env.now w.1
  turns w := env.turns w.1

def noteReport (env : Surroundings σ κ) : Action (σ × Minutes) Unit :=
  modify fun r =>
    let minutes := { r.outside.2 with reports := r.outside.2.reports ++ [r.moment] }
    { r with outside := (env.report r.progress r.outside.1, minutes) }

def noteEnd : Action (σ × Minutes) Unit :=
  modify fun r =>
    let minutes := { r.outside.2 with ends := r.outside.2.ends ++ [r.moment] }
    { r with outside := (r.outside.1, minutes) }

def processNoted (env : Surroundings σ κ) (plan : Plan) : Action (σ × Minutes) Unit :=
  takeSteps env.minuted fun step => do
    perform env.minuted plan step (noteReport env)
    noteEnd

abbrev Forgets {α : Type} (x : Action (σ × Minutes) α) (y : Action σ α) : Prop :=
  Shadows Prod.fst x y

variable (env : Surroundings σ κ)

theorem minuted_lockstep : Lockstep env.minuted env (fun w v => w.1 = v) Forgets where
  toBinds := Shadows.binds Prod.fst
  ofLook := fun _ => rfl
  ofIsAborted := fun _ => rfl
  ofReport := fun _ => rfl
  ofClearAbort := fun _ _ => rfl
  ofParse := fun _ _ => rfl
  ofNow := fun h => congrArg env.now h

theorem noteReport_forgets : Forgets (noteReport env) (report env) := fun _ => rfl

theorem noteEnd_forgets : Forgets (noteEnd : Action (σ × Minutes) Unit) (pure ()) := fun _ => rfl

variable (plan : Plan)

theorem readAll_forgets (entries : List Entry) :
    Forgets (readAll env.minuted plan entries) (readAll env plan entries) :=
  (minuted_lockstep env).readAll plan (fun _ => rfl) entries

theorem scanFiles_forgets :
    Forgets (scanFiles env.minuted plan (noteReport env)) (scanFiles env plan) :=
  (minuted_lockstep env).scanFiles plan (noteReport_forgets env) (readAll_forgets env plan)

/-- Whoever takes the minutes of a scan does not disturb it. -/
theorem process_forgets : Forgets (processNoted env plan) (process env plan) := by
  refine (minuted_lockstep env).takeSteps fun step => ?_
  rw [← bind_pure_unit (x := perform env plan step)]
  exact (minuted_lockstep env).ofBind ((minuted_lockstep env).perform plan (readAll_forgets env plan)
    (noteReport_forgets env) step) fun _ => noteEnd_forgets

theorem Shadows.succeeds {τ α : Type} {f : σ → τ} {x : Action σ α} {y : Action τ α} {r : Run σ}
    {ok : α → Run τ → Prop} (h : Shadows f x y) (hy : Succeeds y (r.around f) ok) :
    Succeeds x r fun a t => ok a (t.around f) := by
  rw [Succeeds, Ends, h r] at hy
  rw [Succeeds, Ends]
  cases hrun : x r <;> rwa [hrun] at hy

section Steps

variable {env : Surroundings σ κ} {plan : Plan}

def Noted (J : Account → Minutes → Prop) (r : Run (σ × Minutes)) : Prop := J r.account r.outside.2

omit env in
theorem noted_timeless (env : Surroundings σ κ) (J : Account → Minutes → Prop) :
    Timeless env.minuted (Noted J) := ⟨fun hr => hr⟩

/-- From where the first property holds, these steps of a scan lead to where the second does. -/
def Leads (env : Surroundings σ κ) (plan : Plan) (I F : Run (σ × Minutes) → Prop)
    (steps : List Step) : Prop :=
  ∀ r, I r → Succeeds (steps.allM (takeStep env.minuted fun step => do
    perform env.minuted plan step (noteReport env)
    noteEnd)) r fun _ => F

theorem Leads.cons {I J F : Run (σ × Minutes) → Prop} {step : Step} {steps : List Step}
    (aborted : ∀ {r}, I r → env.isAborted (env.wait r.outside.1) = true →
      F { r with outside := env.minuted.wait r.outside })
    (taken : ∀ {r}, I r → env.isAborted (env.wait r.outside.1) = false →
      Succeeds (perform env.minuted plan step (noteReport env))
        { r with outside := env.minuted.wait r.outside, progress := { step } }
        fun _ t => Ends noteEnd t (fun _ => J) fun _ _ => False)
    (rest : Leads env plan J F steps) : Leads env plan I F (step :: steps) := by
  intro r hr
  refine allM_takeStep_ends (aborted hr) fun hAborted => ?_
  rw [Ends.bind_iff]
  refine (taken hr hAborted).imp (fun _ t ht => ?_) fun _ _ => id
  exact Ends.imp ht (fun _ u hu => rest u hu) fun _ _ => id

/-- Something that outlives the removal of orphans, and the reports on it. -/
structure Outlives (J : Account → Minutes → Prop) : Prop where
  coherent : ∀ {a x}, J a x → a.catalog.Coherent
  paced : ∀ {a x} (total processed : Nat), J a x →
    J { a with progress := { a.progress with total := total, processed := processed } } x
  reported : ∀ {a x}, J a x → J a { x with reports := x.reports ++ [⟨a.progress, a.stats⟩] }
  removed : ∀ {a x t n}, J a x → t.Coherent → t.tracks.size + n = a.catalog.tracks.size →
    J ⟨t, { a.stats with deletions := a.stats.deletions + n }, a.progress⟩ x

namespace Outlives

variable {J : Account → Minutes → Prop} (h : Outlives J)
include h

theorem removeOrphanTracks : Maintains (Noted J)
    (removeOrphanTracks env.minuted plan (noteReport env)) := by
  have telling : Maintains (Noted J) (noteReport env) := .modify fun r hr => h.reported hr
  refine (noted_timeless env J).removeOrphanTracks (fun total processed hr =>
    h.paced total processed hr) telling fun {r} ids hr => ?_
  rw [Succeeds, Ends.bind_iff, transact_ends_iff]
  exact (removeTracks_counts ids (h.coherent hr)).imp (fun _ _ ht => h.removed hr ht.1 ht.2)
    fun _ _ => id

theorem removeOrphanEntities : Maintains (Noted J) (removeOrphanEntities env.minuted) := by
  refine (noted_timeless env J).removeOrphanEntities (fun total processed hr =>
    h.paced total processed hr) fun {kind r keys} hkind hr hkeys => transact_ends_iff.mpr ?_
  have settled := (Orphanage.removeAll_tracks hkind hkeys (h.coherent hr)).and
    (removeAll_forgets (Orphanage.remove_forgets hkind) keys (h.coherent hr))
  refine settled.imp (fun _ t ht => ?_) fun _ _ => id
  exact h.removed (n := 0) hr ht.2.coherent (congrArg (fun tracks => tracks.size) ht.1)

end Outlives

end Steps

end AudioCatalog.Scan
