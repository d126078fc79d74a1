import AudioCatalog.Proofs.Timeless

namespace AudioCatalog.Scan

open Catalog Scan.Action

variable {σ κ : Type}

/-- A property of the world, the catalog and the files that are waiting, which survives whatever a
scan does to the world until it ends. -/
structure Endures (env : Surroundings σ κ) (P : σ → State → List Entry → Prop) : Prop where
  wait : ∀ {w s es}, P w s es → P (env.wait w) s es
  report : ∀ {w s es} (p : Progress), P w s es → P (env.report p w) s es

/-- It also survives every change of the catalog that is not about files. -/
structure Lasts (env : Surroundings σ κ) (P : σ → State → List Entry → Prop) : Prop
    extends Endures env P where
  coherent : ∀ {w s es}, P w s es → s.Coherent
  sameFiles : ∀ {w s t es}, P w s es → t.Coherent → s.SameFiles t → P w t es

/-- A request to abort a scan stays until the scan drops it. -/
structure Surroundings.AbortStays (env : Surroundings σ κ) : Prop where
  wait : ∀ {w}, env.isAborted w = true → env.isAborted (env.wait w) = true
  report : ∀ {w} (progress : Progress), env.isAborted w = true →
    env.isAborted (env.report progress w) = true

structure GivenUp (env : Surroundings σ κ) (r : Run σ) : Prop where
  coherent : r.catalog.Coherent
  isAborted : env.isAborted r.outside = true

/-- The catalog has the property, unless the scan is aborted. -/
def Reached (env : Surroundings σ κ) (D : State → Prop) (w : σ) (s : State) (_ : List Entry) :
    Prop :=
  s.Coherent ∧ (env.isAborted w = true ∨ D s)

theorem Surroundings.AbortStays.lasts_reached {env : Surroundings σ κ} (stays : env.AbortStays)
    {D : State → Prop} (hsame : ∀ {s t}, D s → s.SameFiles t → D t) :
    Lasts env (Reached env D) where
  coherent := fun hs => hs.1
  wait := fun hs => ⟨hs.1, hs.2.imp stays.wait id⟩
  report := fun progress hs => ⟨hs.1, hs.2.imp (stays.report progress) id⟩
  sameFiles := fun hs ht same => ⟨ht, hs.2.imp id fun done => hsame done same⟩

def Holds (P : σ → State → List Entry → Prop) (r : Run σ) : Prop := P r.outside r.catalog r.pending

/-- What an abort would have prevented is so, where there was none. -/
theorem Surroundings.AbortStays.unaborted {env : Surroundings σ κ} (stays : env.AbortStays) {w : σ}
    {p : Prop} (h : env.isAborted w = true ∨ p) (hAborted : env.isAborted (env.wait w) = false) :
    p := by
  rcases h with isAborted | hp
  · exact absurd (hAborted.symm.trans (stays.wait isAborted)) Bool.false_ne_true
  · exact hp

theorem Surroundings.AbortStays.ends {env : Surroundings σ κ} (stays : env.AbortStays)
    {E : Run σ → Prop} (closes : ∀ {r} (isAborted : Bool), E r →
      E { r with isAborted := isAborted, outside := env.clearAbort (env.wait r.outside) })
    {x : Action σ Bool} {r : Run σ}
    (hx : Succeeds x r fun _ t => env.isAborted t.outside = true ∨ E t) :
    Succeeds (do
        let _ ← x
        let isAborted ← Action.isAborted env
        modify fun r => { r with isAborted := isAborted, outside := env.clearAbort r.outside }) r
      fun _ t => t.isAborted = false → E t := by
  apply Ends.bind hx
  intro _ t ht
  rw [Ends.bind_iff, Action.isAborted, observe_ends_iff, Ends.modify_iff]
  exact fun hAborted => closes _ (stays.unaborted ht hAborted)

theorem Surroundings.AbortStays.ends_reached {env : Surroundings σ κ} (stays : env.AbortStays)
    {D : State → Prop} {x : Action σ Bool} {r : Run σ}
    (hx : Succeeds x r fun _ => Holds (Reached env D)) :
    Succeeds (do
        let _ ← x
        let isAborted ← Action.isAborted env
        modify fun r => { r with isAborted := isAborted, outside := env.clearAbort r.outside }) r
      fun _ t => t.isAborted = false → D t.catalog :=
  stays.ends (fun _ done => done) (hx.imp (fun _ _ ht => ht.2) fun _ _ => id)

theorem isAborted_of_takeSteps {env : Surroundings σ κ} (never : ∀ w, env.isAborted w = false)
    {perform : Step → Action σ Unit} {r t : Run σ} (hrun : takeSteps env perform r = .ok () t) :
    t.isAborted = false := by
  have finished : Ends (takeSteps env perform) r (fun _ t => t.isAborted = false)
      fun _ _ => True := by
    apply Ends.bind (.intro _ r)
    intro _ t _
    rw [Ends.bind_iff, Action.isAborted, observe_ends_iff, Ends.modify_iff]
    exact never _
  rwa [Ends, hrun] at finished

namespace Endures

variable {env : Surroundings σ κ} {P : σ → State → List Entry → Prop} (h : Endures env P)
include h

theorem timeless : Timeless env (Holds P) := ⟨fun hr => h.wait hr⟩

theorem observe {α : Type} (f : σ → α) : Maintains (Holds P) (observe env f : Action σ α) :=
  h.timeless.observe f

theorem reported : Maintains (Holds P) (Scan.Action.report env) :=
  fun _ hr => h.report _ hr

omit h in
theorem books {f : Run σ → Run σ} (hf : ∀ r, (f r).catalog = r.catalog ∧
    (f r).outside = r.outside ∧ (f r).pending = r.pending) :
    Maintains (Holds P) (modify f : Action σ Unit) := by
  intro r hr
  obtain ⟨hcatalog, houtside, hpending⟩ := hf r
  rw [Succeeds, Ends.modify_iff, Holds, hcatalog, houtside, hpending]
  exact hr

omit h in
theorem counted (f : Stats → Stats) : Maintains (Holds P) (count f : Action σ Unit) :=
  books fun _ => ⟨rfl, rfl, rfl⟩

omit h in
theorem advanced (n : Nat) : Maintains (Holds P) (advance n : Action σ Unit) :=
  books fun _ => ⟨rfl, rfl, rfl⟩

omit h in
theorem expected (total : Nat) : Maintains (Holds P) (expect total : Action σ Unit) :=
  books fun _ => ⟨rfl, rfl, rfl⟩

omit h in
theorem transact {α : Type} {work : Session α} {r : Run σ}
    (hwork : Succeeds work r.catalog fun _ t => P r.outside t r.pending) :
    Succeeds (transact work) r fun _ => Holds P :=
  transact_ends_iff.mpr hwork

omit h in
theorem paced {r : Run σ} (total processed : Nat) (hr : Holds P r) :
    Holds P { r with progress := { r.progress with total := total, processed := processed } } := hr

theorem countFiles (plan : Plan) : Maintains (Holds P) (countFiles env plan) :=
  h.timeless.countFiles paced fun _ hr => hr

omit h in
theorem removeAll {α : Type} {remove : α → Session Bool} {l : List α} {Q : State → Prop}
    (hremove : ∀ a ∈ l, Maintains Q (remove a)) : Maintains Q (removeAll remove l) := by
  induction l with
  | nil => exact .pure 0
  | cons a l ih =>
      apply (hremove a (by simp)).bind
      intro _
      exact (ih fun b hb => hremove b (by simp [hb])).bind fun _ => .pure _

theorem takeStep_succeeds {perform : Step → Action σ Unit} {step : Step} {J : Run σ → Prop}
    (hperform : ∀ r, Holds P r → Succeeds (perform step) r fun _ => J) {r : Run σ}
    (hr : Holds P r) :
    Succeeds (takeStep env perform step) r fun goesOn t =>
      if goesOn then J t else Holds P t ∧ env.isAborted t.outside = true := by
  unfold takeStep Succeeds
  rw [Ends.bind_iff, Action.isAborted, observe_ends_iff]
  cases hAborted : env.isAborted (env.wait r.outside) with
  | true => exact ⟨h.wait hr, hAborted⟩
  | false =>
      rw [if_neg Bool.false_ne_true, Ends.bind_iff, Ends.modify_iff]
      exact Ends.bind (hperform _ (h.wait hr)) fun _ _ ht => ht

theorem takeStep {perform : Step → Action σ Unit} {step : Step}
    (hperform : Maintains (Holds P) (perform step)) :
    Maintains (Holds P) (takeStep env perform step) := by
  intro r hr
  refine (h.takeStep_succeeds hperform hr).imp (fun goesOn t ht => ?_) fun _ _ => id
  cases goesOn with
  | true => exact ht
  | false => exact ht.1

theorem takeSteps {perform : Step → Action σ Unit}
    (hperform : ∀ step, Maintains (Holds P) (perform step))
    (hclear : ∀ {w s es}, P w s es → P (env.clearAbort w) s es) :
    Maintains (Holds P) (takeSteps env perform) := by
  refine (Maintains.allM fun step _ => h.takeStep (hperform step)).bind fun _ => ?_
  apply (h.observe env.isAborted).bind
  intro isAborted
  exact .modify fun r hr => hclear hr

theorem takeSteps_eq {perform perform' : Step → Action σ Unit}
    (hperform : ∀ step, Maintains (Holds P) (perform step))
    (heq : ∀ step r, Holds P r → perform step r = perform' step r) {r : Run σ} (hr : Holds P r) :
    Scan.takeSteps env perform r = Scan.takeSteps env perform' r := by
  refine bind_eq_of_eq (Maintains.allM_eq (fun step _ => h.takeStep (hperform step)) ?_ hr)
  intro step _ t ht
  obtain ⟨isAborted, u, hrun, hu⟩ := succeeds_iff.mp (h.observe env.isAborted t ht)
  refine (bind_eq_of_ok hrun).trans (Eq.trans ?_ (bind_eq_of_ok hrun).symm)
  cases isAborted with
  | true => rfl
  | false => exact bind_eq_of_eq (heq step { u with progress := { step } } hu)

end Endures

namespace Lasts

variable {env : Surroundings σ κ} {P : σ → State → List Entry → Prop} (h : Lasts env P)
include h

theorem removeOrphanTracks (plan : Plan)
    (hremove : ∀ {id track w w' s es}, P w' s es → s.tracks[id]? = some track →
      (orphanReason? (env.tree w) plan (Path.ofString track.path)).isSome →
        P w' (s.withoutTrack id track) es) :
    Maintains (Holds P) (removeOrphanTracks env plan) := by
  refine .getBind fun r hr => ?_
  -- The paths were listed before the step, so tracks must keep theirs while it goes on.
  have now : Endures env fun w s es => P w s es ∧ r.catalog.HasTracksOf s :=
    ⟨fun hs => ⟨h.wait hs.1, hs.2⟩, fun p hs => ⟨h.report p hs.1, hs.2⟩⟩
  have pieces : Maintains (Holds fun w s es => P w s es ∧ r.catalog.HasTracksOf s)
      ((chunks (orphanBatchSize - 1) r.catalog.trackPaths).allM fun piece =>
        removeOrphansOf env plan piece) := by
    refine now.timeless.removeOrphansIn Endures.paced now.reported _ fun {t ids} ht hfound => ?_
    have remove : Succeeds (Scan.removeAll Session.removeTrack ids) t.catalog
        fun _ s => P t.outside s t.pending ∧ r.catalog.HasTracksOf s := by
      refine Endures.removeAll (Q := fun s => P t.outside s t.pending ∧ r.catalog.HasTracksOf s)
        (fun id hid s hs => ?_) t.catalog ht
      rw [Succeeds, State.removeTrack_ends_iff]
      cases hrow : s.tracks[id]? with
      | none => exact hs
      | some track =>
          obtain ⟨path, hpath, w, hreason⟩ := hfound id hid
          have hsame := hs.2.path_eq (h.coherent hr) hpath hrow
          exact ⟨hremove hs.1 hrow (hsame ▸ hreason), hs.2.withoutTrack id track⟩
    exact (Endures.transact (P := fun w s es => P w s es ∧ r.catalog.HasTracksOf s) remove).bind
      fun _ _ hu => hu
  have begun : Holds (fun w s es => P w s es ∧ r.catalog.HasTracksOf s) r := ⟨hr, .refl r.catalog⟩
  apply Ends.bind (Endures.expected _ r begun)
  intro _ t ht
  exact Ends.bind (pieces t ht) fun _ _ hu => hu.1

theorem removeOrphans {kind : Orphanage} (hremove : ∀ key, Session.Settles (kind.remove key)) :
    Maintains (Holds P) (removeOrphans env kind) := by
  refine h.timeless.removeOrphans fun {r keys} hr _ => Endures.transact ?_
  refine Endures.removeAll (Q := fun s => P r.outside s r.pending) (fun key _ t ht => ?_)
    r.catalog hr
  exact (hremove key t (h.coherent ht)).imp (fun _ _ hu => h.sameFiles ht hu.1 hu.2) fun _ _ => id

theorem removeOrphanEntities : Maintains (Holds P) (removeOrphanEntities env) := by
  refine (h.removeOrphans fun id s hs => hs.removeCluster_succeeds id).bind fun _ => ?_
  refine (h.removeOrphans fun id s hs => hs.removeArtist_succeeds id).bind fun _ => ?_
  refine (h.removeOrphans fun id s hs => hs.removeRelease_succeeds id).bind fun _ => ?_
  exact (Endures.expected _).bind fun _ => Endures.advanced _

/-- What one step brings about, and the steps after it leave so, a scan brings about that goes to
its end. -/
theorem takeSteps_reaches {perform : Step → Action σ Unit} (stays : env.AbortStays)
    {D : State → Prop} (before : List Step) (step : Step) (after : List Step)
    (hall : Step.all = before ++ step :: after)
    (hbefore : ∀ other ∈ before, Maintains (Holds P) (perform other))
    (hstep : ∀ r, Holds P r → Succeeds (perform step) r fun _ => Holds (Reached env D))
    (hsame : ∀ {s t}, D s → s.SameFiles t → D t)
    (hafter : ∀ other ∈ after, Maintains (Holds (Reached env D)) (perform other)) {r : Run σ}
    (hr : Holds P r) :
    Succeeds (Scan.takeSteps env perform) r fun _ t => t.isAborted = false → D t.catalog := by
  have reached := stays.lasts_reached hsame
  have aborted {t : Run σ} (ht : Holds P t ∧ env.isAborted t.outside = true) :
      Holds (Reached env D) t := ⟨h.coherent ht.1, .inl ht.2⟩
  have steps : Succeeds ((before ++ step :: after).allM (Scan.takeStep env perform)) r
      fun _ => Holds (Reached env D) := by
    clear hall
    -- On the steps before the one that matters; giving up on the way is as good as reaching it.
    induction before generalizing r with
    | nil =>
        apply Ends.bind (h.takeStep_succeeds hstep hr)
        intro goesOn t ht
        cases goesOn with
        | false => exact aborted ht
        | true => exact Maintains.allM (fun other hother => reached.takeStep (hafter other hother)) t ht
    | cons other before ih =>
        apply Ends.bind (h.takeStep_succeeds (hbefore other (by simp)) hr)
        intro goesOn t ht
        cases goesOn with
        | false => exact aborted ht
        | true => exact ih (fun other hother => hbefore other (by simp [hother])) ht
  rw [Scan.takeSteps, hall]
  exact stays.ends_reached steps

end Lasts

end AudioCatalog.Scan
