import AudioCatalog.Proofs.Dependability

namespace AudioCatalog

namespace Catalog.State

variable {P : State → Prop} {s t : State}

theorem syncSettings_keeps (coherent : ∀ {s}, P s → s.Coherent)
    (sameFiles : ∀ {s t}, P s → t.Coherent → s.SameFiles t → P t)
    (withSettings : ∀ {s} (settings : ScanSettings), P s → P { s with settings := settings })
    (names : List String) (hs : P s) :
    Ends (Session.syncSettings names) s (fun _ t => P t) fun _ _ => True :=
  (Session.syncSettings_adjusts (coherent hs) names).imp
    (fun _ _ ht => sameFiles (withSettings _ hs) ht.1 ht.2) fun _ _ => False.elim

theorem of_transact {α : Type} {work : Session α} {a : α}
    (hwork : Ends work s (fun _ t => P t) fun _ _ => True)
    (hrun : s.transact work = .ok (a, t)) : P t := by
  unfold transact at hrun
  unfold Ends at hwork
  split at hrun
  · rename_i hresult
    rw [hresult] at hwork
    cases hrun
    exact hwork
  · cases hrun

end Catalog.State

namespace Scan

open Catalog

/-- Catalogs that come about, from the empty one on, by bringing the settings up to date and by
scans by such plans, aborted or not, in any surroundings. -/
inductive Scanned (allowed : Plan → Prop) : State → Prop
  | empty : Scanned allowed {}
  | sync {s t : State} (hs : Scanned allowed s) (names : List String) {settings : ScanSettings}
      (hrun : s.transact (Session.syncSettings names) = .ok (settings, t)) : Scanned allowed t
  | scan {s : State} (hs : Scanned allowed s) {σ κ : Type} (env : Surroundings σ κ) {plan : Plan}
      (hplan : allowed plan) {w : σ} {r : Run σ}
      (hrun : process env plan (Run.start w s) = .ok () r) : Scanned allowed r.catalog

theorem Scanned.holds {allowed : Plan → Prop} {P : State → Prop} (empty : P {})
    (coherent : ∀ {s}, P s → s.Coherent)
    (sameFiles : ∀ {s t}, P s → t.Coherent → s.SameFiles t → P t)
    (withSettings : ∀ {s} (settings : ScanSettings), P s → P { s with settings := settings })
    (scan : ∀ {σ κ : Type} (env : Surroundings σ κ) {plan : Plan}, allowed plan → ∀ w s, P s →
      Succeeds (process env plan) (Run.start w s) fun _ r => P r.catalog)
    {s : State} (h : Scanned allowed s) : P s := by
  induction h with
  | empty => exact empty
  | sync _ names hrun ih =>
      exact State.of_transact (State.syncSettings_keeps coherent sameFiles withSettings names ih) hrun
  | @scan s _ _ _ env _ hplan w _ hrun ih =>
      have ends := scan env hplan w s ih
      rw [Succeeds, Ends, hrun] at ends
      exact ends

theorem exists_two_scans {σ κ : Type} (env env' : Surroundings σ κ) (plan plan' : Plan) (w w' : σ)
    {Q : Run σ → Run σ → Prop}
    (h : Succeeds (process env plan) (Run.start w {}) fun _ r =>
      Succeeds (process env' plan') (Run.start w' r.catalog) fun _ t => Q r t) :
    ∃ first r, process env plan (Run.start w {}) = .ok () first ∧
      process env' plan' (Run.start w' first.catalog) = .ok () r ∧ Q first r := by
  obtain ⟨_, first, hfirst, later⟩ := succeeds_iff.mp h
  obtain ⟨_, r, hrun, hr⟩ := succeeds_iff.mp later
  exact ⟨first, r, hfirst, hrun, hr⟩

theorem Scanned.listed {allowed : Plan → Prop} {s : State} (h : Scanned allowed s) :
    s.Coherent ∧ s.Listed := by
  refine h.holds (P := fun s => s.Coherent ∧ s.Listed)
    ⟨State.coherent_empty, State.listed_empty⟩ (fun hs => hs.1)
    (fun hs ht same => ⟨ht, same.listed hs.2⟩)
    (fun settings hs => ⟨hs.1.withSettings settings, hs.2⟩) fun env plan _ _ _ hs => ?_
  have evidence := Evidence.of_touchesOnly env plan (P := fun s => s.Coherent ∧ s.Listed)
    (fun hs => hs.1) fun hs only => ⟨only.coherent, only.listed hs.2⟩
  exact evidence.process_succeeds hs

end Scan

end AudioCatalog
