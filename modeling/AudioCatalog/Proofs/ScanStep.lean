import AudioCatalog.Proofs.Reconciliation
import AudioCatalog.Scan.Scanner

namespace AudioCatalog.Scan

open Catalog Scan.Action

variable {σ κ : Type} {env : Surroundings σ κ} {plan : Plan} {r : Run σ}

@[simp]
theorem transact_ends_iff {α : Type} {work : Session α} {ok : α → Run σ → Prop}
    {error : Catalog.Error → Run σ → Prop} :
    Ends (transact work) r ok error ↔
      Ends work r.catalog (fun a s => ok a { r with catalog := s }) fun e _ => error e r := by
  rw [transact, Ends.bind_iff, Ends.get_iff, State.transact]
  unfold Ends
  cases work r.catalog <;> rfl

@[simp]
theorem observe_ends_iff {ε α : Type} {f : σ → α} {ok : α → Run σ → Prop}
    {error : ε → Run σ → Prop} :
    Ends (observe env f) r ok error ↔
      ok (f (env.wait r.outside)) { r with outside := env.wait r.outside } := Iff.rfl

def changeOf (file : Option Track) (lastWriteTime : Int) (scanVersion : Nat) (isForced : Bool) :
    Change :=
  if isForced then .needsScan
  else
    match file with
    | some file =>
      if file.lastWriteTime = lastWriteTime ∧ file.scanVersion = scanVersion then .unchanged
      else .needsScan
    | none => .needsScan

theorem changeOf_eq_unchanged {file : Option Track} {lastWriteTime : Int} {scanVersion : Nat}
    {isForced : Bool} (h : changeOf file lastWriteTime scanVersion isForced = .unchanged) :
    ∃ track, file = some track ∧ track.lastWriteTime = lastWriteTime ∧
      track.scanVersion = scanVersion := by
  unfold changeOf at h
  split_ifs at h
  cases file with
  | none => cases h
  | some track =>
      dsimp only at h
      split_ifs at h with hstamp
      exact ⟨track, rfl, hstamp⟩

theorem detectChange_eq {s : State} (h : s.Coherent) (key : String) (lastWriteTime : Int)
    (scanVersion : Nat) (isForced : Bool) :
    detectChange s key lastWriteTime scanVersion isForced =
      .ok (changeOf (s.fileAt key) lastWriteTime scanVersion isForced) := by
  unfold detectChange changeOf
  cases isForced with
  | true => rfl
  | false =>
      rcases h.findTrackByPath_cases key with ⟨track, hentry, hrow, -, hfind⟩ | ⟨hnone, hfind⟩
      · have hfile : s.fileAt key = some track.unlinked := by simp [State.fileAt, hentry, hrow]
        rw [hfind, hfile]
        by_cases same : track.lastWriteTime = lastWriteTime ∧ track.scanVersion = scanVersion
        · simp [Track.unlinked, bind, Except.bind, pure, Except.pure, same]
        · simp [Track.unlinked, bind, Except.bind, pure, Except.pure, same]
      · have hfile : s.fileAt key = none := by simp [State.fileAt, hnone]
        rw [hfind, hfile]
        rfl

structure OnlyCounts (r t : Run σ) : Prop where
  catalog : t.catalog = r.catalog
  outside : t.outside = r.outside
  pending : t.pending = r.pending

theorem countOutcome_succeeds (path : Path) (outcome : Outcome) :
    Succeeds (countOutcome path outcome) r fun _ => OnlyCounts r := by
  cases outcome with
  | added | updated => exact ⟨rfl, rfl, rfl⟩
  | rejected why removesTrack =>
      cases removesTrack <;> cases why <;> exact ⟨rfl, rfl, rfl⟩

/-- What taking over what was learned from a file makes of the catalog at time `now`. -/
def Taken (plan : Plan) (entry : Entry) (now : Int) (s t : State) : Reading → Prop
  | .parsed time m => s.TouchesOnly entry.key t ∧ ∃ outcome,
      Settled plan.skipsDuplicates (Duplicated s entry.key m) entry m ⟨time, plan.scanVersion, now⟩
        (t.fileAt entry.key) outcome
  | .unreadable _ | .unchanged | .unparsable _ => t = s
  | .unknown _ => False

theorem Taken.touchesOnly {entry : Entry} {now : Int} {s t : State} {reading : Reading}
    (h : Taken plan entry now s t reading) (hs : s.Coherent) : s.TouchesOnly entry.key t := by
  cases reading with
  | parsed time m => exact h.1
  | unreadable | unchanged | unparsable =>
      obtain rfl : t = s := h
      exact (State.SameFiles.refl t).touchesOnly hs entry.key
  | unknown => exact h.elim

def Reading.IsKnown : Reading → Prop
  | .unknown _ => False
  | _ => True

theorem takeOver_succeeds (h : r.catalog.Coherent) (entry : Entry) {reading : Reading}
    (known : reading.IsKnown) :
    Succeeds (takeOver env plan entry reading) r fun _ t =>
      Taken plan entry (env.now r.outside) r.catalog t.catalog reading ∧
        t.outside = r.outside ∧ t.pending = r.pending := by
  cases reading with
  | unreadable | unchanged | unparsable => exact ⟨rfl, rfl, rfl⟩
  | unknown => exact known.elim
  | parsed time m =>
      unfold takeOver Succeeds
      simp only [Ends.bind_iff, Ends.get_iff, transact_ends_iff, Ends.pure_iff]
      refine (reconcile_succeeds h plan.skipsDuplicates entry m _).imp ?_ fun _ _ => False.elim
      rintro outcome s ⟨only, settled⟩
      refine (countOutcome_succeeds entry.path outcome).imp ?_ fun _ _ => id
      rintro _ t ⟨hcatalog, houtside, hpending⟩
      rw [hcatalog]
      exact ⟨⟨only, outcome, settled⟩, houtside, hpending⟩

theorem finishFile_succeeds (h : r.catalog.Coherent) (entry : Entry) {reading : Reading}
    (known : reading.IsKnown) :
    Succeeds (finishFile env plan entry reading) r fun goesOn t => t.pending = r.pending ∧
      if goesOn then
        ∃ now, Taken plan entry now r.catalog t.catalog reading
      else t.catalog = r.catalog ∧ env.isAborted t.outside = true := by
  unfold finishFile Succeeds
  rw [Ends.bind_iff, Action.isAborted, observe_ends_iff]
  cases hAborted : env.isAborted (env.wait r.outside) with
  | true => exact ⟨rfl, rfl, hAborted⟩
  | false =>
      rw [if_neg Bool.false_ne_true, Ends.bind_iff]
      refine (takeOver_succeeds (r := { r with outside := env.wait r.outside }) h entry known).imp
        ?_ fun _ _ => id
      rintro isOpened t ⟨taken, houtside, hpending⟩
      cases isOpened with
      | true => exact ⟨hpending, _, taken⟩
      | false => exact ⟨hpending, _, taken⟩

end AudioCatalog.Scan
