import AudioCatalog.Proofs.Account
import AudioCatalog.Proofs.Resolution

namespace AudioCatalog

namespace Catalog

section

variable {α ρ : Type} [Ord α] [Std.TransOrd α] {rows : Table α ρ} {a : α} {row : ρ}

theorem contains_of_row (h : rows[a]? = some row) : rows.contains a = true := by
  rw [Std.ExtTreeMap.contains_eq_isSome_getElem?, h, Option.isSome_some]

theorem size_insert_of_row (h : rows[a]? = some row) (other : ρ) :
    (rows.insert a other).size = rows.size := by
  rw [Std.ExtTreeMap.size_insert, if_pos (contains_of_row h)]

theorem size_insert_of_none (h : rows[a]? = none) (other : ρ) :
    (rows.insert a other).size = rows.size + 1 := by
  rw [Std.ExtTreeMap.size_insert, if_neg]
  rw [Std.ExtTreeMap.contains_eq_isSome_getElem?, h]
  exact Bool.false_ne_true

theorem size_erase_of_row (h : rows[a]? = some row) : (rows.erase a).size + 1 = rows.size := by
  have hne : rows.size ≠ 0 := by
    rintro hzero
    rw [Std.ExtTreeMap.eq_empty_iff_size_eq_zero.mpr hzero] at h
    simp at h
  rw [Std.ExtTreeMap.size_erase, if_pos (contains_of_row h)]
  omega

end

theorem State.Coherent.size_withNewTrack {s : State} (h : s.Coherent) (path : String) :
    (s.withNewTrack path).tracks.size = s.tracks.size + 1 :=
  size_insert_of_none h.tracks.numbered.getElem?_next _

end Catalog

namespace Scan

open Catalog Scan.Action

section Tracks

variable {s : State}

theorem applyMetadata_size (h : s.Coherent) {track : Track}
    (hrow : s.tracks[track.id]? = some track) (entry : Entry) (m : Tag.Metadata) (stamp : Stamp) :
    Succeeds (applyMetadata track entry m stamp) s fun _ t =>
      t.Coherent ∧ t.tracks.size = s.tracks.size := by
  refine (applyMetadata_writes h hrow entry m stamp).imp ?_ fun _ _ => id
  rintro _ _ ⟨x, rfl⟩
  refine ⟨x.result_coherent hrow entry stamp, ?_⟩
  rw [x.result_tracks, size_insert_of_row hrow]

def Outcome.Accounts (skipsDuplicates : Bool) (before after : Nat) : Outcome → Prop
  | .added => after = before + 1
  | .updated => after = before
  | .rejected why removesTrack =>
    after + removesTrack.toNat = before ∧ (skipsDuplicates = false → why ≠ .duplicate)

theorem Verdict.ne_duplicate {skipsDuplicates : Bool} {isDuplicated : Prop} {m : Tag.Metadata}
    {why : Rejection} (h : Verdict skipsDuplicates isDuplicated m (some why))
    (hkeeps : skipsDuplicates = false) : why ≠ .duplicate := by
  rintro rfl
  have hsound := h.eq_sound hkeeps
  unfold soundRejection? at hsound
  split_ifs at hsound <;> cases hsound

theorem reconcile_counts (h : s.Coherent) (skipsDuplicates : Bool) (entry : Entry)
    (m : Tag.Metadata) (stamp : Stamp) :
    Succeeds (reconcile skipsDuplicates entry m stamp) s fun outcome t =>
      t.Coherent ∧ outcome.Accounts skipsDuplicates s.tracks.size t.tracks.size := by
  apply reconcile_of_cases h
  · intro track why hrow _ _ verdict
    exact ⟨h.withoutTrack hrow, size_erase_of_row hrow, verdict.ne_duplicate⟩
  · intro why _ verdict
    exact ⟨h, rfl, verdict.ne_duplicate⟩
  · intro track hrow _ _ _
    exact applyMetadata_size h hrow entry m stamp
  · intro _ _
    refine (applyMetadata_size (h.withNewTrack entry.key) Std.ExtTreeMap.getElem?_insert_self entry
      m stamp).imp (fun _ t ht => ⟨ht.1, ?_⟩) fun _ _ => id
    exact ht.2.trans (h.size_withNewTrack entry.key)

theorem removeTracks_counts (ids : List TrackId) (h : s.Coherent) :
    Succeeds (removeAll Session.removeTrack ids) s fun removed t =>
      t.Coherent ∧ t.tracks.size + removed = s.tracks.size := by
  induction ids generalizing s with
  | nil => exact ⟨h, rfl⟩
  | cons id ids ih =>
      rw [removeAll, Succeeds, Ends.bind_iff, State.removeTrack_ends_iff]
      cases hrow : s.tracks[id]? with
      | none => exact Ends.bind (ih h) fun _ _ ht => ht
      | some track =>
          refine Ends.bind (ih (h.withoutTrack hrow)) fun removed t ht => ⟨ht.1, ?_⟩
          have hsize : (s.withoutTrack id track).tracks.size + 1 = s.tracks.size :=
            size_erase_of_row hrow
          rw [← ht.2] at hsize
          exact hsize

end Tracks

namespace Stats

def failed (s : Stats) (kind : FailureKind) : Nat := s.failures.countP fun f => f.kind = kind

/-- The files that a scan is done with: those that it scanned, left out or could not make out. -/
def finished (s : Stats) : Nat := s.scans + s.skips + s.skipsOnError + s.failed .cannotParse

def outcomes (s : Stats) : Nat :=
  s.additions + s.updates + s.failed .noAudio + s.failed .badDuration

structure Balanced (skipsDuplicates : Bool) (s : Stats) : Prop where
  le : s.outcomes ≤ s.scans
  eq : skipsDuplicates = false → s.outcomes = s.scans

theorem Balanced.of_eq {skipsDuplicates : Bool} {s c : Stats} (h : s.Balanced skipsDuplicates)
    (houtcomes : c.outcomes = s.outcomes) (hscans : c.scans = s.scans) :
    c.Balanced skipsDuplicates := by
  refine ⟨?_, fun hkeeps => ?_⟩
  · rw [houtcomes, hscans]
    exact h.le
  · rw [houtcomes, hscans]
    exact h.eq hkeeps

end Stats

namespace Outcome

variable {skipsDuplicates : Bool} {before after : Nat} {outcome : Outcome} (path : Path) (s : Stats)

theorem countedIn_scans : (outcome.countedIn path s).scans = s.scans := by
  rcases outcome with _ | _ | ⟨_ | _ | _, removesTrack⟩ <;> rfl

theorem countedIn_finished : (outcome.countedIn path s).finished = s.finished := by
  rcases outcome with _ | _ | ⟨_ | _ | _, removesTrack⟩ <;>
    simp [countedIn, Stats.finished, Stats.failed, Stats.withFailure]

theorem Accounts.tracks (h : outcome.Accounts skipsDuplicates before after) :
    after + (outcome.countedIn path s).deletions + s.additions =
      before + s.deletions + (outcome.countedIn path s).additions := by
  rcases outcome with _ | _ | ⟨why, removesTrack⟩
  · obtain rfl : after = before + 1 := h
    simp only [countedIn]
    omega
  · obtain rfl : after = before := h
    rfl
  · obtain ⟨rfl, -⟩ := h
    cases why <;> simp only [countedIn, Stats.withFailure] <;> omega

/-- Only a duplicate has no outcome of its own. -/
theorem Accounts.outcomes (h : outcome.Accounts skipsDuplicates before after) :
    (outcome.countedIn path s).outcomes = s.outcomes + 1 ∨
      skipsDuplicates = true ∧ (outcome.countedIn path s).outcomes = s.outcomes := by
  rcases outcome with _ | _ | ⟨_ | _ | _, removesTrack⟩
  · left
    simp +arith [countedIn, Stats.outcomes, Stats.failed]
  · left
    simp +arith [countedIn, Stats.outcomes, Stats.failed]
  · right
    refine ⟨?_, rfl⟩
    by_contra hkeeps
    exact h.2 (Bool.eq_false_iff.mpr hkeeps) rfl
  · left
    simp +arith [countedIn, Stats.outcomes, Stats.failed, Stats.withFailure]
  · left
    simp +arith [countedIn, Stats.outcomes, Stats.failed, Stats.withFailure]

theorem Accounts.balanced (h : outcome.Accounts skipsDuplicates before after)
    (hs : s.Balanced skipsDuplicates) :
    (outcome.countedIn path { s with scans := s.scans + 1 }).Balanced skipsDuplicates := by
  have hle := hs.le
  have more := h.outcomes path { s with scans := s.scans + 1 }
  have unscanned : Stats.outcomes { s with scans := s.scans + 1 } = s.outcomes := rfl
  rw [unscanned] at more
  refine ⟨?_, fun hkeeps => ?_⟩
  · rw [countedIn_scans]
    dsimp only
    omega
  · rcases more with more | ⟨hskips, -⟩
    · rw [countedIn_scans, more, hs.eq hkeeps]
    · exact absurd (hkeeps.symm.trans hskips) Bool.false_ne_true

end Outcome

/-- The counts agree with each other, and with how many tracks there are instead of those of `s`. -/
structure Account.Tallies (plan : Plan) (s : State) (a : Account) : Prop where
  coherent : a.catalog.Coherent
  tracks : a.catalog.tracks.size + a.stats.deletions = s.tracks.size + a.stats.additions
  balanced : a.stats.Balanced plan.skipsDuplicates

namespace Account.Tallies

variable {plan : Plan} {s : State} {a : Account} (h : a.Tallies plan s)
include h

theorem noted {stats : Stats} {progress : Progress}
    (hdeletions : stats.deletions = a.stats.deletions)
    (hadditions : stats.additions = a.stats.additions)
    (houtcomes : stats.outcomes = a.stats.outcomes) (hscans : stats.scans = a.stats.scans) :
    Account.Tallies plan s ⟨a.catalog, stats, progress⟩ := by
  refine ⟨h.coherent, ?_, h.balanced.of_eq houtcomes hscans⟩
  rw [hdeletions, hadditions]
  exact h.tracks

theorem removed {t : State} {n : Nat} (ht : t.Coherent)
    (htracks : t.tracks.size + n = a.catalog.tracks.size) : Account.Tallies plan s
      ⟨t, { a.stats with deletions := a.stats.deletions + n }, a.progress⟩ := by
  refine ⟨ht, ?_, h.balanced.of_eq rfl rfl⟩
  have hbefore := h.tracks
  dsimp only
  omega

theorem take (entry : Entry) (now : Int) {reading : Reading} (known : reading.IsKnown) :
    (a.take plan entry now reading).Tallies plan s ∧
      (a.take plan entry now reading).stats.finished = a.stats.finished + 1 := by
  cases reading with
  | unreadable cause =>
      refine ⟨h.noted rfl rfl ?_ rfl, ?_⟩
      · simp [Stats.outcomes, Stats.failed, Stats.withFailure]
      · simp +arith [Account.take, Stats.finished, Stats.failed, Stats.withFailure]
  | unchanged =>
      refine ⟨h.noted rfl rfl rfl rfl, ?_⟩
      simp +arith [Account.take, Stats.finished, Stats.failed]
  | unparsable e =>
      refine ⟨h.noted rfl rfl ?_ rfl, ?_⟩
      · simp [Stats.outcomes, Stats.failed, Stats.withFailure]
      · simp +arith [Account.take, Stats.finished, Stats.failed, Stats.withFailure]
  | unknown => exact known.elim
  | parsed time m =>
      obtain ⟨outcome, t, hrun, ht, accounts⟩ := exists_transact_eq
        (reconcile_counts h.coherent plan.skipsDuplicates entry m ⟨time, plan.scanVersion, now⟩)
      simp only [Account.take, hrun]
      refine ⟨⟨ht, ?_, accounts.balanced entry.path a.stats h.balanced⟩, ?_⟩
      · have htracks := h.tracks
        have hmoved := accounts.tracks entry.path { a.stats with scans := a.stats.scans + 1 }
        dsimp only at htracks hmoved ⊢
        omega
      · rw [Outcome.countedIn_finished]
        simp +arith [Stats.finished, Stats.failed]

end Account.Tallies

end Scan

end AudioCatalog
