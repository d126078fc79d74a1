import AudioCatalog.Proofs.Commits
import AudioCatalog.Proofs.Heirs

namespace AudioCatalog

def Catalog.State.RecordingsUnique (s : State) : Prop :=
  ∀ (i j : TrackId) (track other : Track) (mbid : Mbid), s.tracks[i]? = some track →
    s.tracks[j]? = some other → track.recordingMbid = some mbid →
      other.recordingMbid = some mbid → i = j

def Catalog.State.recordings (s : State) : List (String × Option Mbid) :=
  s.tracks.toList.map fun row => (row.2.path, row.2.recordingMbid)

theorem Catalog.State.Distinct.recordingsUnique {s : State} (h : s.Distinct) :
    s.RecordingsUnique :=
  fun _ _ _ _ _ hrow hother hmbid hmbid' => h.row_unique hrow hother hmbid hmbid'

namespace Scan

open Catalog

/-- Catalogs that are published, from the empty one on, as the settings are brought up to date and
scans by such plans go on, the commits of different scans in any order. -/
inductive Published (allowed : Plan → Prop) : State → Prop
  | empty : Published allowed {}
  | sync {s t : State} (hs : Published allowed s) (names : List String) {settings : ScanSettings}
      (hrun : s.transact (Session.syncSettings names) = .ok (settings, t)) : Published allowed t
  | commit {s t : State} (hs : Published allowed s) {plan : Plan} (hplan : allowed plan)
      {written? : Option String} (h : Commit plan s t written?) : Published allowed t

namespace Published

variable {allowed : Plan → Prop} {s : State}

theorem holds {P : State → Prop} (h : Published allowed s) (empty : P {})
    (coherent : ∀ {s}, P s → s.Coherent)
    (sameFiles : ∀ {s t}, P s → t.Coherent → s.SameFiles t → P t)
    (withSettings : ∀ {s} (settings : ScanSettings), P s → P { s with settings := settings })
    (commit : ∀ {s t plan written?}, allowed plan → P s → Commit plan s t written? → P t) : P s := by
  induction h with
  | empty => exact empty
  | sync _ names hrun ih =>
      exact State.of_transact (State.syncSettings_keeps coherent sameFiles withSettings names ih) hrun
  | commit _ hplan h ih => exact commit hplan ih h

theorem coherent (h : Published allowed s) : s.Coherent :=
  h.holds State.coherent_empty id (fun _ ht _ => ht) (fun settings hs => hs.withSettings settings)
    fun _ hs hc => hc.coherent hs

theorem distinct (h : Published (fun plan => plan.skipsDuplicates = true) s) : s.Distinct :=
  h.holds State.distinct_empty (fun hs => hs.coherent) (fun hs ht same => hs.sameFiles ht same)
    (fun settings hs => hs.withSettings settings) fun hskips hs hc => hc.distinct hskips hs

/-- All that a scan publishes on its way is published. -/
theorem process (h : Published allowed s) {σ κ : Type} (env : Surroundings σ κ) (plan : Plan)
    (hplan : allowed plan) (w : σ) :
    Succeeds (process env plan) (Run.start w s) fun _ r => Published allowed r.catalog :=
  process_commits coherent env plan (fun hs hc => hs.commit hplan hc) h w

/-- Where all scans skip duplicates, no two tracks are of one recording in any catalog that is ever
published, and further such scans succeed and publish such catalogs. -/
theorem recordings_unique (h : Published (fun plan => plan.skipsDuplicates = true) s) :
    s.RecordingsUnique ∧
      ∀ {σ κ : Type} (env : Surroundings σ κ) (plan : Plan), plan.skipsDuplicates = true → ∀ w : σ,
        Succeeds (Scan.process env plan) (Run.start w s) fun _ r =>
          Published (fun plan => plan.skipsDuplicates = true) r.catalog ∧
            r.catalog.RecordingsUnique := by
  refine ⟨h.distinct.recordingsUnique, fun env plan hskips w => ?_⟩
  refine (h.process env plan hskips w).imp (fun _ r hr => ?_) fun _ _ => id
  exact ⟨hr, hr.distinct.recordingsUnique⟩

theorem recordings_unique_retagged : ∃ first r,
    Scan.process (quiet (album [("a.mp3", 1), ("b.mp3", 1)]) (recordedIn ["/m/a.mp3", "/m/b.mp3"]) 0)
      (albumPlan true) (Run.start [] {}) = .ok () first ∧
    Scan.process (quiet retagged (recordedIn ["/m/b.mp3"]) 0) (albumPlan true)
      (Run.start [] first.catalog) = .ok () r ∧
    first.catalog.recordings = [("/m/a.mp3", some someRecording)] ∧
    r.catalog.recordings = [("/m/a.mp3", none), ("/m/b.mp3", some someRecording)] ∧
    Published (fun plan => plan.skipsDuplicates = true) first.catalog ∧
    first.catalog.RecordingsUnique ∧ r.catalog.RecordingsUnique := by
  obtain ⟨first, r, hfirst, hrun, after⟩ := exists_two_scans
    (quiet (album [("a.mp3", 1), ("b.mp3", 1)]) (recordedIn ["/m/a.mp3", "/m/b.mp3"]) 0)
    (quiet retagged (recordedIn ["/m/b.mp3"]) 0) (albumPlan true) (albumPlan true) [] []
    (Q := fun _ r => r.catalog.recordings = [("/m/a.mp3", none), ("/m/b.mp3", some someRecording)])
    (by decide +kernel)
  have before : Succeeds (Scan.process
      (quiet (album [("a.mp3", 1), ("b.mp3", 1)]) (recordedIn ["/m/a.mp3", "/m/b.mp3"]) 0)
      (albumPlan true)) (Run.start [] {}) fun _ r =>
        r.catalog.recordings = [("/m/a.mp3", some someRecording)] := by decide +kernel
  have published := (empty : Published (fun plan => plan.skipsDuplicates = true) {}).process
    (quiet (album [("a.mp3", 1), ("b.mp3", 1)]) (recordedIn ["/m/a.mp3", "/m/b.mp3"]) 0)
    (albumPlan true) rfl []
  rw [Succeeds, Ends, hfirst] at before published
  obtain ⟨unique, later⟩ := recordings_unique published
  have ends := later (quiet retagged (recordedIn ["/m/b.mp3"]) 0) (albumPlan true) rfl []
  rw [Succeeds, Ends, hrun] at ends
  exact ⟨first, r, hfirst, hrun, before, after, published, unique, ends.2⟩

end Published

end Scan

end AudioCatalog
