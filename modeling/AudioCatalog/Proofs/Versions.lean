import AudioCatalog.Proofs.Commits
import AudioCatalog.Proofs.Dependability
import Mathlib.Logic.Relation

namespace AudioCatalog

namespace Catalog

theorem ScanSettings.adjusted_cases (settings : ScanSettings) (names : List String) :
    settings.adjusted names = settings ∨
      (settings.adjusted names).scanVersion = settings.scanVersion + 1 := by
  unfold adjusted
  split_ifs
  · exact .inl rfl
  · exact .inr rfl

end Catalog

namespace Scan

open Catalog Scan.Action

section Readings

variable {σ κ : Type} {env : Surroundings σ κ} {plan : Plan} {s : State} {r : Run σ}

end Readings

/-- A catalog with the memory of its scanners and of who wrote its tracks last. A scanner, and what
it writes, is dated by how often the settings had changed before it was made. -/
structure Annals where
  catalog : State := {}
  changes : Nat := 0
  scanners : List (Scanner × Nat) := []
  writers : String → Option Nat := fun _ => none

namespace Annals

def synced (a : Annals) (t : State) : Annals := { a with
  catalog := t
  changes := if t.settings = a.catalog.settings then a.changes else a.changes + 1 }

def committed (a : Annals) (made : Nat) (written? : Option String) (t : State) : Annals := { a with
  catalog := t
  writers := fun key => if written? = some key then some made else a.writers key }

inductive Step (a : Annals) : Annals → Prop
  | sync (names : List String) {settings : ScanSettings} {t : State}
      (hrun : a.catalog.transact (Session.syncSettings names) = .ok (settings, t)) :
      Step a (a.synced t)
  | make (c : Config) {scanner : Scanner} (hmade : Scanner.ofConfig c a.catalog = .ok scanner) :
      Step a { a with scanners := (scanner, a.changes) :: a.scanners }
  | commit {scanner : Scanner} {made : Nat} (hscanner : (scanner, made) ∈ a.scanners) (root : Path)
      (isForced : Bool) {t : State} {written? : Option String}
      (h : Commit (scanner.plan root isForced) a.catalog t written?) :
      Step a (a.committed made written? t)

def IsCurrent (a : Annals) (scanner : Scanner) : Prop := (scanner, a.changes) ∈ a.scanners

def IsOutdated (a : Annals) (key : String) : Prop :=
  ∃ writer, a.writers key = some writer ∧ writer < a.changes

structure Dated (a : Annals) : Prop where
  coherent : a.catalog.Coherent
  listed : a.catalog.Listed
  settings : a.catalog.settings.scanVersion = a.changes
  scanners : ∀ scanner made, (scanner, made) ∈ a.scanners →
    scanner.scanVersion = made ∧ made ≤ a.changes
  files : ∀ key file, a.catalog.fileAt key = some file →
    a.writers key = some file.scanVersion ∧ file.scanVersion ≤ a.changes

variable {a b : Annals}

namespace Dated

variable (h : a.Dated)
include h

theorem synced {names : List String} {settings : ScanSettings} {t : State}
    (hrun : a.catalog.transact (Session.syncSettings names) = .ok (settings, t)) :
    (a.synced t).Dated ∧ a.changes ≤ (a.synced t).changes := by
  have ends := Session.syncSettings_adjusts h.coherent names
  rw [Succeeds, Ends, State.transact_eq_ok.mp hrun] at ends
  obtain ⟨ht, same⟩ := ends
  have hsettings : t.settings = a.catalog.settings.adjusted (normalizedNames names) := same.settings
  have later : t.settings.scanVersion = (a.synced t).changes ∧ a.changes ≤ (a.synced t).changes := by
    unfold Annals.synced
    rcases a.catalog.settings.adjusted_cases (normalizedNames names) with hsame | hnext
    · rw [← hsettings] at hsame
      simp [hsame, h.settings]
    · rw [← hsettings] at hnext
      have : t.settings ≠ a.catalog.settings := fun hsame => by rw [hsame] at hnext; omega
      simp [this, hnext, h.settings]
  refine ⟨⟨ht, same.listed h.listed, later.1, fun scanner made hscanner => ?_, fun key file hfile => ?_⟩,
    later.2⟩
  · obtain ⟨hversion, hle⟩ := h.scanners scanner made hscanner
    exact ⟨hversion, Nat.le_trans hle later.2⟩
  · obtain ⟨hwriter, hle⟩ := h.files key file ((same.fileAt_eq key).symm.trans hfile)
    exact ⟨hwriter, Nat.le_trans hle later.2⟩

theorem make {c : Config} {scanner : Scanner} (hmade : Scanner.ofConfig c a.catalog = .ok scanner) :
    Dated { a with scanners := (scanner, a.changes) :: a.scanners } := by
  have hversion : scanner.scanVersion = a.changes := by
    rw [← h.settings]
    unfold Scanner.ofConfig at hmade
    cases hvalid : c.validate with
    | error e => simp [hvalid, bind, Except.bind] at hmade
    | ok =>
        simp only [hvalid, bind, Except.bind, pure, Except.pure] at hmade
        cases hmade
        rfl
  refine { h with scanners := fun other made hother => ?_ }
  rcases List.mem_cons.mp hother with heq | hother
  · cases heq
    exact ⟨hversion, Nat.le_refl _⟩
  · exact h.scanners other made hother

theorem committed {scanner : Scanner} {made : Nat} (hscanner : (scanner, made) ∈ a.scanners)
    {root : Path} {isForced : Bool} {t : State} {written? : Option String}
    (hcommit : Commit (scanner.plan root isForced) a.catalog t written?) :
    (a.committed made written? t).Dated := by
  obtain ⟨hversion, hle⟩ := h.scanners scanner made hscanner
  rcases hcommit.cases h.coherent with
    ⟨rfl, forgets⟩ | ⟨entry, m, time, now, outcome, rfl, only, settled⟩
  · refine ⟨forgets.coherent, forgets.listed h.listed, forgets.settings ▸ h.settings, h.scanners,
      fun key file hfile => ?_⟩
    change t.fileAt key = some file at hfile
    rcases forgets.files key with hnone | hsame
    · rw [hnone] at hfile
      cases hfile
    · exact h.files key file (hsame ▸ hfile)
  · refine ⟨only.coherent, only.listed h.listed, only.settings ▸ h.settings, h.scanners,
      fun key file hfile => ?_⟩
    change t.fileAt key = some file at hfile
    by_cases hkey : key = entry.key
    · subst hkey
      rw [hfile] at settled
      cases outcome with
      | rejected why removesTrack => cases settled.1
      | added | updated =>
          obtain ⟨⟨id, hfile'⟩, -⟩ := settled
          cases hfile'
          exact ⟨by simp [Annals.committed, Outcome.written?, described, Scanner.plan, hversion],
            by simpa [Annals.committed, described, Scanner.plan, hversion] using hle⟩
    · rw [only.others key hkey] at hfile
      have other : outcome.written? entry ≠ some key := by
        cases outcome <;> simp [Outcome.written?, Ne.symm hkey]
      simpa [Annals.committed, other] using h.files key file hfile

theorem step (hstep : a.Step b) : b.Dated ∧ a.changes ≤ b.changes := by
  cases hstep with
  | sync names hrun => exact h.synced hrun
  | make c hmade => exact ⟨h.make hmade, Nat.le_refl _⟩
  | commit hscanner root isForced hcommit => exact ⟨h.committed hscanner hcommit, Nat.le_refl _⟩

theorem steps (hsteps : Relation.ReflTransGen Step a b) : b.Dated ∧ a.changes ≤ b.changes := by
  induction hsteps with
  | refl => exact ⟨h, Nat.le_refl _⟩
  | tail _ hstep ih =>
      obtain ⟨hlast, hle⟩ := ih.1.step hstep
      exact ⟨hlast, Nat.le_trans ih.2 hle⟩

theorem track {i : TrackId} {track : Track} (hrow : a.catalog.tracks[i]? = some track) :
    a.writers track.path = some track.scanVersion ∧
      track.scanVersion ≤ a.catalog.settings.scanVersion := by
  have hfile : a.catalog.fileAt track.path = some track.unlinked :=
    State.fileAt_eq_some.mpr ⟨i, track, h.listed i track hrow, hrow, rfl⟩
  rw [h.settings]
  exact h.files track.path track.unlinked hfile

theorem detectChange_eq {scanner : Scanner} (current : a.IsCurrent scanner) {key : String}
    (outdated : a.IsOutdated key) (time : Int) (isForced : Bool) :
    detectChange a.catalog key time scanner.scanVersion isForced = .ok .needsScan := by
  obtain ⟨writer, hwriter, before⟩ := outdated
  rw [Scan.detectChange_eq h.coherent]
  cases hchange : changeOf (a.catalog.fileAt key) time scanner.scanVersion isForced with
  | needsScan => rfl
  | unchanged =>
      obtain ⟨file, hfile, -, hversion⟩ := changeOf_eq_unchanged hchange
      have dated := (h.files key file hfile).1
      rw [hwriter, hversion, (h.scanners scanner _ current).1] at dated
      have : writer = a.changes := Option.some.inj dated
      omega

theorem process {scanner : Scanner} {made : Nat} (hscanner : (scanner, made) ∈ a.scanners)
    {σ κ : Type} (env : Surroundings σ κ) (root : Path) (isForced : Bool) (w : σ) :
    Succeeds (Scan.process env (scanner.plan root isForced)) (Run.start w a.catalog) fun _ r =>
      ∃ b, Relation.ReflTransGen Step a b ∧ b.scanners = a.scanners ∧ b.changes = a.changes ∧
        b.catalog = r.catalog := by
  refine process_commits (P := fun t => ∃ b, Relation.ReflTransGen Step a b ∧
    b.scanners = a.scanners ∧ b.changes = a.changes ∧ b.catalog = t) ?_ env _ ?_
    ⟨a, .refl, rfl, rfl, rfl⟩ w
  · rintro _ ⟨b, hsteps, -, -, rfl⟩
    exact (h.steps hsteps).1.coherent
  · rintro _ t written? ⟨b, hsteps, hscanners, hchanges, rfl⟩ hcommit
    have hmem : (scanner, made) ∈ b.scanners := hscanners ▸ hscanner
    exact ⟨b.committed made written? t, hsteps.tail (.commit hmem root isForced hcommit),
      hscanners, hchanges, rfl⟩

end Dated

end Annals

end Scan

end AudioCatalog
