import AudioCatalog.Proofs.Containment
import AudioCatalog.Proofs.Passes

namespace AudioCatalog

structure Track.Mirrors (track : Track) (p : Path) (m : Tag.Metadata) : Prop where
  titled : m.title ≠ "" → track.name = m.title
  untitled : m.title = "" →
    track.name = (p.fileName?.map fun name => Path.display ⟨name⟩).getD track.path
  trackNumber : track.trackNumber = m.trackNumber
  discNumber : track.discNumber = m.discNumber
  totalTrack : track.totalTrack = m.totalTrack
  totalDisc : track.totalDisc = m.totalDisc
  discSubtitle : track.discSubtitle = m.discSubtitle
  durationMs : track.durationMs = m.durationMs
  date : track.date = (m.date <|> m.originalDate)
  originalDate : track.originalDate = m.originalDate
  trackGain : track.trackGain = m.trackGain
  releaseGain : track.releaseGain = m.albumGain
  hasCover : track.hasCover = m.hasCover
  copyright : track.copyright = m.copyright
  copyrightUrl : track.copyrightUrl = m.copyrightUrl
  recordingMbid : track.recordingMbid = m.recordingMbid
  trackMbid : track.trackMbid = m.trackMbid

theorem Track.Mirrors.of_unlinked {track : Track} {p : Path} {m : Tag.Metadata}
    (h : track.unlinked.Mirrors p m) : track.Mirrors p m := by
  cases h
  constructor <;> assumption

namespace Scan

open Catalog Scan.Action

variable {σ κ : Type}

theorem described_mirrors (track : Track) (entry : Entry) (m : Tag.Metadata) (stamp : Stamp) :
    (described track entry m stamp).Mirrors entry.path m where
  titled := fun h => by simp [described, trackName, h]
  untitled := fun h => by
    simp only [described, trackName, h, if_true]
    cases entry.path.fileName? <;> rfl
  trackNumber := rfl
  discNumber := rfl
  totalTrack := rfl
  totalDisc := rfl
  discSubtitle := rfl
  durationMs := rfl
  date := rfl
  originalDate := rfl
  trackGain := rfl
  releaseGain := rfl
  hasCover := rfl
  copyright := rfl
  copyrightUrl := rfl
  recordingMbid := rfl
  trackMbid := rfl

structure Subject (tree : FileTree κ) (parser : Path → Except Tag.ParseError Tag.Metadata)
    (plan : Plan) (entry : Entry) (m : Tag.Metadata) (time : Int) : Prop where
  keyed : entry.Keyed
  dated : tree.lastWriteSeconds entry.path = .ok time
  parsed : parser entry.path = .ok m
  sound : soundRejection? m = none
  keepsDuplicates : plan.skipsDuplicates = false

namespace Entry

def Fresh (entry : Entry) (m : Tag.Metadata) (time : Int) (s : State) : Prop :=
  ∀ file, s.fileAt entry.key = some file → file.lastWriteTime = time → file.Mirrors entry.path m

def UpToDate (entry : Entry) (m : Tag.Metadata) (time : Int) (version : Nat) (s : State) : Prop :=
  ∃ file, s.fileAt entry.key = some file ∧ file.Mirrors entry.path m ∧
    file.lastWriteTime = time ∧ file.scanVersion = version

variable {entry : Entry} {m : Tag.Metadata} {time : Int} {version : Nat} {s t : State}

theorem UpToDate.fresh (h : entry.UpToDate m time version s) : entry.Fresh m time s := by
  obtain ⟨file, hfile, mirrors, -⟩ := h
  intro file' hfile' _
  rw [hfile] at hfile'
  cases hfile'
  exact mirrors

theorem Fresh.of_fileAt_eq (h : entry.Fresh m time s)
    (hsame : t.fileAt entry.key = s.fileAt entry.key) : entry.Fresh m time t := by
  rwa [Fresh, hsame]

theorem UpToDate.of_fileAt_eq (h : entry.UpToDate m time version s)
    (hsame : t.fileAt entry.key = s.fileAt entry.key) : entry.UpToDate m time version t := by
  rwa [UpToDate, hsame]

end Entry

section

variable {tree : FileTree κ} {parser : Path → Except Tag.ParseError Tag.Metadata} {plan : Plan}
  {entry : Entry} {m : Tag.Metadata} {time : Int} (sub : Subject tree parser plan entry m time)
  {s t : State}
include sub

theorem Subject.settled {isDuplicated : Prop} {now : Int} {outcome : Outcome}
    (h : Settled plan.skipsDuplicates isDuplicated entry m ⟨time, plan.scanVersion, now⟩
      (t.fileAt entry.key) outcome) : entry.UpToDate m time plan.scanVersion t := by
  cases outcome with
  | added | updated =>
      obtain ⟨⟨id, hfile⟩, -⟩ := h
      exact ⟨_, hfile, described_mirrors _ entry m _, rfl, rfl⟩
  | rejected why removesTrack =>
      have := h.2.eq_sound sub.keepsDuplicates
      rw [sub.sound] at this
      cases this

theorem Subject.readingOf_cases (hs : s.Coherent) (fresh : entry.Fresh m time s) :
    readingOf tree parser plan s entry = .parsed time m ∨
      (readingOf tree parser plan s entry = .unchanged ∧
        entry.UpToDate m time plan.scanVersion s) := by
  simp only [readingOf, sub.dated, detectChange_eq hs]
  unfold changeOf
  by_cases hforced : plan.isForced = true
  · simp [hforced, sub.parsed]
  · rw [if_neg hforced]
    cases hfile : s.fileAt entry.key with
    | none => simp [sub.parsed]
    | some file =>
        by_cases hstamp : file.lastWriteTime = time ∧ file.scanVersion = plan.scanVersion
        · refine .inr ⟨by simp [hstamp], file, hfile, ?_, hstamp⟩
          exact fresh file hfile hstamp.1
        · simp [hstamp, sub.parsed]

/-- Once the turn of the file has come it is up to date, whatever files come before and after. -/
theorem Subject.advances : Advances tree parser plan fun done s =>
    entry.Fresh m time s ∧ (entry ∈ done → entry.UpToDate m time plan.scanVersion s) := by
  intro done rest other now s t hall hs ⟨fresh, due⟩ taken
  by_cases hother : other = entry
  · subst hother
    have uptodate : other.UpToDate m time plan.scanVersion t := by
      rcases sub.readingOf_cases hs fresh with hreading | ⟨hreading, uptodate⟩
      · rw [hreading] at taken
        obtain ⟨-, outcome, settled⟩ := taken
        exact sub.settled settled
      · rw [hreading] at taken
        obtain rfl : t = s := taken
        exact uptodate
    exact ⟨uptodate.fresh, fun _ => uptodate⟩
  · -- Another file has another key, and what is taken over bears on one key only.
    have hmem : other ∈ entriesOf tree plan := hall ▸ List.mem_append_right done (by simp)
    have hkeyed := (mem_entriesOf.mp hmem).2.2
    have hkey : entry.key ≠ other.key := fun he => hother (hkeyed.ext sub.keyed he.symm)
    have same := (taken.touchesOnly hs).others entry.key hkey
    refine ⟨fresh.of_fileAt_eq same, fun hmem => ?_⟩
    rcases List.mem_append.mp hmem with hmem | hmem
    · exact (due hmem).of_fileAt_eq same
    · exact absurd (List.mem_singleton.mp hmem).symm hother

end

namespace Surroundings.Steady

variable {env : Surroundings σ κ} {tree : FileTree κ}
  {parser : Path → Except Tag.ParseError Tag.Metadata} {plan : Plan} {entry : Entry}
  {m : Tag.Metadata} {time : Int} (h : env.Steady tree parser)
  (sub : Subject tree parser plan entry m time)
include h sub

/-- A scan that goes to its end brings the file up to date, if it was right wherever its time was
and if nothing makes it an orphan. -/
theorem process_upToDate (stays : env.AbortStays)
    (accepted : FileExtension.isAccepted plan.audioExtensions entry.path = true)
    (shown : .file entry.path ∈ Walk.visits tree plan.excludeMarker plan.root)
    (kept : orphanReason? tree plan entry.path = none) {s : State} (hs : s.Coherent)
    (fresh : entry.Fresh m time s) (w : σ) :
    Succeeds (process env plan) (Run.start w s) fun _ r =>
      r.isAborted = false → entry.UpToDate m time plan.scanVersion r.catalog := by
  refine h.process_passes sub.advances stays hs (fun _ same => ?_) (fun all => ?_)
    (fun done same => done.of_fileAt_eq (same.fileAt_eq entry.key)) (fun done only _ hreason => ?_) w
  · exact ⟨fresh.of_fileAt_eq (same.fileAt_eq entry.key), by simp⟩
  · exact all.2 (mem_entriesOf.mpr ⟨shown, accepted, sub.keyed⟩)
  · refine done.of_fileAt_eq (only.others entry.key fun hkey => hreason ?_)
    rw [← hkey, Path.ofString_of_key? sub.keyed, kept]

end Surroundings.Steady

end Scan

end AudioCatalog
