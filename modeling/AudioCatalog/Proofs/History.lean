import AudioCatalog.Proofs.Freshness
import AudioCatalog.Proofs.Orphans
import AudioCatalog.Proofs.Scanned
import AudioCatalog.Proofs.Stillness
import AudioCatalog.Proofs.Timeline

namespace AudioCatalog.Scan

open Catalog Scan.Action

variable {σ κ : Type}

/-- What there was to learn from a file, at a moment after it had its time. -/
def Learned (τ : Timeline κ) (parser : TagParser κ) (n : Nat) (p : Path) (time : Int)
    (m : Tag.Metadata) : Prop :=
  ∃ j k, j ≤ k ∧ k ≤ n ∧ (τ j).lastWriteSeconds p = .ok time ∧ parser p ((τ k).read p) = .ok m

/-- Whatever the catalog says of a file was learned from that file, once it had the time that the
catalog has. -/
structure Recorded (τ : Timeline κ) (parser : TagParser κ) (n : Nat) (s : State) : Prop where
  coherent : s.Coherent
  listed : s.Listed
  learned : ∀ {p key file}, p.key? = some key → s.fileAt key = some file →
    ∃ m, Learned τ parser n p file.lastWriteTime m ∧ file.Mirrors p m

section

variable {τ : Timeline κ} {parser : TagParser κ} {n n' : Nat} {s t : State}

theorem Learned.mono {p : Path} {time : Int} {m : Tag.Metadata} (h : Learned τ parser n p time m)
    (hn : n ≤ n') : Learned τ parser n' p time m := by
  obtain ⟨j, k, hjk, hk, learned⟩ := h
  exact ⟨j, k, hjk, Nat.le_trans hk hn, learned⟩

namespace Recorded

theorem start (n : Nat) : Recorded τ parser n {} where
  coherent := State.coherent_empty
  listed := State.listed_empty
  learned := fun _ hfile => by simp [State.fileAt] at hfile

variable (h : Recorded τ parser n s)
include h

theorem mono (hn : n ≤ n') : Recorded τ parser n' s where
  coherent := h.coherent
  listed := h.listed
  learned := fun hkey hfile => by
    obtain ⟨m, learned, mirrors⟩ := h.learned hkey hfile
    exact ⟨m, learned.mono hn, mirrors⟩

theorem sameFiles (ht : t.Coherent) (same : s.SameFiles t) : Recorded τ parser n t where
  coherent := ht
  listed := same.listed h.listed
  learned := fun hkey hfile => h.learned hkey (by rwa [← same.fileAt_eq])

theorem withSettings (settings : ScanSettings) :
    Recorded τ parser n { s with settings := settings } where
  coherent := h.coherent.withSettings settings
  listed := h.listed
  learned := h.learned

theorem touchesOnly {key : String} (only : s.TouchesOnly key t)
    (own : ∀ {p file}, p.key? = some key → t.fileAt key = some file →
      ∃ m, Learned τ parser n p file.lastWriteTime m ∧ file.Mirrors p m) :
    Recorded τ parser n t where
  coherent := only.coherent
  listed := only.listed h.listed
  learned := fun {p other file} hkey hfile => by
    by_cases hother : other = key
    · subst hother
      exact own hkey hfile
    · rw [only.others other hother] at hfile
      exact h.learned hkey hfile

theorem withoutTrack {id : TrackId} {track : Track} (hrow : s.tracks[id]? = some track) :
    Recorded τ parser n (s.withoutTrack id track) := by
  obtain ⟨only, hgone⟩ := h.coherent.withoutTrack_touchesOnly hrow
  refine h.touchesOnly only fun _ hfile => ?_
  rw [hgone] at hfile
  cases hfile

theorem settled {skipsDuplicates : Bool} {isDuplicated : Prop} {entry : Entry} {time : Int} {m : Tag.Metadata}
    {scanVersion : Nat} {now : Int} {outcome : Outcome} (hkeyed : entry.Keyed)
    (learned : Learned τ parser n entry.path time m) (only : s.TouchesOnly entry.key t)
    (settled : Settled skipsDuplicates isDuplicated entry m ⟨time, scanVersion, now⟩
      (t.fileAt entry.key) outcome) : Recorded τ parser n t := by
  refine h.touchesOnly only fun {p file} hkey hfile => ?_
  obtain rfl : p = entry.path := Path.key?_inj hkey hkeyed
  cases outcome with
  | added | updated =>
      obtain ⟨⟨id, hdescribed⟩, -⟩ := settled
      rw [hdescribed] at hfile
      cases hfile
      exact ⟨m, learned, described_mirrors _ entry m _⟩
  | rejected why removesTrack =>
      rw [settled.1] at hfile
      cases hfile

end Recorded

theorem exists_target_of_parsed (unreadable : ∀ p cause m, parser p (.error cause) ≠ .ok m)
    {tree : FileTree κ} {p : Path} {m : Tag.Metadata} (h : parser p (tree.read p) = .ok m) :
    ∃ modified content, tree.target p = .ok (.file modified content) := by
  cases hread : tree.read p with
  | error cause =>
      rw [hread] at h
      exact absurd h (unreadable p cause m)
  | ok content =>
      obtain ⟨modified, htarget⟩ := FileTree.read_eq_ok.mp hread
      exact ⟨modified, content, htarget⟩

/-- As long as a file has the time that the catalog has for it, there is nothing else to learn. -/
theorem Recorded.fresh (h : Recorded τ parser n s) (stamps : τ.Stamps)
    (unreadable : ∀ p cause m, parser p (.error cause) ≠ .ok m) (entry : Entry)
    (hkeyed : entry.Keyed) {time : Int} {m : Tag.Metadata}
    (hdated : (τ n).lastWriteSeconds entry.path = .ok time)
    (hparsed : parser entry.path ((τ n).read entry.path) = .ok m) : entry.Fresh m time s := by
  intro file hfile htime
  obtain ⟨m', ⟨j, k, hjk, hkn, hj, hm'⟩, mirrors⟩ := h.learned hkeyed hfile
  obtain ⟨modified, content, htarget⟩ := exists_target_of_parsed unreadable hparsed
  -- The second is the same at both ends, so what was parsed in between is what is there now.
  have unchanged : (τ k).target entry.path = (τ n).target entry.path := by
    apply stamps.target_eq hjk hkn htarget
    rw [hj, hdated, htime]
  rw [FileTree.read, unchanged, ← FileTree.read, hparsed] at hm'
  cases hm'
  exact mirrors

theorem LivesIn.evidence {env : Surroundings σ κ} {clock : σ → Nat}
    (lives : LivesIn env τ parser clock) (plan : Plan) :
    Evidence env plan (fun w s => Recorded τ parser (clock w) s)
      (fun w p time => ∃ j ≤ clock w, (τ j).lastWriteSeconds p = .ok time)
      fun w p time m => Learned τ parser (clock w) p time m where
  coherent := fun hs => hs.coherent
  wait := fun hs => hs.mono (lives.wait _)
  report := fun progress hs => hs.mono (lives.report progress _)
  clearAbort := fun hs => hs.mono (lives.clearAbort _)
  sameFiles := fun hs ht same => hs.sameFiles ht same
  withoutTrack := fun hs hrow => hs.withoutTrack hrow
  taken := fun hs hkeyed learned only settled => hs.settled hkeyed learned only settled
  dated := fun {w _ _} h => ⟨clock w, Nat.le_refl _, lives.tree w ▸ h⟩
  parsed := fun {w p _ _} ⟨j, hj, hdated⟩ h =>
    ⟨j, clock w, hj, Nat.le_refl _, hdated, lives.parse w p ▸ h⟩
  datedWait := fun ⟨j, hj, hdated⟩ => ⟨j, Nat.le_trans hj (lives.wait _), hdated⟩
  parsedWait := fun h => h.mono (lives.wait _)
  parsedReport := fun progress h => h.mono (lives.report progress _)

/-- Catalogs at moments of the timeline, from an empty one on: time passes, the settings are brought
up to date, and scans are made, forced or not, to their end or aborted, by whatever plan. -/
inductive History (τ : Timeline κ) (parser : TagParser κ) : Nat → State → Prop
  | start : History τ parser 0 {}
  | pass {n n' : Nat} {s : State} (h : History τ parser n s) (hn : n ≤ n') : History τ parser n' s
  | sync {n : Nat} {s t : State} (h : History τ parser n s) (names : List String)
      {settings : ScanSettings} (hrun : s.transact (Session.syncSettings names) = .ok (settings, t)) :
      History τ parser n t
  | scan {s : State} {σ : Type} {env : Surroundings σ κ} {clock : σ → Nat} {w : σ} {r : Run σ}
      (h : History τ parser (clock w) s) (lives : LivesIn env τ parser clock) (plan : Plan)
      (hrun : process env plan (Run.start w s) = .ok () r) :
      History τ parser (clock r.outside) r.catalog

theorem History.recorded (h : History τ parser n s) : Recorded τ parser n s := by
  induction h with
  | start => exact .start 0
  | pass h hn ih => exact ih.mono hn
  | sync _ names hrun ih =>
      refine State.of_transact (State.syncSettings_keeps (P := Recorded τ parser _) ?_ ?_ ?_ names ih)
        hrun
      · exact fun hs => hs.coherent
      · exact fun hs ht same => hs.sameFiles ht same
      · exact fun settings hs => hs.withSettings settings
  | @scan s σ env clock w r h lives plan hrun ih =>
      have ends := (lives.evidence plan).process_succeeds ih
      rwa [Succeeds, Ends, hrun] at ends

/-- Each audio file with sound that a walk shows has exactly one track, which says what there is to
learn from the file, and has its time and the version of the scan. -/
def Mirrored (tree : FileTree κ) (parser : Path → Except Tag.ParseError Tag.Metadata) (plan : Plan)
    (s : State) : Prop :=
  ∀ p key m, .file p ∈ Walk.visits tree plan.excludeMarker plan.root →
    FileExtension.isAccepted plan.audioExtensions p = true → p.key? = some key →
    parser p = .ok m → 0 < m.audioStreams → 0 < m.durationMs →
      ∃ track, s.OnlyTrackAt key track ∧ track.Mirrors p m ∧
        tree.lastWriteSeconds p = .ok track.lastWriteTime ∧ track.scanVersion = plan.scanVersion

/-- Scanning leaves no stale data. Whatever happened before, after a scan that goes to its end,
while nobody edits a file, the catalog says of the files below a directory what there is to learn now. -/
theorem History.scan_mirrors {env : Surroundings σ κ} {clock : σ → Nat} {w : σ} (stamps : τ.Stamps)
    (h : History τ parser (clock w) s) (lives : LivesIn env τ parser clock) (stays : env.AbortStays)
    (plan : Plan) (keepsDuplicates : plan.skipsDuplicates = false) :
    ∃ r, process env plan (Run.start w s) = .ok () r ∧
      (r.isAborted = false → τ.StandsStill (clock w) (clock r.outside) →
        (τ (clock w)).kindOf plan.root = .ok .directory →
        FileTree.CanAsk plan.excludeMarker plan.root →
        Mirrored (τ (clock w)) (fun p => parser p ((τ (clock w)).read p)) plan r.catalog) := by
  have recorded := h.recorded
  obtain ⟨_, r, hrun, recorded'⟩ :=
    succeeds_iff.mp ((lives.evidence plan).process_succeeds recorded)
  refine ⟨r, hrun, fun hAborted still hroot hmarker p key m shown accepted hkey hparsed haudio
    hduration => ?_⟩
  -- The file is one that the scan is to bring up to date, among files that stand still.
  obtain ⟨modified, content, htarget⟩ := exists_target_of_parsed lives.unreadable hparsed
  have hfile : (τ (clock w)).isFile p = true := by
    rw [FileTree.isFile, FileTree.leadsTo, htarget]
    rfl
  have hdated : (τ (clock w)).lastWriteSeconds p = .ok (modified.tdiv nanosecondsInSecond) := by
    rw [FileTree.lastWriteSeconds, htarget]
    rfl
  have subject : Subject (τ (clock w)) (fun p => parser p ((τ (clock w)).read p)) plan ⟨p, key⟩ m
      (modified.tdiv nanosecondsInSecond) := {
    keyed := hkey
    dated := hdated
    parsed := hparsed
    sound := by simp [soundRejection?, Nat.ne_of_gt haudio, Nat.ne_of_gt hduration]
    keepsDuplicates := keepsDuplicates }
  have fresh := recorded.fresh stamps lives.unreadable ⟨p, key⟩ hkey hdated hparsed
  have kept := orphanReason?_of_mem hroot hmarker shown hfile accepted
  have heldStays : (env.held (τ (clock w)) fun p => parser p ((τ (clock w)).read p)).AbortStays :=
    ⟨stays.wait, stays.report⟩
  have done := (env.held_steady (τ (clock w)) _).process_upToDate subject heldStays accepted shown
    kept recorded.coherent fresh w
  rw [Succeeds, Ends, lives.process_held still plan (Nat.le_refl _) hrun (Nat.le_refl _)] at done
  obtain ⟨file, hfileAt, mirrors, htime, hversion⟩ := done hAborted
  obtain ⟨track, only, rfl⟩ :=
    recorded'.coherent.exists_onlyTrackAt recorded'.listed hfileAt
  exact ⟨track, only, mirrors.of_unlinked, htime ▸ hdated, hversion⟩

end

def quietAt (τ : Timeline κ) (parser : TagParser κ) (n : Nat) : Surroundings (List Progress) κ :=
  quiet (τ n) (fun p => parser p ((τ n).read p)) 0

theorem quietAt_livesIn {τ : Timeline κ} {parser : TagParser κ}
    (unreadable : ∀ p cause m, parser p (.error cause) ≠ .ok m) (n : Nat) :
    LivesIn (quietAt τ parser n) τ parser fun _ => n where
  tree := fun _ => rfl
  parse := fun _ _ => rfl
  unreadable := unreadable
  wait := fun _ => Nat.le_refl n
  report := fun _ _ => Nat.le_refl n
  clearAbort := fun _ => Nat.le_refl n

theorem quietAt_abortStays (τ : Timeline κ) (parser : TagParser κ) (n : Nat) :
    (quietAt τ parser n).AbortStays := ⟨id, fun _ => id⟩

def titleOf : TagParser String
  | _, .ok title => .ok { title, audioStreams := 1, durationMs := 1000 }
  | _, .error cause => .error (.tag (.file cause))

theorem titleOf_unreadable (p : Path) (cause : FileError) (m : Tag.Metadata) :
    titleOf p (.error cause) ≠ .ok m := by
  simp [titleOf]

def retitled : Timeline String := fun n =>
  ((FileTree.empty []).put [Text.Utf8.encode "m"] (.directory 0)).put
    [Text.Utf8.encode "m", Text.Utf8.encode "a.mp3"]
    (if n = 0 then .file nanosecondsInSecond "Old" else .file (2 * nanosecondsInSecond) "New")

theorem retitled_nodes {n : Nat} {p : Path} {node : Node String}
    (h : (retitled n).target p = .ok node) :
    node = .directory 0 ∨
      node = if n = 0 then .file nanosecondsInSecond "Old"
        else .file (2 * nanosecondsInSecond) "New" := by
  obtain ⟨loc, -, hnode⟩ := FileTree.target_eq_ok.mp h
  rcases FileTree.node?_put hnode with rfl | hnode
  · exact .inr rfl
  · rcases FileTree.node?_put hnode with rfl | hnode
    · exact .inl rfl
    · exact .inl (FileTree.node?_empty hnode)

theorem retitled_stamps : retitled.Stamps := by
  intro n p modified content hfile hne i hi hsame
  cases n with
  | succ n => exact hne hfile
  | zero =>
      obtain rfl : i = 0 := Nat.le_zero.mp hi
      rw [FileTree.lastWriteSeconds, FileTree.lastWriteSeconds, hfile] at hsame
      cases hbefore : (retitled 0).target p with
      | error cause =>
          rw [hbefore] at hsame
          cases hsame
      | ok node =>
          rw [hbefore] at hsame
          have hseconds := Except.ok.inj hsame
          rcases retitled_nodes hfile with he | he
          · cases he
          · cases he
            rcases retitled_nodes hbefore with rfl | rfl
            · exact absurd hseconds (by decide)
            · exact absurd hseconds (by decide)

def wholePlan : Plan := ⟨Path.ofString "/m", false, 1, ["mp3"], ".nomedia", false, 2⟩

theorem scan_mirrors_retitled :
    ∃ r r', process (quietAt retitled titleOf 0) wholePlan (Run.start [] {}) = .ok () r ∧
      process (quietAt retitled titleOf 1) wholePlan (Run.start [] r.catalog) = .ok () r' ∧
      ∃ track, r'.catalog.OnlyTrackAt "/m/a.mp3" track ∧ track.name = "New" := by
  have lives (n : Nat) := quietAt_livesIn (τ := retitled) titleOf_unreadable n
  obtain ⟨_, r, hrun, -⟩ := succeeds_iff.mp
    (process_coherent (quietAt retitled titleOf 0) wholePlan State.coherent_empty [])
  have history : History retitled titleOf 1 r.catalog :=
    .pass (.scan .start (lives 0) wholePlan hrun) (Nat.le_succ 0)
  obtain ⟨r', hrun', mirrored⟩ := History.scan_mirrors (w := []) retitled_stamps history (lives 1)
    (quietAt_abortStays retitled titleOf 1) wholePlan rfl
  have finished : r'.isAborted = false := isAborted_of_takeSteps (fun _ => rfl) hrun'
  have still : retitled.StandsStill 1 1 := fun k hk hk' => by rw [Nat.le_antisymm hk' hk]
  obtain ⟨track, only, mirrors, -⟩ := mirrored finished still (by decide) (.inl (by decide))
    (Path.ofString "/m/a.mp3") "/m/a.mp3" _ (by decide) (by decide)
    (Path.key?_ofString _) rfl (by decide) (by decide)
  exact ⟨r, r', hrun, hrun', track, only, mirrors.titled (by decide)⟩

def guardedSong : FileTree String :=
  (((FileTree.empty []).put [Text.Utf8.encode "m"] (.directory 0)).put
    [Text.Utf8.encode "m", Text.Utf8.encode ".lmsignore"] (.file nanosecondsInSecond "")).put
    [Text.Utf8.encode "m", Text.Utf8.encode "a.mp3"] (.file nanosecondsInSecond "Song")

def guarded : Timeline String := fun _ => guardedSong

/-- So many slashes are at the end of this root that the path of the marker is too long, and that of
the song is not. -/
@[irreducible]
def longRoot : Path := ⟨Text.Utf8.encode "m" ++ List.replicate 4088 Path.slash⟩

def longRootSong : Path := longRoot.join (Path.ofString "a.mp3")

def longRootPlan : Plan := ⟨longRoot, false, 1, ["mp3"], ".lmsignore", false, 2⟩

theorem Surroundings.Steady.process_not_mirrored {env : Surroundings σ κ} {tree : FileTree κ}
    {parser : Path → Except Tag.ParseError Tag.Metadata} (h : env.Steady tree parser)
    (stays : env.AbortStays) {plan : Plan} {p : Path} {key : String} {m : Tag.Metadata}
    (shown : .file p ∈ Walk.visits tree plan.excludeMarker plan.root)
    (accepted : FileExtension.isAccepted plan.audioExtensions p = true) (hkey : p.key? = some key)
    (hparsed : parser p = .ok m) (haudio : 0 < m.audioStreams) (hduration : 0 < m.durationMs)
    (orphan : (orphanReason? tree plan p).isSome) {s : State} (hs : s.Coherent) (listed : s.Listed)
    (w : σ) :
    Succeeds (process env plan) (Run.start w s) fun _ r =>
      r.isAborted = false → ¬ Mirrored tree parser plan r.catalog := by
  refine (h.process_withoutOrphans stays plan hs listed w).imp ?_ fun _ _ => id
  intro _ r clean hAborted mirrored
  obtain ⟨track, only, -⟩ := mirrored p key m shown accepted hkey hparsed haudio hduration
  have kept := clean hAborted track.id track only.row
  rw [only.path_eq, Path.ofString_of_key? hkey] at kept
  rw [kept] at orphan
  cases orphan

theorem exists_encode_eq_slashes (n : Nat) :
    ∃ s, Text.Utf8.encode s = List.replicate n Path.slash := by
  induction n with
  | zero => exact ⟨"", rfl⟩
  | succ n ih =>
      obtain ⟨s, hs⟩ := ih
      refine ⟨"/" ++ s, ?_⟩
      rw [Text.Utf8.encode_append, hs]
      rfl

theorem exists_key_join_slashes (n : Nat) {name : String}
    (hrelative : (Path.ofString name).isAbsolute = false) :
    ∃ key, (Path.join ⟨Text.Utf8.encode "m" ++ List.replicate (n + 1) Path.slash⟩
      (Path.ofString name)).key? = some key := by
  obtain ⟨slashes, hslashes⟩ := exists_encode_eq_slashes (n + 1)
  refine ⟨"m" ++ slashes ++ name, ?_⟩
  have hlast : (Text.Utf8.encode "m" ++ List.replicate (n + 1) Path.slash).getLast? =
      some Path.slash := by
    simp [List.getLast?_replicate]
  have : Path.join ⟨Text.Utf8.encode "m" ++ List.replicate (n + 1) Path.slash⟩
      (Path.ofString name) = Path.ofString ("m" ++ slashes ++ name) := by
    rw [Path.join, hrelative, if_neg Bool.false_ne_true, if_pos (.inr hlast), Path.ofString,
      Path.ofString, Text.Utf8.encode_append, Text.Utf8.encode_append, hslashes]
  rw [this]
  exact Path.key?_ofString _

theorem longRootSong_key : ∃ key, longRootSong.key? = some key := by
  rw [longRootSong, longRoot]
  exact exists_key_join_slashes 4087 (by decide)

theorem guardedSong_kindOf : guardedSong.kindOf longRootPlan.root = .ok .directory := by
  decide +kernel

theorem longRootSong_shown : .file longRootSong ∈
    Walk.visits guardedSong longRootPlan.excludeMarker longRootPlan.root := by
  have hclear : guardedSong.carriesMarker ".lmsignore" longRoot = false := by
    decide +kernel
  have hlist : guardedSong.list longRoot = .ok
      [(Text.Utf8.encode ".lmsignore", .file), (Text.Utf8.encode "a.mp3", .file)] := by
    decide +kernel
  exact Walk.file_mem_visits guardedSong_kindOf hclear hlist (by simp)

/-- Without the bound on the path of the marker, a scan may leave less than the files say: the walk
does not see the marker below the long root, but the song is then an orphan below the short one. -/
theorem scan_loses_guardedSong :
    guarded.Stamps ∧ History guarded titleOf 0 {} ∧
      LivesIn (quietAt guarded titleOf 0) guarded titleOf (fun _ => 0) ∧
      (quietAt guarded titleOf 0).AbortStays ∧ longRootPlan.skipsDuplicates = false ∧
      (guarded 0).kindOf longRootPlan.root = .ok .directory ∧
      ∃ r, process (quietAt guarded titleOf 0) longRootPlan (Run.start [] {}) = .ok () r ∧
        r.isAborted = false ∧ guarded.StandsStill 0 0 ∧
        ¬ Mirrored (guarded 0) (fun p => titleOf p ((guarded 0).read p)) longRootPlan r.catalog := by
  have stamps : guarded.Stamps := fun n p modified content hfile hne => absurd hfile hne
  have steady : (quietAt guarded titleOf 0).Steady guardedSong
      fun p => titleOf p (guardedSong.read p) := ⟨fun _ => rfl, fun _ => rfl⟩
  have stays := quietAt_abortStays guarded titleOf 0
  have accepted : FileExtension.isAccepted longRootPlan.audioExtensions longRootSong = true := by
    decide +kernel
  have orphan : (orphanReason? guardedSong longRootPlan longRootSong).isSome := by
    decide +kernel
  have hread : guardedSong.read longRootSong = .ok "Song" := by
    decide +kernel
  have hparsed : titleOf longRootSong (guardedSong.read longRootSong) =
      .ok { title := "Song", audioStreams := 1, durationMs := 1000 } := by
    rw [hread]
    rfl
  obtain ⟨key, hkey⟩ := longRootSong_key
  obtain ⟨_, r, hrun, lost⟩ := succeeds_iff.mp
    (steady.process_not_mirrored stays longRootSong_shown accepted hkey hparsed Nat.one_pos
      (by decide) orphan State.coherent_empty State.listed_empty [])
  have finished : r.isAborted = false := isAborted_of_takeSteps (fun _ => rfl) hrun
  have still : guarded.StandsStill 0 0 := fun _ _ _ => rfl
  exact ⟨stamps, .start, quietAt_livesIn titleOf_unreadable 0, stays, rfl, guardedSong_kindOf, r,
    hrun, finished, still, lost finished⟩

end AudioCatalog.Scan
