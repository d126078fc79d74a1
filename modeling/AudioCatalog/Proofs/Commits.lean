import AudioCatalog.Proofs.Recordings

namespace AudioCatalog

namespace Catalog.State

variable {s t u : State}

theorem transact_eq_ok {α : Type} {work : Session α} {a : α} :
    s.transact work = .ok (a, t) ↔ work s = .ok a t := by
  unfold transact
  cases work s <;> simp

/-- Something may no longer be known of files, and nothing new is. -/
structure Forgets (s t : State) : Prop where
  coherent : t.Coherent
  listed : s.Listed → t.Listed
  settings : t.settings = s.settings
  files : ∀ path, t.fileAt path = none ∨ t.fileAt path = s.fileAt path

namespace Forgets

theorem refl (h : s.Coherent) : s.Forgets s := ⟨h, id, rfl, fun _ => .inr rfl⟩

theorem trans (h : s.Forgets t) (h' : t.Forgets u) : s.Forgets u where
  coherent := h'.coherent
  listed := fun hs => h'.listed (h.listed hs)
  settings := h'.settings.trans h.settings
  files := fun path => by
    rcases h'.files path with hnone | hsame
    · exact .inl hnone
    · rw [hsame]
      exact h.files path

theorem distinct (h : s.Forgets t) (hs : s.Distinct) : t.Distinct where
  coherent := h.coherent
  listed := h.listed hs.listed
  oneEach := by
    have before {mbid : Mbid} {path : String} (hpath : t.recordingAt path = some mbid) :
        s.recordingAt path = some mbid := by
      rw [recordingAt] at hpath ⊢
      rcases h.files path with hnone | hsame
      · rw [hnone] at hpath
        cases hpath
      · rwa [← hsame]
    exact fun _ _ _ hp hq => hs.oneEach (before hp) (before hq)

end Forgets

theorem SameFiles.forgets (h : s.SameFiles t) (ht : t.Coherent) : s.Forgets t :=
  ⟨ht, h.listed, h.settings, fun path => .inr (h.fileAt_eq path)⟩

theorem Coherent.withoutTrack_forgets (h : s.Coherent) {id : TrackId} {track : Track}
    (hrow : s.tracks[id]? = some track) : s.Forgets (s.withoutTrack id track) := by
  obtain ⟨only, hgone⟩ := h.withoutTrack_touchesOnly hrow
  refine ⟨only.coherent, only.listed, only.settings, fun path => ?_⟩
  by_cases hpath : path = track.path
  · exact .inl (hpath ▸ hgone)
  · exact .inr (only.others path hpath)

end Catalog.State

namespace Scan

open Catalog Scan.Action

variable {σ κ : Type}

def Outcome.written? (entry : Entry) : Outcome → Option String
  | .added | .updated => some entry.key
  | .rejected .. => none

/-- A scan by the plan publishes `t` in place of `s`, and writes the track of a path or none. -/
inductive Commit (plan : Plan) (s t : State) : Option String → Prop
  | reconciled {entry : Entry} (hkeyed : entry.Keyed) (m : Tag.Metadata) (time now : Int)
      {outcome : Outcome}
      (hrun : s.transact (reconcile plan.skipsDuplicates entry m ⟨time, plan.scanVersion, now⟩) =
        .ok (outcome, t)) : Commit plan s t (outcome.written? entry)
  | tracksRemoved (ids : List TrackId) {removed : Nat}
      (hrun : s.transact (removeAll Session.removeTrack ids) = .ok (removed, t)) :
      Commit plan s t none
  | orphansRemoved {kind : Orphanage}
      (hkind : kind ∈ [Orphanage.clusters, Orphanage.artists, Orphanage.releases])
      {keys : List kind.Key} (hkeys : keys <+: kind.find s orphanBatchSize) {removed : Nat}
      (hrun : s.transact (removeAll kind.remove keys) = .ok (removed, t)) : Commit plan s t none

section Removal

variable {s : State}

theorem Orphanage.remove_settles {kind : Orphanage}
    (hkind : kind ∈ [Orphanage.clusters, Orphanage.artists, Orphanage.releases])
    (key : kind.Key) : Session.Settles (kind.remove key) := by
  simp only [List.mem_cons, List.not_mem_nil, or_false] at hkind
  rcases hkind with rfl | rfl | rfl
  · exact fun s hs => hs.removeCluster_succeeds key
  · exact fun s hs => hs.removeArtist_succeeds key
  · exact fun s hs => hs.removeRelease_succeeds key

theorem removeAll_forgets {α : Type} {remove : α → Session Bool}
    (hremove : ∀ a s, s.Coherent → Succeeds (remove a) s fun _ t => s.Forgets t) (l : List α)
    (hs : s.Coherent) : Succeeds (removeAll remove l) s fun _ t => s.Forgets t :=
  Endures.removeAll (Q := s.Forgets) (fun a _ t ht =>
    (hremove a t ht.coherent).imp (fun _ _ hu => ht.trans hu) fun _ _ => id) s (.refl hs)

theorem removeTrack_forgets (id : TrackId) (s : State) (hs : s.Coherent) :
    Succeeds (Session.removeTrack id) s fun _ t => s.Forgets t := by
  rw [Succeeds, State.removeTrack_ends_iff]
  cases hrow : s.tracks[id]? with
  | none => exact .refl hs
  | some track => exact hs.withoutTrack_forgets hrow

theorem Orphanage.remove_forgets {kind : Orphanage}
    (hkind : kind ∈ [Orphanage.clusters, Orphanage.artists, Orphanage.releases])
    (key : kind.Key) (s : State) (hs : s.Coherent) :
    Succeeds (kind.remove key) s fun _ t => s.Forgets t :=
  (Orphanage.remove_settles hkind key s hs).imp (fun _ _ ht => ht.2.forgets ht.1) fun _ _ => id

end Removal

section Commits

variable {plan : Plan} {s t : State} {written? : Option String}

theorem Commit.cases (h : Commit plan s t written?) (hs : s.Coherent) :
    (written? = none ∧ s.Forgets t) ∨
      ∃ (entry : Entry) (m : Tag.Metadata) (time now : Int) (outcome : Outcome),
        written? = outcome.written? entry ∧ s.TouchesOnly entry.key t ∧
          Settled plan.skipsDuplicates (Duplicated s entry.key m) entry m
            ⟨time, plan.scanVersion, now⟩ (t.fileAt entry.key) outcome := by
  have forgets {α : Type} {work : Session α} {a : α}
      (hwork : Succeeds work s fun _ t => s.Forgets t) (hrun : s.transact work = .ok (a, t)) :
      s.Forgets t :=
    State.of_transact (hwork.imp (fun _ _ => id) fun _ _ => False.elim) hrun
  cases h with
  | @reconciled entry _ m time now outcome hrun =>
      have ends := reconcile_succeeds hs plan.skipsDuplicates entry m ⟨time, plan.scanVersion, now⟩
      rw [Succeeds, Ends, State.transact_eq_ok.mp hrun] at ends
      exact .inr ⟨entry, m, time, now, outcome, rfl, ends⟩
  | tracksRemoved ids hrun =>
      exact .inl ⟨rfl, forgets (removeAll_forgets removeTrack_forgets ids hs) hrun⟩
  | orphansRemoved hkind hkeys hrun =>
      exact .inl ⟨rfl, forgets (removeAll_forgets (Orphanage.remove_forgets hkind) _ hs) hrun⟩

theorem Commit.coherent (h : Commit plan s t written?) (hs : s.Coherent) : t.Coherent := by
  rcases h.cases hs with ⟨-, forgets⟩ | ⟨_, _, _, _, _, -, only, -⟩
  · exact forgets.coherent
  · exact only.coherent

theorem Commit.distinct (h : Commit plan s t written?) (hskips : plan.skipsDuplicates = true)
    (hs : s.Distinct) : t.Distinct := by
  rcases h.cases hs.coherent with ⟨-, forgets⟩ | ⟨entry, m, time, now, outcome, -, only, settled⟩
  · exact forgets.distinct hs
  · rw [hskips] at settled
    exact distinct_of_taken hs only settled

end Commits

section Scans

variable {env : Surroundings σ κ} {plan : Plan} {P : State → Prop} {source : Tag.Metadata → Prop}

def Kept (P : State → Prop) (_ : σ) (s : State) (es : List Entry) : Prop :=
  P s ∧ ∀ entry ∈ es, entry.Keyed

theorem kept_endures : Endures env (Kept P) := ⟨id, fun _ => id⟩

theorem Kept.transact {α : Type} {work : Session α} {w : σ} {s : State} {es : List Entry}
    (hs : Kept P w s es) (succeeds : Succeeds work s fun _ _ => True)
    (commits : ∀ a t, s.transact work = .ok (a, t) → P t) :
    Succeeds work s fun _ t => Kept P w t es := by
  obtain ⟨a, t, hrun, -⟩ := succeeds_iff.mp succeeds
  exact succeeds_iff.mpr ⟨a, t, hrun, commits a t (State.transact_eq_ok.mpr hrun), hs.2⟩

section

variable (coherent : ∀ {s}, P s → s.Coherent)
  (reconciled : ∀ {s t entry m time now outcome}, P s → entry.Keyed → source m →
    s.transact (reconcile plan.skipsDuplicates entry m ⟨time, plan.scanVersion, now⟩) =
      .ok (outcome, t) → P t)
include coherent reconciled

theorem takeOver_commits {r : Run σ} (hr : Holds (Kept P) r) {entry : Entry}
    (hkeyed : entry.Keyed) {reading : Reading} {w : σ}
    (backed : reading.Backed (fun _ _ _ => source) w entry.path) :
    Succeeds (takeOver env plan entry reading) r fun _ => Holds (Kept P) := by
  cases reading with
  | unreadable | unchanged | unparsable => exact hr
  | unknown => exact backed.elim
  | parsed time m =>
      unfold takeOver Succeeds
      simp only [Ends.bind_iff, Ends.get_iff, transact_ends_iff, Ends.pure_iff]
      have taken : Succeeds
          (reconcile plan.skipsDuplicates entry m ⟨time, plan.scanVersion, env.now r.outside⟩)
          r.catalog fun _ t => Kept P r.outside t r.pending :=
        hr.transact ((reconcile_succeeds (coherent hr.1) plan.skipsDuplicates entry m _).imp
          (fun _ _ _ => trivial) fun _ _ => id)
          fun _ _ hrun => reconciled hr.1 hkeyed backed hrun
      refine taken.imp (fun outcome t ht => ?_) fun _ _ => id
      refine (countOutcome_succeeds entry.path outcome).imp ?_ fun _ _ => id
      rintro _ u ⟨hcatalog, houtside, hpending⟩
      rw [Holds, hcatalog, houtside, hpending]
      exact ht

theorem flush_commits (tells : ∀ {w p m}, env.parse w p = .ok m → source m) :
    Maintains (Holds (Kept P)) (flush env plan) := by
  have evidence := Evidence.of_source env plan tells (P := State.Coherent) id
    fun _ only => only.coherent
  refine .getBind fun r hr => ?_
  rw [Succeeds, Ends.bind_iff, Ends.modify_iff]
  apply Ends.bind (evidence.readAll_succeeds (r := { r with pending := [] }) (coherent hr.1)
    r.pending)
  rintro readings t ⟨ht, hreadings⟩
  have begun : Holds (Kept P) t := by
    rw [Holds, ht.catalog_eq, ht.pending_eq]
    exact ⟨hr.1, by simp⟩
  refine Maintains.allM ?_ t begun
  rintro ⟨entry, reading⟩ hfile
  obtain ⟨hentry, hbacked⟩ := hreadings _ hfile
  apply (kept_endures.observe env.isAborted).bind
  intro isAborted
  cases isAborted with
  | true => exact .pure false
  | false =>
      refine Maintains.bind (fun u hu => takeOver_commits coherent reconciled hu
        (hr.2 entry hentry) hbacked) fun isOpened => ?_
      apply (Endures.advanced 1).bind
      intro _
      cases isOpened with
      | true => exact kept_endures.reported.bind fun _ => .pure true
      | false => exact .pure true

end

section

variable (coherent : ∀ {s}, P s → s.Coherent)
  (cleaned : ∀ {s t}, P s → Commit plan s t none → P t)
include coherent cleaned

theorem removeOrphanTracks_commits :
    Maintains (Holds (Kept P)) (removeOrphanTracks env plan) := by
  refine kept_endures.timeless.removeOrphanTracks Endures.paced kept_endures.reported
    fun {r} ids hr => ?_
  have remove : Succeeds (removeAll Session.removeTrack ids) r.catalog
      fun _ t => Kept P r.outside t r.pending :=
    hr.transact ((removeAll_forgets removeTrack_forgets ids (coherent hr.1)).imp
      (fun _ _ _ => trivial) fun _ _ => id) fun _ _ hrun => cleaned hr.1 (.tracksRemoved ids hrun)
  exact (Endures.transact (P := Kept P) remove).bind fun _ _ ht => ht

theorem removeOrphanEntities_commits : Maintains (Holds (Kept P)) (removeOrphanEntities env) := by
  refine kept_endures.timeless.removeOrphanEntities Endures.paced
    fun {kind r keys} hkind hr hkeys => Endures.transact ?_
  exact hr.transact ((removeAll_forgets (Orphanage.remove_forgets hkind) keys
    (coherent hr.1)).imp (fun _ _ _ => trivial) fun _ _ => id)
    fun _ _ hrun => cleaned hr.1 (.orphansRemoved hkind hkeys hrun)

end

theorem process_of_source (coherent : ∀ {s}, P s → s.Coherent) (env : Surroundings σ κ) (plan : Plan)
    (tells : ∀ {w p m}, env.parse w p = .ok m → source m)
    (reconciled : ∀ {s t entry m time now outcome}, P s → entry.Keyed → source m →
      s.transact (reconcile plan.skipsDuplicates entry m ⟨time, plan.scanVersion, now⟩) =
        .ok (outcome, t) → P t)
    (cleaned : ∀ {s t}, P s → Commit plan s t none → P t) {s : State} (hs : P s) (w : σ) :
    Succeeds (process env plan) (Run.start w s) fun _ r => P r.catalog := by
  have steps : Maintains (Holds (Kept P)) (process env plan) := by
    refine kept_endures.takeSteps (fun step => ?_) id
    cases step with
    | countFiles => exact kept_endures.countFiles plan
    | scanFiles =>
        exact kept_endures.scanFiles (flush_commits coherent reconciled tells) fun hkeyed hs =>
          ⟨hs.1, List.forall_mem_append.mpr ⟨hs.2, List.forall_mem_singleton.mpr hkeyed⟩⟩
    | removeOrphanTracks => exact removeOrphanTracks_commits coherent cleaned
    | removeOrphanEntities => exact removeOrphanEntities_commits coherent cleaned
  exact (steps _ ⟨hs, by simp [Run.start]⟩).imp (fun _ _ hr => hr.1) fun _ _ => id

/-- What every commit of the scan preserves holds after it, aborted or not. -/
theorem process_commits (coherent : ∀ {s}, P s → s.Coherent) (env : Surroundings σ κ) (plan : Plan)
    (commit : ∀ {s t written?}, P s → Commit plan s t written? → P t) {s : State} (hs : P s)
    (w : σ) :
    Succeeds (process env plan) (Run.start w s) fun _ r => P r.catalog :=
  process_of_source coherent env plan (fun _ => trivial)
    (fun hs hkeyed _ hrun => commit hs (.reconciled hkeyed _ _ _ hrun))
    (fun hs hc => commit hs hc) hs w

end Scans

end Scan

end AudioCatalog
