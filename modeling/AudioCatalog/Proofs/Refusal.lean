import AudioCatalog.Proofs.Dependability

namespace AudioCatalog

namespace Catalog

namespace Registry

variable {e : Entity} {δ : Type}

def Holds (r : Registry e δ) (mbid : Mbid) : Prop :=
  ∃ (i : EntityId e) (row : Named e δ), r.rows[i]? = some row ∧ row.mbid = some mbid

def HoldsElsewhere (r : Registry e δ) (mbid : Mbid) (id : EntityId e) : Prop :=
  ∃ (i : EntityId e) (row : Named e δ), r.rows[i]? = some row ∧ row.mbid = some mbid ∧ i ≠ id

def RefusesNew (r : Registry e δ) (mbid : Option Mbid) (cause : Error) : Prop :=
  ∃ m, mbid = some m ∧ r.Holds m ∧ cause = .conflict (.mbidTaken e m)

def RefusesRow (r : Registry e δ) (row : Named e δ) (cause : Error) : Prop :=
  (row.id ∉ r.rows ∧ cause = missing row.id) ∨ (row.id ∈ r.rows ∧
    ∃ m, row.mbid = some m ∧ r.HoldsElsewhere m row.id ∧ cause = .conflict (.mbidTaken e m))

theorem refusesRow_conflict_iff {r : Registry e δ} {row : Named e δ} :
    (∃ c, r.RefusesRow row (.conflict c)) ↔
      row.id ∈ r.rows ∧ ∃ m, row.mbid = some m ∧ r.HoldsElsewhere m row.id := by
  constructor
  · rintro ⟨c, ⟨-, ⟨⟩⟩ | ⟨there, m, own, taken, -⟩⟩
    exact ⟨there, m, own, taken⟩
  · rintro ⟨there, m, own, taken⟩
    exact ⟨_, .inr ⟨there, m, own, taken, rfl⟩⟩

namespace Coherent

variable {r : Registry e δ} (h : r.Coherent) {cause : Error}
include h

theorem checkMbid_eq_error_iff {mbid : Option Mbid} {isOwn : Named e δ → Bool} :
    r.checkMbid mbid isOwn = .error cause ↔ ∃ m row, mbid = some m ∧ r.rows[row.id]? = some row ∧
      row.mbid = some m ∧ isOwn row = false ∧ cause = .conflict (.mbidTaken e m) := by
  rcases h.checkMbid_cases mbid isOwn with ⟨hok, free⟩ | ⟨m, row, rfl, hrow, hm, hown, herror⟩
  · rw [hok]
    refine iff_of_false (by simp) ?_
    rintro ⟨m, row, rfl, hrow, hm, hown, -⟩
    have := free row.id row hrow (by simp [hm]) hm
    simp [hown] at this
  · rw [herror]
    constructor
    · rintro ⟨⟩
      exact ⟨m, row, rfl, hrow, hm, hown, rfl⟩
    · rintro ⟨_, _, ⟨⟩, -, -, -, rfl⟩
      rfl

theorem create_eq_error_iff {name : String} {mbid : Option Mbid} {detail : δ} :
    r.create name mbid detail = .error cause ↔ r.RefusesNew mbid cause := by
  have refused : r.create name mbid detail = .error cause ↔
      r.checkMbid mbid (fun _ => false) = .error cause := by
    rw [create_eq]
    cases r.checkMbid mbid fun _ => false <;> simp [Except.map]
  rw [refused, h.checkMbid_eq_error_iff]
  constructor
  · rintro ⟨m, row, hmbid, hrow, hm, -, hcause⟩
    exact ⟨m, hmbid, ⟨row.id, row, hrow, hm⟩, hcause⟩
  · rintro ⟨m, hmbid, ⟨i, row, hrow, hm⟩, hcause⟩
    exact ⟨m, row, hmbid, h.numbered.id_eq hrow ▸ hrow, hm, rfl, hcause⟩

theorem update_eq_error_iff {row : Named e δ} :
    r.update row = .error cause ↔ r.RefusesRow row cause := by
  rw [RefusesRow]
  cases hrow : r.rows[row.id]? with
  | none =>
      have absent : row.id ∉ r.rows := by simp [Std.ExtTreeMap.mem_iff_isSome_getElem?, hrow]
      simp [update, indexed, find?, bind, Except.bind, absent, eq_comm]
  | some previous =>
      have present : row.id ∈ r.rows := mem_of_getElem?_eq_some hrow
      have refused : r.update row = .error cause ↔
          r.checkMbid row.mbid (fun other => other.id = row.id) = .error cause := by
        rw [h.update_eq hrow]
        cases r.checkMbid row.mbid fun other => other.id = row.id <;> simp [Except.map]
      rw [refused, h.checkMbid_eq_error_iff]
      simp only [present, not_true_eq_false, false_and, false_or, true_and]
      constructor
      · rintro ⟨m, other, hmbid, hother, hm, hown, hcause⟩
        exact ⟨m, hmbid, ⟨other.id, other, hother, hm, by simpa using hown⟩, hcause⟩
      · rintro ⟨m, hmbid, ⟨i, other, hother, hm, hne⟩, hcause⟩
        obtain rfl := h.numbered.id_eq hother
        exact ⟨m, other, hmbid, hother, hm, by simpa using hne, hcause⟩

end Coherent

end Registry

def Mutation.Refused (s : State) : Mutation → Error → Prop
  | .createTrack path, e => path ∈ s.trackByPath ∧ e = .conflict (.pathTaken path)
  | .updateTrack track, e => track.id ∉ s.tracks ∧ e = missing track.id
  | .createArtist _ _ mbid, e => s.artists.RefusesNew mbid e
  | .updateArtist artist, e => s.artists.RefusesRow artist e
  | .createRelease _ mbid, e => s.releases.RefusesNew mbid e
  | .updateRelease release, e => s.releases.RefusesRow release e
  | .createClusterType name, e =>
    (∃ (i : ClusterTypeId) (clusterType : ClusterType), s.clusterTypes[i]? = some clusterType ∧
      clusterType.name = name) ∧ e = .conflict (.clusterTypeTaken name)
  | .createCluster key, e =>
    (key.typeId ∉ s.clusterTypes ∧ e = .conflict (.clusterTypeUnknown key.typeId)) ∨
      (key.typeId ∈ s.clusterTypes ∧ (∃ (i : ClusterId) (cluster : Cluster),
        s.clusters[i]? = some cluster ∧ cluster.key = key) ∧
        e = .conflict (.clusterTaken key.name))
  | _, _ => False

/-- The work is refused with an error where this is the only one for which there is a reason, and
then nothing has changed; it is done where there is no reason. -/
def RefusedAs (reason : Error → Prop) {α : Type} (work : Session α) (s : State) : Prop :=
  Ends work s (fun _ _ => ∀ e, ¬ reason e) fun e t => t = s ∧ ∀ e', reason e' ↔ e' = e

namespace RefusedAs

variable {reason : Error → Prop} {α : Type} {work : Session α} {s t : State} {e : Error}

theorem eq_error_iff (h : RefusedAs reason work s) : work s = .error e t ↔ t = s ∧ reason e := by
  unfold RefusedAs Ends at h
  cases hrun : work s with
  | ok a u =>
      rw [hrun] at h
      simp [h e]
  | error cause u =>
      rw [hrun] at h
      rw [h.1, h.2 e, EStateM.Result.error.injEq, and_comm, eq_comm, @eq_comm _ cause]

theorem dropped (h : RefusedAs reason work s) : RefusedAs reason (do let _ ← work) s :=
  Ends.bind_iff.mpr h

theorem of_succeeds {ok : α → State → Prop} (h : Succeeds work s ok) :
    RefusedAs (fun _ => False) work s :=
  h.imp (fun _ _ _ _ => id) fun _ _ => False.elim

theorem onArtists {f : Registry .artist (Option String) →
      Except Error (α × Registry .artist (Option String))}
    (h : ∀ e, f s.artists = .error e ↔ reason e) : RefusedAs reason (Session.onArtists f) s := by
  rw [RefusedAs, Session.onArtists_ends_iff]
  cases hf : f s.artists with
  | ok result => exact fun e he => by simp [← h e, hf] at he
  | error cause => exact ⟨rfl, fun e => by rw [← h e, hf, Except.error.injEq, eq_comm]⟩

theorem onReleases {f : Registry .release Unit → Except Error (α × Registry .release Unit)}
    (h : ∀ e, f s.releases = .error e ↔ reason e) : RefusedAs reason (Session.onReleases f) s := by
  rw [RefusedAs, Session.onReleases_ends_iff]
  cases hf : f s.releases with
  | ok result => exact fun e he => by simp [← h e, hf] at he
  | error cause => exact ⟨rfl, fun e => by rw [← h e, hf, Except.error.injEq, eq_comm]⟩

end RefusedAs

namespace State.Coherent

open Session

variable {s : State} (h : s.Coherent)
include h

theorem createTrack_refused (path : String) :
    RefusedAs ((Mutation.createTrack path).Refused s) (createTrack path) s := by
  rw [RefusedAs, createTrack_ends_iff]
  rcases h.findTrackByPath_cases path with ⟨track, hentry, -, -, hfind⟩ | ⟨hfree, hfind⟩
  · have taken : path ∈ s.trackByPath :=
      Std.ExtTreeMap.mem_iff_isSome_getElem?.mpr (by simp [hentry])
    simp [hfind, Mutation.Refused, taken]
  · have free : path ∉ s.trackByPath := by
      simp [Std.ExtTreeMap.mem_iff_isSome_getElem?, hfree]
    simp [hfind, Mutation.Refused, free]

omit h in
theorem updateTrack_refused (track : Track) :
    RefusedAs ((Mutation.updateTrack track).Refused s) (updateTrack track) s := by
  simp only [RefusedAs, updateTrack_ends_iff, Mutation.Refused,
    Std.ExtTreeMap.mem_iff_isSome_getElem?]
  cases s.tracks[track.id]? <;> simp

theorem createClusterType_refused (name : String) :
    RefusedAs ((Mutation.createClusterType name).Refused s) (createClusterType name) s := by
  rw [RefusedAs, createClusterType, Ends.bind_iff, query_ends_iff]
  rcases h.findClusterTypeByName_cases name with ⟨other, hrow, hname, hfind⟩ | ⟨free, hfind⟩
  · have taken : ∃ (i : ClusterTypeId) (clusterType : ClusterType),
        s.clusterTypes[i]? = some clusterType ∧ clusterType.name = name := ⟨_, other, hrow, hname⟩
    rw [hfind]
    simp [Mutation.Refused, taken]
  · rw [hfind]
    rintro e ⟨⟨i, other, hrow, hname⟩, -⟩
    exact free i other hrow hname

theorem createCluster_refused (key : ClusterKey) :
    RefusedAs ((Mutation.createCluster key).Refused s) (createCluster key) s := by
  rw [RefusedAs, createCluster, Ends.bind_iff, Ends.get_iff, findClusterType?]
  simp only [Mutation.Refused, Std.ExtTreeMap.mem_iff_isSome_getElem?]
  cases s.clusterTypes[key.typeId]? with
  | none => simp
  | some clusterType =>
      simp only [Option.isNone_some, Bool.false_eq_true, if_false, Ends.bind_iff, query_ends_iff]
      rcases h.findClusterByKey_cases key with ⟨other, hrow, hkey, hfind⟩ | ⟨free, hfind⟩
      · have taken : ∃ (i : ClusterId) (cluster : Cluster), s.clusters[i]? = some cluster ∧
            cluster.key = key := ⟨_, other, hrow, hkey⟩
        rw [hfind]
        simp [taken]
      · rw [hfind]
        rintro e (⟨lacking, -⟩ | ⟨-, ⟨i, other, hrow, hkey⟩, -⟩)
        · exact lacking rfl
        · exact free i other hrow hkey

theorem refused (m : Mutation) : RefusedAs (m.Refused s) m.run s := by
  cases m with
  | createTrack path => exact (h.createTrack_refused path).dropped
  | updateTrack track => exact updateTrack_refused track
  | createArtist name sortName mbid =>
      exact .dropped <| .onArtists fun e => h.artists.create_eq_error_iff
  | updateArtist artist => exact .onArtists fun e => h.artists.update_eq_error_iff
  | createRelease name mbid =>
      exact .dropped <| .onReleases fun e => h.releases.create_eq_error_iff
  | updateRelease release => exact .onReleases fun e => h.releases.update_eq_error_iff
  | createClusterType name => exact (h.createClusterType_refused name).dropped
  | createCluster key => exact (h.createCluster_refused key).dropped
  | removeArtist id => exact .dropped (.of_succeeds (h.removeArtist_succeeds id))
  | removeRelease id => exact .dropped (.of_succeeds (h.removeRelease_succeeds id))
  | removeCluster id => exact .dropped (.of_succeeds (h.removeCluster_succeeds id))
  | removeTrack id =>
      have succeeds : Succeeds (removeTrack id) s fun _ _ => True := by
        rw [Succeeds, removeTrack_ends_iff]
        cases s.tracks[id]? <;> trivial
      exact .dropped (.of_succeeds succeeds)
  | setFeatures | removeFeatures | clearCredits | addCredit | saveSettings =>
      exact fun _ => id

end State.Coherent

namespace Store

variable {store after : Store} {s : State}

theorem within_eq_error_iff {α : Type} {work : Session α} {e : Error}
    (hs : store.session? = some s) : store.within work = .ok (.error e, after) ↔
      ∃ t, work s = .error e t ∧ after = { store with session? := some t } := by
  simp only [within, hs]
  cases work s with
  | ok a t => simp
  | error cause t =>
      constructor
      · rintro ⟨⟩
        exact ⟨t, rfl, rfl⟩
      · rintro ⟨_, ⟨⟩, rfl⟩
        rfl

structure Refuses (store : Store) (s : State) : Prop where
  unchanged : ∀ (m : Mutation) {e : Error} {after : Store},
    store.within m.run = .ok (.error e, after) → after = store ∧ after.commit = .ok ⟨s, none⟩
  refused_iff : ∀ (m : Mutation) (e : Error),
    (∃ after, store.within m.run = .ok (.error e, after)) ↔ m.Refused s e
  artist_conflict_iff : ∀ artist : Artist,
    (∃ c after, store.within (Session.updateArtist artist) = .ok (.error (.conflict c), after)) ↔
      artist.id ∈ s.artists.rows ∧ ∃ mbid, artist.mbid = some mbid ∧
        s.artists.HoldsElsewhere mbid artist.id
  release_conflict_iff : ∀ release : Release,
    (∃ c after, store.within (Session.updateRelease release) = .ok (.error (.conflict c), after)) ↔
      release.id ∈ s.releases.rows ∧ ∃ mbid, release.mbid = some mbid ∧
        s.releases.HoldsElsewhere mbid release.id

end Store

end Catalog

namespace Scan

open Catalog

/-- In a session that may be reached, a change is refused just for the reasons there are, and one
that was refused has changed nothing: the session can be committed as it was. -/
theorem Reachable.refuses {store : Store} {s : State} (h : Reachable s)
    (hs : store.session? = some s) : store.Refuses s := by
  have refused_iff (m : Mutation) (e : Error) :
      (∃ after, store.within m.run = .ok (.error e, after)) ↔ m.Refused s e := by
    simp [Store.within_eq_error_iff hs, (h.coherent.refused m).eq_error_iff]
  refine ⟨fun m e after hrun => ?_, refused_iff, fun artist => ?_, fun release => ?_⟩
  · obtain ⟨t, hwork, rfl⟩ := (Store.within_eq_error_iff hs).mp hrun
    obtain ⟨rfl, -⟩ := (h.coherent.refused m).eq_error_iff.mp hwork
    exact ⟨by rw [← hs], rfl⟩
  · exact (exists_congr fun c => refused_iff (.updateArtist artist) (.conflict c)).trans
      Registry.refusesRow_conflict_iff
  · exact (exists_congr fun c => refused_iff (.updateRelease release) (.conflict c)).trans
      Registry.refusesRow_conflict_iff

theorem refuses_second_holder : ∃ (store : Store) (s : State), store.session? = some s ∧
    store.Refuses s ∧
    ∃ c, store.within (Session.updateArtist ⟨⟨2⟩, "B", some ⟨1, by decide, by decide⟩, none⟩) =
      .ok (.error (.conflict c), store) := by
  let mbid : Mbid := ⟨1, by decide, by decide⟩
  let ms : List Mutation := [.createArtist "A" none (some mbid), .createArtist "B" none none]
  let store : Store := ⟨{}, some (ms.foldl Mutation.after {})⟩
  have refuses := (Reachable.empty.after ms).refuses (show store.session? = some _ from rfl)
  have taken := (refuses.artist_conflict_iff ⟨⟨2⟩, "B", some mbid, none⟩).mpr
    ⟨by decide +kernel, mbid, rfl, ⟨1⟩, ⟨⟨1⟩, "A", some mbid, none⟩, by decide +kernel, rfl,
      by decide⟩
  obtain ⟨c, after, hrun⟩ := taken
  obtain rfl := (refuses.unchanged (.updateArtist _) hrun).1
  exact ⟨_, _, rfl, refuses, c, hrun⟩

end Scan

end AudioCatalog
