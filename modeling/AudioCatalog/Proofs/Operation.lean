import AudioCatalog.Catalog.Store
import AudioCatalog.Proofs.EntityChange
import AudioCatalog.Proofs.Lookup

namespace AudioCatalog.Catalog

open Session

inductive Mutation where
  | createTrack (path : String)
  | updateTrack (track : Track)
  | removeTrack (id : TrackId)
  | setFeatures (id : TrackId) (features : List UInt8)
  | removeFeatures (id : TrackId)
  | createArtist (name : String) (sortName : Option String) (mbid : Option Mbid)
  | updateArtist (artist : Artist)
  | removeArtist (id : ArtistId)
  | createRelease (name : String) (mbid : Option Mbid)
  | updateRelease (release : Release)
  | removeRelease (id : ReleaseId)
  | createClusterType (name : String)
  | createCluster (key : ClusterKey)
  | removeCluster (id : ClusterId)
  | clearCredits (id : TrackId)
  | addCredit (trackId : TrackId) (artistId : ArtistId) (role : Role)
  | saveSettings (settings : ScanSettings)

def Mutation.run : Mutation → Session Unit
  | .createTrack path => do let _ ← Session.createTrack path
  | .updateTrack track => Session.updateTrack track
  | .removeTrack id => do let _ ← Session.removeTrack id
  | .setFeatures id features => Session.setFeatures id features
  | .removeFeatures id => do let _ ← Session.removeFeatures id
  | .createArtist name sortName mbid => do let _ ← Session.createArtist name sortName mbid
  | .updateArtist artist => Session.updateArtist artist
  | .removeArtist id => do let _ ← Session.removeArtist id
  | .createRelease name mbid => do let _ ← Session.createRelease name mbid
  | .updateRelease release => Session.updateRelease release
  | .removeRelease id => do let _ ← Session.removeRelease id
  | .createClusterType name => do let _ ← Session.createClusterType name
  | .createCluster key => do let _ ← Session.createCluster key
  | .removeCluster id => do let _ ← Session.removeCluster id
  | .clearCredits id => Session.clearCredits id
  | .addCredit trackId artistId role => do let _ ← Session.addCredit trackId artistId role
  | .saveSettings settings => Session.saveSettings settings

theorem Mutation.keeps_coherent (m : Mutation) : Keeps State.Coherent m.run := by
  intro s h
  have settled {α : Type} {x : Session α} {error : Error → State → Prop}
      (hx : Ends x s (fun _ t => t.Coherent ∧ s.SameFiles t) error)
      (herror : ∀ e t, error e t → t.Coherent) :
      Ends x s (fun _ t => t.Coherent) fun _ t => t.Coherent :=
    hx.imp (fun _ _ ht => ht.1) herror
  have unchanged {p : State → Prop} (_ : Error) (t : State) (ht : t = s ∧ p t) : t.Coherent :=
    ht.1 ▸ h
  cases m with
  | createTrack path =>
      simp only [run, Ends.bind_iff, Ends.pure_iff, State.createTrack_ends_iff]
      rcases h.findTrackByPath_cases path with ⟨track, -, -, -, hfind⟩ | ⟨-, hfind⟩
      · rw [hfind]
        exact h
      · rw [hfind]
        exact h.withNewTrack path
  | updateTrack track =>
      rw [run, State.updateTrack_ends_iff]
      cases hrow : s.tracks[track.id]? with
      | none => exact h
      | some previous => exact h.withTrack hrow
  | removeTrack id =>
      simp only [run, Ends.bind_iff, Ends.pure_iff, State.removeTrack_ends_iff]
      cases hrow : s.tracks[id]? with
      | none => exact h
      | some track => exact h.withoutTrack hrow
  | setFeatures id features => exact h.withFeatures (s.features.insert id features)
  | removeFeatures id => exact h.withFeatures (s.features.erase id)
  | saveSettings settings => exact h.withSettings settings
  | createArtist name sortName mbid =>
      exact Ends.bind_iff.mpr (settled (h.createArtist_ends name sortName mbid) unchanged)
  | updateArtist artist => exact settled (h.updateArtist_ends artist) unchanged
  | removeArtist id =>
      exact Ends.bind_iff.mpr (settled (h.removeArtist_succeeds id) fun _ _ => False.elim)
  | createRelease name mbid =>
      exact Ends.bind_iff.mpr (settled (h.createRelease_ends name mbid) unchanged)
  | updateRelease release => exact settled (h.updateRelease_ends release) unchanged
  | removeRelease id =>
      exact Ends.bind_iff.mpr (settled (h.removeRelease_succeeds id) fun _ _ => False.elim)
  | createClusterType name =>
      exact Ends.bind_iff.mpr (settled (h.createClusterType_ends name) unchanged)
  | createCluster key =>
      exact Ends.bind_iff.mpr (settled (h.createCluster_ends key) unchanged)
  | removeCluster id =>
      exact Ends.bind_iff.mpr (settled (h.removeCluster_succeeds id) fun _ _ => False.elim)
  | clearCredits id => exact h.withoutCreditsOf id
  | addCredit trackId artistId role => exact h.withCredit rfl

inductive Operation where
  | beginSession
  | commit
  | abort
  | change (m : Mutation)

namespace Store

/-- What is refused changes nothing; a change that fails leaves what it did to the session. -/
def step (store : Store) : Operation → Store
  | .beginSession => store.beginSession.toOption.getD store
  | .commit => store.commit.toOption.getD store
  | .abort => store.abort.toOption.getD store
  | .change m =>
    match store.within m.run with
    | .ok (_, store) => store
    | .error _ => store

def run (ops : List Operation) (store : Store) : Store := ops.foldl step store

/-- What is published has the property, and so has what an open session sees. -/
structure All (P : State → Prop) (store : Store) : Prop where
  published : P store.published
  session : ∀ s, store.session? = some s → P s

variable {P : State → Prop} {store : Store}

theorem All.step {op : Operation} (h : store.All P)
    (changes : ∀ m s, op = .change m → store.session? = some s → P s →
      Ends m.run s (fun _ => P) fun _ => P) : (store.step op).All P := by
  obtain ⟨published, _ | s⟩ := store
  · cases op with
    | beginSession =>
        refine ⟨h.published, fun s hs => ?_⟩
        cases hs
        exact h.published
    | commit | abort | change => exact h
  · have hs : P s := h.session s rfl
    cases op with
    | beginSession => exact h
    | commit => exact ⟨hs, by simp [Store.step, commit, Except.toOption]⟩
    | abort => exact ⟨h.published, by simp [Store.step, abort, Except.toOption]⟩
    | change m =>
        have hm := changes m s rfl rfl hs
        unfold Ends at hm
        simp only [Store.step, within]
        cases hrun : m.run s <;> rw [hrun] at hm
        all_goals
          refine ⟨h.published, fun t ht => ?_⟩
          cases ht
          exact hm

theorem All.run (changes : ∀ m : Mutation, Keeps P m.run) (h : store.All P)
    (ops : List Operation) : (store.run ops).All P := by
  induction ops generalizing store with
  | nil => exact h
  | cons op ops ih => exact ih (h.step fun m s _ _ hs => changes m s hs)

theorem All.keeps_coherence (h : store.All State.Coherent) (ops : List Operation) :
    (store.run ops).All State.Coherent :=
  h.run Mutation.keeps_coherent ops

theorem all_coherent_empty : ({} : Store).All State.Coherent :=
  ⟨State.coherent_empty, by simp⟩

/-- Whatever a store is taken through from the empty catalog, every index agrees with the rows, and
every row is stored under its own number, below the next one. -/
theorem run_coherent (ops : List Operation) : (run ops {}).All State.Coherent :=
  all_coherent_empty.keeps_coherence ops

/-- Whatever a store is taken through from the empty catalog, no identity belongs to two rows, and
lookups by identity and by name find exactly the rows that there are. -/
theorem run_lookups_exact (ops : List Operation) : (run ops {}).All State.LookupsExact := by
  have h := all_coherent_empty.keeps_coherence ops
  exact ⟨h.published.lookupsExact, fun s hs => (h.session s hs).lookupsExact⟩

end Store

end AudioCatalog.Catalog
