import AudioCatalog.Proofs.Cleanup
import AudioCatalog.Proofs.Counts
import AudioCatalog.Proofs.CreditLists
import AudioCatalog.Proofs.Dependability
import AudioCatalog.Proofs.OrphanBatches
import AudioCatalog.Proofs.Stillness

namespace AudioCatalog

namespace Catalog

section

variable {e f : Entity} {ρ : Type} {references : Relation (EntityId e) (EntityId f)}
  {rows rows' rows'' : Table (EntityId e) ρ} {i : EntityId e} {row : ρ}

/-- Some rows that nothing refers to may be gone; the others are as they were. -/
structure Culled (references : Relation (EntityId e) (EntityId f))
    (rows rows' : Table (EntityId e) ρ) : Prop where
  sub : ∀ {i : EntityId e} {row : ρ}, rows'[i]? = some row → rows[i]? = some row
  kept : ∀ {i : EntityId e} {row : ρ}, rows[i]? = some row → references.isEmptyAt i = false →
    rows'[i]? = some row

namespace Culled

theorem refl (references : Relation (EntityId e) (EntityId f)) (rows : Table (EntityId e) ρ) :
    Culled references rows rows := ⟨id, fun hrow _ => hrow⟩

theorem trans (h : Culled references rows rows') (h' : Culled references rows' rows'') :
    Culled references rows rows'' :=
  ⟨fun hrow => h.sub (h'.sub hrow), fun hrow hused => h'.kept (h.kept hrow hused) hused⟩

theorem erase (hempty : references.isEmptyAt i = true) : Culled references rows (rows.erase i) where
  sub := fun hrow => (getElem?_erase_eq_some.mp hrow).1
  kept := fun hrow hused => getElem?_erase_eq_some.mpr
    ⟨hrow, fun he => by simp [he, hempty] at hused⟩

theorem erase_row {δ : Type} {r : Registry e δ} {row : Named e δ}
    (hempty : references.isEmptyAt row.id = true) :
    Culled references r.rows (r.erase row).rows := by
  rw [Registry.erase_rows]
  exact erase hempty

theorem getElem?_iff (h : Culled references rows rows')
    (none : State.orphans rows' references rows'.size = []) :
    rows'[i]? = some row ↔ rows[i]? = some row ∧ ∃ j, references.contains i j := by
  have used : references.isEmptyAt i = false ↔ ∃ j, references.contains i j := by
    rw [← Bool.not_eq_true, Relation.isEmptyAt_iff, List.eq_nil_iff_forall_not_mem, not_forall_not]
    rfl
  rw [← used]
  refine ⟨fun hrow => ⟨h.sub hrow, ?_⟩, fun hrow => h.kept hrow.1 hrow.2⟩
  rw [State.orphans_size, List.filter_eq_nil_iff] at none
  refine Bool.not_eq_true _ ▸ none i (Std.ExtTreeMap.mem_keys.mpr ?_)
  exact Std.ExtTreeMap.mem_iff_isSome_getElem?.mpr (by simp [hrow])

end Culled

/-- The entries of an index that are left are those of the rows that are left. -/
theorem Matches.entry_iff {α : Type} {entry entry' : α → EntityId e → Prop}
    {mentions : ρ → α → Prop} (h : Matches entry rows mentions) (h' : Matches entry' rows' mentions)
    (sub : ∀ {i : EntityId e} {row : ρ}, rows'[i]? = some row → rows[i]? = some row) (a : α) :
    entry' a i ↔ entry a i ∧ i ∈ rows' := by
  rw [h' a i, h a i, Std.ExtTreeMap.mem_iff_isSome_getElem?, Option.isSome_iff_exists]
  constructor
  · rintro ⟨row, hrow, hmentions⟩
    exact ⟨⟨row, sub hrow, hmentions⟩, row, hrow⟩
  · rintro ⟨⟨row, hrow, hmentions⟩, other, hother⟩
    rw [sub hother, Option.some.injEq] at hrow
    exact ⟨other, hother, hrow ▸ hmentions⟩

end

namespace State

variable {s t u : State} {m n : Nat}

def entities (s : State) : Nat := s.clusters.size + s.artists.rows.size + s.releases.rows.size

structure Sheds (s : State) (n : Nat) (t : State) : Prop where
  coherent : t.Coherent
  others : t = { s with
    artists := t.artists
    releases := t.releases
    clusters := t.clusters
    clusterByKey := t.clusterByKey }
  nextArtist : t.artists.next = s.artists.next
  nextRelease : t.releases.next = s.releases.next
  clusters : Culled s.tracksOfCluster s.clusters t.clusters
  artists : Culled s.creditsOfArtist s.artists.rows t.artists.rows
  releases : Culled s.tracksOfRelease s.releases.rows t.releases.rows
  size : t.entities + n = s.entities

namespace Sheds

theorem refl (h : s.Coherent) : s.Sheds 0 s :=
  ⟨h, rfl, rfl, rfl, .refl _ _, .refl _ _, .refl _ _, rfl⟩

theorem trans (h : s.Sheds m t) (h' : t.Sheds n u) : s.Sheds (n + m) u where
  coherent := h'.coherent
  others := h'.others.trans (by rw [h.others])
  nextArtist := h'.nextArtist.trans h.nextArtist
  nextRelease := h'.nextRelease.trans h.nextRelease
  clusters := h.clusters.trans (by have := h'.clusters; rwa [h.others] at this)
  artists := h.artists.trans (by have := h'.artists; rwa [h.others] at this)
  releases := h.releases.trans (by have := h'.releases; rwa [h.others] at this)
  size := by rw [← Nat.add_assoc, h'.size, h.size]

end Sheds

/-- Exactly the clusters, artists and releases are left that tracks refer to, with their entries in
the indexes; `n` others are gone, and all else is as it was. -/
structure OrphansGone (s : State) (n : Nat) (t : State) : Prop where
  clusters : ∀ (i : ClusterId) (cluster : Cluster), t.clusters[i]? = some cluster ↔
    s.clusters[i]? = some cluster ∧
      ∃ (j : TrackId) (track : Track), s.tracks[j]? = some track ∧ i ∈ track.clusterIds
  artists : ∀ (i : ArtistId) (artist : Artist), t.artists.rows[i]? = some artist ↔
    s.artists.rows[i]? = some artist ∧
      ∃ (j : CreditId) (credit : Credit), s.credits[j]? = some credit ∧ credit.artistId = i
  releases : ∀ (i : ReleaseId) (release : Release), t.releases.rows[i]? = some release ↔
    s.releases.rows[i]? = some release ∧
      ∃ (j : TrackId) (track : Track), s.tracks[j]? = some track ∧ track.releaseId = some i
  clusterByKey : ∀ (text : String) (i : ClusterId), t.clusterByKey[text]? = some i ↔
    s.clusterByKey[text]? = some i ∧ i ∈ t.clusters
  artistByMbid : ∀ (mbid : Mbid) (i : ArtistId), t.artists.byMbid[mbid]? = some i ↔
    s.artists.byMbid[mbid]? = some i ∧ i ∈ t.artists.rows
  artistsByName : ∀ (name : String) (i : ArtistId), t.artists.byName.contains name i ↔
    s.artists.byName.contains name i ∧ i ∈ t.artists.rows
  releaseByMbid : ∀ (mbid : Mbid) (i : ReleaseId), t.releases.byMbid[mbid]? = some i ↔
    s.releases.byMbid[mbid]? = some i ∧ i ∈ t.releases.rows
  releasesByName : ∀ (name : String) (i : ReleaseId), t.releases.byName.contains name i ↔
    s.releases.byName.contains name i ∧ i ∈ t.releases.rows
  nextArtist : t.artists.next = s.artists.next
  nextRelease : t.releases.next = s.releases.next
  others : t = { s with
    artists := t.artists
    releases := t.releases
    clusters := t.clusters
    clusterByKey := t.clusterByKey }
  none : ∀ limit, t.orphanClusters limit = [] ∧ t.orphanArtists limit = [] ∧
    t.orphanReleases limit = []
  size : t.entities + n = s.entities

theorem Sheds.orphansGone (h : s.Sheds n t) (hs : s.Coherent)
    (clusters : t.orphanClusters t.clusters.size = [])
    (artists : t.orphanArtists t.artists.rows.size = [])
    (releases : t.orphanReleases t.releases.rows.size = []) : s.OrphansGone n t where
  clusters := fun i cluster => by
    have references : t.tracksOfCluster = s.tracksOfCluster := by rw [h.others]
    rw [orphanClusters, references] at clusters
    refine (h.clusters.getElem?_iff clusters).trans (and_congr_right fun _ => ?_)
    exact exists_congr fun j => hs.tracks.ofCluster i j
  artists := fun i artist => by
    have references : t.creditsOfArtist = s.creditsOfArtist := by rw [h.others]
    rw [orphanArtists, references] at artists
    refine (h.artists.getElem?_iff artists).trans (and_congr_right fun _ => ?_)
    exact exists_congr fun j => hs.credits.ofArtist i j
  releases := fun i release => by
    have references : t.tracksOfRelease = s.tracksOfRelease := by rw [h.others]
    rw [orphanReleases, references] at releases
    refine (h.releases.getElem?_iff releases).trans (and_congr_right fun _ => ?_)
    exact exists_congr fun j => hs.tracks.ofRelease i j
  clusterByKey := fun text _ =>
    hs.clusters.byKey.entry_iff h.coherent.clusters.byKey h.clusters.sub text
  artistByMbid := fun mbid _ =>
    hs.artists.byMbid.entry_iff h.coherent.artists.byMbid h.artists.sub mbid
  artistsByName := fun name _ =>
    hs.artists.byName.entry_iff h.coherent.artists.byName h.artists.sub name
  releaseByMbid := fun mbid _ =>
    hs.releases.byMbid.entry_iff h.coherent.releases.byMbid h.releases.sub mbid
  releasesByName := fun name _ =>
    hs.releases.byName.entry_iff h.coherent.releases.byName h.releases.sub name
  nextArtist := h.nextArtist
  nextRelease := h.nextRelease
  others := h.others
  none := fun limit => by
    rw [orphanClusters] at clusters
    rw [orphanArtists] at artists
    rw [orphanReleases] at releases
    rw [orphanClusters, orphanArtists, orphanReleases, orphans_eq_take, clusters,
      orphans_eq_take t.artists.rows, artists, orphans_eq_take t.releases.rows, releases]
    simp
  size := h.size

end State

end Catalog

namespace Scan

open Catalog Scan.Action Session

variable {σ κ : Type} {env : Surroundings σ κ} {kind : Orphanage} {spared : List Orphanage}
  {r t u : Run σ} {m n : Nat}

namespace Orphanage

def Exact (kind : Orphanage) : Prop :=
  ∀ {s : State} {key : kind.Key} {rest : List kind.Key}, s.Coherent → kind.all s = key :: rest →
    Succeeds (kind.remove key) s fun isRemoved t => isRemoved = true ∧ s.Sheds 1 t

theorem clusters_exact : clusters.Exact := by
  intro s key rest hs hall
  obtain ⟨⟨cluster, hrow⟩, hempty⟩ := State.isEmptyAt_of_orphans hall
  have settled := hs.removeCluster_succeeds key
  rw [Succeeds, State.removeCluster_ends_iff hrow hempty] at settled
  refine (State.removeCluster_ends_iff hrow hempty).mpr
    ⟨rfl, settled.1, rfl, rfl, rfl, .erase hempty, .refl _ _, .refl _ _, ?_⟩
  have size := size_erase_of_row hrow
  simp only [State.entities]
  omega

theorem artists_exact : artists.Exact := by
  intro s key rest hs hall
  obtain ⟨⟨artist, hrow⟩, hempty⟩ := State.isEmptyAt_of_orphans hall
  obtain rfl := hs.artists.numbered.id_eq hrow
  have settled := hs.removeArtist_succeeds artist.id
  rw [Succeeds, State.removeArtist_ends_iff hrow hempty] at settled
  refine (State.removeArtist_ends_iff hrow hempty).mpr ⟨rfl, settled.1, rfl,
    Registry.erase_next artist, rfl, .refl _ _, .erase_row hempty, .refl _ _, ?_⟩
  have size := size_erase_of_row hrow
  simp only [State.entities, Registry.erase_rows]
  omega

theorem releases_exact : releases.Exact := by
  intro s key rest hs hall
  obtain ⟨⟨release, hrow⟩, hempty⟩ := State.isEmptyAt_of_orphans hall
  obtain rfl := hs.releases.numbered.id_eq hrow
  have settled := hs.removeRelease_succeeds release.id
  rw [Succeeds, State.removeRelease_ends_iff hrow hempty] at settled
  refine (State.removeRelease_ends_iff hrow hempty).mpr ⟨rfl, settled.1, rfl, rfl,
    Registry.erase_next release, .refl _ _, .refl _ _, .erase_row hempty, ?_⟩
  have size := size_erase_of_row hrow
  simp only [State.entities, Registry.erase_rows]
  omega

theorem Sound.removeAll_sheds (sound : kind.Sound spared) (exact : kind.Exact) {s : State}
    (hs : s.Coherent) {keys rest : List kind.Key} (hall : kind.all s = keys ++ rest) :
    Succeeds (removeAll kind.remove keys) s s.Sheds := by
  induction keys generalizing s with
  | nil => exact .refl hs
  | cons key keys ih =>
      obtain ⟨_, t, hrun, first, rfl, shed⟩ :=
        succeeds_iff.mp ((sound.remove hs hall).and (exact hs hall))
      rw [removeAll, Succeeds, Ends, bind_eq_of_ok hrun, ← Ends]
      exact Ends.bind (ih first.coherent first.left) fun _ _ others => shed.trans others

structure Sheds (env : Surroundings σ κ) (spared : List Orphanage) (r : Run σ) (n : Nat)
    (t : Run σ) : Prop where
  others : t = { r with outside := t.outside, catalog := t.catalog }
  sheds : r.catalog.Sheds n t.catalog
  spares : ∀ other ∈ spared, other.all t.catalog = other.all r.catalog
  stays : env.isAborted r.outside = true → env.isAborted t.outside = true

theorem Sheds.trans (h : Sheds env spared r m t) (h' : Sheds env spared t n u) :
    Sheds env spared r (n + m) u where
  others := h'.others.trans (by rw [h.others])
  sheds := h.sheds.trans h'.sheds
  spares := fun other hother => (h'.spares other hother).trans (h.spares other hother)
  stays := fun hAborted => h'.stays (h.stays hAborted)

variable (sound : kind.Sound spared) (exact : kind.Exact) (stays : env.AbortStays)
include sound exact stays

theorem Sound.batch_sheds {goesOn : Bool} (hr : r.catalog.Coherent)
    (hrun : removeBatch env kind r = .ok (n, goesOn) t) : Sheds env spared r n t ∧
      (goesOn = false → kind.all t.catalog = [] ∨ env.isAborted t.outside = true) := by
  let Q (w : σ) : Prop := env.isAborted r.outside = true → env.isAborted w = true
  have wait (w : σ) (hw : Q w) : Q (env.wait w) := fun hAborted => stays.wait (hw hAborted)
  have batch := sound.batch_of_ok wait hr id hrun
  obtain ⟨others, hworld, ⟨taken, rest, hall, hremoved, gone⟩, ends⟩ := batch
  have sheds := sound.removeAll_sheds exact hr hall
  rw [Succeeds, Ends, hremoved] at sheds
  refine ⟨⟨others, sheds, gone.spares, hworld⟩, ?_⟩
  rintro rfl
  exact ends

theorem Sound.batches_shed (hr : r.catalog.Coherent) (h : Batches env kind r n t) :
    Sheds env spared r n t ∧ (kind.all t.catalog = [] ∨ env.isAborted t.outside = true) := by
  induction h with
  | last hrun =>
      obtain ⟨sheds, done⟩ := sound.batch_sheds exact stays hr hrun
      exact ⟨sheds, done rfl⟩
  | more hrun _ ih =>
      obtain ⟨first, -⟩ := sound.batch_sheds exact stays hr hrun
      obtain ⟨others, done⟩ := ih first.sheds.coherent
      exact ⟨first.trans others, done⟩

theorem Sound.removeOrphans_sheds (hr : r.catalog.Coherent) :
    Succeeds (removeOrphans env kind) r fun n t => Batches env kind r n t ∧
      Sheds env spared r n t ∧ (kind.all t.catalog = [] ∨ env.isAborted t.outside = true) :=
  (sound.removeOrphans_batches hr).imp
    (fun _ _ batches => ⟨batches, sound.batches_shed exact stays hr batches⟩) fun _ _ => id

end Orphanage

/-- The removal of orphans comes to an end, however long its batches go on, and unless it was
aborted it has removed all of them and nothing else; what it reports is how many they were. -/
theorem Reachable.removeOrphanEntities_exact (stays : env.AbortStays) (h : Reachable r.catalog) :
    ∃ clusters r₁ artists r₂ releases t, Batches env .clusters r clusters r₁ ∧
      Batches env .artists r₁ artists r₂ ∧ Batches env .releases r₂ releases t ∧
      removeOrphanEntities env r = .ok () { r with
        outside := t.outside
        catalog := t.catalog
        progress := { r.progress with
          total := clusters + artists + releases
          processed := r.progress.processed + (clusters + artists + releases) } } ∧
      (env.isAborted t.outside = false →
        r.catalog.OrphansGone (clusters + artists + releases) t.catalog) := by
  obtain ⟨clusters, r₁, hrun₁, batches₁, sheds₁, done₁⟩ := succeeds_iff.mp
    (Orphanage.clusters_sound.removeOrphans_sheds Orphanage.clusters_exact stays h.coherent)
  obtain ⟨artists, r₂, hrun₂, batches₂, sheds₂, done₂⟩ := succeeds_iff.mp
    (Orphanage.artists_sound.removeOrphans_sheds Orphanage.artists_exact stays
      sheds₁.sheds.coherent)
  obtain ⟨releases, t, hrun₃, batches₃, sheds₃, done₃⟩ := succeeds_iff.mp
    (Orphanage.releases_sound.removeOrphans_sheds Orphanage.releases_exact stays
      sheds₂.sheds.coherent)
  refine ⟨clusters, r₁, artists, r₂, releases, t, batches₁, batches₂, batches₃, ?_,
    fun finished => ?_⟩
  · rw [removeOrphanEntities, bind_eq_of_ok hrun₁, bind_eq_of_ok hrun₂, bind_eq_of_ok hrun₃]
    have others : t = { r with outside := t.outside, catalog := t.catalog } :=
      sheds₃.others.trans (by rw [sheds₂.others, sheds₁.others])
    rw [others]
    rfl
  · have unaborted : ¬ env.isAborted t.outside = true := by simp [finished]
    have noClusters := done₁.resolve_right fun hAborted =>
      unaborted (sheds₃.stays (sheds₂.stays hAborted))
    have noArtists := done₂.resolve_right fun hAborted => unaborted (sheds₃.stays hAborted)
    rw [← sheds₂.spares _ List.mem_cons_self, ← sheds₃.spares _ List.mem_cons_self] at noClusters
    rw [← sheds₃.spares _ (List.mem_cons_of_mem _ List.mem_cons_self)] at noArtists
    have sheds := (sheds₁.sheds.trans sheds₂.sheds).trans sheds₃.sheds
    rw [Nat.add_comm releases, Nat.add_comm artists] at sheds
    exact sheds.orphansGone h.coherent noClusters noArtists (done₃.resolve_right unaborted)

theorem Reachable.removeOrphanEntities_hundred : ∃ s t, Reachable s ∧
    orphanBatchSize = 100 ∧ (s.orphanArtists 1000).length = 100 ∧
    removeOrphanEntities (quiet (album []) soundOnly 0) (Run.start [] s) = .ok () t ∧
    t.progress.total = 100 ∧ t.catalog.artists.rows.size = 1 ∧ s.OrphansGone 100 t.catalog := by
  let env := quiet (album []) soundOnly 0
  obtain ⟨s, hs⟩ : ∃ s, s = ([Mutation.createTrack "a", .createArtist "A" none none,
      .addCredit ⟨1⟩ ⟨1⟩ .artist] ++ List.replicate 100 (Mutation.createArtist "B" none none)).foldl
        Mutation.after {} := ⟨_, rfl⟩
  have reached : Reachable s := hs ▸ Reachable.empty.after _
  have full : (s.orphanArtists 1000).length = 100 := by
    rw [hs]
    decide +kernel
  have ends : Succeeds (removeOrphanEntities env) (Run.start [] s) fun _ t =>
      t.progress.total = 100 ∧ t.catalog.artists.rows.size = 1 := by
    rw [hs]
    decide +kernel
  have stays : env.AbortStays := ⟨id, fun _ => id⟩
  obtain ⟨clusters, _, artists, _, releases, t, -, -, -, hrun, gone⟩ :=
    Reachable.removeOrphanEntities_exact (r := Run.start [] s) stays reached
  rw [Succeeds, Ends, hrun] at ends
  obtain ⟨total, size⟩ := ends
  exact ⟨s, _, reached, rfl, full, hrun, total, size, total ▸ gone rfl⟩

end Scan

end AudioCatalog
