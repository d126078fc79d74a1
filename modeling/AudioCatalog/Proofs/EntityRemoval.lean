import AudioCatalog.Proofs.Works
import Mathlib.Data.List.Sort

namespace AudioCatalog

namespace Relation

variable {α β : Type} [Ord α] [Ord β] [Std.TransOrd α] [Std.TransOrd β] {r : Relation α β} {a : α}

theorem image_eq_nil (h : r.isEmptyAt a = true) : r.image a = [] := by
  have : r.images[a]? = none := by
    rw [isEmptyAt, Bool.not_eq_true'] at h
    exact Std.ExtTreeMap.getElem?_eq_none_of_contains_eq_false h
  rw [image, this]

theorem eraseAll_eq [Std.LawfulEqOrd α] [Std.LawfulEqOrd β] (h : r.isEmptyAt a = true) :
    r.eraseAll a = r := by
  apply ext
  intro c b
  rw [contains_eraseAll, and_iff_right_iff_imp]
  rintro hb rfl
  rw [contains, image_eq_nil h] at hb
  cases hb

end Relation

namespace Catalog.State

section

variable {e f : Entity} {ρ : Type} (rows : Table (EntityId e) ρ)
  (references : Relation (EntityId e) (EntityId f))

theorem length_orphans_le (limit : Nat) : (orphans rows references limit).length ≤ limit :=
  List.length_take_le _ _

theorem orphans_size :
    orphans rows references rows.size = rows.keys.filter references.isEmptyAt := by
  rw [orphans, List.take_of_length_le]
  exact Nat.le_trans (List.length_filter_le _ _) (Nat.le_of_eq Std.ExtTreeMap.length_keys)

theorem orphans_eq_take (limit : Nat) :
    orphans rows references limit = (orphans rows references rows.size).take limit := by
  rw [orphans_size, orphans]

variable {rows references} {id : EntityId e} {rest : List (EntityId e)}

theorem isEmptyAt_of_orphans (h : orphans rows references rows.size = id :: rest) :
    (∃ row, rows[id]? = some row) ∧ references.isEmptyAt id = true := by
  rw [orphans_size] at h
  have hid : id ∈ rows.keys.filter references.isEmptyAt := h ▸ List.mem_cons_self
  obtain ⟨hkey, hempty⟩ := List.mem_filter.mp hid
  exact ⟨Std.ExtTreeMap.mem_iff_isSome_getElem?.mp (Std.ExtTreeMap.mem_keys.mp hkey)
    |> Option.isSome_iff_exists.mp, hempty⟩

/-- Without its first member the list of orphans is the rest. -/
theorem orphans_erase (h : orphans rows references rows.size = id :: rest) :
    orphans (rows.erase id) references (rows.erase id).size = rest := by
  rw [orphans_size] at h ⊢
  let lower (i j : EntityId e) : Prop := i.number < j.number
  have : Std.Antisymm lower := ⟨fun _ _ h h' => absurd h (Nat.lt_asymm h')⟩
  have : Std.Irrefl lower := ⟨fun _ => Nat.lt_irrefl _⟩
  have ordered (rows : Table (EntityId e) ρ) :
      (rows.keys.filter references.isEmptyAt).Pairwise lower := by
    have keys : rows.keys.Pairwise fun i j => compare i j = .lt := Std.ExtTreeMap.ordered_keys
    exact (keys.imp fun hlt => Nat.compare_eq_lt.mp hlt).filter _
  have distinct := ordered rows
  rw [h] at distinct
  obtain ⟨first, distinct⟩ := List.pairwise_cons.mp distinct
  apply (ordered (rows.erase id)).eq_of_mem_iff distinct
  intro i
  have listed : i ∈ rows.keys.filter references.isEmptyAt ↔ i = id ∨ i ∈ rest := by
    rw [h, List.mem_cons]
  have hne : i ∈ rest → id ≠ i := fun hi he => Nat.lt_irrefl _ (he ▸ first i hi)
  rw [List.mem_filter, Std.ExtTreeMap.mem_keys] at listed ⊢
  rw [Std.ExtTreeMap.mem_erase, Ne, Std.compare_eq_iff_eq, and_assoc, listed]
  constructor
  · rintro ⟨hother, rfl | hi⟩
    · exact absurd rfl hother
    · exact hi
  · exact fun hi => ⟨hne hi, .inr hi⟩

end

variable {s : State}

section

variable {ok : Bool → State → Prop} {error : Error → State → Prop}

theorem removeCluster_ends_iff {id : ClusterId} {cluster : Cluster}
    (hrow : s.clusters[id]? = some cluster) (hempty : s.tracksOfCluster.isEmptyAt id = true) :
    Ends (Session.removeCluster id) s ok error ↔ ok true { s with
      clusterByKey := s.clusterByKey.erase cluster.key.text
      clusters := s.clusters.erase id } := by
  unfold Session.removeCluster
  rw [Ends.bind_iff, Ends.get_iff, findCluster?, hrow]
  dsimp only
  rw [Ends.bind_iff, Ends.get_iff, Relation.image_eq_nil hempty]
  rfl

theorem removeArtist_ends_iff {id : ArtistId} {artist : Artist}
    (hrow : s.artists.rows[id]? = some artist) (hempty : s.creditsOfArtist.isEmptyAt id = true) :
    Ends (Session.removeArtist id) s ok error ↔
      ok true { s with artists := s.artists.erase artist } := by
  unfold Session.removeArtist Session.clearCreditsTo
  rw [Ends.bind_iff, Ends.get_iff, Registry.find?, hrow]
  dsimp only
  rw [Ends.bind_iff, Ends.modify_iff, Relation.image_eq_nil hempty, Relation.eraseAll_eq hempty]
  rfl

theorem removeRelease_ends_iff {id : ReleaseId} {release : Release}
    (hrow : s.releases.rows[id]? = some release)
    (hempty : s.tracksOfRelease.isEmptyAt id = true) :
    Ends (Session.removeRelease id) s ok error ↔
      ok true { s with releases := s.releases.erase release } := by
  unfold Session.removeRelease
  rw [Ends.bind_iff, Ends.get_iff, Registry.find?, hrow]
  dsimp only
  rw [Ends.bind_iff, Ends.get_iff, Relation.image_eq_nil hempty]
  rfl

end

end Catalog.State

namespace Scan

open Catalog

namespace Orphanage

/-- What is left, and what is as it was, when the first orphans of a kind were removed. -/
structure Removed (kind : Orphanage) (spared : List Orphanage) (s : State) (rest : List kind.Key)
    (t : State) : Prop where
  coherent : t.Coherent
  sameFiles : s.SameFiles t
  tracks : t.tracks = s.tracks
  left : kind.all t = rest
  spares : ∀ other ∈ spared, other.all t = other.all s

structure Sound (kind : Orphanage) (spared : List Orphanage) : Prop where
  find_eq : ∀ s limit, kind.find s limit = (kind.all s).take limit
  length_le : ∀ s, (kind.all s).length ≤ kind.size s
  remove : ∀ {s key rest}, s.Coherent → kind.all s = key :: rest →
    Succeeds (kind.remove key) s fun _ => kind.Removed spared s rest

theorem clusters_sound : clusters.Sound [artists, releases] where
  find_eq := fun s => State.orphans_eq_take s.clusters s.tracksOfCluster
  length_le := fun s => State.length_orphans_le s.clusters s.tracksOfCluster _
  remove := by
    intro s key rest hs hall
    obtain ⟨⟨cluster, hrow⟩, hempty⟩ := State.isEmptyAt_of_orphans hall
    have settled := hs.removeCluster_succeeds key
    have left := State.orphans_erase hall
    rw [Succeeds, State.removeCluster_ends_iff hrow hempty] at settled
    refine (State.removeCluster_ends_iff hrow hempty).mpr ⟨settled.1, settled.2, rfl, left, ?_⟩
    exact List.forall_mem_cons.mpr ⟨rfl, List.forall_mem_singleton.mpr rfl⟩

theorem artists_sound : artists.Sound [clusters, releases] where
  find_eq := fun s => State.orphans_eq_take s.artists.rows s.creditsOfArtist
  length_le := fun s => State.length_orphans_le s.artists.rows s.creditsOfArtist _
  remove := by
    intro s key rest hs hall
    obtain ⟨⟨artist, hrow⟩, hempty⟩ := State.isEmptyAt_of_orphans hall
    have settled := hs.removeArtist_succeeds key
    have left := State.orphans_erase hall
    rw [← hs.artists.numbered.id_eq hrow, ← Registry.erase_rows] at left
    rw [Succeeds, State.removeArtist_ends_iff hrow hempty] at settled
    refine (State.removeArtist_ends_iff hrow hempty).mpr ⟨settled.1, settled.2, rfl, left, ?_⟩
    exact List.forall_mem_cons.mpr ⟨rfl, List.forall_mem_singleton.mpr rfl⟩

theorem releases_sound : releases.Sound [clusters, artists] where
  find_eq := fun s => State.orphans_eq_take s.releases.rows s.tracksOfRelease
  length_le := fun s => State.length_orphans_le s.releases.rows s.tracksOfRelease _
  remove := by
    intro s key rest hs hall
    obtain ⟨⟨release, hrow⟩, hempty⟩ := State.isEmptyAt_of_orphans hall
    have settled := hs.removeRelease_succeeds key
    have left := State.orphans_erase hall
    rw [← hs.releases.numbered.id_eq hrow, ← Registry.erase_rows] at left
    rw [Succeeds, State.removeRelease_ends_iff hrow hempty] at settled
    refine (State.removeRelease_ends_iff hrow hempty).mpr ⟨settled.1, settled.2, rfl, left, ?_⟩
    exact List.forall_mem_cons.mpr ⟨rfl, List.forall_mem_singleton.mpr rfl⟩

variable {kind : Orphanage} {spared : List Orphanage}

theorem Removed.trans {s t u : State} {middle rest : List kind.Key}
    (h : kind.Removed spared s middle t) (h' : kind.Removed spared t rest u) :
    kind.Removed spared s rest u :=
  ⟨h'.coherent, h.sameFiles.trans h'.sameFiles, h'.tracks.trans h.tracks, h'.left,
    fun other hother => (h'.spares other hother).trans (h.spares other hother)⟩

/-- To remove orphans in one session is as good as to remove them one by one. -/
theorem Sound.removeAll_succeeds (sound : kind.Sound spared) {s : State} (hs : s.Coherent)
    {keys rest : List kind.Key} (hall : kind.all s = keys ++ rest) (tally : Tally) :
    Succeeds (removeAll kind.remove keys) s fun _ t =>
      (keys.map (entityWork kind)).foldl carryOut (s, tally) = (t, tally) ∧
        Removed kind spared s rest t := by
  induction keys generalizing s with
  | nil => exact ⟨rfl, hs, .refl s, rfl, hall, fun _ _ => rfl⟩
  | cons key keys ih =>
      obtain ⟨_, t, hrun, first⟩ := succeeds_iff.mp (sound.remove hs hall)
      have carried : carryOut (s, tally) (entityWork kind key) = (t, tally) :=
        carryOut_eq_of_ok (entityWork_eq_ok hrun)
      rw [removeAll, Succeeds, Ends, bind_eq_of_ok hrun, ← Ends]
      refine Ends.bind (ih first.coherent first.left) ?_
      rintro _ u ⟨hu, others⟩
      refine ⟨?_, first.trans others⟩
      rw [List.map_cons, List.foldl_cons, carried]
      exact hu

end Orphanage

end Scan

end AudioCatalog
