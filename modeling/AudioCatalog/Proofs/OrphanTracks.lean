import AudioCatalog.Proofs.CleanPrefix
import AudioCatalog.Proofs.Removal
import Mathlib.Data.ENat.Lattice

namespace AudioCatalog

/-- These tracks and nothing else. -/
def Subject.isTrackIn (ids : List TrackId) : Subject → Bool
  | .track id => ids.contains id
  | .artist _ | .release _ | .cluster _ => false

namespace Subject

variable {ids others : List TrackId} {id : TrackId}

@[simp]
theorem isTrackIn_track : isTrackIn ids (.track id) = ids.contains id := rfl

theorem isTrackIn_nil : isTrackIn [] = fun _ => false := by
  funext x
  cases x <;> simp [isTrackIn]

theorem isTrackIn_singleton : isTrackIn [id] = fun x => decide (x = .track id) := by
  funext x
  cases x <;> simp [isTrackIn]

theorem isTrackIn_append :
    isTrackIn (ids ++ others) = fun x => isTrackIn ids x || isTrackIn others x := by
  funext x
  cases x <;> simp [isTrackIn]

end Subject

theorem Track.without_isTrackIn (ids : List TrackId) (track : Track) :
    track.without (Subject.isTrackIn ids) = track :=
  without_eq_self (fun _ _ => rfl) fun _ _ => rfl

namespace Catalog

open Session Scan

namespace State

variable {s t : State} {ids others : List TrackId}

def Lists (s : State) (ids : List TrackId) : Prop :=
  ∀ i ∈ ids, ∃ track, s.tracks[i]? = some track ∧ s.trackByPath[track.path]? = some i

theorem length_trackPaths (s : State) : s.trackPaths.length = s.trackByPath.size := by
  rw [trackPaths, List.length_map, Std.ExtTreeMap.length_toList]

namespace Drops

variable (h : s.Drops (Subject.isTrackIn ids) t)
include h

theorem row_eq {i : TrackId} (hi : i ∉ ids) : t.tracks[i]? = s.tracks[i]? := by
  apply Option.ext
  intro track
  simp [h.tracks, hi, Track.without_isTrackIn]

theorem lists (hs : s.Lists others) (apart : ∀ i ∈ others, i ∉ ids) : t.Lists others := by
  intro i hi
  obtain ⟨track, hrow, hentry⟩ := hs i hi
  exact ⟨track, (h.row_eq (apart i hi)).trans hrow,
    (h.trackByPath track.path i).mpr ⟨hentry, by simp [apart i hi]⟩⟩

end Drops

namespace Coherent

variable (h : s.Coherent)
include h

theorem trackPaths_nodup : (s.trackPaths.map Prod.fst).Nodup := by
  rw [trackPaths, List.map_map, List.Nodup, List.pairwise_map]
  have paths : s.trackByPath.toList.Pairwise fun a b => ¬ compare a.1 b.1 = .eq :=
    Std.ExtTreeMap.distinct_keys_toList
  refine paths.imp_of_mem fun {a b} ha hb hne hsame => hne ?_
  obtain ⟨track, hrow, hpath⟩ :=
    h.tracks.byPath (Std.ExtTreeMap.mem_toList_iff_getElem?_eq_some.mp ha)
  obtain ⟨other, hother, hpath'⟩ :=
    h.tracks.byPath (Std.ExtTreeMap.mem_toList_iff_getElem?_eq_some.mp hb)
  rw [show a.2 = b.2 from hsame, hother] at hrow
  cases hrow
  rw [← hpath, ← hpath', Std.compare_self]

theorem removeTracks_drops (hids : ids.Nodup) (hlists : s.Lists ids) :
    Succeeds (removeAll removeTrack ids) s fun removed t =>
      removed = ids.length ∧ t.Coherent ∧ t.tracks.size + ids.length = s.tracks.size ∧
        s.Drops (Subject.isTrackIn ids) t := by
  induction ids generalizing s with
  | nil => exact ⟨rfl, h, rfl, Subject.isTrackIn_nil ▸ .refl s⟩
  | cons id ids ih =>
      obtain ⟨track, hrow, hentry⟩ := hlists id List.mem_cons_self
      obtain ⟨hid, hids⟩ := List.nodup_cons.mp hids
      have first := h.withoutTrack_drops hrow hentry
      rw [← Subject.isTrackIn_singleton] at first
      have left : (s.withoutTrack id track).Lists ids :=
        first.lists (fun i hi => hlists i (List.mem_cons_of_mem id hi)) fun i hi heq =>
          hid (List.mem_singleton.mp heq ▸ hi)
      rw [removeAll, Succeeds, Ends.bind_iff, removeTrack_ends_iff, hrow]
      refine Ends.bind (ih (h.withoutTrack hrow) hids left) ?_
      rintro removed t ⟨rfl, ht, size, drops⟩
      have one : (s.withoutTrack id track).tracks.size + 1 = s.tracks.size := size_erase_of_row hrow
      refine ⟨rfl, ht, by rw [← one, ← size, List.length_cons, Nat.add_assoc], ?_⟩
      have both := first.trans drops
      rwa [← Subject.isTrackIn_append] at both

end Coherent

end State

end Catalog

namespace Scan

open Catalog Scan.Action Session

variable {σ κ : Type} {tree : FileTree κ} {plan : Plan}

theorem orphansIn_append (tracks others : List (TrackId × String)) :
    orphansIn tree plan (tracks ++ others) =
      orphansIn tree plan tracks ++ orphansIn tree plan others := by
  simp [orphansIn]

theorem mem_orphansIn {tracks : List (TrackId × String)} {id : TrackId} :
    id ∈ orphansIn tree plan tracks ↔ ∃ path, (id, path) ∈ tracks ∧
      (orphanReason? tree plan (Path.ofString path)).isSome := by
  simp [orphansIn]

theorem chunks_eq {α : Type} {extra : Nat} {l : List α} (h : l ≠ []) :
    chunks extra l = l.take (extra + 1) :: chunks extra (l.drop (extra + 1)) := by
  cases l with
  | nil => exact absurd rfl h
  | cons a l => rw [chunks, List.take_succ_cons, List.drop_succ_cons]

theorem orphansIn_sublist (tracks : List (TrackId × String)) :
    (orphansIn tree plan tracks).Sublist (tracks.map Prod.fst) :=
  List.filter_sublist.map Prod.fst

theorem lists_orphansIn {s : State} (hs : s.Coherent) {tracks : List (TrackId × String)}
    (h : ∀ entry ∈ tracks, entry ∈ s.trackPaths) : s.Lists (orphansIn tree plan tracks) := by
  intro id hid
  obtain ⟨path, hentry, -⟩ := mem_orphansIn.mp hid
  have listed := State.mem_trackPaths.mp (h _ hentry)
  obtain ⟨track, hrow, rfl⟩ := hs.tracks.byPath listed
  exact ⟨track, hrow, listed⟩

theorem lists_orphansIn_next {s t : State} (hs : s.Coherent)
    {before piece : List (TrackId × String)} (hpieces : before ++ piece <+: s.trackPaths)
    (drops : s.Drops (Subject.isTrackIn (orphansIn tree plan before)) t) :
    (orphansIn tree plan piece).Nodup ∧ t.Lists (orphansIn tree plan piece) := by
  have distinct : (orphansIn tree plan (before ++ piece)).Nodup :=
    (hs.trackPaths_nodup.sublist (hpieces.sublist.map Prod.fst)).sublist (orphansIn_sublist _)
  rw [orphansIn_append] at distinct
  obtain ⟨-, distinct, apart⟩ := List.nodup_append.mp distinct
  have listed : s.Lists (orphansIn tree plan piece) :=
    lists_orphansIn hs fun _ hentry => hpieces.mem (List.mem_append_right before hentry)
  exact ⟨distinct, drops.lists listed fun i hi hi' => apart i hi' i hi rfl⟩

/-- Throughout, there are the same files. The scan is told to stop at the report number `k` of this
step, and by nothing else; if `k` is infinite, it is not told so. -/
structure Surroundings.Hears (env : Surroundings σ κ) (tree : FileTree κ)
    (parser : Path → Except Tag.ParseError Tag.Metadata) (k : ℕ∞) (heard : σ → List Progress) : Prop
    extends env.Steady tree parser where
  isAborted : ∀ w, env.isAborted w = true ↔ k ≤ (heard w).length
  wait : ∀ w, heard (env.wait w) = heard w
  report : ∀ progress w, heard (env.report progress w) =
    if progress.step = .removeOrphanTracks then heard w ++ [progress] else heard w

def orphanProgress (n done : Nat) : Progress := ⟨.removeOrphanTracks, n, min (100 * done) n⟩

structure Swept (tree : FileTree κ) (plan : Plan) (heard : σ → List Progress) (r : Run σ)
    (done : Nat) (t : Run σ) : Prop where
  coherent : t.catalog.Coherent
  drops : r.catalog.Drops (Subject.isTrackIn
    (orphansIn tree plan (r.catalog.trackPaths.take (100 * done)))) t.catalog
  size : t.catalog.tracks.size +
    (orphansIn tree plan (r.catalog.trackPaths.take (100 * done))).length = r.catalog.tracks.size
  heard : heard t.outside = (List.range done).map fun i =>
    orphanProgress r.catalog.trackPaths.length (i + 1)
  others : t = { r with
    outside := t.outside
    catalog := t.catalog
    progress := orphanProgress r.catalog.trackPaths.length done
    stats := { r.stats with deletions := r.stats.deletions +
      (orphansIn tree plan (r.catalog.trackPaths.take (100 * done))).length } }

namespace Surroundings.Hears

variable {env : Surroundings σ κ} {parser : Path → Except Tag.ParseError Tag.Metadata} {k : ℕ∞}
  {heard : σ → List Progress} (h : env.Hears tree parser k heard) {r t : Run σ} {done : Nat}
include h

theorem orphansAmong_all (tracks : List (TrackId × String)) {r : Run σ}
    (hr : ¬ k ≤ (heard r.outside).length) :
    Succeeds (orphansAmong? env plan tracks) r fun found t =>
      found = some (orphansIn tree plan tracks) ∧ heard t.outside = heard r.outside ∧
        t = { r with
          outside := t.outside
          progress := { r.progress with processed := r.progress.processed + tracks.length } } := by
  induction tracks generalizing r with
  | nil => exact ⟨rfl, rfl, rfl⟩
  | cons track tracks ih =>
      obtain ⟨id, path⟩ := track
      have silent : env.isAborted (env.wait r.outside) = false := by
        rw [← Bool.not_eq_true, h.isAborted, h.wait]
        exact hr
      rw [orphansAmong?, Succeeds, Ends.bind_iff, Action.isAborted, observe_ends_iff, silent,
        if_neg Bool.false_ne_true, Ends.bind_iff, look, observe_ends_iff, h.tree, Ends.bind_iff,
        advance, Ends.modify_iff]
      have waited : heard (env.wait (env.wait r.outside)) = heard r.outside := by
        rw [h.wait, h.wait]
      refine Ends.bind (ih (by rwa [waited])) ?_
      rintro _ t ⟨rfl, hheard, others⟩
      refine ⟨congrArg some ?_, hheard.trans waited, others.trans ?_⟩
      · simp only [orphansIn, List.filter_cons]
        split_ifs <;> rfl
      · simp only [List.length_cons, Nat.add_assoc, Nat.add_comm 1]

variable (hr : r.catalog.Coherent) (swept : Swept tree plan heard r done t)

include hr swept in
/-- One more hundred is dealt with. -/
theorem removeOrphansOf_sweeps (hk : done < k) :
    Succeeds (removeOrphansOf env plan ((r.catalog.trackPaths.drop (100 * done)).take 100)) t
      fun goesOn u => goesOn = true ∧ Swept tree plan heard r (done + 1) u := by
  obtain ⟨ht, drops, size, hheard, others⟩ := swept
  generalize hn : r.catalog.trackPaths.length = n at *
  generalize hbefore : r.catalog.trackPaths.take (100 * done) = before at *
  generalize hpiece : (r.catalog.trackPaths.drop (100 * done)).take 100 = piece
  have next : r.catalog.trackPaths.take (100 * (done + 1)) = before ++ piece := by
    rw [Nat.mul_succ, List.take_add, hbefore, hpiece]
  obtain ⟨distinct, listed⟩ := lists_orphansIn_next hr (next ▸ List.take_prefix _ _) drops
  have unheard : ¬ k ≤ (heard t.outside).length := by
    rw [hheard, List.length_map, List.length_range]
    exact not_le.mpr hk
  refine Ends.bind (h.orphansAmong_all piece unheard) ?_
  rintro _ u ⟨rfl, hheard', others'⟩
  have hcatalog : u.catalog = t.catalog := by rw [others']
  have hprogress : u.progress = orphanProgress n (done + 1) := by
    rw [others', others]
    simp only [orphanProgress, Progress.mk.injEq, true_and]
    rw [← hpiece, List.length_take, List.length_drop, hn]
    omega
  dsimp only
  rw [Ends.bind_iff, transact_ends_iff]
  rw [← hcatalog] at ht drops size listed
  refine (ht.removeTracks_drops distinct listed).imp ?_ fun _ _ => False.elim
  rintro _ c ⟨rfl, hc, size', drops'⟩
  refine ⟨rfl, hc, ?_, ?_, ?_, ?_⟩
  · rw [next, orphansIn_append, Subject.isTrackIn_append]
    exact drops.trans drops'
  · rw [next, orphansIn_append, List.length_append, ← size, ← size']
    dsimp only
    omega
  · rw [hn, List.range_succ, List.map_append]
    refine (h.report u.progress u.outside).trans ?_
    rw [hprogress, hheard', hheard]
    rfl
  · rw [next, orphansIn_append, List.length_append, hn, ← Nat.add_assoc]
    have rest : u = { r with
        outside := u.outside
        catalog := u.catalog
        progress := u.progress
        stats := { r.stats with deletions :=
          r.stats.deletions + (orphansIn tree plan before).length } } := by
      rw [others', others]
    rw [← hprogress]
    change Run.mk _ c u.progress { u.stats with deletions := u.stats.deletions + _ } u.pending
      u.isAborted = _
    rw [rest]

omit hr in
include swept in
/-- After the report at which it was told to stop, the scan looks at no further track. -/
theorem removeOrphansOf_stops (hk : k ≤ done) {piece : List (TrackId × String)}
    (hpiece : piece ≠ []) : Succeeds (removeOrphansOf env plan piece) t
      fun goesOn u => goesOn = false ∧ Swept tree plan heard r done u := by
  obtain ⟨ht, drops, size, hheard, others⟩ := swept
  obtain ⟨⟨id, path⟩, piece, rfl⟩ := List.exists_cons_of_ne_nil hpiece
  have told : env.isAborted (env.wait t.outside) = true := by
    rw [h.isAborted, h.wait, hheard, List.length_map, List.length_range]
    exact hk
  rw [removeOrphansOf, Succeeds, Ends.bind_iff, orphansAmong?, Ends.bind_iff, Action.isAborted,
    observe_ends_iff, told]
  exact ⟨rfl, ht, drops, size, (h.wait _).trans hheard, by rw [others]⟩

include hr in
/-- The loop over the hundreds ends with the report at which it is told to stop, or with the last
one. -/
theorem allM_removeOrphansOf_sweeps (swept : Swept tree plan heard r done t)
    (hdone : done ≤ (r.catalog.trackPaths.length + 99) / 100) (hk : done ≤ k) :
    Succeeds ((chunks (orphanBatchSize - 1) (r.catalog.trackPaths.drop (100 * done))).allM
      fun piece => removeOrphansOf env plan piece) t fun _ u => ∃ total : Nat,
        (total : ℕ∞) = min k ((r.catalog.trackPaths.length + 99) / 100 : Nat) ∧
          Swept tree plan heard r total u := by
  induction hleft : (r.catalog.trackPaths.length + 99) / 100 - done generalizing done t with
  | zero =>
      have none : r.catalog.trackPaths.drop (100 * done) = [] :=
        List.drop_eq_nil_of_le (by omega)
      have last : done = (r.catalog.trackPaths.length + 99) / 100 := by omega
      rw [none, chunks]
      exact ⟨done, by rw [← last, min_eq_right hk], swept⟩
  | succ left ih =>
      have some : r.catalog.trackPaths.drop (100 * done) ≠ [] := by
        rw [Ne, List.drop_eq_nil_iff]
        omega
      rw [chunks_eq some, List.allM]
      rcases hk.lt_or_eq with hlt | heq
      · refine Ends.bind (h.removeOrphansOf_sweeps hr swept hlt) ?_
        rintro _ u ⟨rfl, hu⟩
        rw [List.drop_drop, show 100 * done + (orphanBatchSize - 1 + 1) = 100 * (done + 1) from rfl]
        exact ih hu (by omega) (by exact_mod_cast Order.add_one_le_of_lt hlt) (by omega)
      · have hne :
            (r.catalog.trackPaths.drop (100 * done)).take (orphanBatchSize - 1 + 1) ≠ [] := by
          rw [Ne, List.take_eq_nil_iff]
          simp [some]
        refine Ends.bind (h.removeOrphansOf_stops swept heq.ge hne) ?_
        rintro _ u ⟨rfl, hu⟩
        refine ⟨done, ?_, hu⟩
        rw [← heq, min_eq_left]
        exact_mod_cast hdone

end Surroundings.Hears

/-- Of the tracks that were dealt with, exactly the orphans are gone, and all that mentioned them.
Everything else is as it was. -/
structure OrphansSwept (tree : FileTree κ) (plan : Plan) (dealt : List (TrackId × String))
    (s t : State) : Prop where
  entries : ∀ (path : String) (i : TrackId), t.trackByPath[path]? = some i ↔
    s.trackByPath[path]? = some i ∧
      ((i, path) ∈ dealt → orphanReason? tree plan (Path.ofString path) = none)
  without : s.Without (Subject.isTrackIn (orphansIn tree plan dealt)) t
  silent : ∀ i ∈ orphansIn tree plan dealt, ¬ t.Mentions (.track i)
  rows : ∀ i, i ∉ orphansIn tree plan dealt → t.tracks[i]? = s.tracks[i]?
  size : t.tracks.size + (orphansIn tree plan dealt).length = s.tracks.size

theorem Swept.orphansSwept {heard : σ → List Progress} {r t : Run σ} {done : Nat}
    (h : Swept tree plan heard r done t) (hr : r.catalog.Coherent) :
    OrphansSwept tree plan (r.catalog.trackPaths.take (100 * done)) r.catalog t.catalog where
  entries := fun path i => by
    rw [h.drops.trackByPath, Subject.isTrackIn_track, ← Bool.not_eq_true, List.contains_iff_mem,
      mem_orphansIn]
    refine and_congr_right fun hentry => ⟨fun kept hmem => ?_, ?_⟩
    · by_contra reason
      exact kept ⟨path, hmem, Option.isSome_iff_ne_none.mpr reason⟩
    · rintro kept ⟨path', hmem, reason⟩
      obtain ⟨track, hrow, rfl⟩ := hr.tracks.byPath hentry
      have hentry' := State.mem_trackPaths.mp (List.mem_of_mem_take hmem)
      obtain ⟨other, hother, rfl⟩ := hr.tracks.byPath hentry'
      rw [hrow] at hother
      cases hother
      simp [kept hmem] at reason
  without := h.drops.without hr h.coherent
  silent := fun i hi => h.drops.not_mentions h.coherent (by simp [hi])
  rows := fun i hi => h.drops.row_eq hi
  size := h.size

/-- However many tracks are listed in the catalog, they are dealt with in hundreds, up to the report
at which the scan is told to stop. The orphans among those that were dealt with are gone, just these
are counted, and each report says how many tracks were dealt with. -/
theorem Surroundings.Hears.removeOrphanTracks_exact {env : Surroundings σ κ}
    {parser : Path → Except Tag.ParseError Tag.Metadata} {k : ℕ∞} {heard : σ → List Progress}
    (h : env.Hears tree parser k heard) (hk : 0 < k) (plan : Plan) {r : Run σ}
    (hr : Reachable r.catalog) (silent : heard r.outside = []) : ∃ (done : Nat) (w : σ) (t : State),
      (done : ℕ∞) = min k ((r.catalog.trackByPath.size + 99) / 100 : Nat) ∧
      takeStep env (perform env plan) .removeOrphanTracks r = .ok true { r with
        outside := w
        catalog := t
        progress := orphanProgress r.catalog.trackByPath.size done
        stats := { r.stats with deletions := r.stats.deletions +
          (orphansIn tree plan (r.catalog.trackPaths.take (100 * done))).length } } ∧
      heard w = ((List.range done).map fun i =>
        orphanProgress r.catalog.trackByPath.size (i + 1)) ∧
      OrphansSwept tree plan (r.catalog.trackPaths.take (100 * done)) r.catalog t ∧
      (k = ⊤ → ∀ (path : String) (i : TrackId), t.trackByPath[path]? = some i ↔
        r.catalog.trackByPath[path]? = some i ∧
          orphanReason? tree plan (Path.ofString path) = none) := by
  have waited : heard (env.wait r.outside) = [] := (h.wait _).trans silent
  have untold : env.isAborted (env.wait r.outside) = false := by
    rw [← Bool.not_eq_true, h.isAborted, waited]
    simpa using hk.ne'
  let start : Run σ := { r with
    outside := env.wait r.outside
    progress := { step := .removeOrphanTracks, total := r.catalog.trackPaths.length } }
  have nothing : orphanProgress r.catalog.trackPaths.length 0 = start.progress := by
    simp [orphanProgress, start]
  have start_swept : Swept tree plan heard r 0 start :=
    ⟨hr.coherent, by simpa [orphansIn, Subject.isTrackIn_nil] using .refl r.catalog,
      by simp [start, orphansIn], by simpa [start] using waited, by rw [nothing]; rfl⟩
  have all := h.allM_removeOrphansOf_sweeps hr.coherent start_swept (Nat.zero_le _) zero_le
  obtain ⟨goesOn, u, hrun, done, hdone, swept⟩ := succeeds_iff.mp all
  have ends : takeStep env (perform env plan) .removeOrphanTracks r = .ok true u := by
    have performed : (removeOrphanTracks env plan)
        { r with outside := env.wait r.outside, progress := { step := .removeOrphanTracks } } =
          .ok () u := bind_eq_of_ok hrun
    refine (bind_eq_of_ok (t := { r with outside := env.wait r.outside }) (a := false) ?_).trans
      (bind_eq_of_ok performed)
    exact congrArg (EStateM.Result.ok · _) untold
  rw [← r.catalog.length_trackPaths]
  refine ⟨done, u.outside, u.catalog, hdone, ?_, swept.heard, swept.orphansSwept hr.coherent,
    fun hinfinite path i => ?_⟩
  · rw [ends, ← swept.others]
  · have all : r.catalog.trackPaths.take (100 * done) = r.catalog.trackPaths := by
      rw [hinfinite, min_eq_right le_top, Nat.cast_inj] at hdone
      exact List.take_of_length_le (by omega)
    rw [(swept.orphansSwept hr.coherent).entries, all, State.mem_trackPaths]
    exact and_congr_right fun hentry => ⟨fun kept => kept hentry, fun kept _ => kept⟩

def hearing (tree : FileTree κ) (parser : Path → Except Tag.ParseError Tag.Metadata) (k : Nat) :
    Surroundings (List Progress) κ where
  wait := id
  tree := fun _ => tree
  parse := fun _ => parser
  isAborted := fun heard => decide (k ≤ heard.length)
  clearAbort := fun _ => []
  report := fun progress heard =>
    if progress.step = .removeOrphanTracks then heard ++ [progress] else heard
  now := fun _ => 0

theorem hearing_hears (tree : FileTree κ) (parser : Path → Except Tag.ParseError Tag.Metadata)
    (k : Nat) : (hearing tree parser k).Hears tree parser k id :=
  ⟨⟨fun _ => rfl, fun _ => rfl⟩, fun w => by simp [hearing], fun _ => rfl, fun _ _ => rfl⟩

/-- One song that there is, which comes first, and 110 that there are not; the scan is told to stop
at the first report. -/
theorem removeOrphanTracks_first_hundred : ∃ s t, Reachable s ∧ s.trackByPath.size = 111 ∧
    takeStep (hearing (album [("a.mp3", 1)]) soundOnly 1)
      (perform (hearing (album [("a.mp3", 1)]) soundOnly 1) (albumPlan false)) .removeOrphanTracks
      (Run.start [] s) = .ok true t ∧
    t.outside = [⟨.removeOrphanTracks, 111, 100⟩] ∧ t.stats.deletions = 99 ∧
    t.catalog.tracks.size = 12 ∧ t.catalog.trackByPath["/m/a.mp3"]? = some ⟨1⟩ := by
  obtain ⟨s, hs⟩ : ∃ s, s = (Mutation.createTrack "/m/a.mp3" ::
      (List.range 110).map fun i => .createTrack (String.singleton (Char.ofNat (256 + i)))).foldl
        Mutation.after {} := ⟨_, rfl⟩
  have reached : Reachable s := hs ▸ Reachable.empty.after _
  obtain ⟨listed, size, song⟩ : s.trackByPath.size = 111 ∧ s.tracks.size = 111 ∧
      s.trackByPath["/m/a.mp3"]? = some ⟨1⟩ := by
    rw [hs]
    decide +kernel
  have orphans : (orphansIn (album [("a.mp3", 1)]) (albumPlan false)
      (s.trackPaths.take 100)).length = 99 := by
    rw [hs]
    decide +kernel
  obtain ⟨done, w, t, hdone, hrun, heard, swept, -⟩ :=
    (hearing_hears (album [("a.mp3", 1)]) soundOnly 1).removeOrphanTracks_exact (by simp)
      (albumPlan false) (r := Run.start [] s) reached rfl
  obtain rfl : done = 1 := by
    rw [show (Run.start [] s).catalog = s from rfl, listed,
      min_eq_left (Nat.cast_le.mpr (by decide)), Nat.cast_inj] at hdone
    exact hdone
  have left : t.tracks.size + 99 = 111 := by rw [← size, ← orphans]; exact swept.size
  refine ⟨s, _, reached, listed, hrun, ?_, ?_, Nat.add_right_cancel left,
    (swept.entries _ _).mpr ⟨song, fun _ => by decide +kernel⟩⟩
  · exact heard.trans (by rw [show (Run.start [] s).catalog = s from rfl, listed]; rfl)
  · exact (congrArg (0 + ·) orphans).trans rfl

end Scan

end AudioCatalog
