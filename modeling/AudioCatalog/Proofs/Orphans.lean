import AudioCatalog.Proofs.Scanning

namespace AudioCatalog.Scan

open Catalog Scan.Action

variable {σ κ : Type}

def WithoutOrphans (tree : FileTree κ) (plan : Plan) (s : State) : Prop :=
  ∀ (id : TrackId) (track : Track), s.tracks[id]? = some track →
    orphanReason? tree plan (Path.ofString track.path) = none

theorem WithoutOrphans.sameFiles {tree : FileTree κ} {plan : Plan} {s t : State}
    (h : WithoutOrphans tree plan s) (same : s.SameFiles t) : WithoutOrphans tree plan t := by
  intro id track hrow
  obtain ⟨other, hother, hpath⟩ := (State.HasTracksOf.refl s).sameFiles same id track hrow
  rw [← hpath]
  exact h id other hother

/-- The tracks of `t` are those of `s` that are no orphans as far as these have been looked at. -/
structure Cleared (tree : FileTree κ) (plan : Plan) (s : State) (seen : List (TrackId × String))
    (t : State) : Prop where
  coherent : t.Coherent
  rows : ∀ (id : TrackId) (track : Track), t.tracks[id]? = some track → s.tracks[id]? = some track
  kept : ∀ entry ∈ seen, (t.tracks[entry.1]?).isSome →
    orphanReason? tree plan (Path.ofString entry.2) = none

theorem removeTracks_succeeds (ids : List TrackId) {s : State} (h : s.Coherent) :
    Succeeds (removeAll Session.removeTrack ids) s fun _ t => t.Coherent ∧
      ∀ (id : TrackId) (track : Track), t.tracks[id]? = some track →
        s.tracks[id]? = some track ∧ id ∉ ids := by
  induction ids generalizing s with
  | nil => exact ⟨h, fun id track hrow => ⟨hrow, by simp⟩⟩
  | cons first ids ih =>
      rw [removeAll, Succeeds, Ends.bind_iff, State.removeTrack_ends_iff]
      cases hfirst : s.tracks[first]? with
      | none =>
          refine Ends.bind (ih h) fun _ t ht => ⟨ht.1, fun id track hrow => ?_⟩
          obtain ⟨hold, hid⟩ := ht.2 id track hrow
          refine ⟨hold, fun hmem => ?_⟩
          rcases List.mem_cons.mp hmem with rfl | hmem
          · rw [hfirst] at hold
            cases hold
          · exact hid hmem
      | some gone =>
          refine Ends.bind (ih (h.withoutTrack hfirst)) fun _ t ht => ⟨ht.1, fun id track hrow => ?_⟩
          obtain ⟨hold, hid⟩ := ht.2 id track hrow
          obtain ⟨hold, hne⟩ := getElem?_erase_eq_some.mp hold
          refine ⟨hold, fun hmem => ?_⟩
          rcases List.mem_cons.mp hmem with rfl | hmem
          · exact hne rfl
          · exact hid hmem

namespace Surroundings.Steady

variable {env : Surroundings σ κ} {tree : FileTree κ}
  {parser : Path → Except Tag.ParseError Tag.Metadata} (h : env.Steady tree parser)
include h

/-- All orphans among the tracks are found, unless the scan is aborted. -/
theorem orphansAmong_finds (plan : Plan) (tracks : List (TrackId × String)) {r : Run σ} :
    Succeeds (orphansAmong? env plan tracks) r fun found t => t.catalog = r.catalog ∧
      (found = none → env.isAborted t.outside = true) ∧
      ∀ ids, found = some ids → ∀ entry ∈ tracks,
        (orphanReason? tree plan (Path.ofString entry.2)).isSome → entry.1 ∈ ids := by
  induction tracks generalizing r with
  | nil => exact ⟨rfl, by simp, by simp⟩
  | cons track rest ih =>
      obtain ⟨id, path⟩ := track
      rw [orphansAmong?, Succeeds, Ends.bind_iff, Action.isAborted, observe_ends_iff]
      cases hAborted : env.isAborted (env.wait r.outside) with
      | true => exact ⟨rfl, fun _ => hAborted, by simp⟩
      | false =>
          rw [if_neg Bool.false_ne_true, Ends.bind_iff, look, observe_ends_iff, h.tree,
            Ends.bind_iff, advance, Ends.modify_iff]
          apply Ends.bind ih
          rintro found t ⟨hcatalog, hnone, hfound⟩
          cases found with
          | none => exact ⟨hcatalog, fun _ => hnone rfl, by simp⟩
          | some ids =>
              refine ⟨hcatalog, by simp, ?_⟩
              rintro _ ⟨⟩ entry hentry hreason
              rcases List.mem_cons.mp hentry with rfl | hentry
              · simp [hreason]
              · have := hfound ids rfl entry hentry hreason
                split
                · exact List.mem_cons_of_mem id this
                · exact this

theorem removeOrphansOf_covers (plan : Plan) (s : State) (tracks : List (TrackId × String)) :
    Covers (fun seen t => Cleared tree plan s seen t.catalog) (GivenUp env) tracks
      (removeOrphansOf env plan tracks) := by
  intro seen r hr
  apply Ends.bind (h.orphansAmong_finds plan tracks)
  rintro found t ⟨hcatalog, hnone, hfound⟩
  cases found with
  | none => exact ⟨hcatalog ▸ hr.coherent, hnone rfl⟩
  | some ids =>
      rw [← hcatalog] at hr
      rw [Ends.bind_iff, transact_ends_iff]
      refine (removeTracks_succeeds ids hr.coherent).imp ?_ fun _ _ => id
      intro removed u hu
      refine ⟨hu.1, fun id track hrow => hr.rows id track (hu.2 id track hrow).1, ?_⟩
      intro entry hentry hsome
      obtain ⟨track, hrow⟩ := Option.isSome_iff_exists.mp hsome
      obtain ⟨hold, hid⟩ := hu.2 entry.1 track hrow
      rcases List.mem_append.mp hentry with hentry | hentry
      · exact hr.kept entry hentry (by simp [hold])
      · by_contra hreason
        exact hid (hfound ids rfl entry hentry (Option.isSome_iff_ne_none.mpr hreason))

theorem removeOrphanTracks_clears (plan : Plan) {r : Run σ} (hr : r.catalog.Coherent)
    (listed : r.catalog.Listed) :
    Succeeds (removeOrphanTracks env plan) r fun _ =>
      Holds (Reached env (WithoutOrphans tree plan)) := by
  unfold removeOrphanTracks Succeeds
  rw [Ends.bind_iff, Ends.get_iff, Ends.bind_iff, expect, Ends.modify_iff]
  refine Ends.bind (Covers.flatMap (f := id) (fun piece _ => h.removeOrphansOf_covers plan r.catalog
    piece) [] _ ⟨hr, fun _ _ => id, by simp⟩) fun goesOn t ht => ?_
  cases goesOn with
  | false => exact ⟨ht.coherent, .inl ht.isAborted⟩
  | true =>
      refine ⟨ht.coherent, .inr fun id track hrow => ?_⟩
      refine ht.kept (id, track.path) ?_ (by simp [hrow])
      rw [List.nil_append, List.flatMap_id, flatten_chunks]
      -- A track that is left was there before, so it was listed and looked at.
      have := listed id track (ht.rows id track hrow)
      exact List.mem_map.mpr
        ⟨(track.path, id), Std.ExtTreeMap.mem_toList_iff_getElem?_eq_some.mpr this, rfl⟩

/-- A scan that goes to its end leaves no orphan. -/
theorem process_withoutOrphans (stays : env.AbortStays) (plan : Plan) {s : State} (hs : s.Coherent)
    (listed : s.Listed) (w : σ) :
    Succeeds (process env plan) (Run.start w s) fun _ r =>
      r.isAborted = false → WithoutOrphans tree plan r.catalog := by
  have evidence := Evidence.of_touchesOnly env plan (P := fun s => s.Coherent ∧ s.Listed)
    (fun hs => hs.1) fun hs only => ⟨only.coherent, only.listed hs.2⟩
  have same {s t : State} (done : WithoutOrphans tree plan s) (hst : s.SameFiles t) :
      WithoutOrphans tree plan t := done.sameFiles hst
  refine evidence.lasts.takeSteps_reaches stays [.countFiles, .scanFiles]
    .removeOrphanTracks [.removeOrphanEntities] rfl ?_ (fun r hr => ?_)
    same ?_ ⟨⟨hs, listed⟩, by simp [Run.start]⟩
  · intro step hstep
    rcases List.mem_cons.mp hstep with rfl | hstep
    · exact evidence.lasts.countFiles plan
    · rw [List.mem_singleton.mp hstep]
      exact evidence.scanFiles
  · exact h.removeOrphanTracks_clears plan hr.1.1 hr.1.2
  · intro step hstep
    rw [List.mem_singleton.mp hstep]
    exact (stays.lasts_reached same).removeOrphanEntities

end Surroundings.Steady

end AudioCatalog.Scan
