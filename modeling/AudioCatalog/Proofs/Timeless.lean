import AudioCatalog.Proofs.ScanStep

namespace AudioCatalog.Scan

open Catalog Scan.Action

variable {σ κ : Type}

structure Timeless (env : Surroundings σ κ) (I : Run σ → Prop) : Prop where
  wait : ∀ {r}, I r → I { r with outside := env.wait r.outside }

theorem flatten_chunks {α : Type} (extra : Nat) (l : List α) : (chunks extra l).flatten = l := by
  induction l using chunks.induct extra with
  | case1 => rw [chunks, List.flatten_nil]
  | case2 a l ih =>
      rw [chunks, List.flatten_cons, ih, List.cons_append, List.take_append_drop]

theorem mem_chunks {α : Type} {extra : Nat} {l piece : List α} (hpiece : piece ∈ chunks extra l)
    {a : α} (ha : a ∈ piece) : a ∈ l := by
  rw [← flatten_chunks extra l]
  exact List.mem_flatten.mpr ⟨piece, hpiece, ha⟩

namespace Timeless

variable {env : Surroundings σ κ} {plan : Plan} {I : Run σ → Prop} (h : Timeless env I)
include h

theorem observe {α : Type} (f : σ → α) : Maintains I (observe env f : Action σ α) :=
  fun _ hr => h.wait hr

theorem observed {α : Type} (f : σ → α) {r : Run σ} (hr : I r) :
    Succeeds (Scan.Action.observe env f : Action σ α) r fun a t => I t ∧ ∃ w, a = f w :=
  ⟨h.wait hr, _, rfl⟩

theorem walk {marker : String} {visit : Visit → Action σ Bool}
    (hvisit : ∀ v, Maintains I (visit v)) (root : Path) :
    Maintains I (Walk.run ⟨look env, marker, visit⟩ root) := by
  have directory (depth : Nat) (heedsMarker : Bool) (path : Path) : Maintains I
      (Walk.directory ⟨look env, marker, visit⟩ depth heedsMarker path) := by
    induction depth generalizing heedsMarker path with
    | zero => exact hvisit _
    | succ depth ih =>
        apply (h.observe env.tree).bind
        intro t
        dsimp only
        split
        · exact .pure true
        · cases t.list path with
          | error cause => exact hvisit _
          | ok files =>
              refine .allM fun (name, kind) _ => ?_
              cases kind with
              | file => exact hvisit _
              | directory => exact ih true _
              | link => exact .pure true
  apply (h.observe env.tree).bind
  intro t
  rcases t.kindOf root with cause | _ | _ | _
  · exact hvisit _
  · exact hvisit _
  · exact directory _ _ root
  · rcases t.target root with cause | ⟨_, _⟩ | _ | _
    · exact hvisit _
    · exact .pure true
    · exact directory _ _ root
    · exact .pure true

theorem takeUntilAborted {α : Type} (l : List α) {r : Run σ} (hr : I r) :
    Succeeds (takeUntilAborted env l) r fun result t => I t ∧ result.1 <+: l := by
  induction l generalizing r with
  | nil => exact ⟨hr, List.prefix_refl []⟩
  | cons a l ih =>
      apply Ends.bind (h.observe env.isAborted r hr)
      intro isAborted t ht
      cases isAborted with
      | true => exact ⟨ht, List.nil_prefix⟩
      | false =>
          refine Ends.bind (ih ht) ?_
          rintro ⟨taken, isAll⟩ u ⟨hu, first⟩
          exact ⟨hu, (List.prefix_cons_inj a).mpr first⟩

theorem removeOrphans {kind : Orphanage}
    (removed : ∀ {r : Run σ} {keys : List kind.Key}, I r →
      keys <+: kind.find r.catalog orphanBatchSize →
        Succeeds (transact (removeAll kind.remove keys)) r fun _ => I) :
    Maintains I (removeOrphans env kind) := by
  have batches (rounds : Nat) : Maintains I (removeBatches env kind rounds) := by
    induction rounds with
    | zero => exact .pure 0
    | succ rounds ih =>
        apply (h.observe env.isAborted).bind
        intro isAborted
        cases isAborted with
        | true => exact .pure 0
        | false =>
            refine .getBind fun r hr => ?_
            have still : Timeless env fun t => I t ∧ t.catalog = r.catalog :=
              ⟨fun ht => ⟨h.wait ht.1, ht.2⟩⟩
            apply Ends.bind (still.takeUntilAborted _ ⟨hr, rfl⟩)
            rintro ⟨taken, isAll⟩ t ⟨⟨ht, hcatalog⟩, first⟩
            apply Ends.bind (removed ht (hcatalog ▸ first))
            intro removed u hu
            split
            · exact hu
            · exact (ih.bind fun _ => .pure _) u hu
  exact .getBind fun r hr => batches _ r hr

variable (paced : ∀ {r : Run σ} (total processed : Nat), I r →
  I { r with progress := { r.progress with total := total, processed := processed } })
include paced

omit h in
theorem expected (total : Nat) : Maintains I (expect total : Action σ Unit) :=
  fun _ hr => paced total _ hr

omit h in
theorem advanced (n : Nat) : Maintains I (advance n) := fun _ hr => paced _ (_ + n) hr

theorem countFiles (counted : ∀ {r : Run σ} (files : Nat), I r →
    I { r with stats := { r.stats with filesToScan := files } }) :
    Maintains I (countFiles env plan) := by
  refine (h.walk (fun visit => ?_) plan.root).bind fun _ => .getBind fun r hr => ?_
  · apply (h.observe env.isAborted).bind
    intro isAborted
    cases isAborted with
    | true => exact .pure false
    | false =>
        cases visit with
        | failure path cause => exact .pure true
        | file path =>
            by_cases accepted : FileExtension.isAccepted plan.audioExtensions path
            · simp only [accepted, if_true]
              exact Maintains.bind (.modify fun r hr => counted _ hr) fun _ => .pure true
            · simp only [accepted]
              exact .pure true
  · exact ((expected paced _).bind fun _ => advanced paced _) r hr

/-- Only tracks are named for which there was a reason when the file tree was looked at. -/
theorem orphansAmong (tracks : List (TrackId × String)) {r : Run σ} (hr : I r) :
    Succeeds (orphansAmong? env plan tracks) r fun found t => I t ∧
      ∀ ids, found = some ids → ∀ id ∈ ids, ∃ path, (id, path) ∈ tracks ∧
        ∃ w, (orphanReason? (env.tree w) plan (Path.ofString path)).isSome := by
  induction tracks generalizing r with
  | nil =>
      refine ⟨hr, ?_⟩
      rintro _ ⟨⟩ id hid
      cases hid
  | cons track rest ih =>
      obtain ⟨id, path⟩ := track
      apply Ends.bind (h.observe env.isAborted r hr)
      intro isAborted t ht
      cases isAborted with
      | true => exact ⟨ht, by simp⟩
      | false =>
          apply Ends.bind (h.observed env.tree ht)
          rintro tree u ⟨hu, w, hw⟩
          apply Ends.bind (advanced paced 1 u hu)
          intro _ v hv
          apply Ends.bind (ih hv)
          rintro found z ⟨hz, hfound⟩
          cases found with
          | none => exact ⟨hz, by simp⟩
          | some ids =>
              refine ⟨hz, ?_⟩
              rintro _ ⟨⟩ id' hid'
              have rest' : id' ∈ ids → ∃ path', (id', path') ∈ (id, path) :: rest ∧
                  ∃ w, (orphanReason? (env.tree w) plan (Path.ofString path')).isSome := by
                intro hmem
                obtain ⟨path', hpath', hreason⟩ := hfound ids rfl id' hmem
                exact ⟨path', by simp [hpath'], hreason⟩
              split_ifs at hid' with hreason
              · rcases List.mem_cons.mp hid' with rfl | hmem
                · exact ⟨path, by simp, w, hw ▸ hreason⟩
                · exact rest' hmem
              · exact rest' hid'

/-- The removal of tracks that were found to be orphans is told. -/
theorem removeOrphansIn {tell : Action σ Unit} (telling : Maintains I tell)
    (tracks : List (TrackId × String))
    (removed : ∀ {r : Run σ} {ids : List TrackId}, I r →
      (∀ id ∈ ids, ∃ path, (id, path) ∈ tracks ∧
        ∃ w, (orphanReason? (env.tree w) plan (Path.ofString path)).isSome) →
      Succeeds (do
        let removed ← transact (removeAll Session.removeTrack ids)
        count fun s => { s with deletions := s.deletions + removed }) r fun _ => I) :
    Maintains I ((chunks (orphanBatchSize - 1) tracks).allM fun piece =>
      removeOrphansOf env plan piece tell) := by
  refine .allM fun piece hpiece r hr => ?_
  apply Ends.bind (h.orphansAmong paced piece hr)
  rintro found t ⟨ht, hfound⟩
  cases found with
  | none => exact ht
  | some ids =>
      have cleared := removed ht fun id hid => by
        obtain ⟨path, hpath, hreason⟩ := hfound ids rfl id hid
        exact ⟨path, mem_chunks hpiece hpath, hreason⟩
      rw [Succeeds, Ends.bind_iff] at cleared
      refine Ends.bind (cleared.imp (fun _ _ => id) fun _ _ => id) fun n u hu => ?_
      exact Ends.bind hu fun _ v hv => (telling.bind fun _ => .pure true) v hv

theorem removeOrphanTracks {tell : Action σ Unit} (telling : Maintains I tell)
    (removed : ∀ {r : Run σ} (ids : List TrackId), I r → Succeeds (do
        let removed ← transact (removeAll Session.removeTrack ids)
        count fun s => { s with deletions := s.deletions + removed }) r fun _ => I) :
    Maintains I (removeOrphanTracks env plan tell) := by
  refine .getBind fun r hr => ?_
  exact ((expected paced _).bind fun _ => (h.removeOrphansIn paced telling _
    fun ht _ => removed _ ht).bind fun _ => .pure _) r hr

theorem removeOrphanEntities
    (removed : ∀ {kind : Orphanage} {r : Run σ} {keys : List kind.Key},
      kind ∈ [Orphanage.clusters, Orphanage.artists, Orphanage.releases] → I r →
        keys <+: kind.find r.catalog orphanBatchSize →
          Succeeds (transact (removeAll kind.remove keys)) r fun _ => I) :
    Maintains I (removeOrphanEntities env) := by
  refine (h.removeOrphans (removed (by simp))).bind fun _ => ?_
  refine (h.removeOrphans (removed (by simp))).bind fun _ => ?_
  refine (h.removeOrphans (removed (by simp))).bind fun _ => ?_
  exact (expected paced _).bind fun _ => advanced paced _

end Timeless

end AudioCatalog.Scan
