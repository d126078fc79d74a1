import AudioCatalog.Proofs.EntityRemoval

namespace AudioCatalog.Scan

open Catalog Scan.Action Session

variable {σ κ : Type} {env : Surroundings σ κ} {kind : Orphanage} {r t u : Run σ} {m n : Nat}

theorem takeUntilAborted_takes {Q : σ → Prop} (wait : ∀ w, Q w → Q (env.wait w)) {α : Type}
    (l : List α) (hr : Q r.outside) :
    Succeeds (takeUntilAborted env l) r fun result t =>
      t = { r with outside := t.outside } ∧ Q t.outside ∧ ∃ rest, l = result.1 ++ rest ∧
        if result.2 then rest = [] else env.isAborted t.outside = true := by
  induction l generalizing r with
  | nil => exact ⟨rfl, hr, [], rfl, rfl⟩
  | cons a l ih =>
      rw [takeUntilAborted, Succeeds, Ends.bind_iff, Action.isAborted, observe_ends_iff]
      cases hAborted : env.isAborted (env.wait r.outside) with
      | true => exact ⟨rfl, wait _ hr, a :: l, rfl, hAborted⟩
      | false =>
          refine Ends.bind (ih (wait _ hr)) ?_
          rintro ⟨taken, isAll⟩ t ⟨others, hworld, rest, hl, hrest⟩
          exact ⟨others, hworld, rest, by rw [hl]; rfl, hrest⟩

def removeBatch (env : Surroundings σ κ) (kind : Orphanage) : Action σ (Nat × Bool) := do
  if ← isAborted env then return (0, false)
  let keys := kind.find (← get).catalog orphanBatchSize
  let (taken, isAll) ← takeUntilAborted env keys
  let removed ← transact (removeAll kind.remove taken)
  return (removed, isAll && decide (orphanBatchSize ≤ keys.length))

/-- Batch follows upon batch as long as another one is due, however many there are. -/
inductive Batches (env : Surroundings σ κ) (kind : Orphanage) : Run σ → Nat → Run σ → Prop
  | last {r t : Run σ} {n : Nat} (h : removeBatch env kind r = .ok (n, false) t) :
    Batches env kind r n t
  | more {r t u : Run σ} {m n : Nat} (h : removeBatch env kind r = .ok (m, true) t)
    (rest : Batches env kind t n u) : Batches env kind r (n + m) u

theorem Batches.unique (h : Batches env kind r m t) (h' : Batches env kind r n u) :
    n = m ∧ u = t := by
  induction h generalizing n u with
  | last h =>
      cases h' with
      | last h' =>
          rw [h] at h'
          cases h'
          exact ⟨rfl, rfl⟩
      | more h' =>
          rw [h] at h'
          cases h'
  | more h _ ih =>
      cases h' with
      | last h' =>
          rw [h] at h'
          cases h'
      | more h' rest' =>
          rw [h] at h'
          cases h'
          obtain ⟨rfl, rfl⟩ := ih rest'
          exact ⟨rfl, rfl⟩

theorem removeBatches_succ (rounds : Nat) : removeBatches env kind (rounds + 1) = do
    let (removed, goesOn) ← removeBatch env kind
    if goesOn then return (← removeBatches env kind rounds) + removed
    return removed := by
  rw [removeBatches, removeBatch, bind_assoc]
  refine congrArg _ (funext fun isAborted => ?_)
  cases isAborted with
  | true => rfl
  | false =>
      simp only [Bool.false_eq_true, if_false, bind_assoc, pure_bind]
      refine congrArg _ (funext fun r => congrArg _ (funext fun (taken, isAll) => ?_))
      refine congrArg _ (funext fun removed => ?_)
      cases isAll with
      | false => rfl
      | true =>
          by_cases full : orphanBatchSize ≤ (kind.find r.catalog orphanBatchSize).length <;>
            simp [full]

theorem removeBatches_eq_of_batch {goesOn : Bool} (h : removeBatch env kind r = .ok (m, goesOn) t)
    (rounds : Nat) : removeBatches env kind (rounds + 1) r =
      if goesOn then (do return (← removeBatches env kind rounds) + m) t else .ok m t := by
  rw [removeBatches_succ, bind_eq_of_ok h]
  cases goesOn <;> rfl

namespace Orphanage

variable {spared : List Orphanage} {Q : σ → Prop} {goesOn : Bool}

/-- What a batch has done: the first orphans are gone, and some of them if another batch is due, or
else all, unless the scan was aborted. -/
structure Batch (env : Surroundings σ κ) (kind : Orphanage) (spared : List Orphanage) (Q : σ → Prop)
    (r : Run σ) (n : Nat) (goesOn : Bool) (t : Run σ) : Prop where
  others : t = { r with outside := t.outside, catalog := t.catalog }
  world : Q t.outside
  removes : ∃ taken rest, kind.all r.catalog = taken ++ rest ∧
    removeAll kind.remove taken r.catalog = .ok n t.catalog ∧
      kind.Removed spared r.catalog rest t.catalog
  ends : if goesOn then (kind.all t.catalog).length < (kind.all r.catalog).length
    else kind.all t.catalog = [] ∨ env.isAborted t.outside = true

variable (sound : kind.Sound spared) (wait : ∀ w, Q w → Q (env.wait w))
include sound

include wait in
theorem Sound.removeBatch_removes (hr : r.catalog.Coherent) (hworld : Q r.outside) :
    Succeeds (removeBatch env kind) r fun result =>
      Batch env kind spared Q r result.1 result.2 := by
  rw [removeBatch, Succeeds, Ends.bind_iff, Action.isAborted, observe_ends_iff]
  cases hAborted : env.isAborted (env.wait r.outside) with
  | true =>
      exact ⟨rfl, wait _ hworld, ⟨[], _, rfl, rfl, hr, .refl _, rfl, rfl, fun _ _ => rfl⟩,
        .inr hAborted⟩
  | false =>
      rw [if_neg Bool.false_ne_true, Ends.bind_iff, Ends.get_iff]
      dsimp only
      rw [sound.find_eq]
      apply Ends.bind (takeUntilAborted_takes wait _ (wait _ hworld))
      rintro ⟨taken, isAll⟩ t ⟨others, hworld', rest, htaken, hrest⟩
      have hcatalog : t.catalog = r.catalog := by rw [others]
      have hall : kind.all r.catalog =
          taken ++ (rest ++ (kind.all r.catalog).drop orphanBatchSize) := by
        rw [← List.append_assoc, ← htaken, List.take_append_drop]
      obtain ⟨removed, s, hrun, -, gone⟩ := succeeds_iff.mp
        (sound.removeAll_succeeds hr hall r.stats.tally)
      rw [Ends.bind_iff, transact_ends_iff, hcatalog, Ends, hrun]
      refine ⟨by rw [others], hworld', ⟨taken, _, hall, hrun, gone⟩, ?_⟩
      cases isAll with
      | false => exact .inr hrest
      | true =>
          obtain rfl : rest = [] := hrest
          have left : kind.all s = (kind.all r.catalog).drop orphanBatchSize := gone.left
          have positive : 0 < orphanBatchSize := by decide
          simp only [left, List.length_take, Bool.true_and, decide_eq_true_eq]
          split
          · rw [List.length_drop]
            omega
          · exact .inl (List.drop_eq_nil_of_le (by omega))

theorem Sound.batch_of_ok (wait : ∀ w, Q w → Q (env.wait w)) (hr : r.catalog.Coherent)
    (hworld : Q r.outside) (h : removeBatch env kind r = .ok (n, goesOn) t) :
    Batch env kind spared Q r n goesOn t := by
  have batch := sound.removeBatch_removes wait hr hworld
  rwa [Succeeds, Ends, h] at batch

theorem Sound.removeBatches_batches (rounds : Nat) (hr : r.catalog.Coherent)
    (hrounds : (kind.all r.catalog).length < rounds) :
    Succeeds (removeBatches env kind rounds) r (Batches env kind r) := by
  induction rounds generalizing r with
  | zero => omega
  | succ rounds ih =>
      obtain ⟨⟨m, goesOn⟩, t, hrun, batch⟩ :=
        succeeds_iff.mp (sound.removeBatch_removes (Q := fun _ => True) (fun _ => id) hr trivial)
      obtain ⟨-, -, ⟨_, _, -, -, gone⟩, ends⟩ := batch
      rw [Succeeds, Ends, removeBatches_eq_of_batch hrun]
      cases goesOn with
      | false => exact .last hrun
      | true =>
          have fewer : (kind.all t.catalog).length < (kind.all r.catalog).length := ends
          exact Ends.bind (ih gone.coherent (by omega)) fun _ _ rest => .more hrun rest

/-- The bound on the rounds is never what ends them. -/
theorem Sound.removeOrphans_batches (hr : r.catalog.Coherent) :
    Succeeds (removeOrphans env kind) r (Batches env kind r) := by
  rw [removeOrphans, Succeeds, Ends.bind_iff, Ends.get_iff]
  exact sound.removeBatches_batches _ hr (Nat.lt_succ_of_le (sound.length_le _))

end Orphanage

end AudioCatalog.Scan
