import AudioCatalog.Proofs.Lockstep
import AudioCatalog.Proofs.Reading

namespace AudioCatalog

namespace FileTree

variable {κ : Type} {t : FileTree κ} {p : Path}

theorem read_eq_ok {content : κ} :
    t.read p = .ok content ↔ ∃ modified, t.target p = .ok (.file modified content) := by
  unfold read
  rcases t.target p with cause | ⟨modified, content'⟩ | modified | target <;>
    simp [bind, Except.bind, pure, Except.pure, throw, throwThe, MonadExceptOf.throw]

theorem node?_put {loc place : Location} {node other : Node κ}
    (h : (t.put loc node).node? place = some other) : other = node ∨ t.node? place = some other := by
  unfold put at h
  split_ifs at h
  · rw [node?] at h ⊢
    split_ifs at h ⊢
    · exact .inr h
    · rw [Std.ExtTreeMap.getElem?_insert] at h
      split_ifs at h
      · exact .inl (Option.some.inj h).symm
      · exact .inr h
  · exact .inr h

theorem node?_empty {place workingDirectory : Location} {node : Node κ}
    (h : (empty workingDirectory : FileTree κ).node? place = some node) : node = .directory 0 := by
  rw [node?] at h
  split_ifs at h
  · exact (Option.some.inj h).symm
  · simp [empty] at h

end FileTree

namespace Scan

open Scan.Action

variable {σ κ : Type}

abbrev Timeline (κ : Type) := Nat → FileTree κ

abbrev TagParser (κ : Type) :=
  Path → Except FileError κ → Except Tag.ParseError Tag.Metadata

/-- Where a file comes to a path or changes there, the path gets a second of its last write that it
never had before. -/
def Timeline.Stamps (τ : Timeline κ) : Prop :=
  ∀ n p modified content, (τ (n + 1)).target p = .ok (.file modified content) →
    (τ n).target p ≠ .ok (.file modified content) →
      ∀ i ≤ n, (τ i).lastWriteSeconds p ≠ (τ (n + 1)).lastWriteSeconds p

def Timeline.StandsStill (τ : Timeline κ) (first last : Nat) : Prop :=
  ∀ n, first ≤ n → n ≤ last → τ n = τ first

theorem Timeline.Stamps.target_eq {τ : Timeline κ} (h : τ.Stamps) {p : Path} {modified : Int}
    {content : κ} {j k n : Nat} (hjk : j ≤ k) (hkn : k ≤ n)
    (hfile : (τ n).target p = .ok (.file modified content))
    (hsame : (τ j).lastWriteSeconds p = (τ n).lastWriteSeconds p) :
    (τ k).target p = (τ n).target p := by
  obtain ⟨d, rfl⟩ := Nat.exists_eq_add_of_le hkn
  clear hkn
  -- Back from the last moment: what comes to the path later would have brought a new second.
  induction d generalizing k with
  | zero => rfl
  | succ d ih =>
      have next : (τ (k + 1)).target p = (τ (k + (d + 1))).target p := by
        have := @ih (k + 1) (by omega)
        rw [Nat.add_right_comm, Nat.add_assoc] at this
        exact this hfile hsame
      by_contra hne
      rw [hfile] at next hne
      apply h k p modified content next hne j hjk
      rw [hsame, FileTree.lastWriteSeconds, FileTree.lastWriteSeconds, next, hfile]

/-- A world in which time goes on, with the files that there are at each moment. What is learned
from a file depends on what it holds; nothing is learned from what cannot be read. -/
structure LivesIn (env : Surroundings σ κ) (τ : Timeline κ) (parser : TagParser κ)
    (clock : σ → Nat) : Prop where
  tree : ∀ w, env.tree w = τ (clock w)
  parse : ∀ w p, env.parse w p = parser p ((τ (clock w)).read p)
  unreadable : ∀ p cause m, parser p (.error cause) ≠ .ok m
  wait : ∀ w, clock w ≤ clock (env.wait w)
  report : ∀ progress w, clock w ≤ clock (env.report progress w)
  clearAbort : ∀ w, clock w ≤ clock (env.clearAbort w)

/-- The same surroundings with other files, which never change. -/
def Surroundings.held (env : Surroundings σ κ) (tree : FileTree κ)
    (parser : Path → Except Tag.ParseError Tag.Metadata) : Surroundings σ κ :=
  { env with tree := fun _ => tree, parse := fun _ => parser }

theorem Surroundings.held_steady (env : Surroundings σ κ) (tree : FileTree κ)
    (parser : Path → Except Tag.ParseError Tag.Metadata) :
    (env.held tree parser).Steady tree parser := ⟨fun _ => rfl, fun _ => rfl⟩

def Follows (clock : σ → Nat) (first last : Nat) {α : Type} (x y : Action σ α) : Prop :=
  ∀ r : Run σ, first ≤ clock r.outside →
    Ends x r (fun a t => clock r.outside ≤ clock t.outside ∧
      (clock t.outside ≤ last → y r = .ok a t))
    (fun e t => clock r.outside ≤ clock t.outside ∧ (clock t.outside ≤ last → y r = .error e t))

namespace LivesIn

variable {env : Surroundings σ κ} {τ : Timeline κ} {parser : TagParser κ} {clock : σ → Nat}
  (lives : LivesIn env τ parser clock) {first last : Nat} {tree : FileTree κ}
  (still : ∀ n, first ≤ n → n ≤ last → τ n = tree)
include lives still

omit still in
theorem follows_observe {α : Type} {f g : σ → α}
    (h : ∀ w, first ≤ clock w → clock w ≤ last → g w = f w) :
    Follows clock first last (observe env f)
      (observe (env.held tree fun p => parser p (tree.read p)) g) := by
  intro r hr
  refine ⟨lives.wait r.outside, fun hlast => ?_⟩
  have hsame := h (env.wait r.outside) (Nat.le_trans hr (lives.wait r.outside)) hlast
  show EStateM.Result.ok (g (env.wait r.outside)) _ = .ok (f (env.wait r.outside)) _
  rw [hsame]
  rfl

theorem lockstep : Lockstep env (env.held tree fun p => parser p (tree.read p)) (fun w w' => w = w')
    (Follows clock first last) where
  ofPure := fun a r hr => ⟨Nat.le_refl _, fun _ => rfl⟩
  ofThrow := fun e r hr => ⟨Nat.le_refl _, fun _ => rfl⟩
  ofBind := by
    intro α β x y f g hxy hfg r hr
    apply Ends.bind_iff.mpr
    have hx := hxy r hr
    unfold Ends at hx ⊢
    cases hrun : x r with
    | error e t =>
        rw [hrun] at hx
        refine ⟨hx.1, fun hlast => ?_⟩
        simp only [Bind.bind, EStateM.bind, hx.2 hlast]
    | ok a t =>
        rw [hrun] at hx
        refine (hfg a t (Nat.le_trans hr hx.1)).imp ?_ ?_
        · intro b u hu
          refine ⟨Nat.le_trans hx.1 hu.1, fun hlast => ?_⟩
          rw [bind_eq_of_ok (hx.2 (Nat.le_trans hu.1 hlast))]
          exact hu.2 hlast
        · intro e u hu
          refine ⟨Nat.le_trans hx.1 hu.1, fun hlast => ?_⟩
          rw [bind_eq_of_ok (hx.2 (Nat.le_trans hu.1 hlast))]
          exact hu.2 hlast
  ofGet := fun hfg r hr => hfg r r ⟨rfl, rfl, rfl, rfl, rfl⟩ rfl r hr
  ofModify := by
    intro f g halike hf hg r hr
    have same : f r = g r :=
      (halike r r ⟨rfl, rfl, rfl, rfl, rfl⟩).around_eq (f := id) ((hf r).trans (hg r).symm)
    refine ⟨?_, fun _ => ?_⟩
    · exact Nat.le_of_eq (congrArg clock (hf r).symm)
    · exact congrArg (EStateM.Result.ok ()) same.symm
  ofLook := lives.follows_observe fun w hfirst hlast =>
    ((lives.tree w).trans (still (clock w) hfirst hlast)).symm
  ofIsAborted := lives.follows_observe fun _ _ _ => rfl
  ofReport := fun r hr => ⟨lives.report _ _, fun _ => rfl⟩
  ofClearAbort := fun b r hr => ⟨lives.clearAbort _, fun _ => rfl⟩
  ofParse := fun path => lives.follows_observe fun w hfirst hlast => by
    rw [lives.parse, still (clock w) hfirst hlast]
    rfl
  ofNow := fun h => h ▸ rfl

/-- A scan during which no file is edited does what it does among files that never change. -/
theorem process_held (plan : Plan) {r t : Run σ} (hfirst : first ≤ clock r.outside)
    (hrun : process env plan r = .ok () t) (hlast : clock t.outside ≤ last) :
    process (env.held tree fun p => parser p (tree.read p)) plan r = .ok () t := by
  have lockstep := lives.lockstep still
  have follows := lockstep.process plan
    (lockstep.readAll plan (lives.follows_observe fun _ _ _ => rfl)) r hfirst
  rw [Ends, hrun] at follows
  exact follows.2 hlast

end LivesIn

end Scan

end AudioCatalog
