import AudioCatalog.Proofs.Cleanup
import AudioCatalog.Proofs.Lockstep
import AudioCatalog.Proofs.Reading

namespace AudioCatalog.Scan

open Catalog Scan.Action

variable {σ κ : Type}

/-- Throughout, there are the same files, with the same tags, and the clock stands still; nobody
aborts the scan, and the world keeps what is reported. -/
structure Surroundings.Still (env : Surroundings σ κ) (tree : FileTree κ)
    (parser : Path → Except Tag.ParseError Tag.Metadata) (now : Int)
    (reports : σ → List Progress) : Prop extends env.Steady tree parser where
  isAborted : ∀ w, env.isAborted w = false
  now : ∀ w, env.now w = now
  wait : ∀ w, reports (env.wait w) = reports w
  report : ∀ p w, reports (env.report p w) = reports w ++ [p]
  clearAbort : ∀ w, reports (env.clearAbort w) = reports w

/-- A world that is only the list of reports. -/
def quiet (tree : FileTree κ) (parser : Path → Except Tag.ParseError Tag.Metadata) (now : Int) :
    Surroundings (List Progress) κ where
  wait := id
  tree := fun _ => tree
  parse := fun _ => parser
  isAborted := fun _ => false
  clearAbort := id
  report := fun p reports => reports ++ [p]
  now := fun _ => now

def soundOnly : Path → Except Tag.ParseError Tag.Metadata :=
  fun _ => .ok { audioStreams := 1, durationMs := 1000 }

def album (songs : List (String × Int)) : FileTree Unit :=
  let directory : Location := [Text.Utf8.encode "m"]
  songs.foldl (fun tree (name, seconds) => tree.put (directory ++ [Text.Utf8.encode name])
    (.file (seconds * nanosecondsInSecond) ())) ((FileTree.empty []).put directory (.directory 0))

def albumPlan (skipsDuplicates : Bool) : Plan :=
  ⟨Path.ofString "/m", false, 1, ["mp3"], ".lmsignore", skipsDuplicates, 2⟩

namespace Surroundings.Still

variable {env : Surroundings σ κ} {tree : FileTree κ}
  {parser : Path → Except Tag.ParseError Tag.Metadata} {now : Int} {reports : σ → List Progress}
  (h : env.Still tree parser now reports)

theorem quiet : (Scan.quiet tree parser now).Still tree parser now id :=
  ⟨⟨fun _ => rfl, fun _ => rfl⟩, fun _ => rfl, fun _ => rfl, fun _ => rfl, fun _ _ => rfl,
    fun _ => rfl⟩

include h

theorem abortStays : env.AbortStays where
  wait := fun {w} hw => absurd hw (by simp [h.isAborted w])
  report := fun {w} _ hw => absurd hw (by simp [h.isAborted w])

theorem observe {α : Type} {f : σ → α} {a : α} (hf : ∀ w, f w = a) :
    Shadows reports (observe env f) (pure a) := by
  intro r
  show EStateM.Result.ok a (r.around reports) =
    .ok (f (env.wait r.outside)) (Run.around reports { r with outside := env.wait r.outside })
  rw [hf, Run.around, Run.around, h.wait]

theorem lockstep : Lockstep env (Scan.quiet tree parser now) (fun w l => reports w = l)
    (Shadows reports) where
  toBinds := Shadows.binds reports
  ofLook := h.observe h.tree
  ofIsAborted := h.observe h.isAborted
  ofReport := by
    intro r
    show EStateM.Result.ok _ _ = EStateM.Result.ok _ (Run.around reports { r with outside := _ })
    rw [Run.around, Run.around, h.report]
    rfl
  ofClearAbort := by
    intro b r
    show EStateM.Result.ok _ _ =
      EStateM.Result.ok _ (Run.around reports { r with outside := _, isAborted := b })
    rw [Run.around, Run.around, h.clearAbort]
    rfl
  ofParse := fun path => h.observe fun w => by rw [h.parse]
  ofNow := fun _ => h.now _

theorem around_eq {r t : Run σ} (ht : Waits env r t) : t.around reports = r.around reports := by
  have hreports : reports t.outside = reports r.outside :=
    ht.outside (P := fun w => reports w = reports r.outside) (fun w hw => (h.wait w).trans hw) rfl
  obtain ⟨n, rfl⟩ := ht
  simp only [Run.around] at hreports ⊢
  rw [hreports]

theorem readAll (plan : Plan) (entries : List Entry) :
    Shadows reports (readAll env plan entries)
      (readAll (Scan.quiet tree parser now) plan entries) := by
  intro r
  have still : (Scan.quiet tree parser now).Still tree parser now id := quiet
  obtain ⟨readings, t, hrun, rfl, ht⟩ :=
    succeeds_iff.mp (h.toSteady.readAll_succeeds (r := r) entries)
  obtain ⟨readings', t', hrun', rfl, ht'⟩ :=
    succeeds_iff.mp (still.toSteady.readAll_succeeds (r := r.around reports) entries)
  have same : t' = t.around reports := (still.around_eq ht').trans (h.around_eq ht).symm
  rw [hrun, hrun', same]
  rfl

/-- A scan in a world where nothing else happens is one in a world of reports. -/
theorem process (plan : Plan) :
    Shadows reports (process env plan) (process (Scan.quiet tree parser now) plan) :=
  h.lockstep.process plan (h.readAll plan)

end Surroundings.Still

end AudioCatalog.Scan
