import AudioCatalog.Proofs.Chronicle

namespace AudioCatalog.Scan

open Catalog Scan.Action Session

variable {σ κ : Type}

structure Tally where
  additions : Nat := 0
  updates : Nat := 0
  deletions : Nat := 0
deriving DecidableEq

instance : Add Tally where
  add a b := ⟨a.additions + b.additions, a.updates + b.updates, a.deletions + b.deletions⟩

def Stats.tally (s : Stats) : Tally := ⟨s.additions, s.updates, s.deletions⟩

def Outcome.tally : Outcome → Tally
  | .added => { additions := 1 }
  | .updated => { updates := 1 }
  | .rejected _ removesTrack => { deletions := removesTrack.toNat }

abbrev Work := Session Tally

def fileWork (plan : Plan) (entry : Entry) (m : Tag.Metadata) (stamp : Stamp) : Work := do
  return (← reconcile plan.skipsDuplicates entry m stamp).tally

def tracksWork (ids : List TrackId) : Work := do
  return { deletions := ← removeAll removeTrack ids }

def entityWork (kind : Orphanage) (key : kind.Key) : Work := do
  let _ ← kind.remove key
  return {}

theorem tracksWork_eq_ok {ids : List TrackId} {s t : State} {removed : Nat}
    (h : removeAll removeTrack ids s = .ok removed t) :
    tracksWork ids s = .ok { deletions := removed } t := bind_eq_of_ok h

theorem entityWork_eq_ok {kind : Orphanage} {key : kind.Key} {s t : State} {isRemoved : Bool}
    (h : kind.remove key s = .ok isRemoved t) : entityWork kind key s = .ok {} t := bind_eq_of_ok h

def carryOut (s : State × Tally) (work : Work) : State × Tally :=
  match s.1.transact work with
  | .ok (tally, t) => (t, s.2 + tally)
  | .error _ => s

abbrev Planner := State → List Work

def worksOf : List Planner → State × Tally → List Work
  | [], _ => []
  | planner :: planners, s =>
    planner s.1 ++ worksOf planners ((planner s.1).foldl carryOut s)

def fileWork? (tree : FileTree κ) (parser : Path → Except Tag.ParseError Tag.Metadata) (plan : Plan)
    (times : Entry → Int) (s : State) (entry : Entry) : Option Work :=
  match readingOf tree parser plan s entry with
  | .parsed time m => some (fileWork plan entry m ⟨time, plan.scanVersion, times entry⟩)
  | .unreadable _ | .unchanged | .unparsable _ | .unknown _ => none

def fileWorks (tree : FileTree κ) (parser : Path → Except Tag.ParseError Tag.Metadata) (plan : Plan)
    (times : Entry → Int) : Planner := fun s =>
  (entriesOf tree plan).filterMap (fileWork? tree parser plan times s)

def orphansIn (tree : FileTree κ) (plan : Plan) (tracks : List (TrackId × String)) : List TrackId :=
  (tracks.filter fun track => (orphanReason? tree plan (Path.ofString track.2)).isSome).map Prod.fst

def trackWorks (tree : FileTree κ) (plan : Plan) : Planner := fun s =>
  (chunks (orphanBatchSize - 1) s.trackPaths).map fun piece => tracksWork (orphansIn tree plan piece)

def Orphanage.all (kind : Orphanage) (s : State) : List kind.Key := kind.find s (kind.size s)

def entityWorks (kind : Orphanage) : Planner := fun s => (kind.all s).map (entityWork kind)

/-- All that a scan has to do, where files are dated by these times. -/
def agenda (tree : FileTree κ) (parser : Path → Except Tag.ParseError Tag.Metadata) (plan : Plan)
    (times : Entry → Int) (s : State) : List Work :=
  worksOf [fileWorks tree parser plan times, trackWorks tree plan, entityWorks .clusters,
    entityWorks .artists, entityWorks .releases] (s, {})

def Account.result (a : Account) : State × Tally := (a.catalog, a.stats.tally)

def Run.result (r : Run σ) : State × Tally := (r.catalog, r.stats.tally)

theorem worksOf_append (planners others : List Planner) (s : State × Tally) :
    worksOf (planners ++ others) s =
      worksOf planners s ++ worksOf others ((worksOf planners s).foldl carryOut s) := by
  induction planners generalizing s with
  | nil => rfl
  | cons planner planners ih =>
      rw [List.cons_append, worksOf, worksOf, ih, List.append_assoc, List.foldl_append]

section

variable {s : State × Tally} {work : Work}

theorem carryOut_eq_of_ok {tally : Tally} {t : State} (h : work s.1 = .ok tally t) :
    carryOut s work = (t, s.2 + tally) := by
  rw [carryOut, State.transact, h]

theorem carryOut_eq_of_succeeds {ok : Tally → State → Prop} (h : Succeeds work s.1 ok) :
    ∃ tally t, carryOut s work = (t, s.2 + tally) ∧ ok tally t := by
  obtain ⟨tally, t, hrun, ht⟩ := succeeds_iff.mp h
  exact ⟨tally, t, carryOut_eq_of_ok hrun, ht⟩

theorem foldl_carryOut_holds {P : State → Prop} {works : List Work}
    (h : ∀ work ∈ works, ∀ s, P s → Succeeds work s fun _ t => P t) (hs : P s.1) :
    P (works.foldl carryOut s).1 := by
  induction works generalizing s with
  | nil => exact hs
  | cons work works ih =>
      obtain ⟨tally, t, hcarry, ht⟩ := carryOut_eq_of_succeeds (h work (by simp) s.1 hs)
      rw [List.foldl_cons, hcarry]
      exact ih (fun other hother => h other (by simp [hother])) ht

theorem foldl_carryOut_idle {works : List Work} (h : ∀ work ∈ works, work s.1 = .ok {} s.1) :
    works.foldl carryOut s = s := by
  induction works with
  | nil => rfl
  | cons work works ih =>
      rw [List.foldl_cons, carryOut_eq_of_ok (h work (by simp))]
      exact ih fun other hother => h other (by simp [hother])

end

theorem countedIn_tally (path : Path) (s : Stats) (outcome : Outcome) :
    (outcome.countedIn path s).tally = s.tally + outcome.tally := by
  cases outcome with
  | added | updated => rfl
  | rejected why removesTrack => cases why <;> rfl

section

variable {tree : FileTree κ} {parser : Path → Except Tag.ParseError Tag.Metadata} {plan : Plan}
  {times : Entry → Int} {s : State}

theorem take_result (a : Account) (entry : Entry) :
    (a.take plan entry (times entry) (readingOf tree parser plan s entry)).result =
      (fileWork? tree parser plan times s entry).toList.foldl carryOut a.result := by
  unfold fileWork?
  cases readingOf tree parser plan s entry with
  | unreadable | unchanged | unparsable | unknown => rfl
  | parsed time m =>
      simp only [Account.take, Option.toList_some, List.foldl_cons, List.foldl_nil, carryOut,
        Account.result, fileWork, State.transact, Bind.bind, EStateM.bind]
      cases reconcile plan.skipsDuplicates entry m ⟨time, plan.scanVersion, times entry⟩ a.catalog with
      | ok outcome t => simp only [countedIn_tally]; rfl
      | error e t => rfl

theorem foldl_settle_result (a : Account) (visits : List Visit) :
    (visits.foldl (Account.settle plan (readingOf tree parser plan s) times) a).result =
      ((visits.filterMap (entryOf? plan)).filterMap (fileWork? tree parser plan times s)).foldl
        carryOut a.result := by
  induction visits generalizing a with
  | nil => rfl
  | cons visit visits ih =>
      rw [List.foldl_cons, ih, Account.settle]
      cases hmatter : matterOf plan visit with
      | ignored => rw [List.filterMap_cons_none (entryOf?_eq_none (by simp [hmatter]))]
      | refused path message isAudioFile =>
          rw [List.filterMap_cons_none (entryOf?_eq_none (by simp [hmatter]))]
          cases isAudioFile <;> rfl
      | file entry =>
          rw [List.filterMap_cons_some (entryOf?_eq_some_iff.mpr hmatter)]
          have taken : ((a.take plan entry (times entry)
              (readingOf tree parser plan s entry)).advance).result = _ := take_result a entry
          rw [taken]
          cases hwork : fileWork? tree parser plan times s entry with
          | none => rw [List.filterMap_cons_none hwork]; rfl
          | some work => rw [List.filterMap_cons_some hwork]; rfl

end

end AudioCatalog.Scan
