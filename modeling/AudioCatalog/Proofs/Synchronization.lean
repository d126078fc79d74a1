import AudioCatalog.Proofs.ClusterNames
import AudioCatalog.Proofs.Commits

namespace AudioCatalog

namespace Catalog

/-- The names that are given without the blanks around them, in order and each once; those that are
blank are left out. -/
structure Normalizes (names wanted : List String) : Prop where
  sorted : wanted.Pairwise (· < ·)
  mem_iff : ∀ name, name ∈ wanted ↔ name ≠ "" ∧ ∃ given ∈ names, Text.trimmed given = name

def SameNames (names others : List String) : Prop :=
  ∀ name, name ≠ "" →
    ((∃ given ∈ names, Text.trimmed given = name) ↔ ∃ given ∈ others, Text.trimmed given = name)

theorem normalizedNames_normalizes (names : List String) :
    Normalizes names (normalizedNames names) where
  sorted := by
    have ordered := Std.ExtTreeSet.ordered_toList
      (t := Std.ExtTreeSet.ofList ((names.map Text.trimmed).filter (· ≠ "")) compare)
    exact ordered.imp compareOfLessAndEq_eq_lt.mp
  mem_iff := fun _ => mem_normalizedNames

theorem normalizedNames_congr {names others : List String} (same : SameNames names others) :
    normalizedNames names = normalizedNames others := by
  rw [normalizedNames, normalizedNames]
  refine congrArg _ (Std.ExtTreeSet.ext_mem fun name => ?_)
  rw [← Std.ExtTreeSet.mem_toList, ← Std.ExtTreeSet.mem_toList, ← normalizedNames, ← normalizedNames,
    mem_normalizedNames, mem_normalizedNames]
  exact and_congr_right (same name)

theorem ScanSettings.adjusted_adjusted (settings : ScanSettings) (names : List String) :
    (settings.adjusted names).adjusted names = settings.adjusted names := by
  by_cases h : settings.clusterTypeNames = names ∧ settings.logicVersion = currentLogic
  · simp [adjusted, h]
  · simp [adjusted, h]

namespace Session

variable {s : State}

theorem syncSettings_congr {names others : List String} (same : SameNames names others) :
    syncSettings names = syncSettings others := by
  rw [syncSettings, syncSettings, normalizedNames_congr same]

theorem syncSettings_idle (h : s.Coherent) {names : List String}
    (adjusted : s.settings.adjusted (normalizedNames names) = s.settings)
    (known : ∀ name ∈ normalizedNames names, s.hasType name = true) :
    syncSettings names s = .ok s.settings s := by
  have provide (name : String) (hname : name ∈ normalizedNames names) :
      provideClusterType name s = .ok () s := by
    rcases provideClusterType_cases h name with ⟨hrun, -⟩ | ⟨-, -, unknown⟩
    · exact hrun
    · obtain ⟨i, clusterType, hrow, hsame⟩ := State.hasType_iff.mp (known name hname)
      exact absurd hsame (unknown i clusterType hrow)
  have idle : Succeeds ((normalizedNames names).forM provideClusterType) s fun _ t => t = s :=
    Ends.forM (I := (· = s)) (fun name hname t ht => by
      rw [ht]
      exact succeeds_iff.mpr ⟨(), s, provide name hname, rfl⟩) rfl
  have settled : Succeeds (syncSettings names) s fun settings t => settings = s.settings ∧ t = s := by
    rw [Succeeds, syncSettings_ends_iff, adjusted]
    exact idle.imp (fun _ _ ht => ⟨rfl, ht⟩) fun _ _ => id
  obtain ⟨_, _, hrun, rfl, rfl⟩ := succeeds_iff.mp settled
  exact hrun

end Session

end Catalog

namespace Scan

open Catalog Session State

variable {s : State}

/-- Lists of the same names lead to the same settings and to the same catalog, and when it is there,
they change nothing. The settings have the names in order, under the next scan version if that is
new to them, and the cluster types that there were are as they were. -/
theorem Reachable.syncSettings_settles (h : Reachable s) (names : List String) :
    ∃ wanted settings t, Normalizes names wanted ∧
      s.transact (syncSettings names) = .ok (settings, t) ∧
      (s.settings.clusterTypeNames = wanted ∧ s.settings.logicVersion = currentLogic →
        settings = s.settings) ∧
      (¬ (s.settings.clusterTypeNames = wanted ∧ s.settings.logicVersion = currentLogic) →
        settings = ⟨s.settings.scanVersion + 1, currentLogic, wanted⟩) ∧
      ({ s with settings } : State).AddsTypes wanted t ∧
      ∀ others, SameNames names others →
        s.transact (syncSettings others) = .ok (settings, t) ∧
          t.transact (syncSettings others) = .ok (settings, t) := by
  obtain ⟨settings, t, hrun, hsettings, added⟩ :=
    succeeds_iff.mp (syncSettings_addsTypes h.coherent names)
  have hsame : t.settings = settings := congrArg State.settings added.others
  have again : syncSettings names t = .ok settings t := by
    have idle : syncSettings names t = .ok t.settings t := by
      refine syncSettings_idle added.coherent ?_ fun name hname =>
        (added.hasType_iff name).mpr (.inr hname)
      rw [hsame, hsettings, ScanSettings.adjusted_adjusted]
    rwa [hsame] at idle
  refine ⟨normalizedNames names, settings, t, normalizedNames_normalizes names,
    State.transact_eq_ok.mpr hrun, fun current => ?_, fun outdated => ?_, added,
    fun others same => ?_⟩
  · rw [hsettings, ScanSettings.adjusted, if_pos current]
  · rw [hsettings, ScanSettings.adjusted, if_neg outdated]
  · rw [← syncSettings_congr same]
    exact ⟨State.transact_eq_ok.mpr hrun, State.transact_eq_ok.mpr again⟩

theorem syncSettings_settles_genres : ∃ s settings t, Reachable s ∧
    s.settings = ⟨3, 0, ["OLD"]⟩ ∧ s.hasType "MOOD" = true ∧ s.hasType "GENRE" = false ∧
    s.transact (syncSettings [" GENRE ", "", "MOOD", "GENRE"]) = .ok (settings, t) ∧
    settings = ⟨4, 1, ["GENRE", "MOOD"]⟩ ∧
    s.transact (syncSettings ["MOOD", "GENRE"]) = .ok (settings, t) ∧
    t.transact (syncSettings ["MOOD", "GENRE"]) = .ok (settings, t) := by
  let ms : List Mutation :=
    [.createClusterType "OLD", .createClusterType "MOOD", .saveSettings ⟨3, 0, ["OLD"]⟩]
  have reached : Reachable (ms.foldl Mutation.after {}) := Reachable.empty.after ms
  obtain ⟨wanted, settings, t, normalizes, hrun, -, -, -, others⟩ :=
    reached.syncSettings_settles [" GENRE ", "", "MOOD", "GENRE"]
  have same : SameNames [" GENRE ", "", "MOOD", "GENRE"] ["MOOD", "GENRE"] := by
    have padded : Text.trimmed " GENRE " = "GENRE" := by decide +kernel
    have blank : Text.trimmed "" = "" := by decide +kernel
    have mood : Text.trimmed "MOOD" = "MOOD" := by decide +kernel
    have genre : Text.trimmed "GENRE" = "GENRE" := by decide +kernel
    intro name hname
    simp [padded, blank, mood, genre, hname.symm, or_comm]
  obtain ⟨hother, hagain⟩ := others _ same
  refine ⟨_, settings, t, reached, by decide +kernel, by decide +kernel, by decide +kernel, hrun, ?_,
    hother, hagain⟩
  have answer : ((ms.foldl Mutation.after {}).transact
      (syncSettings [" GENRE ", "", "MOOD", "GENRE"])).map Prod.fst =
        .ok ⟨4, 1, ["GENRE", "MOOD"]⟩ := by
    decide +kernel
  rw [hrun] at answer
  exact Except.ok.inj answer

end Scan

end AudioCatalog
