import AudioCatalog.Proofs.Dependability
import AudioCatalog.Tag.Reading

namespace AudioCatalog

def Tag.pairs (values : ClusterValues) : List (String × String) :=
  values.toList.flatMap fun (typeName, names) => names.toList.map (typeName, ·)

def isPlainName (name : String) : Bool := name ≠ "" && Text.trimmed name = name

namespace Tag

variable {tag : Tag} {names : List String}

theorem mem_of_mem_clustersOf {name : String} (h : name ∈ tag.clustersOf names) : name ∈ names := by
  suffices ∀ clusters : ClusterValues, name ∈ names.foldl tag.addValues clusters →
      name ∈ clusters ∨ name ∈ names by
    simpa using this ∅ h
  clear h
  induction names with
  | nil => exact fun clusters => .inl
  | cons first names ih =>
      intro clusters h
      rw [List.foldl_cons] at h
      rcases ih _ h with h | h
      · rw [addValues] at h
        split at h
        · exact .inl h
        · rcases Std.ExtTreeMap.mem_insert.mp h with heq | h
          · exact .inr (Std.LawfulEqOrd.eq_of_compare heq ▸ List.mem_cons_self)
          · exact .inl h
      · exact .inr (List.mem_cons_of_mem first h)

theorem mem_of_mem_pairs {pair : String × String} (h : pair ∈ pairs (tag.clustersOf names)) :
    pair.1 ∈ names := by
  simp only [pairs, List.mem_flatMap, List.mem_map] at h
  obtain ⟨⟨typeName, values⟩, htype, value, -, rfl⟩ := h
  have hrow := Std.ExtTreeMap.mem_toList_iff_getElem?_eq_some.mp htype
  have hmem : typeName ∈ tag.clustersOf names :=
    Std.ExtTreeMap.mem_iff_isSome_getElem?.mpr (Option.isSome_of_mem hrow)
  exact mem_of_mem_clustersOf hmem

end Tag

namespace Catalog

theorem mem_normalizedNames {names : List String} {name : String} :
    name ∈ normalizedNames names ↔ name ≠ "" ∧ ∃ given ∈ names, Text.trimmed given = name := by
  simp only [normalizedNames, Std.ExtTreeSet.mem_toList, Std.ExtTreeSet.mem_ofList,
    List.contains_iff_mem, List.mem_filter, List.mem_map, decide_eq_true_eq]
  exact and_comm

theorem mem_normalizedNames_iff {names : List String} {name : String} (h : name ∈ names) :
    name ∈ normalizedNames names ↔ isPlainName name = true := by
  rw [mem_normalizedNames, isPlainName, Bool.and_eq_true, decide_eq_true_eq, decide_eq_true_eq]
  refine and_congr_right fun _ => ⟨?_, fun hname => ⟨name, h, hname⟩⟩
  rintro ⟨given, -, rfl⟩
  exact Text.trimmed_trimmed given

namespace State

def hasType (s : State) (name : String) : Bool :=
  s.clusterTypes.toList.any fun row => row.2.name = name

def valueOf? (s : State) (cluster : Cluster) : Option (String × String) :=
  s.clusterTypes[cluster.typeId]?.map fun clusterType => (clusterType.name, cluster.name)

variable {s t : State}

theorem hasType_iff {name : String} : s.hasType name = true ↔
    ∃ (i : ClusterTypeId) (clusterType : ClusterType), s.clusterTypes[i]? = some clusterType ∧
      clusterType.name = name := by
  simp [hasType, List.any_eq_true, Std.ExtTreeMap.mem_toList_iff_getElem?_eq_some]

/-- There are the cluster types that there were, as they were, and one for each of the names; nothing
else has changed. -/
structure AddsTypes (names : List String) (s t : State) : Prop where
  coherent : t.Coherent
  hasType_iff : ∀ name, t.hasType name = true ↔ s.hasType name = true ∨ name ∈ names
  keeps : ∀ (i : ClusterTypeId) (clusterType : ClusterType),
    s.clusterTypes[i]? = some clusterType → t.clusterTypes[i]? = some clusterType
  others : t = { s with
    nextClusterType := t.nextClusterType
    clusterTypes := t.clusterTypes
    clusterTypeByName := t.clusterTypeByName }

namespace AddsTypes

variable {names : List String} {name : String}

theorem of_hasType (h : s.Coherent) (known : ∀ name ∈ names, s.hasType name = true) :
    s.AddsTypes names s where
  coherent := h
  hasType_iff := fun name => (or_iff_left_of_imp (known name)).symm
  keeps := fun _ _ => id
  others := rfl

theorem withNewType (h : s.Coherent) (ht : (s.withNewType name).Coherent) :
    s.AddsTypes [name] (s.withNewType name) where
  coherent := ht
  hasType_iff := fun other => by
    simp only [State.hasType_iff, List.mem_singleton]
    constructor
    · rintro ⟨i, clusterType, hrow, hname⟩
      rcases eq_or_of_getElem?_insert hrow with rfl | hrow
      · exact .inr hname.symm
      · exact .inl ⟨i, clusterType, hrow, hname⟩
    · rintro (⟨i, clusterType, hrow, hname⟩ | rfl)
      · exact ⟨i, clusterType, h.getElem?_withNewType hrow, hname⟩
      · exact ⟨_, _, Std.ExtTreeMap.getElem?_insert_self, rfl⟩
  keeps := fun _ _ => h.getElem?_withNewType
  others := rfl

theorem cons {u : State} (first : s.AddsTypes [name] t) (rest : t.AddsTypes names u) :
    s.AddsTypes (name :: names) u where
  coherent := rest.coherent
  hasType_iff := fun other => by
    rw [rest.hasType_iff, first.hasType_iff, List.mem_singleton, List.mem_cons, or_assoc]
  keeps := fun i clusterType hrow => rest.keeps i clusterType (first.keeps i clusterType hrow)
  others := by
    rw [rest.others, first.others]

end AddsTypes

end State

open State

namespace Session

variable {s : State}

theorem provideClusterType_adds (h : s.Coherent) (name : String) :
    Succeeds (provideClusterType name) s fun _ t => s.AddsTypes [name] t := by
  rcases provideClusterType_cases h name with ⟨hrun, known⟩ | ⟨hrun, coherent, -⟩
  · refine succeeds_iff.mpr ⟨(), s, hrun, .of_hasType h ?_⟩
    exact List.forall_mem_singleton.mpr (hasType_iff.mpr known)
  · exact succeeds_iff.mpr ⟨(), _, hrun, .withNewType h coherent⟩

theorem provideClusterTypes_adds (h : s.Coherent) (names : List String) :
    Succeeds (names.forM provideClusterType) s fun _ t => s.AddsTypes names t := by
  induction names generalizing s with
  | nil => exact .of_hasType h (by simp)
  | cons first names ih =>
      refine Ends.bind (provideClusterType_adds h first) fun _ t added => ?_
      exact (ih added.coherent).imp (fun _ _ => added.cons) fun _ _ => id

theorem syncSettings_addsTypes (h : s.Coherent) (names : List String) :
    Succeeds (syncSettings names) s fun settings t =>
      settings = s.settings.adjusted (normalizedNames names) ∧
        ({ s with settings } : State).AddsTypes (normalizedNames names) t :=
  syncSettings_ends_iff.mpr
    ((provideClusterTypes_adds (h.withSettings _) (normalizedNames names)).imp
      (fun _ _ added => ⟨rfl, added⟩) fun _ _ => id)

/-- Afterwards there are the types that there were, and one for each plain name. -/
theorem syncSettings_adds (h : s.Coherent) (names : List String) :
    Succeeds (syncSettings names) s fun _ t => t.Coherent ∧
      ∀ name, t.hasType name = true ↔ s.hasType name = true ∨ name ∈ normalizedNames names :=
  (syncSettings_addsTypes h names).imp (fun _ _ ⟨_, added⟩ => ⟨added.coherent, added.hasType_iff⟩)
    fun _ _ => id

theorem map_keysFor (h : s.Coherent) (values : String × OrderedSet String) :
    (keysFor s values).map (fun key =>
        s.clusterTypes[key.typeId]?.map fun clusterType => (clusterType.name, key.name)) =
      ((values.2.toList.map (values.1, ·)).filter fun pair => s.hasType pair.1).map some := by
  obtain ⟨typeName, values⟩ := values
  rcases h.findClusterTypeByName_cases typeName with ⟨clusterType, hrow, rfl, hfind⟩ | ⟨hnone, hfind⟩
  · have known : s.hasType clusterType.name = true := hasType_iff.mpr ⟨_, clusterType, hrow, rfl⟩
    simp [keysFor, hfind, hrow, known, Function.comp_def, List.filter_map]
  · have unknown : s.hasType typeName = false := by
      rw [Bool.eq_false_iff, Ne, hasType_iff]
      rintro ⟨i, clusterType, hrow, hname⟩
      exact hnone i clusterType hrow hname
    simp [keysFor, hfind, unknown, Function.comp_def, List.filter_map]

theorem resolveClusters_values (h : s.Coherent) (values : Tag.ClusterValues) :
    Succeeds (resolveClusters values) s fun clusters t =>
      clusters.map t.valueOf? =
        ((Tag.pairs values).filter fun pair => s.hasType pair.1).map some := by
  refine (resolveClusters_provides values h).imp (fun clusters t provided => ?_) fun _ _ => id
  have hvalue : t.valueOf? = (fun key : ClusterKey =>
      s.clusterTypes[key.typeId]?.map fun clusterType => (clusterType.name, key.name)) ∘
        Cluster.key := by
    funext cluster
    rw [valueOf?, provided.sameTypes.rows]
    rfl
  rw [hvalue, ← List.map_map, provided.map_key, List.map_flatMap, Tag.pairs, List.filter_flatMap,
    List.map_flatMap]
  exact List.flatMap_congr fun values _ => map_keysFor h values

end Session

end Catalog

namespace Scan

open Catalog Session State

variable {s : State}

/-- The settings are brought in line with the names; then for each value that a tag has under these
names, and whose type is called by a plain name or was known before, there is one cluster. -/
theorem Reachable.resolves_iff (h : Reachable s) (names : List String) :
    Succeeds (syncSettings names) s fun _ t => ∀ tag : Tag,
      Succeeds (resolveClusters (tag.clustersOf names)) t fun clusters u =>
        clusters.map u.valueOf? = ((Tag.pairs (tag.clustersOf names)).filter fun pair =>
          isPlainName pair.1 || s.hasType pair.1).map some ∧
        (clusters.map u.valueOf? = (Tag.pairs (tag.clustersOf names)).map some ↔
          ∀ pair ∈ Tag.pairs (tag.clustersOf names), isPlainName pair.1 || s.hasType pair.1) := by
  refine (syncSettings_adds h.coherent names).imp (fun _ t ⟨ht, htypes⟩ tag => ?_) fun _ _ => id
  have known {pair : String × String} (hpair : pair ∈ Tag.pairs (tag.clustersOf names)) :
      t.hasType pair.1 = (isPlainName pair.1 || s.hasType pair.1) := by
    rw [Bool.eq_iff_iff, htypes, mem_normalizedNames_iff (Tag.mem_of_mem_pairs hpair),
      Bool.or_eq_true, or_comm]
  refine (resolveClusters_values ht (tag.clustersOf names)).imp (fun clusters u hu => ?_) fun _ _ => id
  rw [List.filter_congr fun pair hpair => known hpair] at hu
  refine ⟨hu, ?_⟩
  rw [hu, List.map_inj_right fun _ _ => Option.some.inj, List.filter_eq_self]

def customTag (key text : String) : Tag := ⟨[⟨.other key, .text text⟩], 0⟩

theorem resolves_custom : ∃ settings t clusters u,
    syncSettings ["Custom"] {} = .ok settings t ∧
    resolveClusters ((customTag "CUSTOM" "a; b").clustersOf ["Custom"]) t = .ok clusters u ∧
    clusters.map u.valueOf? = [some ("Custom", "a"), some ("Custom", "b")] := by
  obtain ⟨settings, t, hsync, resolves⟩ := succeeds_iff.mp (Reachable.empty.resolves_iff ["Custom"])
  obtain ⟨clusters, u, hresolve, -, values⟩ := succeeds_iff.mp (resolves (customTag "CUSTOM" "a; b"))
  have pairs : Tag.pairs ((customTag "CUSTOM" "a; b").clustersOf ["Custom"]) =
      [("Custom", "a"), ("Custom", "b")] := by decide +kernel
  rw [pairs] at values
  exact ⟨settings, t, clusters, u, hsync, hresolve, values.mpr (by decide +kernel)⟩

/-- The type is made without the blank, and so the value that was read with it gets no cluster. -/
theorem drops_custom_of_blank :
    Tag.pairs ((customTag " CUSTOM" "x").clustersOf [" CUSTOM"]) = [(" CUSTOM", "x")] ∧
    Succeeds (syncSettings [" CUSTOM"]) {} fun _ t =>
      Succeeds (resolveClusters ((customTag " CUSTOM" "x").clustersOf [" CUSTOM"])) t
        fun clusters _ => clusters = [] := by
  decide +kernel

end Scan

end AudioCatalog
