import AudioCatalog.Proofs.Coherence

namespace AudioCatalog.Catalog

section

variable {e : Entity} {ρ : Type} (rows : Table (EntityId e) ρ) (property : ρ → Prop)

/-- No two rows have the property, and the lookup finds the one that has it, or none where there is
none. -/
structure FindsOne (result : Except Error (Option ρ)) : Prop where
  unique : ∀ {i j : EntityId e} {row other : ρ}, rows[i]? = some row → rows[j]? = some other →
    property row → property other → i = j
  finds : ∃ found, result = .ok found ∧
    ∀ row, found = some row ↔ ∃ i : EntityId e, rows[i]? = some row ∧ property row

/-- The lookup finds the rows that have the property and no others, in the order in which they were
created. -/
structure FindsAll (id : ρ → EntityId e) (result : Except Error (List ρ)) : Prop where
  finds : ∃ found, result = .ok found ∧
    found.Pairwise (fun row other => (id row).number < (id other).number) ∧
    ∀ row, row ∈ found ↔ ∃ i : EntityId e, rows[i]? = some row ∧ property row

end

theorem FindsOne.of_cases {e : Entity} {ρ : Type} {rows : Table (EntityId e) ρ}
    {property : ρ → Prop} {id : ρ → EntityId e} {result : Except Error (Option ρ)}
    (unique : ∀ {i j : EntityId e} {row other : ρ}, rows[i]? = some row → rows[j]? = some other →
      property row → property other → i = j)
    (h : (∃ row, rows[id row]? = some row ∧ property row ∧ result = .ok (some row)) ∨
      ((∀ (i : EntityId e) (row : ρ), rows[i]? = some row → ¬ property row) ∧
        result = .ok none)) : FindsOne rows property result := by
  refine ⟨unique, ?_⟩
  rcases h with ⟨row, hrow, hproperty, hresult⟩ | ⟨hnone, hresult⟩
  · refine ⟨some row, hresult, fun other => ⟨?_, ?_⟩⟩
    · rintro ⟨⟩
      exact ⟨id row, hrow, hproperty⟩
    · rintro ⟨i, hi, hother⟩
      have := unique hi hrow hother hproperty
      rw [this, hrow] at hi
      exact hi
  · refine ⟨none, hresult, fun row => ⟨?_, ?_⟩⟩
    · rintro ⟨⟩
    · rintro ⟨i, hi, hrow⟩
      exact absurd hrow (hnone i row hi)

namespace Registry.Coherent

variable {e : Entity} {δ : Type} {r : Registry e δ} (h : r.Coherent)
include h

theorem findsByMbid (mbid : Mbid) :
    FindsOne r.rows (·.mbid = some mbid) (r.findByMbid mbid) :=
  .of_cases h.eq_of_mbid (h.findByMbid_cases mbid)

theorem findsByName (name : String) :
    FindsAll r.rows (·.name = name) Named.id (r.findByName name) := by
  obtain ⟨found, hfound, ordered, members⟩ := h.findByName_ok name
  refine ⟨found, hfound, ordered, fun row => (members row).trans ⟨?_, ?_⟩⟩
  · exact fun hrow => ⟨row.id, hrow⟩
  · rintro ⟨i, hi, hname⟩
    exact ⟨by rwa [h.numbered.id_eq hi], hname⟩

end Registry.Coherent

namespace State

structure LookupsExact (s : State) : Prop where
  artistByMbid : ∀ mbid, FindsOne s.artists.rows (·.mbid = some mbid) (s.artists.findByMbid mbid)
  artistsByName : ∀ name,
    FindsAll s.artists.rows (·.name = name) Named.id (s.artists.findByName name)
  releaseByMbid : ∀ mbid,
    FindsOne s.releases.rows (·.mbid = some mbid) (s.releases.findByMbid mbid)
  releasesByName : ∀ name,
    FindsAll s.releases.rows (·.name = name) Named.id (s.releases.findByName name)
  clusterTypeByName : ∀ name,
    FindsOne s.clusterTypes (·.name = name) (s.findClusterTypeByName name)
  clusterByKey : ∀ key, FindsOne s.clusters (·.key = key) (s.findClusterByKey key)

theorem Coherent.lookupsExact {s : State} (h : s.Coherent) : s.LookupsExact where
  artistByMbid := h.artists.findsByMbid
  artistsByName := h.artists.findsByName
  releaseByMbid := h.releases.findsByMbid
  releasesByName := h.releases.findsByName
  clusterTypeByName := fun name => by
    refine .of_cases ?_ (h.findClusterTypeByName_cases name)
    intro i j row other hi hj hrow hother
    have first := (h.clusters.typeByName name i).mpr ⟨row, hi, hrow⟩
    have second := (h.clusters.typeByName name j).mpr ⟨other, hj, hother⟩
    exact Option.some.inj (first.symm.trans second)
  clusterByKey := fun key => by
    refine .of_cases ?_ (h.findClusterByKey_cases key)
    intro i j row other hi hj hrow hother
    have first := (h.clusters.byKey key.text i).mpr ⟨row, hi, congrArg ClusterKey.text hrow⟩
    have second := (h.clusters.byKey key.text j).mpr ⟨other, hj, congrArg ClusterKey.text hother⟩
    exact Option.some.inj (first.symm.trans second)

end State

end AudioCatalog.Catalog
