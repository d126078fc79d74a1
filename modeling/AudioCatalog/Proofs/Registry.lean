import AudioCatalog.Catalog.Registry
import AudioCatalog.Proofs.Index

namespace AudioCatalog.Catalog.Registry

variable {e : Entity} {δ : Type} {r : Registry e δ}

structure Coherent (r : Registry e δ) : Prop where
  numbered : Numbered r.rows Named.id r.next
  byMbid : Matches (fun mbid i => r.byMbid[mbid]? = some i) r.rows fun row mbid =>
    row.mbid = some mbid
  byName : Matches r.byName.contains r.rows fun row name => row.name = name

/-- A change of a registry leads to a coherent one, or it is refused on a certain condition. -/
def Yields {α : Type} (x : Except Error (α × Registry e δ)) (refused : Prop) : Prop :=
  match x with
  | .ok (_, r) => r.Coherent
  | .error _ => refused

theorem coherent_empty : Coherent ({} : Registry e δ) where
  numbered := .empty
  byMbid := fun mbid i => by simp
  byName := fun name i => by simp [Relation.not_contains_empty]

@[simp]
theorem getElem?_indexMbid {o : Option Mbid} {i : EntityId e} {mbid : Mbid} :
    (r.indexMbid o i).byMbid[mbid]? = if o = some mbid then some i else r.byMbid[mbid]? := by
  cases o <;> simp [indexMbid, Std.ExtTreeMap.getElem?_insert]

@[simp]
theorem getElem?_unindexMbid {o : Option Mbid} {mbid : Mbid} :
    (r.unindexMbid o).byMbid[mbid]? = if o = some mbid then none else r.byMbid[mbid]? := by
  cases o <;> simp [unindexMbid, Std.ExtTreeMap.getElem?_erase]

@[simp]
theorem indexMbid_rows {o : Option Mbid} {i : EntityId e} :
    (r.indexMbid o i).rows = r.rows := by cases o <;> rfl

@[simp]
theorem indexMbid_byName {o : Option Mbid} {i : EntityId e} :
    (r.indexMbid o i).byName = r.byName := by cases o <;> rfl

@[simp]
theorem indexMbid_next {o : Option Mbid} {i : EntityId e} :
    (r.indexMbid o i).next = r.next := by cases o <;> rfl

@[simp]
theorem unindexMbid_rows {o : Option Mbid} : (r.unindexMbid o).rows = r.rows := by
  cases o <;> rfl

@[simp]
theorem unindexMbid_byName {o : Option Mbid} : (r.unindexMbid o).byName = r.byName := by
  cases o <;> rfl

@[simp]
theorem unindexMbid_next {o : Option Mbid} : (r.unindexMbid o).next = r.next := by
  cases o <;> rfl

theorem indexed_eq_indexed : r.indexed = State.indexed r.rows := by
  funext i
  simp only [indexed, find?, State.indexed]
  cases r.rows[i]? <;> rfl

theorem indexed_eq {i : EntityId e} {row : Named e δ} (h : r.rows[i]? = some row) :
    r.indexed i = .ok row := by
  simp [indexed, find?, h]

namespace Coherent

variable (h : r.Coherent)
include h

theorem findByMbid_cases (mbid : Mbid) :
    (∃ row, r.rows[row.id]? = some row ∧ row.mbid = some mbid ∧
      r.findByMbid mbid = .ok (some row)) ∨
    ((∀ (i : EntityId e) (row : Named e δ), r.rows[i]? = some row → row.mbid ≠ some mbid) ∧
      r.findByMbid mbid = .ok none) := by
  cases hi : r.byMbid[mbid]? with
  | none =>
      refine .inr ⟨fun i row hrow hmbid => ?_, by simp [findByMbid, hi]⟩
      have := (h.byMbid mbid i).mpr ⟨row, hrow, hmbid⟩
      simp [hi] at this
  | some i =>
      obtain ⟨row, hrow, hmbid⟩ := (h.byMbid mbid i).mp hi
      refine .inl ⟨row, by rwa [h.numbered.id_eq hrow], hmbid, ?_⟩
      simp [findByMbid, hi, indexed_eq hrow, Except.map]

theorem findByName_ok (name : String) :
    ∃ found, r.findByName name = .ok found ∧
      found.Pairwise (fun row other => row.id.number < other.id.number) ∧
      ∀ row, row ∈ found ↔ r.rows[row.id]? = some row ∧ row.name = name := by
  rw [findByName, indexed_eq_indexed]
  exact h.byName.mapM_image h.numbered.id_eq name

theorem eq_of_mbid {i j : EntityId e} {row other : Named e δ} {mbid : Mbid}
    (hi : r.rows[i]? = some row) (hj : r.rows[j]? = some other) (hrow : row.mbid = some mbid)
    (hother : other.mbid = some mbid) : i = j := by
  have first := (h.byMbid mbid i).mpr ⟨row, hi, hrow⟩
  have second := (h.byMbid mbid j).mpr ⟨other, hj, hother⟩
  exact Option.some.inj (first.symm.trans second)

theorem checkMbid_cases (mbid : Option Mbid) (isOwn : Named e δ → Bool) :
    (r.checkMbid mbid isOwn = .ok () ∧ ∀ (i : EntityId e) (row : Named e δ),
      r.rows[i]? = some row → row.mbid.isSome → row.mbid = mbid → isOwn row) ∨
    ∃ m row, mbid = some m ∧ r.rows[row.id]? = some row ∧ row.mbid = some m ∧
      isOwn row = false ∧ r.checkMbid mbid isOwn = .error (.conflict (.mbidTaken e m)) := by
  cases mbid with
  | none =>
      refine .inl ⟨by simp [checkMbid, pure, Except.pure], fun i row _ hsome hnone => ?_⟩
      simp [hnone] at hsome
  | some m =>
      rcases h.findByMbid_cases m with ⟨row, hrow, hm, hfind⟩ | ⟨hnone, hfind⟩
      · cases hown : isOwn row with
        | true =>
            refine .inl ⟨by simp [checkMbid, hfind, hown, bind, Except.bind, pure, Except.pure], ?_⟩
            intro i other hi _ hother
            have := h.eq_of_mbid hi hrow hother hm
            rw [this, hrow] at hi
            rwa [← Option.some.inj hi]
        | false =>
            refine .inr ⟨m, row, rfl, hrow, hm, hown, ?_⟩
            simp [checkMbid, hfind, hown, bind, Except.bind, throw, throwThe, MonadExceptOf.throw]
      · refine .inl ⟨by simp [checkMbid, hfind, bind, Except.bind, pure, Except.pure], ?_⟩
        exact fun i row hi _ hm => absurd hm (hnone i row hi)

end Coherent

def created (row : Named e δ) (r : Registry e δ) : Registry e δ :=
  { r.put row with
    next := r.next + 1
    byName := r.byName.insert row.name row.id }.indexMbid row.mbid row.id

def updated (previous row : Named e δ) (r : Registry e δ) : Registry e δ :=
  let r := if previous.mbid = row.mbid then r
    else (r.unindexMbid previous.mbid).indexMbid row.mbid row.id
  { r.put row with
    byName := if previous.name = row.name then r.byName
      else (r.byName.erase previous.name row.id).insert row.name row.id }

theorem create_eq (r : Registry e δ) (name : String) (mbid : Option Mbid) (detail : δ) :
    r.create name mbid detail = (r.checkMbid mbid fun _ => false).map fun () =>
      let row : Named e δ := ⟨⟨r.next⟩, name, mbid, detail⟩
      (row, r.created row) := by
  unfold create created
  cases r.checkMbid mbid fun _ => false <;> rfl

@[simp]
theorem created_rows (row : Named e δ) : (r.created row).rows = r.rows.insert row.id row := by
  simp [created, put]

theorem rows_of_create {name : String} {mbid : Option Mbid} {detail : δ} {row : Named e δ}
    {r' : Registry e δ} (h : r.create name mbid detail = .ok (row, r')) :
    r'.rows = r.rows.insert row.id row := by
  rw [create_eq] at h
  cases hcheck : r.checkMbid mbid fun _ => false with
  | error cause =>
      rw [hcheck] at h
      cases h
  | ok _ =>
      rw [hcheck] at h
      cases h
      exact created_rows _

@[simp]
theorem created_next (row : Named e δ) : (r.created row).next = r.next + 1 := by simp [created]

@[simp]
theorem created_byName (row : Named e δ) :
    (r.created row).byName = r.byName.insert row.name row.id := by simp [created]

@[simp]
theorem getElem?_created_byMbid (row : Named e δ) (mbid : Mbid) :
    (r.created row).byMbid[mbid]? = if row.mbid = some mbid then some row.id else r.byMbid[mbid]? := by
  simp [created, put]

@[simp]
theorem erase_rows (row : Named e δ) : (r.erase row).rows = r.rows.erase row.id := by
  simp [erase]

@[simp]
theorem erase_next (row : Named e δ) : (r.erase row).next = r.next := by simp [erase]

@[simp]
theorem updated_rows (previous row : Named e δ) :
    (r.updated previous row).rows = r.rows.insert row.id row := by
  by_cases h : previous.mbid = row.mbid <;> simp [updated, put, h]

@[simp]
theorem updated_next (previous row : Named e δ) : (r.updated previous row).next = r.next := by
  by_cases h : previous.mbid = row.mbid <;> simp [updated, put, h]

@[simp]
theorem updated_byName (previous row : Named e δ) :
    (r.updated previous row).byName = if previous.name = row.name then r.byName
      else (r.byName.erase previous.name row.id).insert row.name row.id := by
  by_cases h : previous.mbid = row.mbid <;> simp [updated, put, h]

@[simp]
theorem getElem?_updated_byMbid (previous row : Named e δ) (mbid : Mbid) :
    (r.updated previous row).byMbid[mbid]? =
      if previous.mbid = row.mbid then r.byMbid[mbid]?
      else if row.mbid = some mbid then some row.id
      else if previous.mbid = some mbid then none
      else r.byMbid[mbid]? := by
  by_cases h : previous.mbid = row.mbid <;> simp [updated, put, h]

namespace Coherent

variable (h : r.Coherent)
include h

theorem update_eq {previous row : Named e δ} (hrow : r.rows[row.id]? = some previous) :
    r.update row = (r.checkMbid row.mbid fun other => other.id = row.id).map fun () =>
      ((), r.updated previous row) := by
  have hindexed := indexed_eq hrow
  by_cases hmbid : previous.mbid = row.mbid
  · have free : (r.checkMbid row.mbid fun other => other.id = row.id) = .ok () := by
      rcases h.checkMbid_cases row.mbid fun other => other.id = row.id with
        ⟨hok, -⟩ | ⟨m, other, hm, hother, hsame, hown, -⟩
      · exact hok
      · have := h.eq_of_mbid hother hrow hsame (hmbid.trans hm)
        simp [this] at hown
    by_cases hname : previous.name = row.name <;>
      simp [update, updated, hindexed, hmbid, hname, free, bind, Except.bind, Except.map, pure,
        Except.pure, put]
  · cases hcheck : r.checkMbid row.mbid fun other => other.id = row.id <;>
      by_cases hname : previous.name = row.name <;>
        simp [update, updated, hindexed, hmbid, hname, hcheck, bind, Except.bind, Except.map, pure,
          Except.pure, put]

theorem rows_of_update {row : Named e δ} {a : Unit} {r' : Registry e δ}
    (hupdate : r.update row = .ok (a, r')) : r'.rows = r.rows.insert row.id row := by
  cases hrow : r.rows[row.id]? with
  | none => simp [update, indexed, find?, hrow, bind, Except.bind] at hupdate
  | some previous =>
      rw [h.update_eq hrow] at hupdate
      cases hcheck : r.checkMbid row.mbid fun other => other.id = row.id with
      | error cause =>
          rw [hcheck] at hupdate
          cases hupdate
      | ok _ =>
          rw [hcheck] at hupdate
          cases hupdate
          exact updated_rows _ _

theorem created {row : Named e δ} (hid : row.id = ⟨r.next⟩)
    (hfree : ∀ (i : EntityId e) (other : Named e δ), r.rows[i]? = some other →
      other.mbid.isSome → other.mbid ≠ row.mbid) : (r.created row).Coherent := by
  have fresh : r.rows[row.id]? = none := hid ▸ h.numbered.getElem?_next
  refine ⟨?_, ?_, ?_⟩
  · rw [created_rows, created_next, hid]
    exact h.numbered.insert_next hid
  · rw [created_rows]
    refine h.byMbid.insert (fun m => ?_) fun m j hj => ?_
    · have := h.byMbid.not_entry fresh m
      rw [getElem?_created_byMbid]
      grind
    · have other : row.mbid = some m → r.byMbid[m]? ≠ some j := fun hm hentry => by
        obtain ⟨other, hother, hmbid⟩ := (h.byMbid m j).mp hentry
        exact hfree j other hother (by simp [hmbid]) (hmbid.trans hm.symm)
      rw [getElem?_created_byMbid]
      grind
  · rw [created_rows, created_byName]
    refine h.byName.insert (fun name => ?_) fun name j hj => ?_
    · have := h.byName.not_entry fresh name
      rw [Relation.contains_insert]
      grind
    · simp [Relation.contains_insert, hj]

theorem updated {previous row : Named e δ} (hrow : r.rows[row.id]? = some previous)
    (hfree : ∀ (i : EntityId e) (other : Named e δ), r.rows[i]? = some other →
      other.mbid.isSome → other.mbid = row.mbid → other.id = row.id) :
    (r.updated previous row).Coherent := by
  refine ⟨?_, ?_, ?_⟩
  · simpa using h.numbered.replace hrow rfl
  · rw [updated_rows]
    have own (m : Mbid) := h.byMbid.iff_of_row hrow m
    refine h.byMbid.insert (fun m => ?_) fun m j hj => ?_
    · rw [getElem?_updated_byMbid]
      grind
    · have other : row.mbid = some m → r.byMbid[m]? ≠ some j := fun hm hentry => by
        obtain ⟨other, hother, hmbid⟩ := (h.byMbid m j).mp hentry
        have := hfree j other hother (by simp [hmbid]) (hmbid.trans hm.symm)
        exact hj ((h.numbered.id_eq hother).symm.trans this)
      rw [getElem?_updated_byMbid]
      grind
  · rw [updated_rows]
    have own (name : String) := h.byName.iff_of_row hrow name
    refine h.byName.insert (fun name => ?_) fun name j hj => ?_
    · rw [updated_byName]
      split
      · rename_i hname
        rw [own, hname]
      · rw [Relation.contains_insert, Relation.contains_erase, own]
        grind
    · rw [updated_byName]
      split
      · rfl
      · simp [Relation.contains_insert, Relation.contains_erase, hj]

theorem erase {row : Named e δ} (hrow : r.rows[row.id]? = some row) : (r.erase row).Coherent := by
  have rows (i : EntityId e) (other : Named e δ) :
      (r.erase row).rows[i]? = some other ↔ r.rows[i]? = some other ∧ i ≠ row.id := by
    rw [erase_rows, getElem?_erase_eq_some]
  refine ⟨?_, h.byMbid.restrict rows fun m j => ?_, h.byName.restrict rows fun name j => ?_⟩
  · rw [erase_next]
    exact h.numbered.of_subset fun i other hi => ((rows i other).mp hi).1
  · have own := h.byMbid.iff_of_row hrow m
    simp only [Registry.erase, getElem?_unindexMbid]
    grind
  · have own := h.byName.iff_of_row hrow name
    simp only [Registry.erase, unindexMbid_byName, Relation.contains_erase]
    grind

theorem create_yields (name : String) (mbid : Option Mbid) (detail : δ) :
    Yields (r.create name mbid detail)
      (∃ m other, mbid = some m ∧ r.findByMbid m = .ok (some other)) := by
  rw [create_eq]
  rcases h.checkMbid_cases mbid (fun _ => false) with
    ⟨hok, hfree⟩ | ⟨m, row, hm, hrow, hmbid, -, herror⟩
  · rw [hok]
    apply h.created rfl
    intro i other hi hsome hsame
    cases hfree i other hi hsome hsame
  · rw [herror]
    rcases h.findByMbid_cases m with ⟨other, -, -, hfind⟩ | ⟨hnone, -⟩
    · exact ⟨m, other, hm, hfind⟩
    · exact absurd hmbid (hnone _ row hrow)

/-- A changed row is refused only where it has no earlier form, or where its identifier is another
row's. -/
theorem update_yields (row : Named e δ) :
    Yields (r.update row) (∀ previous, r.rows[row.id]? = some previous →
      ∃ (m : Mbid) (other : Named e δ), row.mbid = some m ∧ r.rows[other.id]? = some other ∧
        other.mbid = some m ∧ other.id ≠ row.id) := by
  cases hrow : r.rows[row.id]? with
  | none =>
      have herror : r.update row = .error (missing row.id) := by
        simp [update, indexed, find?, hrow, bind, Except.bind]
      rw [herror]
      intro previous hprevious
      cases hprevious
  | some previous =>
      rw [h.update_eq hrow]
      rcases h.checkMbid_cases row.mbid (fun other => other.id = row.id) with
        ⟨hok, hfree⟩ | ⟨m, other, hm, hother, hmbid, hown, herror⟩
      · rw [hok]
        apply h.updated hrow
        intro i other hi hsome hsame
        simpa using hfree i other hi hsome hsame
      · rw [herror]
        exact fun _ _ => ⟨m, other, hm, hother, hmbid, by simpa using hown⟩

end Coherent

end AudioCatalog.Catalog.Registry
