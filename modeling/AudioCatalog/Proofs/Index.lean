import AudioCatalog.Catalog.Query
import Mathlib.Tactic.SplitIfs
import Mathlib.Tactic.Tauto

namespace AudioCatalog.Catalog

variable {e : Entity} {ρ α : Type}

/-- Every row is stored under its own number, and the next number is above them all. -/
structure Numbered (rows : Table (EntityId e) ρ) (id : ρ → EntityId e) (next : Nat) : Prop where
  id_eq : ∀ {i : EntityId e} {row : ρ}, rows[i]? = some row → id row = i
  lt_next : ∀ {i : EntityId e} {row : ρ}, rows[i]? = some row → i.number < next

namespace Numbered

variable {rows : Table (EntityId e) ρ} {id : ρ → EntityId e} {next : Nat}

theorem empty : Numbered (∅ : Table (EntityId e) ρ) id next := ⟨by simp, by simp⟩

theorem getElem?_next (h : Numbered rows id next) : rows[(⟨next⟩ : EntityId e)]? = none := by
  cases hrow : rows[(⟨next⟩ : EntityId e)]? with
  | none => rfl
  | some row => exact absurd (h.lt_next hrow) (Nat.lt_irrefl _)

theorem insert (h : Numbered rows id next) {i : EntityId e} {row : ρ} (hid : id row = i)
    {next' : Nat} (hle : next ≤ next') (hlt : i.number < next') :
    Numbered (rows.insert i row) id next' where
  id_eq := by
    intro j row' hj
    rw [Std.ExtTreeMap.getElem?_insert] at hj
    split at hj
    · rename_i he
      rw [← Option.some.inj hj, hid, Std.LawfulEqOrd.eq_of_compare he]
    · exact h.id_eq hj
  lt_next := by
    intro j row' hj
    rw [Std.ExtTreeMap.getElem?_insert] at hj
    split at hj
    · rename_i he
      rwa [← Std.LawfulEqOrd.eq_of_compare he]
    · exact Nat.lt_of_lt_of_le (h.lt_next hj) hle

theorem insert_next (h : Numbered rows id next) {row : ρ} (hid : id row = ⟨next⟩) :
    Numbered (rows.insert ⟨next⟩ row) id (next + 1) :=
  h.insert hid (Nat.le_succ next) (Nat.lt_succ_self next)

theorem replace (h : Numbered rows id next) {i : EntityId e} {previous row : ρ}
    (hi : rows[i]? = some previous) (hid : id row = i) : Numbered (rows.insert i row) id next :=
  h.insert hid (Nat.le_refl next) (h.lt_next hi)

theorem of_subset (h : Numbered rows id next) {rows' : Table (EntityId e) ρ}
    (hrows : ∀ (i : EntityId e) (row : ρ), rows'[i]? = some row → rows[i]? = some row) :
    Numbered rows' id next :=
  ⟨fun hi => h.id_eq (hrows _ _ hi), fun hi => h.lt_next (hrows _ _ hi)⟩

end Numbered

/-- The index holds a pair exactly where the row of the number mentions the first part. -/
def Matches (entry : α → EntityId e → Prop) (rows : Table (EntityId e) ρ)
    (mentions : ρ → α → Prop) : Prop :=
  ∀ a i, entry a i ↔ ∃ row, rows[i]? = some row ∧ mentions row a

theorem getElem?_insert_self {rows : Table (EntityId e) ρ} {i : EntityId e} {row : ρ} :
    (rows.insert i row)[i]? = some row := Std.ExtTreeMap.getElem?_insert_self

theorem getElem?_insert_of_ne {rows : Table (EntityId e) ρ} {i j : EntityId e} {row : ρ}
    (h : j ≠ i) : (rows.insert i row)[j]? = rows[j]? := by
  rw [Std.ExtTreeMap.getElem?_insert, if_neg]
  exact fun he => h (Std.LawfulEqOrd.eq_of_compare he).symm

theorem getElem?_erase_of_ne {rows : Table (EntityId e) ρ} {i j : EntityId e} (h : j ≠ i) :
    (rows.erase i)[j]? = rows[j]? := by
  rw [Std.ExtTreeMap.getElem?_erase, if_neg]
  exact fun he => h (Std.LawfulEqOrd.eq_of_compare he).symm

theorem getElem?_erase_eq_some {rows : Table (EntityId e) ρ} {i j : EntityId e} {row : ρ} :
    (rows.erase i)[j]? = some row ↔ rows[j]? = some row ∧ j ≠ i := by
  rw [Std.ExtTreeMap.getElem?_erase]
  split_ifs with h
  · simp [Std.LawfulEqOrd.eq_of_compare h]
  · have : j ≠ i := fun he => h (by rw [he]; exact Std.compare_self)
    simp [this]

namespace Matches

variable {entry entry' : α → EntityId e → Prop} {rows : Table (EntityId e) ρ}
  {mentions : ρ → α → Prop} {i : EntityId e} {row : ρ}

theorem iff_of_row (h : Matches entry rows mentions) (hi : rows[i]? = some row) (a : α) :
    entry a i ↔ mentions row a := by
  rw [h, hi]
  simp

theorem not_entry (h : Matches entry rows mentions) (hi : rows[i]? = none) (a : α) :
    ¬ entry a i := by
  rw [h, hi]
  simp

/-- Writing a row asks for the pairs that it mentions and for no other change. -/
theorem insert (h : Matches entry rows mentions)
    (hi : ∀ a, entry' a i ↔ mentions row a) (hother : ∀ a j, j ≠ i → (entry' a j ↔ entry a j)) :
    Matches entry' (rows.insert i row) mentions := by
  intro a j
  rw [Std.ExtTreeMap.getElem?_insert]
  split
  · rename_i he
    rw [← Std.LawfulEqOrd.eq_of_compare he, hi]
    simp
  · rename_i he
    rw [hother a j fun e => he (by rw [e]; exact Std.compare_self), h]

/-- Where some rows are taken away, their pairs have to go, and no others. -/
theorem restrict (h : Matches entry rows mentions) {rows' : Table (EntityId e) ρ}
    {kept : EntityId e → Prop}
    (hrows : ∀ (i : EntityId e) (row : ρ), rows'[i]? = some row ↔ rows[i]? = some row ∧ kept i)
    (hentry : ∀ a i, entry' a i ↔ entry a i ∧ kept i) : Matches entry' rows' mentions := by
  intro a i
  rw [hentry, h]
  simp only [hrows]
  tauto

end Matches

theorem image_pairwise {β : Type} [Ord α] [Ord β] [Std.TransOrd α] [Std.TransOrd β]
    (r : Relation α β) (a : α) : (r.image a).Pairwise fun b c => compare b c = .lt := by
  unfold Relation.image
  split
  · exact Std.ExtTreeSet.ordered_toList
  · exact .nil

theorem mapM_eq_ok {find : EntityId e → Except Error ρ} {id : ρ → EntityId e}
    {ids : List (EntityId e)} (h : ∀ i ∈ ids, ∃ row, find i = .ok row ∧ id row = i) :
    ∃ found, ids.mapM find = .ok found ∧ found.map id = ids ∧
      ∀ row ∈ found, find (id row) = .ok row := by
  induction ids with
  | nil => exact ⟨[], rfl, rfl, by simp⟩
  | cons i ids ih =>
      obtain ⟨row, hrow, hid⟩ := h i (by simp)
      obtain ⟨found, hfound, hids, hrows⟩ := ih fun j hj => h j (by simp [hj])
      refine ⟨row :: found, ?_, by simp [hid, hids], ?_⟩
      · rw [List.mapM_cons, hrow, hfound]
        rfl
      · intro other hother
        rcases List.mem_cons.mp hother with rfl | hother
        · rw [hid, hrow]
        · exact hrows other hother

theorem Matches.mapM_image {α : Type} [Ord α] [Std.TransOrd α] {r : Relation α (EntityId e)}
    {rows : Table (EntityId e) ρ} {mentions : ρ → α → Prop} {id : ρ → EntityId e}
    (h : Matches r.contains rows mentions)
    (hid : ∀ {i : EntityId e} {row : ρ}, rows[i]? = some row → id row = i) (a : α) :
    ∃ found, (r.image a).mapM (State.indexed rows) = .ok found ∧
      found.Pairwise (fun b c => (id b).number < (id c).number) ∧
      ∀ row, row ∈ found ↔ rows[id row]? = some row ∧ mentions row a := by
  have indexed_iff (i : EntityId e) (row : ρ) :
      State.indexed rows i = .ok row ↔ rows[i]? = some row := by
    unfold State.indexed
    cases rows[i]? <;> simp
  have here (i : EntityId e) (hi : i ∈ r.image a) :
      ∃ row, State.indexed rows i = .ok row ∧ id row = i := by
    obtain ⟨row, hrow, -⟩ := (h a i).mp hi
    exact ⟨row, (indexed_iff i row).mpr hrow, hid hrow⟩
  obtain ⟨found, hfound, hids, hrows⟩ := mapM_eq_ok here
  refine ⟨found, hfound, ?_, fun row => ⟨fun hrow => ?_, fun ⟨hrow, hmentions⟩ => ?_⟩⟩
  · have ordered := image_pairwise r a
    rw [← hids, List.pairwise_map] at ordered
    exact ordered.imp fun hlt => Nat.compare_eq_lt.mp hlt
  · have hi : id row ∈ r.image a := by rw [← hids]; exact List.mem_map_of_mem hrow
    have hat := (indexed_iff _ _).mp (hrows row hrow)
    exact ⟨hat, (h.iff_of_row hat a).mp hi⟩
  · have hi : id row ∈ r.image a := (h.iff_of_row hrow a).mpr hmentions
    rw [← hids] at hi
    obtain ⟨other, hother, hsame⟩ := List.mem_map.mp hi
    have hat := (indexed_iff _ _).mp (hrows other hother)
    rw [hsame, hrow] at hat
    exact Option.some.inj hat ▸ hother

end AudioCatalog.Catalog
