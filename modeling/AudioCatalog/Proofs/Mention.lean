import AudioCatalog.Proofs.Registry
import Mathlib.Data.List.Induction

namespace AudioCatalog

variable {e : Entity} {δ : Type}

/-- What is said of an entity; a detail that is not given stays as it is. A mention without an
identifier that borrows may mean an entity that has one. -/
structure Mention (δ : Type) where
  name : String
  mbid : Option Mbid
  detail : Option δ
  borrows : Bool

def Mention.Fits (m : Mention δ) (row : Named e δ) : Prop :=
  match m.mbid with
  | some mbid => row.mbid = some mbid
  | none => row.name = m.name ∧ (m.borrows = true ∨ row.mbid = none)

namespace Named

theorem eq_of_fields {row other : Named e δ} (id : row.id = other.id) (name : row.name = other.name)
    (mbid : row.mbid = other.mbid) (detail : row.detail = other.detail) : row = other := by
  cases row
  cases other
  simp_all

def rewrite (row : Named e δ) (m : Mention δ) : Named e δ :=
  { row with name := m.name, detail := m.detail.getD row.detail }

/-- The last mention gives the name, and the last one that has a detail gives the detail. -/
def rewriteAll (row : Named e δ) (ms : List (Mention δ)) : Named e δ := ms.foldl rewrite row

variable {row : Named e δ} {m : Mention δ} {ms : List (Mention δ)}

@[simp]
theorem rewrite_id : (row.rewrite m).id = row.id := rfl

@[simp]
theorem rewrite_mbid : (row.rewrite m).mbid = row.mbid := rfl

theorem rewriteAll_append (ms' : List (Mention δ)) :
    row.rewriteAll (ms ++ ms') = (row.rewriteAll ms).rewriteAll ms' := by
  simp [rewriteAll]

@[simp]
theorem rewriteAll_id : (row.rewriteAll ms).id = row.id := by
  induction ms generalizing row with
  | nil => rfl
  | cons m ms ih => exact ih

@[simp]
theorem rewriteAll_mbid : (row.rewriteAll ms).mbid = row.mbid := by
  induction ms generalizing row with
  | nil => rfl
  | cons m ms ih => exact ih

theorem rewriteAll_name (h : ms ≠ []) (row other : Named e δ) :
    (row.rewriteAll ms).name = (other.rewriteAll ms).name := by
  induction ms using List.reverseRecOn with
  | nil => exact absurd rfl h
  | append_singleton ms m =>
      rw [rewriteAll_append, rewriteAll_append]
      rfl

theorem rewriteAll_detail :
    (row.rewriteAll ms).detail = ms.foldl (fun d m => m.detail.getD d) row.detail := by
  induction ms generalizing row with
  | nil => rfl
  | cons m ms ih => exact ih

theorem rewriteAll_rewriteAll : (row.rewriteAll ms).rewriteAll ms = row.rewriteAll ms := by
  apply eq_of_fields
  · simp
  · cases ms with
    | nil => rfl
    | cons m ms => exact rewriteAll_name (by simp) _ _
  · simp
  · rw [rewriteAll_detail, rewriteAll_detail]
    generalize row.detail = d
    induction ms using List.reverseRecOn with
    | nil => rfl
    | append_singleton ms m ih =>
        rw [List.foldl_append, List.foldl_append]
        cases hm : m.detail with
        | some d => simp [hm]
        | none => simpa [hm] using ih

end Named

namespace Mention

def made [Inhabited δ] (m : Mention δ) (number : Nat) : Named e δ :=
  Named.rewrite ⟨⟨number⟩, "", m.mbid, default⟩ m

variable {m : Mention δ} {row : Named e δ}

theorem fits_of_some {mbid : Mbid} (h : m.mbid = some mbid) :
    m.Fits row ↔ row.mbid = some mbid := by
  simp [Fits, h]

theorem fits_of_none (h : m.mbid = none) :
    m.Fits row ↔ row.name = m.name ∧ (m.borrows = true ∨ row.mbid = none) := by
  simp [Fits, h]

/-- The name counts only where no identifier decides. -/
theorem fits_congr {other : Named e δ} (hmbid : other.mbid = row.mbid)
    (hname : m.mbid = none → (m.borrows = true ∨ row.mbid = none) → other.name = row.name) :
    m.Fits other ↔ m.Fits row := by
  cases hm : m.mbid with
  | some mbid => rw [fits_of_some hm, fits_of_some hm, hmbid]
  | none =>
      rw [fits_of_none hm, fits_of_none hm, hmbid]
      exact and_congr_left fun free => by rw [hname hm free]

theorem Fits.name_eq (h : m.Fits row) (hk : row.mbid = none ∨ m.mbid = none) :
    row.name = m.name := by
  cases hm : m.mbid with
  | none => exact ((fits_of_none hm).mp h).1
  | some mbid =>
      have := (fits_of_some hm).mp h
      simp [this, hm] at hk

theorem Fits.rewrite (h : m.Fits row) : m.Fits (row.rewrite m) := by
  cases hm : m.mbid with
  | none => exact (fits_of_none hm).mpr ⟨rfl, ((fits_of_none hm).mp h).2⟩
  | some mbid => exact (fits_of_some hm).mpr (((fits_of_some hm).mp h : row.mbid = some mbid))

theorem fits_made [Inhabited δ] (number : Nat) : m.Fits (m.made number : Named e δ) := by
  cases hm : m.mbid with
  | none => exact (fits_of_none hm).mpr ⟨rfl, .inr hm⟩
  | some mbid => exact (fits_of_some hm).mpr hm

end Mention

namespace Catalog

namespace Registry

variable {r r' r'' : Registry e δ} {m : Mention δ} {row : Named e δ}

theorem eq_of_rows (h : r.Coherent) (h' : r'.Coherent)
    (hrows : ∀ i : EntityId e, r'.rows[i]? = r.rows[i]?) (hnext : r'.next = r.next) : r' = r := by
  have rows : r'.rows = r.rows := Std.ExtTreeMap.ext_getElem? hrows
  have byMbid : r'.byMbid = r.byMbid := by
    apply Std.ExtTreeMap.ext_getElem?
    intro mbid
    apply Option.ext
    intro i
    have hi := h.byMbid mbid i
    have hi' := h'.byMbid mbid i
    rw [rows] at hi'
    exact hi'.trans hi.symm
  have byName : r'.byName = r.byName := by
    apply Relation.ext
    intro name i
    have hi := h.byName name i
    have hi' := h'.byName name i
    rw [rows] at hi'
    exact hi'.trans hi.symm
  cases r
  cases r'
  simp_all

/-- What was said of the row of a number. -/
def saidOf (i : EntityId e) (l : List (Mention δ × Named e δ)) : List (Mention δ) :=
  (l.filter fun x => x.2.id = i).map Prod.fst

theorem saidOf_cons (i : EntityId e) (x : Mention δ × Named e δ)
    (l : List (Mention δ × Named e δ)) :
    saidOf i (x :: l) = (if x.2.id = i then [x.1] else []) ++ saidOf i l := by
  by_cases hx : x.2.id = i <;> simp [saidOf, hx]

theorem saidOf_concat (i : EntityId e) (x : Mention δ × Named e δ)
    (l : List (Mention δ × Named e δ)) :
    saidOf i (l ++ [x]) = saidOf i l ++ if x.2.id = i then [x.1] else [] := by
  by_cases hx : x.2.id = i <;> simp [saidOf, hx]

variable [Inhabited δ]

/-- How a registry takes in a mention, which is then about `row`. -/
inductive Records (r : Registry e δ) (m : Mention δ) : Named e δ → Registry e δ → Prop
  | known {row : Named e δ} (hrow : r.rows[row.id]? = some row) (fits : m.Fits row)
      (oldest : ∀ (i : EntityId e) (other : Named e δ), r.rows[i]? = some other → m.Fits other →
        row.id.number ≤ i.number) :
      Records r m (row.rewrite m) (r.updated row (row.rewrite m))
  | new (unfit : ∀ (i : EntityId e) (other : Named e δ), r.rows[i]? = some other →
        ¬ m.Fits other) : Records r m (m.made r.next) (r.created (m.made r.next))

namespace Records

variable (h : r.Records m row r')
include h

theorem coherent (hr : r.Coherent) : r'.Coherent := by
  cases h with
  | @known row hrow fits =>
      refine hr.updated hrow fun i other hi hsome hmbid => ?_
      obtain ⟨mbid, hother⟩ := Option.isSome_iff_exists.mp hsome
      have := hr.eq_of_mbid hi hrow hother (hmbid.symm.trans hother)
      rw [hr.numbered.id_eq hi, this]
      rfl
  | new unfit =>
      refine hr.created rfl fun i other hi hsome hmbid => unfit i other hi ?_
      obtain ⟨mbid, hother⟩ := Option.isSome_iff_exists.mp hsome
      have hm : m.mbid = some mbid := hmbid.symm.trans hother
      exact (Mention.fits_of_some hm).mpr hother

theorem rows_eq : r'.rows = r.rows.insert row.id row := by
  cases h with
  | known => exact updated_rows _ _
  | new => exact created_rows _

theorem row_there : r'.rows[row.id]? = some row := by
  rw [h.rows_eq]
  exact getElem?_insert_self

theorem getElem?_of_ne {i : EntityId e} (hne : i ≠ row.id) : r'.rows[i]? = r.rows[i]? := by
  rw [h.rows_eq]
  exact getElem?_insert_of_ne hne

theorem fits : m.Fits row := by
  cases h with
  | known _ fits => exact fits.rewrite
  | new => exact Mention.fits_made _

theorem name_eq : row.name = m.name := by
  cases h <;> rfl

theorem rewritten (hr : r.Coherent) {base : Named e δ} (hbase : r.rows[row.id]? = some base) :
    row = base.rewrite m ∧ m.Fits base ∧ r'.next = r.next := by
  cases h with
  | @known row hrow fits =>
      have hrow' : r.rows[row.id]? = some base := hbase
      rw [hrow] at hrow'
      cases hrow'
      exact ⟨rfl, fits, updated_next _ _⟩
  | new =>
      have : r.rows[(⟨r.next⟩ : EntityId e)]? = some base := hbase
      rw [hr.numbered.getElem?_next] at this
      cases this

theorem next_le : r.next ≤ r'.next := by
  cases h with
  | known => exact Nat.le_of_eq (updated_next _ _).symm
  | new =>
      rw [created_next]
      exact Nat.le_succ _

theorem le_of_absent (habsent : r.rows[row.id]? = none) :
    r.next ≤ row.id.number ∧ row = Named.rewrite ⟨row.id, "", m.mbid, default⟩ m := by
  cases h with
  | @known row hrow =>
      have : r.rows[row.id]? = none := habsent
      rw [hrow] at this
      cases this
  | new => exact ⟨Nat.le_refl _, rfl⟩

theorem id_le (hr : r.Coherent) : row.id.number ≤ r.next := by
  cases h with
  | known hrow => exact Nat.le_of_lt (hr.numbered.lt_next hrow)
  | new => exact Nat.le_refl _

theorem oldest {i : EntityId e} {other : Named e δ} (hi : r.rows[i]? = some other)
    (fits : m.Fits other) : row.id.number ≤ i.number := by
  cases h with
  | known _ _ oldest => exact oldest i other hi fits
  | new unfit => exact absurd fits (unfit i other hi)

end Records

inductive RecordsAll : Registry e δ → List (Mention δ × Named e δ) → Registry e δ → Prop
  | nil (r : Registry e δ) : RecordsAll r [] r
  | cons {r r₁ r' : Registry e δ} {m : Mention δ} {row : Named e δ}
      {l : List (Mention δ × Named e δ)} (h : r.Records m row r₁) (rest : RecordsAll r₁ l r') :
      RecordsAll r ((m, row) :: l) r'

namespace RecordsAll

variable {l l' : List (Mention δ × Named e δ)}

theorem append (h : RecordsAll r l r') (h' : RecordsAll r' l' r'') :
    RecordsAll r (l ++ l') r'' := by
  induction h with
  | nil => exact h'
  | cons h _ ih => exact .cons h (ih h')

theorem coherent (h : RecordsAll r l r') (hr : r.Coherent) : r'.Coherent := by
  induction h with
  | nil => exact hr
  | cons h _ ih => exact ih (h.coherent hr)

theorem row_rewritten (h : RecordsAll r l r') (hr : r.Coherent) {i : EntityId e}
    {base : Named e δ} (hbase : r.rows[i]? = some base) :
    r'.rows[i]? = some (base.rewriteAll (saidOf i l)) := by
  induction h generalizing base with
  | nil => exact hbase
  | @cons r r₁ r' m row l h rest ih =>
      rw [saidOf_cons]
      by_cases hi : row.id = i
      · subst hi
        obtain ⟨hrow, -, -⟩ := h.rewritten hr hbase
        rw [if_pos rfl, Named.rewriteAll_append]
        refine ih (h.coherent hr) ?_
        rw [h.row_there, hrow]
        rfl
      · rw [if_neg hi, List.nil_append]
        exact ih (h.coherent hr) (by rw [h.getElem?_of_ne fun he => hi he.symm, hbase])

theorem row_cases (h : RecordsAll r l r') (hr : r.Coherent) {i : EntityId e} {row : Named e δ}
    (hrow : r'.rows[i]? = some row) :
    ∃ base, row = base.rewriteAll (saidOf i l) ∧
      (r.rows[i]? = some base ∨ (r.rows[i]? = none ∧ r.next ≤ i.number)) := by
  cases hbase : r.rows[i]? with
  | some base =>
      refine ⟨base, ?_, .inl rfl⟩
      rw [h.row_rewritten hr hbase] at hrow
      exact (Option.some.inj hrow).symm
  | none =>
      suffices r.next ≤ i.number ∧ ∃ base : Named e δ, row = base.rewriteAll (saidOf i l) by
        obtain ⟨hle, base, hrow⟩ := this
        exact ⟨base, hrow, .inr ⟨rfl, hle⟩⟩
      induction h with
      | nil => simp [hbase] at hrow
      | @cons r r₁ r' m first l h rest ih =>
          rw [saidOf_cons]
          by_cases hi : first.id = i
          · subst hi
            obtain ⟨hle, hmade⟩ := h.le_of_absent hbase
            refine ⟨hle, ⟨first.id, "", m.mbid, default⟩, ?_⟩
            rw [if_pos rfl, Named.rewriteAll_append]
            have hlast := rest.row_rewritten (h.coherent hr) h.row_there
            rw [hlast, Option.some.injEq] at hrow
            rw [← hrow]
            exact congrArg (Named.rewriteAll · _) hmade
          · have absent : r₁.rows[i]? = none := by
              rw [h.getElem?_of_ne fun he => hi he.symm, hbase]
            obtain ⟨hle, base, hrow⟩ := ih (h.coherent hr) hrow absent
            rw [if_neg hi, List.nil_append]
            exact ⟨Nat.le_trans h.next_le hle, base, hrow⟩

theorem there (h : RecordsAll r l r') (hr : r.Coherent) {x : Mention δ × Named e δ} (hx : x ∈ l) :
    ∃ row, r'.rows[x.2.id]? = some row := by
  induction h with
  | nil => simp at hx
  | @cons r r₁ r' m first l h rest ih =>
      rcases List.mem_cons.mp hx with rfl | hx
      · exact ⟨_, rest.row_rewritten (h.coherent hr) h.row_there⟩
      · exact ih (h.coherent hr) hx

/-- A row keeps its name as long as it has no identifier, or no identifiers are mentioned. -/
theorem name_kept (h : RecordsAll r l r') (hr : r.Coherent) {i : EntityId e} {base : Named e δ}
    (hbase : r.rows[i]? = some base) (hk : base.mbid = none ∨ ∀ x ∈ l, x.1.mbid = none) :
    (base.rewriteAll (saidOf i l)).name = base.name := by
  induction h generalizing base with
  | nil => rfl
  | @cons r r₁ r' m first l h rest ih =>
      rw [saidOf_cons]
      by_cases hi : first.id = i
      · subst hi
        obtain ⟨hrow, fits, -⟩ := h.rewritten hr hbase
        rw [if_pos rfl, Named.rewriteAll_append]
        have hthere : r₁.rows[first.id]? = some (base.rewrite m) := by rw [h.row_there, hrow]
        have later := ih (h.coherent hr) hthere
          (hk.imp id fun untagged x hx => untagged x (by simp [hx]))
        refine later.trans (fits.name_eq (hk.imp id fun untagged => ?_)).symm
        exact untagged (m, first) (by simp)
      · rw [if_neg hi, List.nil_append]
        refine ih (h.coherent hr) ?_ (hk.imp id fun untagged x hx => untagged x (by simp [hx]))
        rw [h.getElem?_of_ne fun he => hi he.symm, hbase]

/-- A mention fits the row that it was about to the end, as long as no identifier is mentioned after
a mention that borrows. -/
theorem fits_kept {r₁ : Registry e δ} (hr : r.Coherent) (h : r.Records m row r₁)
    (rest : RecordsAll r₁ l r') (order : m.borrows = true → ∀ x ∈ l, x.1.mbid = none) :
    r'.rows[row.id]? = some (row.rewriteAll (saidOf row.id l)) ∧
      m.Fits (row.rewriteAll (saidOf row.id l)) := by
  refine ⟨rest.row_rewritten (h.coherent hr) h.row_there, ?_⟩
  refine (Mention.fits_congr Named.rewriteAll_mbid fun _ hfree => ?_).mpr h.fits
  exact rest.name_kept (h.coherent hr) h.row_there (hfree.symm.imp id order)

theorem fits_last (h : RecordsAll r l r') (hr : r.Coherent)
    (order : l.Pairwise fun x y => x.1.borrows = true → y.1.mbid = none) :
    ∀ x ∈ l, ∃ row, r'.rows[x.2.id]? = some row ∧ x.1.Fits row := by
  induction h with
  | nil => simp
  | @cons r r₁ r' m first l h rest ih =>
      rw [List.forall_mem_cons]
      refine ⟨⟨_, fits_kept hr h rest fun borrows y hy => ?_⟩,
        ih (h.coherent hr) (List.Pairwise.of_cons order)⟩
      exact List.rel_of_pairwise_cons order hy borrows

/-- In the midst of saying the same again: of each row only what has been said again is changed. -/
structure Repeated (r₁ : Registry e δ) (before : List (Mention δ × Named e δ))
    (r₂ : Registry e δ) : Prop where
  coherent : r₂.Coherent
  next : r₂.next = r₁.next
  rows : ∀ i : EntityId e, r₂.rows[i]? = r₁.rows[i]?.map (Named.rewriteAll · (saidOf i before))

theorem Repeated.step {r₁ r₂ r₃ : Registry e δ} {before : List (Mention δ × Named e δ)}
    {row' base : Named e δ} (repeated : Repeated r₁ before r₂) (hid : row'.id = row.id)
    (hbase : r₂.rows[row'.id]? = some base) (h : r₂.Records m row' r₃) :
    Repeated r₁ (before ++ [(m, row)]) r₃ := by
  obtain ⟨hrow', -, hnext⟩ := h.rewritten repeated.coherent hbase
  refine ⟨h.coherent repeated.coherent, hnext.trans repeated.next, fun i => ?_⟩
  rw [saidOf_concat]
  by_cases hi : row.id = i
  · have now := repeated.rows row'.id
    rw [hbase] at now
    obtain ⟨last, hlast, hrewritten⟩ := Option.map_eq_some_iff.mp now.symm
    rw [if_pos hi, ← hi, ← hid, h.row_there, hlast, Option.map_some, Named.rewriteAll_append,
      hrewritten]
    exact congrArg some hrow'
  · rw [if_neg hi, List.append_nil, ← repeated.rows]
    exact h.getElem?_of_ne fun he => hi (hid ▸ he.symm)

section Again

variable {r₀ r₁ r₂ : Registry e δ} {before after : List (Mention δ × Named e δ)}
  (hr : r.Coherent) (said : RecordsAll r before r₀) (rest : RecordsAll r₀ after r₁)
include hr said rest

/-- A name that is not changed any more by what is left to say is the one that was given last. -/
theorem name_settled {i : EntityId e} {row : Named e δ} (hrow : r₁.rows[i]? = some row)
    (hk : row.mbid = none ∨ ∀ x ∈ after, x.1.mbid = none) :
    (row.rewriteAll (saidOf i before)).name = row.name := by
  have hr₀ := said.coherent hr
  cases hat : r₀.rows[i]? with
  | none =>
      have : saidOf i before = [] := by
        rw [saidOf, List.map_eq_nil_iff, List.filter_eq_nil_iff]
        intro x hx hi
        obtain ⟨row', hrow'⟩ := said.there hr hx
        rw [of_decide_eq_true hi, hat] at hrow'
        cases hrow'
      rw [this]
      rfl
  | some row₀ =>
      obtain ⟨base, hbase, -⟩ := said.row_cases hr hat
      have hlast := rest.row_rewritten hr₀ hat
      rw [hrow, Option.some.injEq] at hlast
      have hmbid : row.mbid = row₀.mbid := by rw [hlast, Named.rewriteAll_mbid]
      have kept := rest.name_kept hr₀ hat (hmbid ▸ hk)
      by_cases hsaid : saidOf i before = []
      · rw [hsaid]
        rfl
      · calc (row.rewriteAll (saidOf i before)).name
          _ = (base.rewriteAll (saidOf i before)).name := Named.rewriteAll_name hsaid _ _
          _ = row₀.name := by rw [hbase]
          _ = row.name := by rw [hlast, kept]

end Again

end RecordsAll

namespace RecordsAll

variable {r₀ r₁ r₂ r₃ : Registry e δ} {row' : Named e δ}
  {before after l l' : List (Mention δ × Named e δ)}

theorem row_id_again (hr : r.Coherent) (said : RecordsAll r before r₀)
    (rest : RecordsAll r₀ ((m, row) :: after) r₁)
    (order : m.borrows = true → ∀ x ∈ (m, row) :: after, x.1.mbid = none)
    (again : Repeated r₁ before r₂) (h : r₂.Records m row' r₃) :
    row'.id = row.id ∧ ∃ base, r₂.rows[row'.id]? = some base := by
  have hr₀ := said.coherent hr
  obtain ⟨r', hm, later⟩ : ∃ r', r₀.Records m row r' ∧ RecordsAll r' after r₁ := by
    cases rest with
    | cons hm later => exact ⟨_, hm, later⟩
  have free {other : Named e δ} (hfree : m.borrows = true ∨ other.mbid = none) :
      other.mbid = none ∨ ∀ x ∈ (m, row) :: after, x.1.mbid = none := hfree.symm.imp id order
  -- Whether a row fits is the same now as at the end of the first time, and as it was back then.
  have fits_now {i : EntityId e} {other : Named e δ} (hi : r₁.rows[i]? = some other) :
      m.Fits (other.rewriteAll (saidOf i before)) ↔ m.Fits other :=
    Mention.fits_congr Named.rewriteAll_mbid fun _ hfree => name_settled hr said rest hi (free hfree)
  have fits_then {i : EntityId e} {other : Named e δ} (hi : r₀.rows[i]? = some other) :
      m.Fits (other.rewriteAll (saidOf i ((m, row) :: after))) ↔ m.Fits other :=
    Mention.fits_congr Named.rewriteAll_mbid fun _ hfree => rest.name_kept hr₀ hi (free hfree)
  obtain ⟨hlast, last_fits⟩ := fits_kept hr₀ hm later fun borrows x hx =>
    order borrows x (List.mem_cons_of_mem _ hx)
  have hbase : r₂.rows[row.id]? =
      some ((row.rewriteAll (saidOf row.id after)).rewriteAll (saidOf row.id before)) := by
    rw [again.rows, hlast]
    rfl
  have base_fits := (fits_now hlast).mpr last_fits
  cases h with
  | new unfit => exact absurd base_fits (unfit _ _ hbase)
  | @known found hfound fits oldest =>
      refine ⟨?_, found, hfound⟩
      have younger : found.id.number ≤ row.id.number := oldest _ _ hbase base_fits
      have older : row.id.number ≤ found.id.number := by
        rw [again.rows, Option.map_eq_some_iff] at hfound
        obtain ⟨last, hat, hlast⟩ := hfound
        have last_fits := (fits_now hat).mp (by rw [hlast]; exact fits)
        obtain ⟨first, rfl, hfirst | ⟨-, hnew⟩⟩ := rest.row_cases hr₀ hat
        · exact hm.oldest hfirst ((fits_then hfirst).mp last_fits)
        · exact Nat.le_trans (hm.id_le hr₀) hnew
      exact congrArg EntityId.mk (Nat.le_antisymm younger older)

theorem again_of_repeated (hr : r.Coherent) (said : RecordsAll r before r₀)
    (rest : RecordsAll r₀ after r₁)
    (order : after.Pairwise fun x y => x.1.borrows = true → y.1.mbid = none)
    (main : ∀ x ∈ after, x.1.borrows = true → x.1.mbid = none)
    (repeated : Repeated r₁ before r₂) (h : RecordsAll r₂ l r₃)
    (same : l.map Prod.fst = after.map Prod.fst) :
    Repeated r₁ (before ++ after) r₃ ∧ l.map (·.2.id) = after.map (·.2.id) := by
  induction after generalizing r₀ r₂ before l with
  | nil =>
      obtain rfl : l = [] := by simpa using same
      cases h
      exact ⟨by simpa using repeated, rfl⟩
  | cons x after ih =>
      obtain ⟨m, row⟩ := x
      cases h with
      | nil => simp at same
      | @cons _ r' _ m' row' l h later =>
          obtain ⟨rfl, same'⟩ : m' = m ∧ l.map Prod.fst = after.map Prod.fst := by simpa using same
          have untagged (borrows : m'.borrows = true) : ∀ y ∈ (m', row) :: after, y.1.mbid = none := by
            rw [List.forall_mem_cons]
            exact ⟨main _ (by simp) borrows,
              fun y hy => List.rel_of_pairwise_cons order hy borrows⟩
          obtain ⟨hid, base, hbase⟩ := row_id_again hr said rest untagged repeated h
          have advanced := repeated.step hid hbase h
          cases rest with
          | cons hm rest =>
              have said' := said.append (.cons hm (.nil _))
              obtain ⟨done, ids⟩ := ih said' rest (List.Pairwise.of_cons order)
                (fun y hy => main y (by simp [hy])) advanced later same'
              exact ⟨by simpa using done, by simp [hid, ids]⟩

/-- Saying the same again is about the same rows and changes nothing, as long as nothing with an
identifier is said after what borrows. -/
theorem again (hr : r.Coherent) (h : RecordsAll r l r₁) (h' : RecordsAll r₁ l' r₂)
    (same : l'.map Prod.fst = l.map Prod.fst)
    (order : l.Pairwise fun x y => x.1.borrows = true → y.1.mbid = none)
    (main : ∀ x ∈ l, x.1.borrows = true → x.1.mbid = none) :
    r₂ = r₁ ∧ l'.map (·.2.id) = l.map (·.2.id) := by
  have hr₁ := h.coherent hr
  have start : Repeated r₁ [] r₁ := ⟨hr₁, rfl, fun i => by simp [saidOf, Named.rewriteAll]⟩
  obtain ⟨repeated, ids⟩ := again_of_repeated hr (.nil r) h order main start h' same
  refine ⟨eq_of_rows hr₁ repeated.coherent (fun i => ?_) repeated.next, ids⟩
  rw [repeated.rows, List.nil_append]
  cases hrow : r₁.rows[i]? with
  | none => rfl
  | some row =>
      obtain ⟨base, rfl, -⟩ := h.row_cases hr hrow
      rw [Option.map_some, Named.rewriteAll_rewriteAll]

omit [Inhabited δ] in
theorem pairwise_of_strict (strict : ∀ x ∈ l, x.1.borrows = false) :
    l.Pairwise fun x y => x.1.borrows = true → y.1.mbid = none :=
  List.pairwise_of_forall_mem_list fun x hx _ _ hborrows => by simp [strict x hx] at hborrows

theorem again_of_strict (hr : r.Coherent) (h : RecordsAll r l r₁) (h' : RecordsAll r₁ l' r₂)
    (same : l'.map Prod.fst = l.map Prod.fst) (strict : ∀ x ∈ l, x.1.borrows = false) :
    r₂ = r₁ ∧ l'.map (·.2.id) = l.map (·.2.id) :=
  h.again hr h' same (pairwise_of_strict strict) fun x hx hborrows => by
    simp [strict x hx] at hborrows

end RecordsAll

end Registry

end Catalog

end AudioCatalog
