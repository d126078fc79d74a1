import Std.Data.ExtTreeMap
import Std.Data.ExtTreeSet

namespace AudioCatalog

abbrev Table (α β : Type) [Ord α] := Std.ExtTreeMap α β compare

abbrev OrderedSet (α : Type) [Ord α] := Std.ExtTreeSet α compare

/-- A finite set of pairs; the second parts that belong to a first part come in order. -/
structure Relation (α β : Type) [Ord α] [Ord β] [Std.TransOrd α] [Std.TransOrd β] where
  images : Table α (OrderedSet β)
  images_ne_empty : ∀ (a : α) (s : OrderedSet β), images[a]? = some s → s ≠ ∅

namespace Relation

variable {α β : Type} [Ord α] [Ord β] [Std.TransOrd α] [Std.TransOrd β]

def empty : Relation α β := ⟨∅, by simp⟩

instance : EmptyCollection (Relation α β) := ⟨empty⟩

instance : Inhabited (Relation α β) := ⟨empty⟩

instance [DecidableEq α] [DecidableEq β] [Std.LawfulEqOrd α] [Std.LawfulEqOrd β] :
    DecidableEq (Relation α β) := fun r s =>
  decidable_of_iff (r.images = s.images) ⟨fun h => by cases r; cases s; simpa using h, congrArg _⟩

def image (r : Relation α β) (a : α) : List β :=
  match r.images[a]? with
  | some s => s.toList
  | none => []

def contains (r : Relation α β) (a : α) (b : β) : Prop := b ∈ r.image a

def isEmptyAt (r : Relation α β) (a : α) : Bool := !r.images.contains a

def grow (b : β) : Option (OrderedSet β) → Option (OrderedSet β)
  | some s => some (s.insert b)
  | none => some (Std.ExtTreeSet.empty.insert b)

def shrink (b : β) : Option (OrderedSet β) → Option (OrderedSet β)
  | some s => if (s.erase b).isEmpty then none else some (s.erase b)
  | none => none

theorem ne_empty_of_grow {b : β} {o : Option (OrderedSet β)} {s : OrderedSet β}
    (h : grow b o = some s) : s ≠ ∅ := by
  rintro rfl
  have : b ∈ (∅ : OrderedSet β) := by
    cases o with
    | none => simp only [grow, Option.some.injEq] at h; rw [← h]; simp
    | some t => simp only [grow, Option.some.injEq] at h; rw [← h]; simp
  simp at this

theorem ne_empty_of_shrink {b : β} {o : Option (OrderedSet β)} {s : OrderedSet β}
    (h : shrink b o = some s) : s ≠ ∅ := by
  cases o with
  | none => simp [shrink] at h
  | some t =>
      simp only [shrink, Option.ite_none_left_eq_some, Option.some.injEq] at h
      obtain ⟨hne, rfl⟩ := h
      simpa [Std.ExtTreeSet.isEmpty_iff] using hne

def insert (r : Relation α β) (a : α) (b : β) : Relation α β where
  images := r.images.alter a (grow b)
  images_ne_empty := by
    intro c s h
    rw [Std.ExtTreeMap.getElem?_alter] at h
    split at h
    · exact ne_empty_of_grow h
    · exact r.images_ne_empty c s h

def erase (r : Relation α β) (a : α) (b : β) : Relation α β where
  images := r.images.alter a (shrink b)
  images_ne_empty := by
    intro c s h
    rw [Std.ExtTreeMap.getElem?_alter] at h
    split at h
    · exact ne_empty_of_shrink h
    · exact r.images_ne_empty c s h

def eraseAll (r : Relation α β) (a : α) : Relation α β where
  images := r.images.erase a
  images_ne_empty := by
    intro c s h
    rw [Std.ExtTreeMap.getElem?_erase] at h
    split at h
    · cases h
    · exact r.images_ne_empty c s h

variable [Std.LawfulEqOrd β]

theorem exists_mem_of_ne_empty {s : OrderedSet β} (h : s ≠ ∅) : ∃ b, b ∈ s :=
  Classical.byContradiction fun none =>
    h (Std.ExtTreeSet.ext_mem fun b => iff_of_false (fun hb => none ⟨b, hb⟩) (by simp))

theorem contains_iff {r : Relation α β} {a : α} {b : β} :
    r.contains a b ↔ ∃ s, r.images[a]? = some s ∧ b ∈ s := by
  unfold contains image
  split <;> rename_i h
  · simp [h, Std.ExtTreeSet.mem_toList]
  · simp [h]

theorem not_contains_empty {a : α} {b : β} : ¬ (∅ : Relation α β).contains a b := by
  rw [contains_iff]
  rintro ⟨s, hs, -⟩
  have : (∅ : Table α (OrderedSet β))[a]? = some s := hs
  simp at this

variable [Std.LawfulEqOrd α]

theorem contains_insert {r : Relation α β} {a c : α} {b d : β} :
    (r.insert a b).contains c d ↔ (c = a ∧ d = b) ∨ r.contains c d := by
  simp only [contains_iff, insert, Std.ExtTreeMap.getElem?_alter, Std.compare_eq_iff_eq]
  by_cases h : a = c
  · subst h
    cases hr : r.images[a]? with
    | none => simp [grow, @eq_comm _ d b]
    | some s => simp [grow, @eq_comm _ d b]
  · have : ¬ c = a := fun e => h e.symm
    simp [h, this]

theorem contains_erase {r : Relation α β} {a c : α} {b d : β} :
    (r.erase a b).contains c d ↔ ¬ (c = a ∧ d = b) ∧ r.contains c d := by
  simp only [contains_iff, erase, Std.ExtTreeMap.getElem?_alter, Std.compare_eq_iff_eq]
  by_cases h : a = c
  · subst h
    cases hr : r.images[a]? with
    | none => simp [shrink]
    | some s =>
        by_cases he : (s.erase b).isEmpty
        · have hs : ∀ x, x ∈ s.erase b ↔ x ∈ (∅ : OrderedSet β) := by
            intro x; rw [Std.ExtTreeSet.isEmpty_iff.mp he]
          have := hs d
          simp only [Std.ExtTreeSet.mem_erase] at this
          simp only [shrink, he, if_true]
          grind
        · simp only [shrink, he]
          grind
  · have : ¬ c = a := fun e => h e.symm
    simp [h, this]

theorem contains_eraseAll {r : Relation α β} {a c : α} {d : β} :
    (r.eraseAll a).contains c d ↔ c ≠ a ∧ r.contains c d := by
  simp only [contains_iff, eraseAll, Std.ExtTreeMap.getElem?_erase, Std.compare_eq_iff_eq]
  by_cases h : a = c
  · simp [h]
  · have : ¬ c = a := fun e => h e.symm
    simp [h, this]

theorem ext {r s : Relation α β} (h : ∀ a b, r.contains a b ↔ s.contains a b) : r = s := by
  have images : r.images = s.images := by
    apply Std.ExtTreeMap.ext_getElem?
    intro a
    cases hr : r.images[a]? with
    | none =>
        cases hs : s.images[a]? with
        | none => rfl
        | some t =>
            obtain ⟨b, hb⟩ := exists_mem_of_ne_empty (s.images_ne_empty a t hs)
            have := (h a b).mpr (contains_iff.mpr ⟨t, hs, hb⟩)
            rw [contains_iff, hr] at this
            simp at this
    | some t =>
        cases hs : s.images[a]? with
        | none =>
            obtain ⟨b, hb⟩ := exists_mem_of_ne_empty (r.images_ne_empty a t hr)
            have := (h a b).mp (contains_iff.mpr ⟨t, hr, hb⟩)
            rw [contains_iff, hs] at this
            simp at this
        | some u =>
            congr 1
            apply Std.ExtTreeSet.ext_mem
            intro b
            have := h a b
            rw [contains_iff, contains_iff, hr, hs] at this
            simpa using this
  cases r; cases s
  simpa using images

end Relation

end AudioCatalog
