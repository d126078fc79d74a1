import AudioCatalog.Catalog.Relation

namespace AudioCatalog

class Archived (α : Type) where
  write : α → List Nat
  read? : List Nat → Option (α × List Nat)
  read?_write : ∀ (a : α) (rest : List Nat), read? (write a ++ rest) = some (a, rest)

namespace Archived

variable {α β : Type}

@[reducible] def via [Archived β] (f : α → β) (g : β → Option α) (h : ∀ a, g (f a) = some a) :
    Archived α where
  write a := write (f a)
  read? ns := do
    let (b, ns) ← read? ns
    return (← g b, ns)
  read?_write a rest := by simp [read?_write, h]

def readNat? : List Nat → Option (Nat × List Nat)
  | [] => none
  | n :: ns => some (n, ns)

instance : Archived Nat where
  write n := [n]
  read? := readNat?
  read?_write _ _ := rfl

instance : Archived Unit where
  write _ := []
  read? ns := some ((), ns)
  read?_write _ _ := rfl

instance [Archived α] [Archived β] : Archived (α × β) where
  write p := write p.1 ++ write p.2
  read? ns := do
    let (a, ns) ← read? ns
    let (b, ns) ← read? ns
    return ((a, b), ns)
  read?_write p rest := by simp [read?_write]

def readOption? [Archived α] : List Nat → Option (Option α × List Nat)
  | [] => none
  | 0 :: ns => some (none, ns)
  | _ :: ns => do
    let (a, ns) ← read? ns
    return (some a, ns)

instance [Archived α] : Archived (Option α) where
  write
    | none => [0]
    | some a => 1 :: write a
  read? := readOption?
  read?_write
    | none, _ => rfl
    | some a, rest => by simp [readOption?, read?_write]

def readMany? [Archived α] : Nat → List Nat → Option (List α × List Nat)
  | 0, ns => some ([], ns)
  | count + 1, ns => do
    let (a, ns) ← read? ns
    let (as, ns) ← readMany? count ns
    return (a :: as, ns)

theorem readMany?_flatMap_write [Archived α] (as : List α) (rest : List Nat) :
    readMany? as.length (as.flatMap write ++ rest) = some (as, rest) := by
  induction as with
  | nil => rfl
  | cons a as ih => simp [readMany?, read?_write, ih]

instance [Archived α] : Archived (List α) where
  write as := as.length :: as.flatMap write
  read?
    | [] => none
    | count :: ns => readMany? count ns
  read?_write := readMany?_flatMap_write

instance : Archived Bool := via Bool.toNat (fun n => some (n != 0)) (by decide)

instance : Archived Int :=
  via (fun i => (i.toNat, (-i).toNat)) (fun p => some (p.1 - p.2))
    fun i => congrArg some (Int.toNat_sub_toNat_neg i)

instance : Archived UInt8 := via UInt8.toNat (fun n => some (.ofNat n)) (by simp)

instance : Archived UInt32 := via UInt32.toNat (fun n => some (.ofNat n)) (by simp)

instance : Archived Char := via Char.toNat (fun n => some (.ofNat n)) (by simp)

instance : Archived String := via String.toList (fun cs => some (.ofList cs)) (by simp)

variable [Ord α] [Std.TransOrd α] [Std.LawfulEqOrd α]

theorem ofList_toList_set (s : OrderedSet α) : Std.ExtTreeSet.ofList s.toList compare = s := by
  classical
  have : Std.LawfulBEqCmp (compare : α → α → Ordering) := ⟨by simp⟩
  apply Std.ExtTreeSet.ext_mem
  intro a
  simp [Std.ExtTreeSet.mem_ofList]

instance [Archived α] : Archived (OrderedSet α) :=
  via Std.ExtTreeSet.toList (fun as => some (.ofList as compare))
    fun s => congrArg some (ofList_toList_set s)

theorem ofList_toList_table (t : Table α β) : Std.ExtTreeMap.ofList t.toList compare = t := by
  apply Std.ExtTreeMap.ext_getElem?
  intro a
  cases h : t[a]? with
  | some b =>
      exact Std.ExtTreeMap.getElem?_ofList_of_mem Std.ReflCmp.compare_self
        Std.ExtTreeMap.distinct_keys_toList
        (Std.ExtTreeMap.mem_toList_iff_getElem?_eq_some.mpr h)
  | none =>
      classical
      have : Std.LawfulBEqCmp (compare : α → α → Ordering) := ⟨by simp⟩
      apply Std.ExtTreeMap.getElem?_ofList_of_contains_eq_false
      rw [Std.ExtTreeMap.map_fst_toList_eq_keys]
      simpa using h

instance [Archived α] [Archived β] : Archived (Table α β) :=
  via Std.ExtTreeMap.toList (fun entries => some (.ofList entries compare))
    fun t => congrArg some (ofList_toList_table t)

variable [Ord β] [Std.TransOrd β]

def relationOf (images : Table α (OrderedSet β)) : Relation α β where
  images := images.filter fun _ s => !s.isEmpty
  images_ne_empty := by
    intro a s h hs
    subst hs
    simp [Std.ExtTreeMap.getElem?_filter] at h

theorem relationOf_images (r : Relation α β) : relationOf r.images = r := by
  have images : (relationOf r.images).images = r.images := by
    apply Std.ExtTreeMap.ext_getElem?
    intro a
    cases h : r.images[a]? with
    | none => simp [relationOf, Std.ExtTreeMap.getElem?_filter, h]
    | some s =>
        have := r.images_ne_empty a s h
        simp [relationOf, Std.ExtTreeMap.getElem?_filter, h, this]
  cases r
  simpa [relationOf] using images

instance [Std.LawfulEqOrd β] [Archived α] [Archived β] : Archived (Relation α β) :=
  via Relation.images (fun images => some (relationOf images))
    fun r => congrArg some (relationOf_images r)

end Archived

end AudioCatalog
