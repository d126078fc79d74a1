import AudioCatalog.Proofs.EntityRemoval
import AudioCatalog.Proofs.Resolution

namespace AudioCatalog

namespace Relation

variable {α : Type} [Ord α] [Std.TransOrd α] {e : Entity} {r r' : Relation α (EntityId e)} {a : α}

theorem isEmptyAt_iff : r.isEmptyAt a = true ↔ r.image a = [] := by
  refine ⟨image_eq_nil, fun himage => ?_⟩
  rw [isEmptyAt, Bool.not_eq_true', Std.ExtTreeMap.contains_eq_isSome_getElem?,
    Option.isSome_eq_false_iff, Option.isNone_iff_eq_none]
  cases hset : r.images[a]? with
  | none => rfl
  | some members =>
      obtain ⟨i, hi⟩ := exists_mem_of_ne_empty (r.images_ne_empty a members hset)
      have : r.contains a i := contains_iff.mpr ⟨members, hset, hi⟩
      rw [contains, himage] at this
      cases this

theorem image_eq_map {f : EntityId e → EntityId e}
    (increasing : ∀ i j, i.number < j.number → (f i).number < (f j).number)
    (h : ∀ j, r'.contains a j ↔ ∃ i, r.contains a i ∧ f i = j) : r'.image a = (r.image a).map f := by
  let lower (i j : EntityId e) : Prop := i.number < j.number
  have : Std.Antisymm lower := ⟨fun _ _ h h' => absurd h (Nat.lt_asymm h')⟩
  have : Std.Irrefl lower := ⟨fun _ => Nat.lt_irrefl _⟩
  have ordered (r : Relation α (EntityId e)) : (r.image a).Pairwise lower :=
    (Catalog.image_pairwise r a).imp fun hlt => Nat.compare_eq_lt.mp hlt
  apply (ordered r').eq_of_mem_iff ((ordered r).map f increasing)
  intro j
  rw [List.mem_map]
  exact h j

end Relation

namespace Catalog

theorem mapM_map_eq {α β γ δ ε : Type} {f : α → β} {g : γ → δ} {find : α → Except ε γ}
    {find' : β → Except ε δ} {l : List α}
    (h : ∀ a ∈ l, find' (f a) = (find a).map g) :
    (l.map f).mapM find' = (l.mapM find).map (List.map g) := by
  induction l with
  | nil => rfl
  | cons a l ih =>
      rw [List.map_cons, List.mapM_cons, List.mapM_cons, h a (by simp),
        ih fun b hb => h b (by simp [hb])]
      cases find a with
      | error => rfl
      | ok c => cases l.mapM find <;> rfl

namespace State

variable {s t u : State} {i : TrackId}

theorem CreditsCoherent.creditsOf_eq (h : s.CreditsCoherent) {found : List Credit}
    (ordered : found.Pairwise fun b c => b.id.number < c.id.number)
    (members : ∀ credit, credit ∈ found ↔
      s.credits[credit.id]? = some credit ∧ credit.trackId = i) : s.creditsOf i = .ok found := by
  obtain ⟨found', hfound, ordered', members'⟩ := h.ofTrack.mapM_image h.numbered.id_eq i
  have : Std.Antisymm fun b c : Credit => b.id.number < c.id.number :=
    ⟨fun _ _ h h' => absurd h (Nat.lt_asymm h')⟩
  have : Std.Irrefl fun b c : Credit => b.id.number < c.id.number := ⟨fun _ => Nat.lt_irrefl _⟩
  have same : found' = found :=
    ordered'.eq_of_mem_iff ordered fun credit => (members' credit).trans (members credit).symm
  rw [creditsOf, hfound, same]

/-- To whom a track is credited and for what, in order. -/
def creditedAs (s : State) (i : TrackId) : Except Error (List (ArtistId × Role)) :=
  (s.creditsOf i).map (List.map fun credit => (credit.artistId, credit.role))

/-- The credits are the same, but with other numbers in the same order. -/
structure Renumbers (f : CreditId → CreditId) (s t : State) : Prop where
  increasing : ∀ i j, i.number < j.number → (f i).number < (f j).number
  kept : ∀ {i : CreditId} {credit : Credit}, s.credits[i]? = some credit →
    t.credits[f i]? = some { credit with id := f i }
  onto : ∀ {j : CreditId} {credit : Credit}, t.credits[j]? = some credit →
    ∃ i other, s.credits[i]? = some other ∧ f i = j
  ofTrack : ∀ i, t.creditsOfTrack.image i = (s.creditsOfTrack.image i).map f
  ofArtist : ∀ i, t.creditsOfArtist.image i = (s.creditsOfArtist.image i).map f

namespace Renumbers

variable {f : CreditId → CreditId}

theorem of_rows (hs : s.CreditsCoherent) (ht : t.CreditsCoherent)
    (increasing : ∀ i j, i.number < j.number → (f i).number < (f j).number)
    (kept : ∀ {i : CreditId} {credit : Credit}, s.credits[i]? = some credit →
      t.credits[f i]? = some { credit with id := f i })
    (onto : ∀ {j : CreditId} {credit : Credit}, t.credits[j]? = some credit →
      ∃ i other, s.credits[i]? = some other ∧ f i = j) : s.Renumbers f t := by
  have pairs {e : Entity} {key : Credit → EntityId e} {r r' : Relation (EntityId e) CreditId}
      (hkey : ∀ credit j, key { credit with id := j } = key credit)
      (h : Matches r.contains s.credits fun credit entity => key credit = entity)
      (h' : Matches r'.contains t.credits fun credit entity => key credit = entity)
      (entity : EntityId e) : r'.image entity = (r.image entity).map f := by
    apply Relation.image_eq_map increasing
    intro j
    constructor
    · intro hj
      obtain ⟨row, hrow, hentity⟩ := (h' entity j).mp hj
      obtain ⟨i, other, hother, rfl⟩ := onto hrow
      rw [kept hother, Option.some.injEq] at hrow
      refine ⟨i, (h.iff_of_row hother entity).mpr ?_, rfl⟩
      rw [← hentity, ← hrow]
      exact (hkey other (f i)).symm
    · rintro ⟨i, hi, rfl⟩
      obtain ⟨row, hrow, hentity⟩ := (h entity i).mp hi
      exact (h'.iff_of_row (kept hrow) entity).mpr ((hkey row _).trans hentity)
  exact ⟨increasing, kept, onto, pairs (fun _ _ => rfl) hs.ofTrack ht.ofTrack,
    pairs (fun _ _ => rfl) hs.ofArtist ht.ofArtist⟩

theorem refl (hs : s.CreditsCoherent) : s.Renumbers id s := by
  refine .of_rows hs hs (fun _ _ => id) (fun {i credit} hrow => ?_) fun hrow => ⟨_, _, hrow, rfl⟩
  obtain rfl := hs.numbered.id_eq hrow
  exact hrow

theorem creditedAs_eq (h : s.Renumbers f t) (hs : s.CreditsCoherent) (i : TrackId) :
    t.creditedAs i = s.creditedAs i := by
  have credits : t.creditsOf i = (s.creditsOf i).map (List.map fun credit =>
      { credit with id := f credit.id }) := by
    rw [creditsOf, h.ofTrack, creditsOf]
    refine mapM_map_eq fun j hj => ?_
    obtain ⟨credit, hrow, -⟩ := (hs.ofTrack i j).mp hj
    rw [indexed, indexed, h.kept hrow, hrow, ← hs.numbered.id_eq hrow]
    rfl
  rw [creditedAs, credits, creditedAs]
  cases s.creditsOf i with
  | error => rfl
  | ok found => simp [Except.map]

theorem isEmptyAt_eq (h : s.Renumbers f t) :
    t.creditsOfArtist.isEmptyAt = s.creditsOfArtist.isEmptyAt := by
  funext artist
  rw [Bool.eq_iff_iff, Relation.isEmptyAt_iff, Relation.isEmptyAt_iff, h.ofArtist,
    List.map_eq_nil_iff]

end Renumbers

theorem withCredit_nextCredit (credit : Credit) :
    (s.withCredit credit).nextCredit = s.nextCredit + 1 := rfl

theorem withCredit_rows (h : s.CreditsCoherent) {credit other : Credit}
    (hid : credit.id = ⟨s.nextCredit⟩) {j : CreditId} :
    (s.withCredit credit).credits[j]? = some other ↔
      s.credits[j]? = some other ∨ (j = ⟨s.nextCredit⟩ ∧ other = credit) := by
  rw [withCredit, hid]
  by_cases hj : j = ⟨s.nextCredit⟩
  · subst hj
    rw [getElem?_insert_self, h.numbered.getElem?_next]
    simp [eq_comm]
  · rw [getElem?_insert_of_ne hj]
    simp [hj]

/-- The credits that are written are numbered from the next number on. -/
theorem credited_rows (h : s.CreditsCoherent) {credits : List (ArtistId × Role)} {j : CreditId}
    {credit : Credit} : (s.credited i credits).credits[j]? = some credit ↔
      s.credits[j]? = some credit ∨ ∃ k c, credits[k]? = some c ∧ j = ⟨s.nextCredit + k⟩ ∧
        credit = ⟨j, i, c.1, c.2⟩ := by
  induction credits generalizing s with
  | nil => simp [credited]
  | cons first credits ih =>
      rw [credited, List.foldl_cons, ← credited, ih (h.withCredit rfl), withCredit_rows h rfl, or_assoc]
      apply or_congr_right
      constructor
      · rintro (⟨rfl, rfl⟩ | ⟨k, c, hk, rfl, rfl⟩)
        · exact ⟨0, first, rfl, rfl, rfl⟩
        · exact ⟨k + 1, c, hk, congrArg EntityId.mk (by rw [withCredit_nextCredit]; omega), rfl⟩
      · rintro ⟨_ | k, c, hk, rfl, rfl⟩
        · obtain rfl : first = c := Option.some.inj hk
          exact .inl ⟨rfl, rfl⟩
        · exact .inr ⟨k, c, hk, congrArg EntityId.mk (by rw [withCredit_nextCredit]; omega), rfl⟩

theorem credited_nextCredit (credits : List (ArtistId × Role)) :
    (s.credited i credits).nextCredit = s.nextCredit + credits.length := by
  induction credits generalizing s with
  | nil => rfl
  | cons credit credits ih =>
      rw [credited, List.foldl_cons, ← credited, ih, List.length_cons, withCredit_nextCredit]
      omega

theorem withoutCreditsOf_rows (h : s.CreditsCoherent) {j : CreditId} {credit : Credit} :
    (s.withoutCreditsOf i).credits[j]? = some credit ↔
      s.credits[j]? = some credit ∧ credit.trackId ≠ i := by
  rw [withoutCreditsOf, Session.credits_dropCredits]
  refine and_congr_right fun hrow => not_congr ?_
  exact h.ofTrack.iff_of_row hrow i

/-- The credits of a track that are written anew come after all others, also when they did before. -/
theorem recredited_rows (h : s.CreditsCoherent) {credits : List (ArtistId × Role)} {j : CreditId}
    {credit : Credit} :
    ((s.withoutCreditsOf i).credited i credits).credits[j]? = some credit ↔
      (s.credits[j]? = some credit ∧ credit.trackId ≠ i) ∨
        ∃ k c, credits[k]? = some c ∧ j = ⟨s.nextCredit + k⟩ ∧ credit = ⟨j, i, c.1, c.2⟩ := by
  rw [credited_rows (h.withoutCreditsOf i), withoutCreditsOf_rows h]
  rfl

theorem creditsOf_recredited (hs : s.CreditsCoherent) (ht : t.CreditsCoherent)
    {credits : List (ArtistId × Role)}
    (rows : t.credits = ((s.withoutCreditsOf i).credited i credits).credits) :
    t.creditsOf i = .ok (credits.mapIdx fun k c => ⟨⟨s.nextCredit + k⟩, i, c.1, c.2⟩) := by
  apply ht.creditsOf_eq
  · rw [List.pairwise_iff_getElem]
    intro j k hj hk hlt
    simpa using hlt
  · intro credit
    rw [rows, recredited_rows hs, List.mem_mapIdx]
    constructor
    · rintro ⟨k, hk, rfl⟩
      exact ⟨.inr ⟨k, _, List.getElem?_eq_getElem hk, rfl, rfl⟩, rfl⟩
    · rintro ⟨⟨-, hother⟩ | ⟨k, c, hk, hid, hcredit⟩, htrack⟩
      · exact absurd htrack hother
      · obtain ⟨hlt, rfl⟩ := List.getElem?_eq_some_iff.mp hk
        exact ⟨k, hlt, by rw [hcredit, hid]⟩

theorem recredited_again (hs : s.CreditsCoherent) (ht : t.CreditsCoherent)
    (hu : u.CreditsCoherent) {credits : List (ArtistId × Role)}
    (rows : t.credits = ((s.withoutCreditsOf i).credited i credits).credits)
    (next : t.nextCredit = ((s.withoutCreditsOf i).credited i credits).nextCredit)
    (rows' : u.credits = ((t.withoutCreditsOf i).credited i credits).credits) :
    ∃ f, t.Renumbers f u := by
  have next : t.nextCredit = s.nextCredit + credits.length :=
    next.trans (credited_nextCredit credits)
  let f (j : CreditId) : CreditId :=
    ⟨if j.number < s.nextCredit then j.number else j.number + credits.length⟩
  have old {j : CreditId} (hj : j.number < s.nextCredit) : f j = j :=
    congrArg EntityId.mk (if_pos hj)
  have new (k : Nat) : f ⟨s.nextCredit + k⟩ = ⟨t.nextCredit + k⟩ :=
    congrArg EntityId.mk (by rw [if_neg (by simp), next, Nat.add_right_comm])
  refine ⟨f, .of_rows ht hu (fun j j' hlt => ?_) (fun {j credit} hrow => ?_)
    fun {j credit} hrow => ?_⟩
  · dsimp only [f]
    split_ifs <;> omega
  · have hrow' := hrow
    rw [rows, recredited_rows hs] at hrow'
    rw [rows', recredited_rows ht]
    rcases hrow' with ⟨hold, hother⟩ | ⟨k, c, hk, rfl, rfl⟩
    · obtain rfl := hs.numbered.id_eq hold
      rw [old (hs.numbered.lt_next hold)]
      exact .inl ⟨hrow, hother⟩
    · exact .inr ⟨k, c, hk, new k, rfl⟩
  · rw [rows', recredited_rows ht] at hrow
    rcases hrow with ⟨hkept, hother⟩ | ⟨k, c, hk, rfl, rfl⟩
    · have hold := hkept
      rw [rows, recredited_rows hs] at hold
      rcases hold with ⟨hold, -⟩ | ⟨_, _, _, _, rfl⟩
      · exact ⟨j, credit, hkept, old (hs.numbered.lt_next hold)⟩
      · exact absurd rfl hother
    · refine ⟨⟨s.nextCredit + k⟩, ⟨⟨s.nextCredit + k⟩, i, c.1, c.2⟩, ?_, new k⟩
      rw [rows, recredited_rows hs]
      exact .inr ⟨k, c, hk, rfl, rfl⟩

end State

end Catalog

end AudioCatalog
