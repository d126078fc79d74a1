import AudioCatalog.Proofs.Coherence

namespace AudioCatalog.Catalog

namespace Session

variable {e f : Entity} {key : Credit → EntityId e} {ids : List CreditId}
  {credits : Table CreditId Credit} {index : Relation (EntityId e) CreditId}

theorem credits_dropCredits {i : CreditId} {credit : Credit} :
    (dropCredits key ids credits index).1[i]? = some credit ↔
      credits[i]? = some credit ∧ i ∉ ids := by
  induction ids generalizing credits index with
  | nil => simp [dropCredits]
  | cons id ids ih =>
      rw [List.mem_cons, not_or, ← and_assoc]
      unfold dropCredits
      split
      · rw [ih, getElem?_erase_eq_some]
      · rw [ih]
        grind

/-- The entries that go are those of the credits that go, provided that the index agrees with the
credits. -/
theorem contains_dropCredits
    (h : Matches index.contains credits fun credit entity => key credit = entity)
    {i : CreditId} {entity : EntityId e} :
    (dropCredits key ids credits index).2.contains entity i ↔
      index.contains entity i ∧ i ∉ ids := by
  induction ids generalizing credits index with
  | nil => simp [dropCredits]
  | cons id ids ih =>
      rw [List.mem_cons, not_or, ← and_assoc]
      unfold dropCredits
      split
      · rename_i credit hid
        have own := h.iff_of_row hid
        rw [ih, Relation.contains_erase]
        · grind
        · have rows (j : CreditId) (credit : Credit) : (credits.erase id)[j]? = some credit ↔
              credits[j]? = some credit ∧ j ≠ id := getElem?_erase_eq_some
          apply h.restrict rows
          intro entity j
          rw [Relation.contains_erase]
          grind
      · rename_i hid
        rw [ih h]
        have := h.not_entry hid entity
        grind

/-- Where two indexes of credits agree with them, they still do after all credits below one entry of
the first are gone. -/
theorem matches_dropCredits {other : Credit → EntityId f} {index' : Relation (EntityId f) CreditId}
    (id : EntityId f)
    (h : Matches index.contains credits fun credit entity => key credit = entity)
    (h' : Matches index'.contains credits fun credit entity => other credit = entity) :
    Matches (dropCredits key (index'.image id) credits index).2.contains
        (dropCredits key (index'.image id) credits index).1 (fun credit entity => key credit = entity) ∧
      Matches (index'.eraseAll id).contains (dropCredits key (index'.image id) credits index).1
        fun credit entity => other credit = entity := by
  refine ⟨h.restrict (fun _ _ => credits_dropCredits) fun _ _ => contains_dropCredits h,
    h'.restrict (fun _ _ => credits_dropCredits) fun entity i => ?_⟩
  rw [Relation.contains_eraseAll, and_comm]
  apply and_congr_right
  intro hentity
  obtain ⟨credit, hrow, rfl⟩ := (h' entity i).mp hentity
  have : i ∈ index'.image id ↔ other credit = id := h'.iff_of_row hrow id
  rw [this]

end Session

namespace State

def withCredit (credit : Credit) (s : State) : State := { s with
  nextCredit := s.nextCredit + 1
  credits := s.credits.insert credit.id credit
  creditsOfTrack := s.creditsOfTrack.insert credit.trackId credit.id
  creditsOfArtist := s.creditsOfArtist.insert credit.artistId credit.id }

def withoutCreditsOf (id : TrackId) (s : State) : State :=
  let rest := Session.dropCredits Credit.artistId (s.creditsOfTrack.image id) s.credits
    s.creditsOfArtist
  { s with
    credits := rest.1
    creditsOfArtist := rest.2
    creditsOfTrack := s.creditsOfTrack.eraseAll id }

def withoutCreditsTo (id : ArtistId) (s : State) : State :=
  let rest := Session.dropCredits Credit.trackId (s.creditsOfArtist.image id) s.credits
    s.creditsOfTrack
  { s with
    credits := rest.1
    creditsOfTrack := rest.2
    creditsOfArtist := s.creditsOfArtist.eraseAll id }

variable {s : State}

@[simp]
theorem clearCredits_ends_iff {id : TrackId} {ok : Unit → State → Prop}
    {error : Error → State → Prop} :
    Ends (Session.clearCredits id) s ok error ↔ ok () (s.withoutCreditsOf id) := Iff.rfl

namespace CreditsCoherent

variable (h : s.CreditsCoherent)
include h

theorem withCredit {credit : Credit} (hid : credit.id = ⟨s.nextCredit⟩) :
    (s.withCredit credit).CreditsCoherent := by
  have fresh : s.credits[credit.id]? = none := hid ▸ h.numbered.getElem?_next
  refine ⟨?_, h.ofTrack.insert (fun track => ?_) fun track i hi => ?_,
    h.ofArtist.insert (fun artist => ?_) fun artist i hi => ?_⟩
  · simpa only [State.withCredit, hid] using h.numbered.insert_next hid
  · have := h.ofTrack.not_entry fresh track
    grind [State.withCredit, Relation.contains_insert]
  · simp [State.withCredit, Relation.contains_insert, hi]
  · have := h.ofArtist.not_entry fresh artist
    grind [State.withCredit, Relation.contains_insert]
  · simp [State.withCredit, Relation.contains_insert, hi]

theorem withoutCreditsOf (id : TrackId) : (s.withoutCreditsOf id).CreditsCoherent := by
  obtain ⟨ofArtist, ofTrack⟩ := Session.matches_dropCredits id h.ofArtist h.ofTrack
  refine ⟨h.numbered.of_subset fun i credit hi => ?_, ofTrack, ofArtist⟩
  exact (Session.credits_dropCredits.mp hi).1

theorem withoutCreditsTo (id : ArtistId) : (s.withoutCreditsTo id).CreditsCoherent := by
  obtain ⟨ofTrack, ofArtist⟩ := Session.matches_dropCredits id h.ofTrack h.ofArtist
  refine ⟨h.numbered.of_subset fun i credit hi => ?_, ofTrack, ofArtist⟩
  exact (Session.credits_dropCredits.mp hi).1

end CreditsCoherent

end State

end AudioCatalog.Catalog
