import AudioCatalog.Proofs.Counts
import AudioCatalog.Proofs.Repetition
import Mathlib.Data.Finset.Sum

namespace AudioCatalog

variable {e : Entity} {δ : Type}

def knownBy (mbid : Option Mbid) (name : String) : Mbid ⊕ String :=
  match mbid with
  | some mbid => .inl mbid
  | none => .inr name

@[simp]
theorem knownBy_eq_inl {mbid : Option Mbid} {name : String} {known : Mbid} :
    knownBy mbid name = .inl known ↔ mbid = some known := by
  cases mbid <;> simp [knownBy]

@[simp]
theorem knownBy_eq_inr {mbid : Option Mbid} {name known : String} :
    knownBy mbid name = .inr known ↔ mbid = none ∧ name = known := by
  cases mbid <;> simp [knownBy]

def Named.identity (row : Named e δ) : Mbid ⊕ String := knownBy row.mbid row.name

namespace Mention

def identity (m : Mention δ) : Mbid ⊕ String := knownBy m.mbid m.name

variable {m : Mention δ} {row : Named e δ}

theorem fits_iff_identity (strict : m.borrows = false) :
    m.Fits row ↔ row.identity = m.identity := by
  rw [identity]
  cases hm : m.mbid with
  | some mbid => exact (fits_of_some hm).trans knownBy_eq_inl.symm
  | none =>
      rw [fits_of_none hm, strict]
      refine Iff.trans ?_ knownBy_eq_inr.symm
      simp [and_comm]

theorem Fits.mbid_eq (h : m.Fits row) (strict : m.borrows = false) : row.mbid = m.mbid := by
  cases hm : m.mbid with
  | some mbid => exact (fits_of_some hm).mp h
  | none => exact ((fits_of_none hm).mp h).2.resolve_left (by simp [strict])

end Mention

namespace Catalog

theorem card_insert_sdiff {α : Type} [DecidableEq α] (a : α) (s t : Finset α) :
    (insert a s \ t).card = (if a ∈ t then 0 else 1) + (s \ insert a t).card := by
  split_ifs with ha
  · rw [Finset.insert_sdiff_of_mem _ ha, Finset.insert_eq_of_mem ha, Nat.zero_add]
  · rw [Finset.insert_sdiff_of_notMem _ ha, Finset.sdiff_insert, ← Finset.erase_insert_eq_erase,
      Nat.add_comm, Finset.card_erase_add_one (Finset.mem_insert_self a _)]

namespace Registry

variable {r r' : Registry e δ} {m : Mention δ} {row : Named e δ}

def mbids (r : Registry e δ) : Finset Mbid := (r.rows.toList.filterMap (·.2.mbid)).toFinset

def plainNames (r : Registry e δ) : Finset String :=
  ((r.rows.toList.filter (·.2.mbid.isNone)).map (·.2.name)).toFinset

def identities (r : Registry e δ) : Finset (Mbid ⊕ String) :=
  (r.rows.toList.map (·.2.identity)).toFinset

theorem mem_identities {known : Mbid ⊕ String} : known ∈ r.identities ↔
    ∃ (i : EntityId e) (row : Named e δ), r.rows[i]? = some row ∧ row.identity = known := by
  rw [identities, List.mem_toFinset, List.mem_map]
  simp [Std.ExtTreeMap.mem_toList_iff_getElem?_eq_some]

theorem identities_toLeft : r.identities.toLeft = r.mbids := by
  ext mbid
  simp only [identities, mbids, Finset.mem_toLeft, List.mem_toFinset, List.mem_map,
    List.mem_filterMap, Named.identity, knownBy_eq_inl]

theorem identities_toRight : r.identities.toRight = r.plainNames := by
  ext name
  simp only [identities, plainNames, Finset.mem_toRight, List.mem_toFinset, List.mem_map,
    List.mem_filter, Named.identity, knownBy_eq_inr, Option.isNone_iff_eq_none, and_assoc]

variable [Inhabited δ]

namespace Records

variable (h : r.Records m row r') (hr : r.Coherent) (strict : m.borrows = false)
include h hr strict

theorem identities_eq : r'.identities = insert m.identity r.identities := by
  have known := (Mention.fits_iff_identity strict).mp h.fits
  ext other
  rw [Finset.mem_insert, mem_identities, mem_identities]
  constructor
  · rintro ⟨i, found, hi, rfl⟩
    by_cases hne : i = row.id
    · rw [hne, h.row_there, Option.some.injEq] at hi
      exact .inl (hi ▸ known)
    · rw [h.getElem?_of_ne hne] at hi
      exact .inr ⟨i, found, hi, rfl⟩
  · rintro (rfl | ⟨i, base, hi, rfl⟩)
    · exact ⟨row.id, row, h.row_there, known⟩
    · by_cases hne : i = row.id
      · obtain ⟨-, fits, -⟩ := h.rewritten hr (hne ▸ hi)
        have same := (Mention.fits_iff_identity strict).mp fits
        exact ⟨row.id, row, h.row_there, known.trans same.symm⟩
      · exact ⟨i, base, by rw [h.getElem?_of_ne hne, hi], rfl⟩

/-- There is one more row than before if what is said is of nobody who is known. -/
theorem grows : r'.rows.size = r.rows.size + (if m.identity ∈ r.identities then 0 else 1) ∧
    r'.next = r.next + if m.identity ∈ r.identities then 0 else 1 := by
  cases h with
  | known hrow fits =>
      have known := mem_identities.mpr ⟨_, _, hrow, (Mention.fits_iff_identity strict).mp fits⟩
      rw [if_pos known, updated_rows, updated_next]
      exact ⟨size_insert_of_row hrow _, rfl⟩
  | new unfit =>
      have unknown : m.identity ∉ r.identities := by
        rw [mem_identities]
        rintro ⟨i, other, hi, hother⟩
        exact unfit i other hi ((Mention.fits_iff_identity strict).mpr hother)
      rw [if_neg unknown, created_rows, created_next]
      exact ⟨size_insert_of_none hr.numbered.getElem?_next _, rfl⟩

end Records

namespace RecordsAll

variable {l : List (Mention δ × Named e δ)}

theorem rows_fit (h : RecordsAll r l r') : ∀ x ∈ l, x.1.Fits x.2 ∧ x.2.name = x.1.name := by
  induction h with
  | nil => simp
  | cons h _ ih => exact List.forall_mem_cons.mpr ⟨⟨h.fits, h.name_eq⟩, ih⟩

variable (h : RecordsAll r l r') (hr : r.Coherent) (strict : ∀ x ∈ l, x.1.borrows = false)
include h hr strict

/-- As many rows are made as are known from what is said and were not known before. -/
theorem grows :
    r'.rows.size = r.rows.size + ((l.map (·.1.identity)).toFinset \ r.identities).card ∧
      r'.next = r.next + ((l.map (·.1.identity)).toFinset \ r.identities).card := by
  induction h with
  | nil => simp
  | @cons r r₁ r' m row l h rest ih =>
      rw [List.forall_mem_cons] at strict
      obtain ⟨size, next⟩ := h.grows hr strict.1
      obtain ⟨size', next'⟩ := ih (h.coherent hr) strict.2
      rw [h.identities_eq hr strict.1] at size' next'
      rw [List.map_cons, List.toFinset_cons, card_insert_sdiff, size', next', size, next,
        Nat.add_assoc, Nat.add_assoc]
      exact ⟨rfl, rfl⟩

theorem row_kept {i : EntityId e} (hrow : r.rows[i]? = some row)
    (unsaid : row.identity ∉ (l.map (·.1.identity)).toFinset) : r'.rows[i]? = some row := by
  induction h with
  | nil => exact hrow
  | @cons r r₁ r' m first l h rest ih =>
      rw [List.forall_mem_cons] at strict
      rw [List.map_cons, List.toFinset_cons, Finset.mem_insert, not_or] at unsaid
      refine ih (h.coherent hr) strict.2 ?_ unsaid.2
      rw [h.getElem?_of_ne, hrow]
      rintro rfl
      exact unsaid.1 ((Mention.fits_iff_identity strict.1).mp (h.rewritten hr hrow).2.1)

/-- What is said is of a row with its identifier, or else of one without and with its name, also in
the end. -/
theorem forall₂_meant : List.Forall₂ (fun m row => row.mbid = m.mbid ∧ row.name = m.name ∧
      ∃ last, r'.rows[row.id]? = some last ∧ last.mbid = m.mbid ∧
        (m.mbid = none → last.name = m.name)) (l.map Prod.fst) (l.map Prod.snd) := by
  rw [List.forall₂_map_left_iff, List.forall₂_map_right_iff, List.forall₂_same]
  intro x hx
  obtain ⟨fits, name⟩ := h.rows_fit x hx
  obtain ⟨last, hlast, fits'⟩ := h.fits_last hr (pairwise_of_strict strict) x hx
  exact ⟨fits.mbid_eq (strict x hx), name, last, hlast, fits'.mbid_eq (strict x hx),
    fun hm => fits'.name_eq (.inr hm)⟩

end RecordsAll

end Registry

end Catalog

namespace Scan

open Catalog Session Tag

variable {s t : State} {infos : List ArtistInfo}

def mbidsOf (infos : List ArtistInfo) : Finset Mbid := (infos.filterMap (·.mbid)).toFinset

def plainNamesOf (infos : List ArtistInfo) : Finset String :=
  ((infos.filter fun info => info.mbid.isNone && info.name ≠ "").map (·.name)).toFinset

theorem mem_identities_mentions {known : Mbid ⊕ String} :
    known ∈ ((artistMentions false infos).map Mention.identity).toFinset ↔ ∃ info ∈ infos,
      (info.mbid.isSome || info.name ≠ "") = true ∧ knownBy info.mbid info.name = known := by
  rw [artistMentions, ArtistInfo.not_isBlank, List.mem_toFinset, List.map_map, List.mem_map]
  simp only [List.mem_filter, and_assoc]
  rfl

theorem toLeft_identities_mentions :
    ((artistMentions false infos).map Mention.identity).toFinset.toLeft = mbidsOf infos := by
  ext mbid
  rw [Finset.mem_toLeft, mem_identities_mentions, mbidsOf, List.mem_toFinset, List.mem_filterMap]
  refine exists_congr fun info => and_congr_right fun _ => ?_
  rw [knownBy_eq_inl]
  exact and_iff_right_of_imp fun hm => by simp [hm]

theorem toRight_identities_mentions :
    ((artistMentions false infos).map Mention.identity).toFinset.toRight = plainNamesOf infos := by
  ext name
  rw [Finset.mem_toRight, mem_identities_mentions, plainNamesOf, List.mem_toFinset, List.mem_map]
  refine exists_congr fun info => ?_
  rw [List.mem_filter, and_assoc, knownBy_eq_inr]
  cases info.mbid <;> simp

theorem card_unknown (infos : List ArtistInfo) (registry : Registry .artist (Option String)) :
    (((artistMentions false infos).map Mention.identity).toFinset \ registry.identities).card =
      (mbidsOf infos \ registry.mbids).card +
        (plainNamesOf infos \ registry.plainNames).card := by
  rw [← Finset.card_toLeft_add_card_toRight, Finset.toLeft_sdiff, Finset.toRight_sdiff,
    toLeft_identities_mentions, toRight_identities_mentions, Registry.identities_toLeft,
    Registry.identities_toRight]

/-- Each entry of somebody has got the artist that it means and no other, and new artists are there
only for what was not known. -/
structure ResolvedStrictly (infos : List ArtistInfo) (s : State) (artists : List Artist)
    (t : State) : Prop where
  others : t = { s with artists := t.artists }
  meant : List.Forall₂ (fun info artist => artist.mbid = info.mbid ∧ artist.name = info.name ∧
      ∃ row, t.artists.rows[artist.id]? = some row ∧ row.mbid = info.mbid ∧
        (info.mbid = none → row.name = info.name))
    (infos.filter fun info => info.mbid.isSome || info.name ≠ "") artists
  tagged : ∀ (i : ArtistId) (artist : Artist) (mbid : Mbid), s.artists.rows[i]? = some artist →
    artist.mbid = some mbid → mbid ∉ mbidsOf infos → t.artists.rows[i]? = some artist
  plain : ∀ (i : ArtistId) (artist : Artist), s.artists.rows[i]? = some artist →
    artist.mbid = none → artist.name ∉ plainNamesOf infos → t.artists.rows[i]? = some artist
  size : t.artists.rows.size = s.artists.rows.size + ((mbidsOf infos \ s.artists.mbids).card +
    (plainNamesOf infos \ s.artists.plainNames).card)
  next : t.artists.next = s.artists.next + ((mbidsOf infos \ s.artists.mbids).card +
    (plainNamesOf infos \ s.artists.plainNames).card)

theorem borrows_eq_false {l : List (Mention (Option String) × Artist)}
    (mentions : l.map Prod.fst = artistMentions false infos) : ∀ x ∈ l, x.1.borrows = false := by
  intro x hx
  have hmention : x.1 ∈ artistMentions false infos := mentions ▸ List.mem_map_of_mem hx
  obtain ⟨_, -, said⟩ := List.mem_map.mp hmention
  rw [← said]
  rfl

theorem resolved_strictly (hs : s.Coherent) {l : List (Mention (Option String) × Artist)}
    {registry : Registry .artist (Option String)} (hl : s.artists.RecordsAll l registry)
    (mentions : l.map Prod.fst = artistMentions false infos) :
    ResolvedStrictly infos s (l.map Prod.snd) { s with artists := registry } := by
  have strict := borrows_eq_false mentions
  have identities : l.map (·.1.identity) = (artistMentions false infos).map Mention.identity := by
    rw [← mentions, List.map_map]
    rfl
  have grows := hl.grows hs.artists strict
  rw [identities, card_unknown] at grows
  refine ⟨rfl, ?_, ?_, ?_, grows.1, grows.2⟩
  · have meant := hl.forall₂_meant hs.artists strict
    rw [mentions, artistMentions, ArtistInfo.not_isBlank, List.forall₂_map_left_iff] at meant
    exact meant
  · intro i artist mbid hrow hmbid unsaid
    refine hl.row_kept hs.artists strict hrow fun known => unsaid ?_
    rw [← toLeft_identities_mentions, Finset.mem_toLeft, ← knownBy_eq_inl.mpr hmbid, ← identities]
    exact known
  · intro i artist hrow hmbid unsaid
    refine hl.row_kept hs.artists strict hrow fun known => unsaid ?_
    rw [← toRight_identities_mentions, Finset.mem_toRight, ← knownBy_eq_inr.mpr ⟨hmbid, rfl⟩,
      ← identities]
    exact known

/-- To resolve entries without borrowing finds what each of them means, makes what is not there, and
has nothing left to do when it is done again. -/
theorem Reachable.resolve_strictly (h : Reachable s) (infos : List ArtistInfo) :
    Succeeds (resolveArtists infos false) s fun artists t =>
      ResolvedStrictly infos s artists t ∧
        Succeeds (resolveArtists infos false) t fun artists' u =>
          u = t ∧ artists'.map Named.id = artists.map Named.id := by
  have hs := h.coherent
  refine (resolveArtists_writes hs infos false).imp ?_ fun _ _ => id
  rintro _ _ ⟨registry, ⟨l, mentions, rfl, hl⟩, rfl⟩
  refine ⟨resolved_strictly hs hl mentions, ?_⟩
  refine (resolveArtists_writes (hs.withArtists (hl.coherent hs.artists)) infos false).imp ?_
    fun _ _ => id
  rintro _ _ ⟨registry', ⟨l', mentions', rfl, hl'⟩, rfl⟩
  obtain ⟨rfl, ids⟩ := hl.again_of_strict hs.artists hl' (mentions'.trans mentions.symm)
    (borrows_eq_false mentions)
  exact ⟨rfl, by rw [List.map_map, List.map_map]; exact ids⟩

def otherRecording : Mbid := ⟨2, by decide, by decide⟩

def mixedEntries : List ArtistInfo :=
  [⟨"B", some someRecording, none⟩, ⟨"B", none, none⟩, ⟨"", none, some "b"⟩,
   ⟨"A", some someRecording, none⟩, ⟨"C", none, none⟩, ⟨"C", none, some "c"⟩,
   ⟨"C", some otherRecording, none⟩]

theorem Reachable.resolve_strictly_mixed : ∃ s artists t, Reachable s ∧
    resolveArtists mixedEntries false s = .ok artists t ∧
    artists.map Named.id = [⟨1⟩, ⟨2⟩, ⟨1⟩, ⟨3⟩, ⟨3⟩, ⟨4⟩] ∧
    (mbidsOf mixedEntries \ s.artists.mbids).card = 1 ∧
    (plainNamesOf mixedEntries \ s.artists.plainNames).card = 2 ∧
    ResolvedStrictly mixedEntries s artists t ∧ ∃ artists',
      resolveArtists mixedEntries false t = .ok artists' t ∧
        artists'.map Named.id = artists.map Named.id := by
  obtain ⟨s, hs⟩ : ∃ s, s = [Mutation.createArtist "A" none (some someRecording)].foldl
      Mutation.after {} := ⟨_, rfl⟩
  have reached : Reachable s := hs ▸ Reachable.empty.after _
  have once : Succeeds (resolveArtists mixedEntries false) s fun artists _ =>
      artists.map Named.id = [⟨1⟩, ⟨2⟩, ⟨1⟩, ⟨3⟩, ⟨3⟩, ⟨4⟩] := by
    rw [hs]
    decide +kernel
  have unknown : (mbidsOf mixedEntries \ s.artists.mbids).card = 1 ∧
      (plainNamesOf mixedEntries \ s.artists.plainNames).card = 2 := by
    rw [hs]
    decide +kernel
  obtain ⟨artists, t, hrun, ids⟩ := succeeds_iff.mp once
  have strictly := reached.resolve_strictly mixedEntries
  rw [Succeeds, Ends, hrun] at strictly
  obtain ⟨artists', _, again, rfl, ids'⟩ := succeeds_iff.mp strictly.2
  exact ⟨s, artists, _, reached, hrun, ids, unknown.1, unknown.2, strictly.1, artists', again, ids'⟩

end Scan

end AudioCatalog
