import AudioCatalog.Proofs.Absorption
import AudioCatalog.Proofs.Heirs
import AudioCatalog.Proofs.ScanIntegrity
import Mathlib.Logic.Relation

namespace AudioCatalog

namespace Catalog

namespace Registry

variable {e : Entity} {δ : Type} {r r' r'' : Registry e δ}

/-- Of the rows without an identifier no two have the same name. -/
def NamesUnique (r : Registry e δ) : Prop :=
  ∀ {i j : EntityId e} {row other : Named e δ}, r.rows[i]? = some row → r.rows[j]? = some other →
    row.mbid = none → other.mbid = none → row.name = other.name → i = j

def named (r : Registry e δ) : List (Nat × String × Bool) :=
  r.rows.toList.map fun row => (row.1.number, row.2.name, row.2.mbid.isSome)

/-- Each later row is new, or it was there with the same identifier or none, and with the same name
where it has none. -/
structure KeepsIdentity (r r' : Registry e δ) : Prop where
  next_le : r.next ≤ r'.next
  kept : ∀ {i : EntityId e} {row' : Named e δ}, r'.rows[i]? = some row' → r.next ≤ i.number ∨
    ∃ row, r.rows[i]? = some row ∧ row'.mbid = row.mbid ∧ (row.mbid = none → row'.name = row.name)

namespace KeepsIdentity

theorem refl (r : Registry e δ) : r.KeepsIdentity r :=
  ⟨Nat.le_refl _, fun hrow => .inr ⟨_, hrow, rfl, fun _ => rfl⟩⟩

theorem trans (h : r.KeepsIdentity r') (h' : r'.KeepsIdentity r'') : r.KeepsIdentity r'' where
  next_le := Nat.le_trans h.next_le h'.next_le
  kept := by
    intro i row'' hrow''
    rcases h'.kept hrow'' with hnew | ⟨row', hrow', hmbid', hname'⟩
    · exact .inl (Nat.le_trans h.next_le hnew)
    · rcases h.kept hrow' with hnew | ⟨row, hrow, hmbid, hname⟩
      · exact .inl hnew
      · refine .inr ⟨row, hrow, hmbid'.trans hmbid, fun hnone => ?_⟩
        exact (hname' (hmbid.trans hnone)).trans (hname hnone)

end KeepsIdentity

theorem Thins.namesUnique (h : r.Thins r') (unique : r.NamesUnique) : r'.NamesUnique :=
  fun hi hj => unique (h.rows hi) (h.rows hj)

theorem Thins.keepsIdentity (h : r.Thins r') : r.KeepsIdentity r' :=
  ⟨Nat.le_of_eq h.next.symm, fun hrow => .inr ⟨_, h.rows hrow, rfl, fun _ => rfl⟩⟩

variable [Inhabited δ] {m : Mention δ} {row : Named e δ}

namespace Records

variable (h : r.Records m row r') (hr : r.Coherent)
include h hr

theorem keepsIdentity : r.KeepsIdentity r' where
  next_le := h.next_le
  kept := by
    intro i row' hrow'
    by_cases hi : i = row.id
    · subst hi
      obtain rfl : row = row' := Option.some.inj (h.row_there.symm.trans hrow')
      cases hbase : r.rows[row.id]? with
      | none => exact .inl (h.le_of_absent hbase).1
      | some base =>
          obtain ⟨hrewritten, fits, -⟩ := h.rewritten hr hbase
          refine .inr ⟨base, rfl, ?_, fun hnone => ?_⟩
          · rw [hrewritten, Named.rewrite_mbid]
          · exact h.name_eq.trans (fits.name_eq (.inl hnone)).symm
    · rw [h.getElem?_of_ne hi] at hrow'
      exact .inr ⟨row', hrow', rfl, fun _ => rfl⟩

/-- An older row without an identifier and of the same name would have been found. -/
theorem id_eq_of_name (unique : r.NamesUnique) {j : EntityId e} {other : Named e δ}
    (hj : r.rows[j]? = some other) (hrow : row.mbid = none) (hother : other.mbid = none)
    (hname : row.name = other.name) : row.id = j := by
  have hm : m.mbid = none := by
    cases hm : m.mbid with
    | none => rfl
    | some mbid =>
        have := (Mention.fits_of_some hm).mp h.fits
        rw [hrow] at this
        cases this
  have fits : m.Fits other :=
    (Mention.fits_of_none hm).mpr ⟨hname.symm.trans h.name_eq, .inr hother⟩
  cases hbase : r.rows[row.id]? with
  | none =>
      have hold := hr.numbered.lt_next hj
      have hnew := (h.le_of_absent hbase).1
      have := h.oldest hj fits
      omega
  | some base =>
      obtain ⟨hrewritten, base_fits, -⟩ := h.rewritten hr hbase
      have hmbid : base.mbid = none := by rwa [hrewritten, Named.rewrite_mbid] at hrow
      refine unique hbase hj hmbid hother ?_
      exact (base_fits.name_eq (.inl hmbid)).trans (h.name_eq.symm.trans hname)

theorem namesUnique (unique : r.NamesUnique) : r'.NamesUnique := by
  intro i j first second hi hj hfirst hsecond hname
  by_cases hir : i = row.id <;> by_cases hjr : j = row.id
  · rw [hir, hjr]
  · subst hir
    obtain rfl : row = first := Option.some.inj (h.row_there.symm.trans hi)
    rw [h.getElem?_of_ne hjr] at hj
    exact h.id_eq_of_name hr unique hj hfirst hsecond hname
  · subst hjr
    obtain rfl : row = second := Option.some.inj (h.row_there.symm.trans hj)
    rw [h.getElem?_of_ne hir] at hi
    exact (h.id_eq_of_name hr unique hi hsecond hfirst hname.symm).symm
  · rw [h.getElem?_of_ne hir] at hi
    rw [h.getElem?_of_ne hjr] at hj
    exact unique hi hj hfirst hsecond hname

end Records

namespace RecordsAll

variable {l : List (Mention δ × Named e δ)} (h : r.RecordsAll l r') (hr : r.Coherent)
include h hr

theorem keepsIdentity : r.KeepsIdentity r' := by
  induction h with
  | nil => exact .refl _
  | cons h _ ih => exact (h.keepsIdentity hr).trans (ih (h.coherent hr))

theorem namesUnique (unique : r.NamesUnique) : r'.NamesUnique := by
  induction h with
  | nil => exact unique
  | cons h _ ih => exact ih (h.coherent hr) (h.namesUnique hr unique)

end RecordsAll

end Registry

namespace State

structure NamesUnique (s : State) : Prop where
  artists : s.artists.NamesUnique
  releases : s.releases.NamesUnique

structure KeepsIdentity (s t : State) : Prop where
  artists : s.artists.KeepsIdentity t.artists
  releases : s.releases.KeepsIdentity t.releases

structure Evolves (s t : State) : Prop where
  coherent : t.Coherent
  unique : s.NamesUnique → t.NamesUnique
  keeps : s.KeepsIdentity t

namespace Evolves

variable {s t u : State}

theorem refl (h : s.Coherent) : s.Evolves s := ⟨h, id, .refl _, .refl _⟩

theorem trans (h : s.Evolves t) (h' : t.Evolves u) : s.Evolves u where
  coherent := h'.coherent
  unique := fun hs => h'.unique (h.unique hs)
  keeps := ⟨h.keeps.artists.trans h'.keeps.artists, h.keeps.releases.trans h'.keeps.releases⟩

theorem of_thins (ht : t.Coherent) (h : s.Thins t) : s.Evolves t where
  coherent := ht
  unique := fun hs => ⟨h.artists.namesUnique hs.artists, h.releases.namesUnique hs.releases⟩
  keeps := ⟨h.artists.keepsIdentity, h.releases.keepsIdentity⟩

theorem of_records (h : s.Coherent) (ht : t.Coherent)
    {l : List (Mention (Option String) × Artist)} {l' : List (Mention Unit × Release)}
    (artists : s.artists.RecordsAll l t.artists) (releases : s.releases.RecordsAll l' t.releases) :
    s.Evolves t where
  coherent := ht
  unique := fun hs =>
    ⟨artists.namesUnique h.artists hs.artists, releases.namesUnique h.releases hs.releases⟩
  keeps := ⟨artists.keepsIdentity h.artists, releases.keepsIdentity h.releases⟩

end Evolves

end State

end Catalog

namespace Scan

open Catalog Session

variable {s t : State}

/-- Finding what a tag speaks of, removing artists and releases, and scans, with all that they commit
on their way and with the settings brought up to date between them. -/
inductive Identifying : State → State → Prop
  | resolved {s t : State} (infos : List Tag.ArtistInfo) (borrows : Bool) {artists : List Artist}
      (hrun : resolveArtists infos borrows s = .ok artists t) : Identifying s t
  | resolvedRelease {s t : State} (album : Tag.AlbumInfo) {release : Option Release}
      (hrun : resolveRelease album s = .ok release t) : Identifying s t
  | artistRemoved {s t : State} (i : ArtistId) {isRemoved : Bool}
      (hrun : removeArtist i s = .ok isRemoved t) : Identifying s t
  | releaseRemoved {s t : State} (i : ReleaseId) {isRemoved : Bool}
      (hrun : removeRelease i s = .ok isRemoved t) : Identifying s t
  | synced {s t : State} (names : List String) {settings : ScanSettings}
      (hrun : syncSettings names s = .ok settings t) : Identifying s t
  | committed {s t : State} {plan : Plan} {written? : Option String}
      (hc : Commit plan s t written?) : Identifying s t
  | scanned {s : State} {σ κ : Type} (env : Surroundings σ κ) (plan : Plan) {w : σ} {r : Run σ}
      (hrun : process env plan (Run.start w s) = .ok () r) : Identifying s r.catalog

theorem Commit.evolves {plan : Plan} {written? : Option String} (hc : Commit plan s t written?)
    (h : s.Coherent) : s.Evolves t := by
  rcases hc.absorbs h with thins | ⟨m, absorbs⟩
  · exact .of_thins (hc.coherent h) thins
  · obtain ⟨_, -, artists⟩ := absorbs.artists
    obtain ⟨_, -, releases⟩ := absorbs.releases
    exact .of_records h (hc.coherent h) artists releases

namespace Identifying

theorem evolves (hs : Identifying s t) (h : s.Coherent) : s.Evolves t := by
  cases hs with
  | resolved infos borrows hrun =>
      have ends := resolveArtists_writes h infos borrows
      rw [Succeeds, Ends, hrun] at ends
      have ht := ends.coherent h
      obtain ⟨_, ⟨l, -, -, hl⟩, rfl⟩ := ends
      exact .of_records h ht hl (.nil _)
  | resolvedRelease album hrun =>
      have ends := resolveRelease_writes h album
      rw [Succeeds, Ends, hrun] at ends
      have ht := ends.coherent h
      obtain ⟨_, ⟨l, -, -, hl⟩, rfl⟩ := ends
      exact .of_records h ht (.nil _) hl
  | artistRemoved i hrun =>
      have ends := removeArtist_thins h i
      rw [Succeeds, Ends, hrun] at ends
      exact .of_thins ends.1 ends.2
  | releaseRemoved i hrun =>
      have ends := removeRelease_thins h i
      rw [Succeeds, Ends, hrun] at ends
      exact .of_thins ends.1 ends.2
  | synced names hrun =>
      have ends := syncSettings_thins h names
      rw [Succeeds, Ends, hrun] at ends
      exact .of_thins ends.1 ends.2
  | committed hc => exact hc.evolves h
  | @scanned _ _ env plan w _ hrun =>
      have ends := process_commits (P := s.Evolves) (fun ht => ht.coherent) env plan
        (fun ht hc => ht.trans (hc.evolves ht.coherent)) (.refl h) w
      rwa [Succeeds, Ends, hrun] at ends

theorem evolves_of_steps (hs : Relation.ReflTransGen Identifying s t) (h : s.Coherent) :
    s.Evolves t := by
  induction hs with
  | refl => exact .refl h
  | tail _ step ih => exact ih.trans (step.evolves ih.coherent)

/-- From the empty catalog on, names without an identifier are unique at any time, and artists and
releases are then the same ones at any later time. -/
theorem namesakes (hs : Relation.ReflTransGen Identifying {} s)
    (ht : Relation.ReflTransGen Identifying s t) : s.NamesUnique ∧ s.KeepsIdentity t := by
  have before := evolves_of_steps hs State.coherent_empty
  have empty : ({} : State).NamesUnique := by
    constructor <;>
      · intro i j row other hi
        simp at hi
  exact ⟨before.unique empty, (evolves_of_steps ht before.coherent).keeps⟩

def duet : Path → Except Tag.ParseError Tag.Metadata := fun _ =>
  .ok { audioStreams := 1, durationMs := 1000, artists := [⟨"Z", some someRecording, none⟩],
        composers := [⟨"A", none, none⟩] }

/-- An artist that a scan made is renamed to the name of one without an identifier, which is then
removed. -/
theorem namesakes_renamed : ∃ s t, Relation.ReflTransGen Identifying {} s ∧
    Relation.ReflTransGen Identifying s t ∧
    s.artists.named = [(1, "Z", true), (2, "A", false)] ∧ t.artists.named = [(1, "A", true)] ∧
    s.NamesUnique ∧ s.KeepsIdentity t := by
  obtain ⟨r, hscan, hnamed, runs⟩ := exists_scan (quiet (album [("a.mp3", 1)]) duet 0)
    (albumPlan false) [] {} (Q := fun s =>
      s.artists.named = [(1, "Z", true), (2, "A", false)] ∧
        Succeeds (resolveArtists [⟨"A", some someRecording, none⟩] true >>= fun _ =>
          removeArtist ⟨2⟩) s fun _ t => t.artists.named = [(1, "A", true)]) (by decide +kernel)
  obtain ⟨_, u, _, t, hrenamed, hremoved, left⟩ := succeeds_bind_iff.mp runs
  have hs : Relation.ReflTransGen Identifying {} r.catalog := .single (scanned _ _ hscan)
  have ht : Relation.ReflTransGen Identifying r.catalog t :=
    (Relation.ReflTransGen.single (resolved _ _ hrenamed)).tail (artistRemoved _ hremoved)
  obtain ⟨unique, keeps⟩ := namesakes hs ht
  exact ⟨r.catalog, t, hs, ht, hnamed, left, unique, keeps⟩

end Identifying

end Scan

end AudioCatalog
