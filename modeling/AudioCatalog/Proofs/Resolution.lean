import AudioCatalog.Proofs.Mention
import AudioCatalog.Proofs.Reconciliation

namespace AudioCatalog

namespace Tag

/-- An entry with neither an identifier nor a name is of nobody. -/
def ArtistInfo.isBlank (info : ArtistInfo) : Bool := info.mbid.isNone && info.name = ""

theorem ArtistInfo.not_isBlank :
    (fun info : ArtistInfo => !info.isBlank) = fun info => info.mbid.isSome || info.name ≠ "" := by
  funext info
  cases hm : info.mbid <;> simp [isBlank, hm]

def AlbumInfo.isBlank (album : AlbumInfo) : Bool := album.mbid.isNone && album.name = ""

def ArtistInfo.mention (borrows : Bool) (info : ArtistInfo) : Mention (Option String) :=
  ⟨info.name, info.mbid, info.sortName.map some, borrows⟩

def AlbumInfo.mention (album : AlbumInfo) : Mention Unit := ⟨album.name, album.mbid, none, false⟩

end Tag

namespace Catalog

namespace Registry

variable {e : Entity} {δ : Type} {r : Registry e δ} {m : Mention δ} {row : Named e δ}

theorem updated_self (hrow : r.rows[row.id]? = some row) : r.updated row row = r := by
  have rows : r.rows.insert row.id row = r.rows := by
    apply Std.ExtTreeMap.ext_getElem?
    intro i
    by_cases hi : i = row.id
    · rw [hi, getElem?_insert_self, hrow]
    · exact getElem?_insert_of_ne hi
  simp [updated, put, rows]

namespace Coherent

variable (h : r.Coherent)
include h

theorem update_rewrite (hrow : r.rows[row.id]? = some row) :
    r.update (row.rewrite m) = .ok ((), r.updated row (row.rewrite m)) := by
  have hat : r.rows[(row.rewrite m).id]? = some row := hrow
  rw [h.update_eq hat]
  rcases h.checkMbid_cases row.mbid (fun other => other.id = row.id) with
    ⟨hok, -⟩ | ⟨mbid, other, hm, hother, hmbid, hown, -⟩
  · rw [Named.rewrite_mbid, Named.rewrite_id, hok]
    rfl
  · have same := h.eq_of_mbid hother hrow hmbid hm
    simp [same] at hown

variable [Inhabited δ]

theorem create_made (unfit : ∀ (i : EntityId e) (other : Named e δ), r.rows[i]? = some other →
      ¬ m.Fits other) :
    r.create m.name m.mbid (m.detail.getD default) =
      .ok (m.made r.next, r.created (m.made r.next)) := by
  rw [create_eq]
  rcases h.checkMbid_cases m.mbid (fun _ => false) with
    ⟨hok, -⟩ | ⟨mbid, other, hm, hother, hmbid, -⟩
  · rw [hok]
    rfl
  · exact absurd ((Mention.fits_of_some hm).mpr hmbid) (unfit _ _ hother)

theorem findByMbid_records {mbid : Mbid} (hm : m.mbid = some mbid) :
    (∃ row, r.findByMbid mbid = .ok (some row) ∧ r.rows[row.id]? = some row ∧
      r.Records m (row.rewrite m) (r.updated row (row.rewrite m))) ∨
    (r.findByMbid mbid = .ok none ∧
      ∀ (i : EntityId e) (other : Named e δ), r.rows[i]? = some other → ¬ m.Fits other) := by
  rcases h.findByMbid_cases mbid with ⟨row, hrow, hmbid, hfind⟩ | ⟨hnone, hfind⟩
  · refine .inl ⟨row, hfind, hrow, .known hrow ((Mention.fits_of_some hm).mpr hmbid) ?_⟩
    intro i other hi fits
    have := h.eq_of_mbid hrow hi hmbid ((Mention.fits_of_some hm).mp fits)
    exact Nat.le_of_eq (congrArg EntityId.number this)
  · refine .inr ⟨hfind, fun i other hi fits => ?_⟩
    exact hnone i other hi ((Mention.fits_of_some hm).mp fits)

theorem findByName_records (hm : m.mbid = none) :
    ∃ namesakes, r.findByName m.name = .ok namesakes ∧
      match namesakes.find? fun row => m.borrows || row.mbid.isNone with
      | some row => r.rows[row.id]? = some row ∧ row.name = m.name ∧
          r.Records m (row.rewrite m) (r.updated row (row.rewrite m))
      | none => ∀ (i : EntityId e) (other : Named e δ), r.rows[i]? = some other →
          ¬ m.Fits other := by
  obtain ⟨namesakes, hfound, ordered, members⟩ := h.findByName_ok m.name
  have member {i : EntityId e} {other : Named e δ} (hi : r.rows[i]? = some other)
      (fits : m.Fits other) :
      other ∈ namesakes ∧ (m.borrows || other.mbid.isNone) = true := by
    obtain ⟨hname, hfree⟩ := (Mention.fits_of_none hm).mp fits
    exact ⟨(members other).mpr ⟨by rwa [h.numbered.id_eq hi], hname⟩, by simpa using hfree⟩
  refine ⟨namesakes, hfound, ?_⟩
  split
  · rename_i row hfind
    obtain ⟨free, before, after, rfl, others⟩ := List.find?_eq_some_iff_append.mp hfind
    obtain ⟨hrow, hname⟩ := (members row).mp (by simp)
    refine ⟨hrow, hname, .known hrow ((Mention.fits_of_none hm).mpr ⟨hname, by simpa using free⟩) ?_⟩
    intro i other hi fits
    obtain ⟨hother, hfree⟩ := member hi fits
    rw [← h.numbered.id_eq hi]
    rcases List.mem_append.mp hother with first | later
    · have := others other first
      simp [hfree] at this
    · rcases List.mem_cons.mp later with rfl | later
      · exact Nat.le_refl _
      · have := (List.pairwise_append.mp ordered).2.1
        exact Nat.le_of_lt (List.rel_of_pairwise_cons this later)
  · rename_i hfind
    intro i other hi fits
    obtain ⟨hother, hfree⟩ := member hi fits
    exact List.find?_eq_none.mp hfind other hother hfree

end Coherent

/-- The mentions were taken in one after the other, and were about these rows. -/
def TakesIn [Inhabited δ] (r : Registry e δ) (ms : List (Mention δ)) (rows : List (Named e δ))
    (r' : Registry e δ) : Prop :=
  ∃ l, l.map Prod.fst = ms ∧ l.map Prod.snd = rows ∧ RecordsAll r l r'

namespace TakesIn

variable [Inhabited δ] {r' r'' : Registry e δ} {ms ms' : List (Mention δ)}
  {rows rows' : List (Named e δ)}

theorem nil (r : Registry e δ) : TakesIn r [] [] r := ⟨[], rfl, rfl, .nil r⟩

theorem single (h : r.Records m row r') : TakesIn r [m] [row] r' :=
  ⟨[(m, row)], rfl, rfl, .cons h (.nil r')⟩

theorem append (h : TakesIn r ms rows r') (h' : TakesIn r' ms' rows' r'') :
    TakesIn r (ms ++ ms') (rows ++ rows') r'' := by
  obtain ⟨l, rfl, rfl, hl⟩ := h
  obtain ⟨l', rfl, rfl, hl'⟩ := h'
  exact ⟨l ++ l', by simp, by simp, hl.append hl'⟩

end TakesIn

end Registry

namespace Session

open Tag

variable {s : State}

theorem refreshed_eq (artist : Artist) (info : ArtistInfo) (borrows : Bool) :
    refreshed artist info = artist.rewrite (info.mention borrows) := by
  cases hsort : info.sortName <;> simp [refreshed, Named.rewrite, ArtistInfo.mention, hsort]

theorem refreshArtist_writes (h : s.Coherent) {artist : Artist}
    (hrow : s.artists.rows[artist.id]? = some artist) (info : ArtistInfo) (borrows : Bool) :
    Succeeds (refreshArtist artist info) s fun artist' t =>
      artist' = artist.rewrite (info.mention borrows) ∧
        t = { s with artists := s.artists.updated artist (artist.rewrite (info.mention borrows)) } := by
  unfold refreshArtist Succeeds
  rw [refreshed_eq artist info borrows]
  dsimp only
  split_ifs with hne
  · rw [Ends.bind_iff, updateArtist, onArtists_ends_iff, h.artists.update_rewrite hrow]
    exact ⟨rfl, rfl⟩
  · rw [not_not] at hne
    exact ⟨rfl, by rw [hne, Registry.updated_self hrow]⟩

theorem createArtist_writes (h : s.Coherent) (info : ArtistInfo) (borrows : Bool)
    (unfit : ∀ (i : ArtistId) (other : Artist), s.artists.rows[i]? = some other →
      ¬ (info.mention borrows).Fits other) :
    Succeeds (createArtist info.name info.sortName info.mbid) s fun artist t =>
      artist = (info.mention borrows).made s.artists.next ∧
        t = { s with
          artists := s.artists.created ((info.mention borrows).made s.artists.next) } := by
  have hdetail : (info.mention borrows).detail.getD default = info.sortName := by
    rw [ArtistInfo.mention]
    cases info.sortName <;> rfl
  have hmade := h.artists.create_made unfit
  rw [hdetail] at hmade
  unfold createArtist Succeeds
  rw [onArtists_ends_iff, show s.artists.create info.name info.mbid info.sortName = _ from hmade]
  exact ⟨rfl, rfl⟩

def TakesArtists (ms : List (Mention (Option String))) (s : State) (artists : List Artist)
    (t : State) : Prop :=
  ∃ registry, s.artists.TakesIn ms artists registry ∧ t = { s with artists := registry }

theorem TakesArtists.coherent {ms : List (Mention (Option String))} {artists : List Artist}
    {t : State} (h : TakesArtists ms s artists t) (hs : s.Coherent) : t.Coherent := by
  obtain ⟨_, ⟨l, -, -, hl⟩, rfl⟩ := h
  exact hs.withArtists (hl.coherent hs.artists)

theorem resolveTagged_writes (h : s.Coherent) (info : ArtistInfo) (borrows : Bool) {mbid : Mbid}
    (hm : info.mbid = some mbid) :
    Succeeds (resolveTagged info mbid) s fun artist =>
      TakesArtists [info.mention borrows] s [artist] := by
  unfold resolveTagged Succeeds
  rw [Ends.bind_iff, query_ends_iff]
  rcases h.artists.findByMbid_records (m := info.mention borrows) hm with
    ⟨artist, hfind, hrow, records⟩ | ⟨hfind, unfit⟩
  · rw [hfind]
    refine (refreshArtist_writes h hrow info borrows).imp ?_ fun _ _ => id
    rintro _ _ ⟨rfl, rfl⟩
    exact ⟨_, .single records, rfl⟩
  · rw [hfind, ← hm]
    refine (createArtist_writes h info borrows unfit).imp ?_ fun _ _ => id
    rintro _ _ ⟨rfl, rfl⟩
    exact ⟨_, .single (.new unfit), rfl⟩

theorem resolveNamed_writes (h : s.Coherent) (info : ArtistInfo) (borrows : Bool)
    (hm : info.mbid = none) :
    Succeeds (resolveNamed info borrows) s fun artist =>
      TakesArtists [info.mention borrows] s [artist] := by
  obtain ⟨namesakes, hfound, hfirst⟩ :=
    h.artists.findByName_records (m := info.mention borrows) hm
  unfold resolveNamed Succeeds
  rw [Ends.bind_iff, query_ends_iff, show s.artists.findByName info.name = _ from hfound]
  dsimp only [ArtistInfo.mention] at hfirst ⊢
  cases hfind : namesakes.find? fun artist => borrows || artist.mbid.isNone with
  | some artist =>
      rw [hfind] at hfirst
      refine (refreshArtist_writes h hfirst.1 info borrows).imp ?_ fun _ _ => id
      rintro _ _ ⟨rfl, rfl⟩
      exact ⟨_, .single hfirst.2.2, rfl⟩
  | none =>
      rw [hfind] at hfirst
      rw [← hm]
      refine (createArtist_writes h info borrows hfirst).imp ?_ fun _ _ => id
      rintro _ _ ⟨rfl, rfl⟩
      exact ⟨_, .single (.new hfirst), rfl⟩

def artistMentions (borrows : Bool) (infos : List ArtistInfo) : List (Mention (Option String)) :=
  (infos.filter (!·.isBlank)).map (ArtistInfo.mention borrows)

theorem resolveArtist?_writes (h : s.Coherent) (info : ArtistInfo) (borrows : Bool) :
    Succeeds (resolveArtist? info borrows) s fun found =>
      TakesArtists (artistMentions borrows [info]) s found.toList := by
  unfold resolveArtist? Succeeds
  split
  · rename_i mbid hm
    have speaks : artistMentions borrows [info] = [info.mention borrows] := by
      simp [artistMentions, ArtistInfo.isBlank, hm]
    rw [speaks]
    exact Ends.bind (resolveTagged_writes h info borrows hm) fun _ _ => id
  · rename_i hm
    split_ifs with hname
    · have silent : artistMentions borrows [info] = [] := by
        simp [artistMentions, ArtistInfo.isBlank, hm, hname]
      rw [silent]
      exact ⟨_, .nil _, rfl⟩
    · have speaks : artistMentions borrows [info] = [info.mention borrows] := by
        simp [artistMentions, ArtistInfo.isBlank, hm, hname]
      rw [speaks]
      exact Ends.bind (resolveNamed_writes h info borrows hm) fun _ _ => id

theorem resolveArtists_writes (h : s.Coherent) (infos : List ArtistInfo) (borrows : Bool) :
    Succeeds (resolveArtists infos borrows) s (TakesArtists (artistMentions borrows infos) s) := by
  refine Ends.filterMapM_along (I := fun done =>
    TakesArtists (artistMentions borrows done) s) ?_ ⟨_, .nil _, rfl⟩
  intro info _ done artists t ht
  refine (resolveArtist?_writes (ht.coherent h) info borrows).imp ?_ fun _ _ => id
  rintro found u ⟨registry', taken', rfl⟩
  obtain ⟨registry, taken, rfl⟩ := ht
  refine ⟨registry', ?_, rfl⟩
  simpa [artistMentions] using taken.append taken'

def TakesReleases (ms : List (Mention Unit)) (s : State) (releases : List Release) (t : State) :
    Prop :=
  ∃ registry, s.releases.TakesIn ms releases registry ∧ t = { s with releases := registry }

theorem TakesReleases.coherent {ms : List (Mention Unit)} {releases : List Release}
    {t : State} (h : TakesReleases ms s releases t) (hs : s.Coherent) : t.Coherent := by
  obtain ⟨_, ⟨l, -, -, hl⟩, rfl⟩ := h
  exact hs.withReleases (hl.coherent hs.releases)

theorem renameRelease_writes (h : s.Coherent) {release : Release}
    (hrow : s.releases.rows[release.id]? = some release) (album : AlbumInfo) :
    Succeeds (renameRelease release album.name) s fun release' t =>
      release' = release.rewrite album.mention ∧
        t = { s with releases := s.releases.updated release (release.rewrite album.mention) } := by
  unfold renameRelease Succeeds
  split_ifs with hname
  · have same : release.rewrite album.mention = release := Named.eq_of_fields rfl hname.symm rfl rfl
    rw [same, Registry.updated_self hrow]
    exact ⟨rfl, rfl⟩
  · have renamed : ({ release with name := album.name } : Release) =
        release.rewrite album.mention := rfl
    dsimp only
    rw [renamed, Ends.bind_iff, updateRelease, onReleases_ends_iff, h.releases.update_rewrite hrow]
    exact ⟨rfl, rfl⟩

theorem createRelease_writes (h : s.Coherent) (album : AlbumInfo)
    (unfit : ∀ (i : ReleaseId) (other : Release), s.releases.rows[i]? = some other →
      ¬ album.mention.Fits other) :
    Succeeds (createRelease album.name album.mbid) s fun release =>
      TakesReleases [album.mention] s [release] := by
  unfold createRelease Succeeds
  rw [onReleases_ends_iff,
    show s.releases.create album.name album.mbid () = _ from h.releases.create_made unfit]
  exact ⟨_, .single (.new unfit), rfl⟩

def releaseMentions (album : Option AlbumInfo) : List (Mention Unit) :=
  (album.toList.filter (!·.isBlank)).map AlbumInfo.mention

theorem resolveRelease_writes (h : s.Coherent) (album : AlbumInfo) :
    Succeeds (resolveRelease album) s fun found =>
      TakesReleases (releaseMentions (some album)) s found.toList := by
  unfold resolveRelease Succeeds
  split
  · rename_i mbid hm
    have speaks : releaseMentions (some album) = [album.mention] := by
      simp [releaseMentions, AlbumInfo.isBlank, hm]
    rw [speaks, Ends.bind_iff, query_ends_iff]
    rcases h.releases.findByMbid_records (m := album.mention) hm with
      ⟨release, hfind, hrow, records⟩ | ⟨hfind, unfit⟩
    · rw [hfind]
      refine Ends.bind (renameRelease_writes h hrow album) ?_
      rintro _ _ ⟨rfl, rfl⟩
      exact ⟨_, .single records, rfl⟩
    · rw [hfind, ← hm]
      exact Ends.bind (createRelease_writes h album unfit) fun _ _ => id
  · rename_i hm
    split_ifs with hname
    · have silent : releaseMentions (some album) = [] := by
        simp [releaseMentions, AlbumInfo.isBlank, hm, hname]
      rw [silent]
      exact ⟨_, .nil _, rfl⟩
    · have speaks : releaseMentions (some album) = [album.mention] := by
        simp [releaseMentions, AlbumInfo.isBlank, hname]
      obtain ⟨namesakes, hfound, hfirst⟩ := h.releases.findByName_records (m := album.mention) hm
      rw [speaks, Ends.bind_iff, query_ends_iff,
        show s.releases.findByName album.name = _ from hfound]
      have free : (fun release : Release => album.mention.borrows || release.mbid.isNone) =
          fun release => release.mbid.isNone := rfl
      rw [free] at hfirst
      dsimp only
      cases hfind : namesakes.find? fun release => release.mbid.isNone with
      | some release =>
          rw [hfind] at hfirst
          obtain ⟨hrow, hname, records⟩ := hfirst
          have same : release.rewrite album.mention = release :=
            Named.eq_of_fields rfl hname.symm rfl rfl
          rw [same, Registry.updated_self hrow] at records
          exact ⟨_, .single records, rfl⟩
      | none =>
          rw [hfind] at hfirst
          rw [← hm]
          exact Ends.bind (createRelease_writes h album hfirst) fun _ _ => id

end Session

namespace State

def credited (i : TrackId) (credits : List (ArtistId × Role)) (s : State) : State :=
  credits.foldl (fun s c => s.withCredit ⟨⟨s.nextCredit⟩, i, c.1, c.2⟩) s

variable {s : State} {i : TrackId}

theorem credited_append (credits credits' : List (ArtistId × Role)) :
    s.credited i (credits ++ credits') = (s.credited i credits).credited i credits' := by
  simp [credited]

/-- Credits and the registries of what they are to have nothing to do with each other. -/
theorem credited_withArtists (credits : List (ArtistId × Role))
    (artists : Registry .artist (Option String)) :
    ({ s with artists } : State).credited i credits = { s.credited i credits with artists } := by
  induction credits generalizing s with
  | nil => rfl
  | cons c credits ih => exact ih (s := s.withCredit ⟨⟨s.nextCredit⟩, i, c.1, c.2⟩)

theorem credited_others (credits : List (ArtistId × Role)) :
    s.credited i credits = { s with
      credits := (s.credited i credits).credits
      creditsOfTrack := (s.credited i credits).creditsOfTrack
      creditsOfArtist := (s.credited i credits).creditsOfArtist
      nextCredit := (s.credited i credits).nextCredit } := by
  induction credits generalizing s with
  | nil => rfl
  | cons c credits ih => exact (ih (s := s.withCredit ⟨⟨s.nextCredit⟩, i, c.1, c.2⟩)).trans rfl

theorem Coherent.credited (h : s.Coherent) (credits : List (ArtistId × Role)) :
    (s.credited i credits).Coherent := by
  induction credits generalizing s with
  | nil => exact h
  | cons c credits ih => exact ih (h.withCredit rfl)

end State

end Catalog

namespace Scan

open Catalog Session Tag

variable {s : State}

def creditEntries (m : Metadata) : List (Role × ArtistInfo) :=
  (creditLists m).flatMap fun credit => (credit.2.filter (!·.isBlank)).map (credit.1, ·)

abbrev Finding := (Role × ArtistInfo) × Artist

def Finding.said (x : Finding) : Mention (Option String) × Artist :=
  (x.1.2.mention (borrows x.1.1), x.2)

def Finding.credit (x : Finding) : ArtistId × Role := (x.2.id, x.1.1)

def clusterKeys (s : State) (m : Metadata) : List ClusterKey :=
  m.clusters.toList.flatMap (keysFor s)

theorem clusterKeys_eq {t : State} (h : s.SameTypes t) (m : Metadata) :
    clusterKeys t m = clusterKeys s m := by
  have keys : keysFor t = keysFor s := by
    funext values
    rw [keysFor, h.findClusterTypeByName_eq, keysFor]
  rw [clusterKeys, keys, clusterKeys]

theorem creditArtists_writes (h : s.Coherent) (i : TrackId) (role : Role)
    (infos : List ArtistInfo) :
    Succeeds (creditArtists i role infos) s fun _ t =>
      ∃ (found : List Finding) (artists : Registry .artist (Option String)),
        found.map Prod.fst = (infos.filter (!·.isBlank)).map (role, ·) ∧
        s.artists.RecordsAll (found.map Finding.said) artists ∧
        t = { s.credited i (found.map Finding.credit) with artists } := by
  unfold creditArtists Succeeds
  apply Ends.bind (resolveArtists_writes h infos (borrows role))
  rintro artists _ ⟨registry, ⟨l, hmentions, rfl, hl⟩, rfl⟩
  have credits : Succeeds ((l.map Prod.snd).forM fun artist : Artist => do
      let _ ← addCredit i artist.id role) { s with artists := registry } fun _ t =>
      t = ({ s with artists := registry } : State).credited i
        ((l.map Prod.snd).map fun artist : Artist => (artist.id, role)) := by
    refine Ends.forM_along (I := fun done t =>
      t = ({ s with artists := registry } : State).credited i
        (done.map fun artist : Artist => (artist.id, role))) ?_ rfl
    rintro artist _ done _ rfl
    rw [List.map_append, State.credited_append]
    rfl
  refine credits.imp ?_ fun _ _ => id
  rintro _ _ rfl
  have length : ((infos.filter (!·.isBlank)).map (role, ·)).length = (l.map Prod.snd).length := by
    simpa [artistMentions] using (congrArg List.length hmentions).symm
  refine ⟨((infos.filter (!·.isBlank)).map (role, ·)).zip (l.map Prod.snd), registry, ?_, ?_, ?_⟩
  · exact List.map_fst_zip (Nat.le_of_eq length)
  · have said : (((infos.filter (!·.isBlank)).map (role, ·)).zip (l.map Prod.snd)).map
        Finding.said = (artistMentions (borrows role) infos).zip (l.map Prod.snd) := by
      simp [artistMentions, List.zip_map_left, Function.comp_def, Finding.said]
    rw [said, ← hmentions, ← List.zip_of_prod rfl rfl]
    exact hl
  · have credited : (((infos.filter (!·.isBlank)).map (role, ·)).zip (l.map Prod.snd)).map
        Finding.credit = (l.map Prod.snd).map fun artist => (artist.id, role) := by
      conv_rhs => rw [← List.map_snd_zip (Nat.le_of_eq length.symm), List.map_map]
      refine List.map_congr_left fun x hx => ?_
      obtain ⟨info, -, hinfo⟩ := List.mem_map.mp (List.of_mem_zip hx).1
      simp [Finding.credit, ← hinfo]
    rw [State.credited_withArtists, credited]

theorem creditAll_writes (h : s.Coherent) (i : TrackId) (m : Metadata) :
    Succeeds ((creditLists m).forM fun credit =>
      creditArtists i credit.1 credit.2) s fun _ t =>
      ∃ (found : List Finding) (artists : Registry .artist (Option String)),
        found.map Prod.fst = creditEntries m ∧
        s.artists.RecordsAll (found.map Finding.said) artists ∧
        t = { s.credited i (found.map Finding.credit) with artists } := by
  refine Ends.forM_along (I := fun done t =>
    ∃ (found : List Finding) (artists : Registry .artist (Option String)),
      found.map Prod.fst =
        done.flatMap (fun credit : Role × List ArtistInfo =>
          (credit.2.filter (!·.isBlank)).map (credit.1, ·)) ∧
      s.artists.RecordsAll (found.map Finding.said) artists ∧
      t = { s.credited i (found.map Finding.credit) with artists }) ?_ ⟨[], s.artists, rfl, .nil _, rfl⟩
  rintro credit _ done _ ⟨found, artists, entries, said, rfl⟩
  have coherent : ({ s.credited i (found.map Finding.credit) with artists } : State).Coherent :=
    (h.credited _).withArtists (said.coherent h.artists)
  refine (creditArtists_writes coherent i credit.1 credit.2).imp ?_ fun _ _ => id
  rintro _ _ ⟨found', artists', entries', said', rfl⟩
  refine ⟨found ++ found', artists', ?_, ?_, ?_⟩
  · simp [entries, entries']
  · rw [List.map_append]
    exact said.append said'
  · rw [List.map_append, State.credited_append, State.credited_withArtists]

theorem resolveAlbum_writes (h : s.Coherent) (album : Option AlbumInfo) :
    Succeeds (resolveAlbum album) s fun releaseId t => ∃ released,
      releaseId = released.head?.map Named.id ∧
        TakesReleases (releaseMentions album) s released t := by
  unfold resolveAlbum Succeeds
  cases album with
  | none => exact ⟨[], rfl, s.releases, .nil _, rfl⟩
  | some album =>
      refine Ends.bind (resolveRelease_writes h album) fun release t taken => ?_
      exact ⟨release.toList, by cases release <;> rfl, taken⟩

/-- What was found for a tag on the way to writing the track. -/
structure Resolution (s : State) (track : Track) (m : Metadata) where
  found : List Finding
  artists : Registry .artist (Option String)
  released : List Release
  releases : Registry .release Unit
  clusters : List Cluster
  settled : State
  entries : found.map Prod.fst = creditEntries m
  takesArtists : s.artists.RecordsAll (found.map Finding.said) artists
  takesReleases : s.releases.TakesIn (releaseMentions m.album) released releases
  provided : Provided { (s.withoutCreditsOf track.id).credited track.id (found.map Finding.credit) with
    artists, releases } (clusterKeys s m) clusters settled

namespace Resolution

variable {track : Track} {m : Metadata} (x : Resolution s track m)

def credited : State :=
  (s.withoutCreditsOf track.id).credited track.id (x.found.map Finding.credit)

def written (entry : Entry) (stamp : Stamp) : Track :=
  { described track entry m stamp with
    releaseId := x.released.head?.map Named.id
    clusterIds := .ofList (x.clusters.map Cluster.id) compare }

def result (entry : Entry) (stamp : Stamp) : State :=
  { x.settled with features := x.settled.features.erase track.id }.withTrack track
    (x.written entry stamp)

theorem settled_eq : x.settled = { s with
    artists := x.artists
    releases := x.releases
    clusters := x.settled.clusters
    clusterByKey := x.settled.clusterByKey
    nextCluster := x.settled.nextCluster
    credits := x.credited.credits
    creditsOfTrack := x.credited.creditsOfTrack
    creditsOfArtist := x.credited.creditsOfArtist
    nextCredit := x.credited.nextCredit } := by
  rw [x.provided.others, State.credited_others]
  rfl

theorem result_artists (entry : Entry) (stamp : Stamp) :
    (x.result entry stamp).artists = x.artists :=
  congrArg State.artists x.settled_eq

theorem result_releases (entry : Entry) (stamp : Stamp) :
    (x.result entry stamp).releases = x.releases :=
  congrArg State.releases x.settled_eq

theorem result_tracks (entry : Entry) (stamp : Stamp) :
    (x.result entry stamp).tracks = s.tracks.insert track.id (x.written entry stamp) := by
  have tracks : x.settled.tracks = s.tracks := by rw [x.settled_eq]
  exact congrArg (fun rows : Table TrackId Track => rows.insert track.id (x.written entry stamp))
    tracks

theorem result_trackByPath (entry : Entry) (stamp : Stamp) :
    (x.result entry stamp).trackByPath = s.trackByPath := by
  have kept : (x.result entry stamp).trackByPath = x.settled.trackByPath := if_pos rfl
  rw [kept, x.settled_eq]

theorem result_coherent (hrow : s.tracks[track.id]? = some track) (entry : Entry) (stamp : Stamp) :
    (x.result entry stamp).Coherent := by
  refine (x.provided.coherent.withFeatures (x.settled.features.erase track.id)).withTrack ?_
  rw [show x.settled.tracks = s.tracks by rw [x.settled_eq]]
  exact hrow

end Resolution

theorem applyMetadata_writes (h : s.Coherent) {track : Track}
    (hrow : s.tracks[track.id]? = some track) (entry : Entry) (m : Metadata) (stamp : Stamp) :
    Succeeds (applyMetadata track entry m stamp) s fun _ t =>
      ∃ x : Resolution s track m, t = x.result entry stamp := by
  have h₁ := h.withoutCreditsOf track.id
  unfold applyMetadata Succeeds
  rw [Ends.bind_iff, State.clearCredits_ends_iff]
  apply Ends.bind (creditAll_writes h₁ track.id m)
  rintro _ _ ⟨found, artists, entries, takesArtists, rfl⟩
  have h₂ := (h₁.credited (i := track.id) (found.map Finding.credit)).withArtists
    (takesArtists.coherent h₁.artists)
  apply Ends.bind (resolveAlbum_writes h₂ m.album)
  rintro _ t₃ ⟨released, rfl, taken⟩
  have h₃ := taken.coherent h₂
  obtain ⟨releases, takesReleases, rfl⟩ := taken
  apply Ends.bind (resolveClusters_provides m.clusters h₃)
  intro clusters settled provided
  have sameTypes : s.SameTypes { (s.withoutCreditsOf track.id).credited track.id
      (found.map Finding.credit) with artists, releases } := by
    rw [State.credited_others]
    exact ⟨rfl, rfl⟩
  let x : Resolution s track m :=
    { found, artists, released, releases, clusters, settled, entries, takesArtists
      takesReleases := by
        rw [State.credited_others] at takesReleases
        exact takesReleases
      provided := by
        rw [← clusterKeys_eq sameTypes]
        exact provided }
  have hprevious : settled.tracks[track.id]? = some track := by
    rw [show settled = x.settled from rfl, x.settled_eq]
    exact hrow
  simp only [removeFeatures, Ends.bind_iff, Ends.get_iff, Ends.modify_iff, Ends.pure_iff,
    State.updateTrack_ends_iff]
  rw [show settled.tracks[(described track entry m stamp).id]? = some track from hprevious]
  exact ⟨x, rfl⟩

end Scan

end AudioCatalog
