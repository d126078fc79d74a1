import AudioCatalog.Proofs.OtherTracks

namespace AudioCatalog.Scan

open Catalog Session Tag

variable {s t : State} {m : Metadata}

def entriesFor (role : Role) (infos : List ArtistInfo) : List (Role × ArtistInfo) :=
  (infos.filter fun info => info.mbid.isSome || info.name ≠ "").map (role, ·)

def entriesByRole (m : Metadata) : List (Role × ArtistInfo) :=
  entriesFor .artist m.artists ++ entriesFor .releaseArtist m.albumArtists ++
  entriesFor .conductor m.conductors ++ entriesFor .composer m.composers ++
  entriesFor .lyricist m.lyricists ++ entriesFor .mixer m.mixers ++
  m.performers.toList.flatMap (fun (part, infos) => entriesFor (.performer part) infos) ++
  entriesFor .producer m.producers ++ entriesFor .remixer m.remixers

theorem creditEntries_eq (m : Metadata) : creditEntries m = entriesByRole m := by
  simp [creditEntries, creditLists, entriesByRole, entriesFor, ArtistInfo.not_isBlank,
    List.flatMap_map]

/-- Performers without a part come first, the others in the order of their parts. -/
def PartBefore : Option String → Option String → Prop
  | none, some _ => True
  | some part, some part' => part < part'
  | _, none => False

theorem performers_pairwise (m : Metadata) :
    (m.performers.toList.map Prod.fst).Pairwise PartBefore := by
  have ordered := Std.ExtTreeMap.ordered_keys (t := m.performers)
  rw [← Std.ExtTreeMap.map_fst_toList_eq_keys] at ordered
  refine ordered.imp fun {part part'} hlt => ?_
  match part, part', hlt with
  | none, some _, _ => trivial
  | some _, some _, hlt => exact compareOfLessAndEq_eq_lt.mp hlt

/-- The artist can be what an entry means. -/
def IsOf (artists : Registry .artist (Option String)) (entry : Role × ArtistInfo)
    (artist : Artist) : Prop :=
  artists.rows[artist.id]? = some artist ∧
    match entry.2.mbid with
    | some mbid => artist.mbid = some mbid ∧ artists.findByMbid mbid = .ok (some artist)
    | none => artist.name = entry.2.name ∧
        (entry.1 = .artist ∨ entry.1 = .releaseArtist → artist.mbid = none)

theorem isOf_of_fits {artists : Registry .artist (Option String)} (h : artists.Coherent)
    {entry : Role × ArtistInfo} {artist : Artist} (hrow : artists.rows[artist.id]? = some artist)
    (fits : (entry.2.mention (borrows entry.1)).Fits artist) : IsOf artists entry artist := by
  refine ⟨hrow, ?_⟩
  cases hm : entry.2.mbid with
  | some mbid =>
      have hmbid := (Mention.fits_of_some hm).mp fits
      refine ⟨hmbid, ?_⟩
      obtain ⟨found, hfind, rows⟩ := (h.findsByMbid mbid).finds
      rwa [(rows artist).mpr ⟨_, hrow, hmbid⟩] at hfind
  | none =>
      obtain ⟨hname, hfree⟩ := (Mention.fits_of_none hm).mp fits
      refine ⟨hname, fun hmain => hfree.resolve_left ?_⟩
      rcases hmain with hrole | hrole <;> simp [ArtistInfo.mention, hrole, borrows]

namespace Resolution

variable {track : Track} (x : Resolution s track m)

theorem result_creditsOf (hs : s.Coherent) (hrow : s.tracks[track.id]? = some track) (entry : Entry)
    (stamp : Stamp) : (x.result entry stamp).creditsOf track.id =
      .ok ((x.found.map Finding.credit).mapIdx fun k c =>
        ⟨⟨s.nextCredit + k⟩, track.id, c.1, c.2⟩) :=
  State.creditsOf_recredited hs.credits (x.result_coherent hrow entry stamp).credits
    (x.result_credits entry stamp)

theorem found_last (hs : s.Coherent) (tagged : OnlyMainTagged m) :
    ∃ found : List Finding, found.map Prod.fst = creditEntries m ∧
      found.map Finding.credit = x.found.map Finding.credit ∧
      ∀ y ∈ found, IsOf x.artists y.1 y.2 := by
  have ha := x.takesArtists.coherent hs.artists
  have order : (x.found.map Finding.said).Pairwise fun x y =>
      x.1.borrows = true → y.1.mbid = none := by
    have := tagged.mentions_pairwise
    rwa [← x.map_said, List.pairwise_map] at this
  have last : ∀ y ∈ x.found, ∃ row, x.artists.rows[y.2.id]? = some row ∧
      (y.1.2.mention (borrows y.1.1)).Fits row := fun y hy =>
    x.takesArtists.fits_last hs.artists order y.said (List.mem_map_of_mem hy)
  refine ⟨x.found.map fun y => (y.1, (x.artists.rows[y.2.id]?).getD y.2), ?_, ?_, ?_⟩
  · rw [List.map_map, ← x.entries]
    rfl
  · rw [List.map_map]
    refine List.map_congr_left fun y hy => ?_
    obtain ⟨row, hrow, -⟩ := last y hy
    simp [Finding.credit, hrow, ha.numbered.id_eq hrow]
  · intro y hy
    obtain ⟨z, hz, rfl⟩ := List.mem_map.mp hy
    obtain ⟨row, hrow, fits⟩ := last z hz
    simp only [hrow, Option.getD_some]
    exact isOf_of_fits ha (by rw [ha.numbered.id_eq hrow]; exact hrow) fits

end Resolution

section

variable {skipsDuplicates : Bool} {entry : Entry} {stamp : Stamp}

theorem reconcile_of_passes (hs : s.Coherent) (passes : Passes skipsDuplicates s entry.key m)
    {ok : Outcome → State → Prop}
    (updated : ∀ track : Track, s.tracks[track.id]? = some track →
      s.trackByPath[entry.key]? = some track.id → ∀ x : Resolution s track m,
        ok .updated (x.result entry stamp))
    (added : s.trackByPath[entry.key]? = none → ∀ x : Resolution (s.withNewTrack entry.key)
      { id := ⟨s.nextTrack⟩, path := entry.key } m, ok .added (x.result entry stamp)) :
    Succeeds (reconcile skipsDuplicates entry m stamp) s ok := by
  apply reconcile_of_cases hs
  · exact fun _ _ _ _ _ verdict => absurd (verdict.eq_none_iff.mpr passes) (by simp)
  · exact fun _ _ verdict => absurd (verdict.eq_none_iff.mpr passes) (by simp)
  · intro track hrow hentry hpath _
    refine (applyMetadata_writes hs hrow entry m stamp).imp ?_ fun _ _ => id
    rintro _ _ ⟨x, rfl⟩
    exact updated track hrow (hpath ▸ hentry) x
  · intro hnone _
    refine (applyMetadata_writes (hs.withNewTrack entry.key) getElem?_insert_self entry m stamp).imp
      ?_ fun _ _ => id
    rintro _ _ ⟨x, rfl⟩
    exact added hnone x

/-- The track of a file has one credit for each entry, in the order of the entries and with new
numbers, and none of those that it had. -/
def CreditedAnew (s : State) (m : Metadata) (key : String) (t : State) : Prop :=
  ∃ (i : TrackId) (found : List Finding), t.trackByPath[key]? = some i ∧
    found.map Prod.fst = entriesByRole m ∧ (∀ x ∈ found, IsOf t.artists x.1 x.2) ∧
    t.creditsOf i = .ok (found.mapIdx fun k x => ⟨⟨s.nextCredit + k⟩, i, x.2.id, x.1.1⟩) ∧
    ∀ (j : CreditId) (credit : Credit), s.credits[j]? = some credit → credit.trackId = i →
      t.credits[j]? = none

theorem Resolution.creditedAnew {track : Track} (x : Resolution s track m) (hs : s.Coherent)
    (hrow : s.tracks[track.id]? = some track) {key : String}
    (hentry : s.trackByPath[key]? = some track.id) (tagged : OnlyMainTagged m) :
    CreditedAnew s m key (x.result entry stamp) := by
  obtain ⟨found, entries, credits, last⟩ := x.found_last hs tagged
  refine ⟨track.id, found, ?_, ?_, ?_, ?_, ?_⟩
  · rw [x.result_trackByPath, hentry]
  · rw [entries, creditEntries_eq]
  · rwa [x.result_artists]
  · rw [x.result_creditsOf hs hrow, ← credits]
    congr 1
    apply List.ext_getElem?
    simp [Finding.credit, Function.comp_def]
  · intro j credit hcredit htrack
    rw [x.result_credits, credited, Option.eq_none_iff_forall_ne_some]
    intro other hother
    have old := hs.credits.numbered.lt_next hcredit
    rcases (State.recredited_rows hs.credits).mp hother with ⟨hkept, hne⟩ | ⟨k, c, -, rfl, -⟩
    · rw [hcredit, Option.some.injEq] at hkept
      exact hne (hkept ▸ htrack)
    · exact absurd old (by simp)

/-- A file that passes has its track credited anew: to the artist with its identifier for an entry
that has one, and else to an artist of exactly its name, who has no identifier where the entry is of
an artist or a release artist. -/
theorem Reachable.reconcile_credits (h : Reachable s) (tagged : OnlyMainTagged m)
    (passes : Passes skipsDuplicates s entry.key m) (stamp : Stamp) :
    (m.performers.toList.map Prod.fst).Pairwise PartBefore ∧
      Succeeds (reconcile skipsDuplicates entry m stamp) s fun outcome t =>
        (outcome = .added ∨ outcome = .updated) ∧ CreditedAnew s m entry.key t := by
  have hs := h.coherent
  refine ⟨performers_pairwise m, reconcile_of_passes hs passes ?_ ?_⟩
  · exact fun track hrow hentry x => ⟨.inr rfl, x.creditedAnew hs hrow hentry tagged⟩
  · intro hnone x
    exact ⟨.inl rfl, x.creditedAnew (hs.withNewTrack entry.key) getElem?_insert_self
      Std.ExtTreeMap.getElem?_insert_self tagged⟩

end

def ensembleSong : Metadata :=
  { namesakeSong with
    performers := .ofList [(some "drums", [⟨"A", none, none⟩]), (none, [⟨"B", none, none⟩])] compare
    producers := [⟨"", none, none⟩, ⟨"A", none, none⟩] }

/-- The first of two artists is renamed to the name of the second one and credited for it further
on, so that the name which it had is that of a new artist; the credit from before is gone. -/
theorem Reachable.reconcile_credits_ensemble : ∃ s t, Reachable s ∧ OnlyMainTagged ensembleSong ∧
    Passes true s "a" ensembleSong ∧
    reconcile true ⟨Path.ofString "a", "a"⟩ ensembleSong ⟨5, 1, 7⟩ s = .ok .updated t ∧
    (t.creditedAs ⟨1⟩).toOption = some [(⟨1⟩, .artist), (⟨2⟩, .artist), (⟨1⟩, .composer),
      (⟨1⟩, .performer none), (⟨3⟩, .performer (some "drums")), (⟨3⟩, .producer)] ∧
    CreditedAnew s ensembleSong "a" t := by
  obtain ⟨s, hs⟩ : ∃ s, s = [Mutation.createArtist "A" none (some someRecording),
      .createArtist "B" none none, .createTrack "a", .addCredit ⟨1⟩ ⟨2⟩ .mixer].foldl
        Mutation.after {} := ⟨_, rfl⟩
  have reached : Reachable s := hs ▸ Reachable.empty.after _
  have tagged : OnlyMainTagged ensembleSong := by decide +kernel
  have passes : Passes true s "a" ensembleSong := by
    refine ⟨fun _ => ?_, by decide +kernel, by decide +kernel⟩
    rintro ⟨_, ⟨⟩, -⟩
  have once : Succeeds (reconcile true ⟨Path.ofString "a", "a"⟩ ensembleSong ⟨5, 1, 7⟩) s
      fun outcome t => outcome = .updated ∧ (t.creditedAs ⟨1⟩).toOption =
        some [(⟨1⟩, .artist), (⟨2⟩, .artist), (⟨1⟩, .composer), (⟨1⟩, .performer none),
          (⟨3⟩, .performer (some "drums")), (⟨3⟩, .producer)] := by
    rw [hs]
    decide +kernel
  obtain ⟨_, t, hrun, rfl, credited⟩ := succeeds_iff.mp once
  have anew : _ ∧ Succeeds (reconcile true ⟨Path.ofString "a", "a"⟩ ensembleSong ⟨5, 1, 7⟩) s _ :=
    reached.reconcile_credits tagged passes ⟨5, 1, 7⟩
  rw [Succeeds, Ends, hrun] at anew
  exact ⟨s, t, reached, tagged, passes, hrun, credited, anew.2.2⟩

end AudioCatalog.Scan
