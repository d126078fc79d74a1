import AudioCatalog.Audio.Reading
import AudioCatalog.Proofs.Absorption
import AudioCatalog.Proofs.Published
import AudioCatalog.Proofs.TagNames

namespace AudioCatalog

namespace Catalog

theorem Registry.RecordsAll.names {e : Entity} {δ : Type} [Inhabited δ] {r r' : Registry e δ}
    {l : List (Mention δ × Named e δ)} {p : String → Prop} (h : r.RecordsAll l r')
    (before : ∀ (i : EntityId e) (row : Named e δ), r.rows[i]? = some row → p row.name)
    (said : ∀ x ∈ l, p x.1.name) :
    ∀ (i : EntityId e) (row : Named e δ), r'.rows[i]? = some row → p row.name := by
  induction h with
  | nil => exact before
  | @cons r r₁ r' m first l h rest ih =>
      rw [List.forall_mem_cons] at said
      refine ih (fun i row hrow => ?_) said.2
      by_cases hi : i = first.id
      · rw [hi, h.row_there, Option.some.injEq] at hrow
        rw [← hrow, h.name_eq]
        exact said.1
      · rw [h.getElem?_of_ne hi] at hrow
        exact before i row hrow

structure State.NamesPlain (s : State) : Prop where
  artists : ∀ (i : ArtistId) (artist : Artist), s.artists.rows[i]? = some artist →
    isPlainName artist.name = true
  releases : ∀ (i : ReleaseId) (release : Release), s.releases.rows[i]? = some release →
    isPlainName release.name = true
  clusters : ∀ (i : ClusterId) (cluster : Cluster), s.clusters[i]? = some cluster →
    isPlainName cluster.name = true

namespace State

variable {s t : State}

theorem namesPlain_empty : ({} : State).NamesPlain :=
  ⟨fun _ _ h => by simp at h, fun _ _ h => by simp at h, fun _ _ h => by simp at h⟩

theorem Thins.namesPlain (h : s.Thins t) (plain : s.NamesPlain) : t.NamesPlain where
  artists := fun i _ hrow => plain.artists i _ (h.artists.rows hrow)
  releases := fun i _ hrow => plain.releases i _ (h.releases.rows hrow)
  clusters := fun i _ hrow => plain.clusters i _ (h.clusters hrow)

end State

end Catalog

namespace Tag

/-- What is read from a tag, or from a file without one, together with what the sound is like. -/
def Metadata.IsRead (m : Metadata) : Prop :=
  ∃ (tag? : Option Tag) (types : List String) (audioStreams durationMs : Nat),
    m = { (tag?.map fun tag : Tag => tag.metadata types).getD {} with audioStreams, durationMs }

theorem wellFormed_empty : ({} : Metadata).WellFormed where
  names := by simp [Scan.creditLists]
  sortNames := by simp [Scan.creditLists]
  mainTagged := by simp [Scan.OnlyMainTagged, Scan.creditLists]
  parts := by simp
  album := by simp
  values := by simp

theorem Metadata.IsRead.wellFormed {m : Metadata} (h : m.IsRead) : m.WellFormed := by
  obtain ⟨tag?, types, audioStreams, durationMs, rfl⟩ := h
  have read : ((tag?.map fun tag : Tag => tag.metadata types).getD {}).WellFormed := by
    cases tag? with
    | none => exact wellFormed_empty
    | some tag => exact metadata_wellFormed tag types
  exact ⟨read.names, read.sortNames, read.mainTagged, read.parts, read.album, read.values⟩

end Tag

theorem Audio.isRead_of_parse {style : Tag.ReadStyle} {types : List String} {t : FileTree Content}
    {p : Path} {m : Tag.Metadata} (h : Audio.parse style types t p = .ok m) : m.IsRead := by
  unfold parse at h
  cases hread : readFlac t p with
  | error e =>
      rw [hread] at h
      cases h
  | ok f =>
      rw [hread] at h
      change (describe style types f).mapError Tag.ParseError.tag = .ok m at h
      unfold describe at h
      cases htag : f.tag? style with
      | error e =>
          rw [htag] at h
          cases h
      | ok tag? =>
          rw [htag] at h
          cases h
          exact ⟨tag?, types, 1, f.durationMs, rfl⟩

namespace Scan

open Catalog Session Tag

variable {s t : State} {m : Metadata}

theorem Absorbs.namesPlain (h : Absorbs s m t) (hm : m.WellFormed) (plain : s.NamesPlain) :
    t.NamesPlain where
  artists := by
    obtain ⟨l, said, records⟩ := h.artists
    refine records.names (p := fun name => isPlainName name = true) plain.artists fun x hx => ?_
    have hmention : x.1 ∈ mentions m := said ▸ List.mem_map_of_mem hx
    simp only [mentions, creditEntries, List.mem_map, List.mem_flatMap] at hmention
    obtain ⟨_, ⟨credit, hcredit, info, hinfo, rfl⟩, hmention⟩ := hmention
    rw [← hmention]
    exact hm.names credit hcredit info (List.mem_filter.mp hinfo).1
  releases := by
    obtain ⟨l, said, records⟩ := h.releases
    refine records.names (p := fun name => isPlainName name = true) plain.releases fun x hx => ?_
    have hmention : x.1 ∈ releaseMentions m.album := said ▸ List.mem_map_of_mem hx
    obtain ⟨album, halbum, hmention⟩ := List.mem_map.mp hmention
    rw [← hmention]
    exact hm.album album (by simpa using (List.mem_filter.mp halbum).1)
  clusters := by
    intro i cluster hrow
    rcases h.clusters hrow with hrow | hkey
    · exact plain.clusters i cluster hrow
    · simp only [clusterKeys, List.mem_flatMap, keysFor] at hkey
      obtain ⟨⟨typeName, names⟩, hvalues, hkey⟩ := hkey
      split at hkey
      · obtain ⟨name, hname, hcluster⟩ := List.mem_map.mp hkey
        have hrow := Std.ExtTreeMap.mem_toList_iff_getElem?_eq_some.mp hvalues
        rw [show cluster.name = name from (congrArg ClusterKey.name hcluster).symm]
        exact ((hm.values typeName names hrow).2 name (Std.ExtTreeSet.mem_toList.mp hname)).1
      · cases hkey

/-- Catalogs that are published, from the empty one on, as the settings are brought up to date and
files are reconciled with metadata from a source, and as scans remove what is not needed. -/
inductive Sourced (source : Metadata → Prop) : State → Prop
  | empty : Sourced source {}
  | synced {s t : State} (hs : Sourced source s) (names : List String) {settings : ScanSettings}
      (hrun : s.transact (syncSettings names) = .ok (settings, t)) : Sourced source t
  | reconciled {s t : State} (hs : Sourced source s) {entry : Entry} {m : Metadata} (hm : source m)
      (skipsDuplicates : Bool) (stamp : Stamp) {outcome : Outcome}
      (hrun : s.transact (reconcile skipsDuplicates entry m stamp) = .ok (outcome, t)) :
      Sourced source t
  | cleaned {s t : State} (hs : Sourced source s) {plan : Plan} (hc : Commit plan s t none) :
      Sourced source t

namespace Sourced

variable {source : Metadata → Prop}

theorem coherent (h : Sourced source s) : s.Coherent := by
  induction h with
  | empty => exact State.coherent_empty
  | synced _ names hrun ih =>
      have ends := syncSettings_thins ih names
      rw [Succeeds, Ends, State.transact_eq_ok.mp hrun] at ends
      exact ends.1
  | @reconciled _ _ _ entry m _ skipsDuplicates stamp _ hrun ih =>
      have ends := reconcile_succeeds ih skipsDuplicates entry m stamp
      rw [Succeeds, Ends, State.transact_eq_ok.mp hrun] at ends
      exact ends.1.coherent
  | cleaned _ hc ih => exact hc.coherent ih

theorem namesPlain (h : Sourced Metadata.IsRead s) : s.NamesPlain := by
  induction h with
  | empty => exact State.namesPlain_empty
  | synced hs names hrun ih =>
      have ends := syncSettings_thins hs.coherent names
      rw [Succeeds, Ends, State.transact_eq_ok.mp hrun] at ends
      exact ends.2.namesPlain ih
  | @reconciled _ _ hs entry m hm skipsDuplicates stamp _ hrun ih =>
      have ends := reconcile_absorbs hs.coherent skipsDuplicates entry m stamp
      rw [Succeeds, Ends, State.transact_eq_ok.mp hrun] at ends
      dsimp only at ends
      split_ifs at ends
      · exact ends.namesPlain hm.wellFormed ih
      · exact ends.namesPlain ih
  | cleaned hs hc ih => exact (hc.thins hs.coherent rfl).namesPlain ih

theorem process (h : Sourced source s) {σ κ : Type} (env : Surroundings σ κ) (plan : Plan)
    (tells : ∀ {w p m}, env.parse w p = .ok m → source m) (w : σ) :
    Succeeds (process env plan) (Run.start w s) fun _ r => Sourced source r.catalog :=
  process_of_source coherent env plan tells (fun hs _ hm hrun => hs.reconciled hm _ _ hrun)
    (fun hs hc => hs.cleaned hc) h w

/-- Whatever tags hold, what is read from them is well formed. So from the empty catalog on, as long
as scans learn of files by their tags, all names are plain in every catalog that is published, and
further such scans succeed and publish such catalogs. -/
theorem names_plain : (∀ (tag : Tag) (types : List String), (tag.metadata types).WellFormed) ∧
    ∀ s, Sourced Metadata.IsRead s → s.NamesPlain ∧
      ∀ {σ κ : Type} (env : Surroundings σ κ) (plan : Plan),
        (∀ w p m, env.parse w p = .ok m → m.IsRead) → ∀ w : σ,
          Succeeds (Scan.process env plan) (Run.start w s) fun _ r =>
            Sourced Metadata.IsRead r.catalog ∧ r.catalog.NamesPlain := by
  refine ⟨metadata_wellFormed, fun s hs => ⟨hs.namesPlain, fun env plan tells w => ?_⟩⟩
  refine (hs.process env plan (fun h => tells _ _ _ h) w).imp (fun _ r hr => ?_) fun _ _ => id
  exact ⟨hr, hr.namesPlain⟩

def untidyTag : Tag where
  items := [⟨.trackArtist, .text " Z "⟩, ⟨.artistMbid, .text "00000000-0000-0000-0000-000000000001"⟩,
    ⟨.trackArtist, .binary []⟩, ⟨.performer, .text " Y ( lute ) "⟩, ⟨.performer, .text "  "⟩,
    ⟨.albumTitle, .text " X"⟩, ⟨.genre, .text " folk;, early / "⟩]
  pictures := 0

def untidy : Path → Except ParseError Metadata := fun _ =>
  .ok { untidyTag.metadata ["GENRE"] with audioStreams := 1, durationMs := 1000 }

theorem isRead_of_untidy {p : Path} {m : Metadata} (h : untidy p = .ok m) : m.IsRead :=
  ⟨some untidyTag, ["GENRE"], 1, 1000, (Except.ok.inj h).symm⟩

theorem exists_synced_scan {σ κ : Type} (env : Surroundings σ κ) (plan : Plan) (w : σ)
    (names : List String) {Q : State → Prop}
    (h : Succeeds (syncSettings names) {} fun _ t =>
      Succeeds (Scan.process env plan) (Run.start w t) fun _ r => Q r.catalog) :
    ∃ settings t r, syncSettings names {} = .ok settings t ∧
      Scan.process env plan (Run.start w t) = .ok () r ∧ Q r.catalog := by
  obtain ⟨settings, t, hsync, scanned⟩ := succeeds_iff.mp h
  obtain ⟨_, r, hrun, hr⟩ := succeeds_iff.mp scanned
  exact ⟨settings, t, r, hsync, hrun, hr⟩

theorem names_plain_untidy : ∃ settings t r, syncSettings ["GENRE"] {} = .ok settings t ∧
    Scan.process (quiet (album [("a.mp3", 1)]) untidy 0) (albumPlan false) (Run.start [] t) =
      .ok () r ∧
    r.catalog.artists.rows.toList.map (·.2.name) = ["Z", "Y"] ∧
    r.catalog.releases.rows.toList.map (·.2.name) = ["X"] ∧
    r.catalog.clusters.toList.map (·.2.name) = ["early", "folk"] ∧
    Sourced Metadata.IsRead t ∧ t.NamesPlain ∧ r.catalog.NamesPlain := by
  obtain ⟨settings, t, r, hsync, hrun, artists, releases, clusters⟩ := exists_synced_scan
    (quiet (album [("a.mp3", 1)]) untidy 0) (albumPlan false) [] ["GENRE"]
    (Q := fun s => s.artists.rows.toList.map (·.2.name) = ["Z", "Y"] ∧
      s.releases.rows.toList.map (·.2.name) = ["X"] ∧
      s.clusters.toList.map (·.2.name) = ["early", "folk"]) (by decide +kernel)
  have sourced : Sourced Metadata.IsRead t := .synced .empty _ (State.transact_eq_ok.mpr hsync)
  obtain ⟨plain, later⟩ := names_plain.2 t sourced
  have ends := later (quiet (album [("a.mp3", 1)]) untidy 0) (albumPlan false)
    (fun _ p _ h => isRead_of_untidy (p := p) h) []
  rw [Succeeds, Ends, hrun] at ends
  exact ⟨settings, t, r, hsync, hrun, artists, releases, clusters, sourced, plain, ends.2⟩

end Sourced

end Scan

end AudioCatalog
