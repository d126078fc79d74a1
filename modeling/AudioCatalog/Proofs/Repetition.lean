import AudioCatalog.Proofs.Absorption
import AudioCatalog.Proofs.CreditLists
import AudioCatalog.Proofs.Heirs

namespace AudioCatalog

/-- The track apart from the time at which it was added. -/
def Track.timeless (track : Track) : Track := { track with addedTime := 0 }

namespace Catalog

namespace State

variable {s t : State}

/-- The same catalog, but for the numbers of credits and the times at which tracks were added. -/
structure Restates (s t : State) : Prop where
  tracks : ∀ i : TrackId, t.tracks[i]?.map Track.timeless = s.tracks[i]?.map Track.timeless
  credits : ∃ f, s.Renumbers f t
  others : t = { s with
    tracks := t.tracks
    credits := t.credits
    creditsOfTrack := t.creditsOfTrack
    creditsOfArtist := t.creditsOfArtist
    nextCredit := t.nextCredit }

theorem Restates.refl (h : s.CreditsCoherent) : s.Restates s :=
  ⟨fun _ => rfl, ⟨_, .refl h⟩, rfl⟩

theorem Restates.orphans_eq (h : s.Restates t) (limit : Nat) :
    t.orphanArtists limit = s.orphanArtists limit ∧
      t.orphanReleases limit = s.orphanReleases limit ∧
        t.orphanClusters limit = s.orphanClusters limit := by
  obtain ⟨f, renumbers⟩ := h.credits
  have empty := renumbers.isEmptyAt_eq
  rw [h.others]
  refine ⟨?_, rfl, rfl⟩
  rw [orphanArtists, orphans, empty, orphanArtists, orphans]

/-- Where a track keeps its path and its links, its row alone is written. -/
theorem withTrack_eq {previous track : Track} (path : previous.path = track.path)
    (recording : previous.recordingMbid = track.recordingMbid)
    (release : previous.releaseId = track.releaseId)
    (clusters : previous.clusterIds = track.clusterIds) :
    s.withTrack previous track = { s with tracks := s.tracks.insert track.id track } := by
  simp [withTrack, path, recording, release, clusters]

theorem Coherent.clusters_eq_of_keys (h : s.Coherent) {l l' : List Cluster}
    (rows : ∀ cluster ∈ l, s.clusters[cluster.id]? = some cluster)
    (rows' : ∀ cluster ∈ l', s.clusters[cluster.id]? = some cluster)
    (keys : l.map Cluster.key = l'.map Cluster.key) : l = l' := by
  induction l generalizing l' with
  | nil => simpa [eq_comm] using keys
  | cons cluster l ih =>
      cases l' with
      | nil => simp at keys
      | cons cluster' l' =>
          obtain ⟨key, keys⟩ := List.cons.inj keys
          rw [List.forall_mem_cons] at rows rows'
          have same := (h.lookupsExact.clusterByKey cluster.key).unique rows.1 rows'.1 rfl key.symm
          have row := rows.1
          rw [same, rows'.1, Option.some.injEq] at row
          rw [row, ih rows.2 rows'.2 keys]

end State

end Catalog

namespace Scan

open Catalog Session Tag

variable {s t : State} {m : Metadata}

def OnlyMainTagged (m : Metadata) : Prop :=
  ∀ credit ∈ creditLists m, borrows credit.1 = true → ∀ info ∈ credit.2, info.mbid = none

instance : Decidable (OnlyMainTagged m) :=
  inferInstanceAs (Decidable (∀ credit ∈ creditLists m, borrows credit.1 = true →
    ∀ info ∈ credit.2, info.mbid = none))

theorem OnlyMainTagged.mentions_untagged (h : OnlyMainTagged m) :
    ∀ x ∈ mentions m, x.borrows = true → x.mbid = none := by
  intro x hx borrows
  simp only [mentions, creditEntries, List.mem_map, List.mem_flatMap] at hx
  obtain ⟨_, ⟨credit, hcredit, info, hinfo, rfl⟩, rfl⟩ := hx
  exact h credit hcredit borrows info (List.mem_filter.mp hinfo).1

theorem creditLists_pairwise (m : Metadata) :
    (creditLists m).Pairwise fun x y => borrows x.1 = true → borrows y.1 = true := by
  have others : ∀ credit ∈ (creditLists m).drop 2, borrows credit.1 = true := by
    intro credit hcredit
    simp only [creditLists, List.cons_append, List.nil_append, List.drop_succ_cons, List.drop_zero,
      List.mem_cons, List.mem_append, List.mem_map, List.not_mem_nil, or_false] at hcredit
    rcases hcredit with rfl | rfl | rfl | rfl | ⟨_, -, rfl⟩ | rfl | rfl <;> rfl
  exact .cons (fun _ _ h => by cases h) (.cons (fun _ _ h => by cases h)
    (List.pairwise_of_forall_mem_list fun _ _ y hy _ => others y hy))

theorem OnlyMainTagged.mentions_pairwise (h : OnlyMainTagged m) :
    (mentions m).Pairwise fun x y => x.borrows = true → y.mbid = none := by
  have tagged {credit : Role × List ArtistInfo} (hcredit : credit ∈ creditLists m)
      (hborrows : borrows credit.1 = true) {entry : Role × ArtistInfo}
      (hentry : entry ∈ (credit.2.filter (!·.isBlank)).map (credit.1, ·)) : entry.2.mbid = none := by
    obtain ⟨info, hinfo, rfl⟩ := List.mem_map.mp hentry
    exact h credit hcredit hborrows info (List.mem_filter.mp hinfo).1
  rw [mentions, creditEntries, List.pairwise_map, List.pairwise_flatMap]
  refine ⟨fun credit hcredit => ?_, ?_⟩
  · refine List.pairwise_of_forall_mem_list fun x hx y hy hborrows => tagged hcredit ?_ hy
    obtain ⟨info, -, rfl⟩ := List.mem_map.mp hx
    exact hborrows
  · refine (creditLists_pairwise m).imp_of_mem fun hx hy hle entry hentry other hother hborrows => ?_
    obtain ⟨info, -, rfl⟩ := List.mem_map.mp hentry
    exact tagged hy (hle hborrows) hother

namespace Resolution

variable {track : Track} {entry : Entry} {stamp : Stamp}

theorem credit_eq_zip (found : List Finding) :
    found.map Finding.credit = (found.map (·.2.id)).zip ((found.map Prod.fst).map Prod.fst) := by
  rw [List.map_map, List.zip_map']
  rfl

theorem result_row (x : Resolution s track m) (entry : Entry) (stamp : Stamp) :
    (x.result entry stamp).tracks[(x.written entry stamp).id]? = some (x.written entry stamp) := by
  rw [x.result_tracks]
  exact getElem?_insert_self

section Again

variable (x : Resolution s track m) (y : Resolution (x.result entry stamp) (x.written entry stamp) m)

theorem credits_again (hs : s.Coherent) (tagged : OnlyMainTagged m) :
    y.artists = x.artists ∧ y.found.map Finding.credit = x.found.map Finding.credit := by
  have order := tagged.mentions_pairwise
  have main := tagged.mentions_untagged
  have takes := y.takesArtists
  rw [← x.map_said, List.pairwise_map] at order
  rw [← x.map_said, List.forall_mem_map] at main
  rw [x.result_artists] at takes
  obtain ⟨artists, ids⟩ := x.takesArtists.again hs.artists takes (y.map_said.trans x.map_said.symm)
    order main
  rw [List.map_map, List.map_map] at ids
  refine ⟨artists, ?_⟩
  rw [credit_eq_zip, credit_eq_zip, x.entries, y.entries]
  exact congrArg (List.zip · _) ids

theorem releases_again (hs : s.Coherent) :
    y.releases = x.releases ∧ y.released.map Named.id = x.released.map Named.id := by
  obtain ⟨l, mentions, released, hl⟩ := x.takesReleases
  obtain ⟨l', mentions', released', hl'⟩ := y.takesReleases
  rw [x.result_releases] at hl'
  have free : ∀ x ∈ l, x.1.borrows = false := by
    intro x hx
    have hmention : x.1 ∈ releaseMentions m.album := mentions ▸ List.mem_map_of_mem hx
    obtain ⟨_, -, said⟩ := List.mem_map.mp hmention
    rw [← said]
    rfl
  obtain ⟨releases, ids⟩ :=
    hl.again_of_strict hs.releases hl' (mentions'.trans mentions.symm) free
  refine ⟨releases, ?_⟩
  rw [← released, ← released', List.map_map, List.map_map]
  exact ids

theorem clusterKeys_again : clusterKeys (x.result entry stamp) m = clusterKeys s m := by
  apply clusterKeys_eq
  rw [result, x.settled_eq]
  exact ⟨rfl, rfl⟩

/-- The clusters that the values ask for are there now. -/
theorem clusters_there {i : ClusterId} {cluster : Cluster}
    (hrow : x.settled.clusters[i]? = some cluster) :
    ({ y.credited with artists := y.artists, releases := y.releases } : State).clusters[i]? =
      some cluster := by
  rw [credited, State.credited_others]
  exact hrow

theorem settled_again :
    y.settled = { y.credited with artists := y.artists, releases := y.releases } := by
  refine y.provided.still fun key hkey => ?_
  rw [clusterKeys_again, ← x.provided.map_key] at hkey
  obtain ⟨cluster, hcluster, rfl⟩ := List.mem_map.mp hkey
  exact ⟨cluster.id, cluster, clusters_there x y (x.provided.rows cluster hcluster), rfl⟩

theorem clusters_again : y.clusters = x.clusters := by
  apply y.provided.coherent.clusters_eq_of_keys y.provided.rows
  · exact fun cluster hcluster =>
      y.provided.kept (clusters_there x y (x.provided.rows cluster hcluster))
  · rw [y.provided.map_key, x.provided.map_key, clusterKeys_again]

theorem written_again (hs : s.Coherent) (addedTime : Int) :
    y.written entry { stamp with addedTime } = { x.written entry stamp with addedTime } := by
  have release : y.released.head?.map Named.id = x.released.head?.map Named.id := by
    rw [← List.head?_map, ← List.head?_map, (releases_again x y hs).2]
  rw [written, release, clusters_again x y]
  rfl

theorem features_again :
    (x.result entry stamp).features.erase track.id = (x.result entry stamp).features := by
  apply Std.ExtTreeMap.ext_getElem?
  intro i
  rw [Std.ExtTreeMap.getElem?_erase]
  split_ifs with hi
  · rw [result, State.withTrack, Std.ExtTreeMap.getElem?_erase, if_pos hi]
  · rfl

/-- Only credits are other ones until the track is written. -/
theorem settled_eq_again (hs : s.Coherent) (tagged : OnlyMainTagged m) :
    y.settled = { x.result entry stamp with
      credits := y.credited.credits
      creditsOfTrack := y.credited.creditsOfTrack
      creditsOfArtist := y.credited.creditsOfArtist
      nextCredit := y.credited.nextCredit } := by
  rw [settled_again, (credits_again x y hs tagged).1, (releases_again x y hs).1,
    ← x.result_artists entry stamp, ← x.result_releases entry stamp, credited, State.credited_others]
  rfl

theorem result_again (hs : s.Coherent) (tagged : OnlyMainTagged m) (addedTime : Int) :
    y.result entry { stamp with addedTime } = { x.result entry stamp with
      tracks := (x.result entry stamp).tracks.insert track.id
        { x.written entry stamp with addedTime }
      credits := y.credited.credits
      creditsOfTrack := y.credited.creditsOfTrack
      creditsOfArtist := y.credited.creditsOfArtist
      nextCredit := y.credited.nextCredit } := by
  calc y.result entry { stamp with addedTime }
    _ = { y.settled with features := y.settled.features.erase track.id }.withTrack
          (x.written entry stamp) { x.written entry stamp with addedTime } := by
        rw [result, written_again x y hs]
        rfl
    _ = { y.settled with
          features := y.settled.features.erase track.id
          tracks := y.settled.tracks.insert track.id { x.written entry stamp with addedTime } } :=
        State.withTrack_eq rfl rfl rfl rfl
    _ = _ := by
        rw [settled_eq_again x y hs tagged, features_again]

theorem restates (hs : s.Coherent) (hrow : s.tracks[track.id]? = some track)
    (tagged : OnlyMainTagged m) (addedTime : Int) :
    (x.result entry stamp).Restates (y.result entry { stamp with addedTime }) := by
  have ht := x.result_coherent hrow entry stamp
  have hu := y.result_coherent (x.result_row entry stamp) entry { stamp with addedTime }
  have again := result_again x y hs tagged addedTime
  refine ⟨fun i => ?_, ?_, by rw [again]⟩
  · rw [again]
    by_cases hi : i = track.id
    · rw [hi, x.result_tracks, getElem?_insert_self, getElem?_insert_self]
      rfl
    · rw [getElem?_insert_of_ne hi]
  · have rows : (x.result entry stamp).credits = x.credited.credits := by
      rw [show (x.result entry stamp).credits = x.settled.credits from rfl, x.settled_eq]
    have next : (x.result entry stamp).nextCredit = x.credited.nextCredit := by
      rw [show (x.result entry stamp).nextCredit = x.settled.nextCredit from rfl, x.settled_eq]
    refine State.recredited_again hs.credits ht.credits hu.credits rows next ?_
    rw [again, ← (credits_again x y hs tagged).2]
    rfl

end Again

end Resolution

theorem Verdict.unique {skipsDuplicates : Bool} {isDuplicated : Prop} {why why' : Option Rejection}
    (h : Verdict skipsDuplicates isDuplicated m why)
    (h' : Verdict skipsDuplicates isDuplicated m why') : why = why' := by
  cases h with
  | duplicate hskips hduplicated =>
      cases h' with
      | duplicate => rfl
      | sound hnot => exact absurd hduplicated (hnot hskips)
  | sound hnot =>
      cases h' with
      | duplicate hskips hduplicated => exact absurd hduplicated (hnot hskips)
      | sound => rfl

theorem duplicated_congr {key : String}
    (h : ∀ (i : TrackId) (other : Track), (s.tracks[i]? = some other ∧ s.trackByPath[key]? ≠ some i) ↔
      (t.tracks[i]? = some other ∧ t.trackByPath[key]? ≠ some i)) :
    Duplicated s key m ↔ Duplicated t key m := by
  refine exists_congr fun mbid => and_congr_right fun _ => exists_congr fun i =>
    exists_congr fun other => ?_
  rw [and_left_comm, h, and_left_comm]

section

variable {skipsDuplicates : Bool} {entry : Entry} {stamp : Stamp} {ok : Outcome → State → Prop}

theorem reconcile_of_refused {why : Rejection} (h : s.Coherent)
    (hnone : s.trackByPath[entry.key]? = none)
    (verdict : Verdict skipsDuplicates (Duplicated s entry.key m) m (some why))
    (hok : ok (.rejected why false) s) : Succeeds (reconcile skipsDuplicates entry m stamp) s ok := by
  apply reconcile_of_cases h
  · intro track _ _ hentry hpath
    rw [hpath, hnone] at hentry
    cases hentry
  · intro why' _ verdict'
    obtain rfl := Option.some.inj (verdict.unique verdict')
    exact hok
  · intro track _ hentry hpath
    rw [hpath, hnone] at hentry
    cases hentry
  · intro _ verdict'
    cases verdict.unique verdict'

theorem reconcile_of_updated {track : Track} (h : s.Coherent)
    (hrow : s.tracks[track.id]? = some track) (hentry : s.trackByPath[entry.key]? = some track.id)
    (verdict : Verdict skipsDuplicates (Duplicated s entry.key m) m none)
    (hok : Succeeds (applyMetadata track entry m stamp) s fun _ => ok .updated) :
    Succeeds (reconcile skipsDuplicates entry m stamp) s ok := by
  apply reconcile_of_cases h
  · intro _ why _ _ _ verdict'
    cases verdict.unique verdict'
  · intro why _ verdict'
    cases verdict.unique verdict'
  · intro other hother hentry' hpath _
    rw [hpath, hentry, Option.some.injEq] at hentry'
    rw [← hentry', hrow, Option.some.injEq] at hother
    exact hother ▸ hok
  · intro hnone
    rw [hentry] at hnone
    cases hnone

end

theorem duplicated_withoutTrack {track : Track} (hentry : s.trackByPath[track.path]? = some track.id) :
    Duplicated s track.path m ↔ Duplicated (s.withoutTrack track.id track) track.path m := by
  apply duplicated_congr
  intro i other
  have hnone : (s.withoutTrack track.id track).trackByPath[track.path]? = none :=
    Std.ExtTreeMap.getElem?_erase_self
  have hrows : (s.withoutTrack track.id track).tracks[i]? = some other ↔
      s.tracks[i]? = some other ∧ i ≠ track.id := getElem?_erase_eq_some
  rw [hentry, hnone, hrows]
  simp [eq_comm]

theorem duplicated_withNewTrack (hs : s.Coherent) {key : String} (hnone : s.trackByPath[key]? = none) :
    Duplicated s key m ↔ Duplicated (s.withNewTrack key) key m := by
  apply duplicated_congr
  intro i other
  have hentry : (s.withNewTrack key).trackByPath[key]? = some ⟨s.nextTrack⟩ :=
    Std.ExtTreeMap.getElem?_insert_self
  rw [hnone, hentry, State.withNewTrack]
  by_cases hi : i = ⟨s.nextTrack⟩
  · subst hi
    simp [hs.tracks.numbered.getElem?_next]
  · rw [getElem?_insert_of_ne hi]
    simp [hi, eq_comm]

theorem duplicated_result {track : Track} (x : Resolution s track m) {key : String}
    (hentry : s.trackByPath[key]? = some track.id) (entry : Entry) (stamp : Stamp) :
    Duplicated s key m ↔ Duplicated (x.result entry stamp) key m := by
  apply duplicated_congr
  intro i other
  rw [x.result_trackByPath, x.result_tracks, hentry]
  by_cases hi : i = track.id
  · simp [hi]
  · rw [getElem?_insert_of_ne hi]

theorem applyMetadata_again (hs : s.Coherent) {track : Track} (hrow : s.tracks[track.id]? = some track)
    {entry : Entry} (hentry : s.trackByPath[entry.key]? = some track.id) (tagged : OnlyMainTagged m)
    {skipsDuplicates : Bool} (verdict : Verdict skipsDuplicates (Duplicated s entry.key m) m none)
    (stamp : Stamp) (addedTime : Int) :
    Succeeds (applyMetadata track entry m stamp) s fun _ t =>
      Succeeds (reconcile skipsDuplicates entry m { stamp with addedTime }) t fun _ u =>
        t.Coherent ∧ t.Restates u := by
  refine (applyMetadata_writes hs hrow entry m stamp).imp ?_ fun _ _ => id
  rintro _ _ ⟨x, rfl⟩
  have ht := x.result_coherent hrow entry stamp
  rw [duplicated_result x hentry entry stamp] at verdict
  refine reconcile_of_updated ht (x.result_row entry stamp) ?_ verdict ?_
  · rw [x.result_trackByPath]
    exact hentry
  · refine (applyMetadata_writes ht (x.result_row entry stamp) entry m _).imp ?_ fun _ _ => id
    rintro _ _ ⟨y, rfl⟩
    exact ⟨ht, x.restates y hs hrow tagged addedTime⟩

theorem reconcile_again (hs : s.Coherent) (tagged : OnlyMainTagged m) (skipsDuplicates : Bool)
    (entry : Entry) (stamp : Stamp) (addedTime : Int) :
    Succeeds (reconcile skipsDuplicates entry m stamp) s fun _ t =>
      Succeeds (reconcile skipsDuplicates entry m { stamp with addedTime }) t fun _ u =>
        t.Coherent ∧ t.Restates u := by
  apply reconcile_of_cases hs
  · intro track why hrow hentry hpath verdict
    have ht := hs.withoutTrack hrow
    rw [← hpath, duplicated_withoutTrack hentry, hpath] at verdict
    refine reconcile_of_refused ht ?_ verdict ⟨ht, .refl ht.credits⟩
    rw [← hpath]
    exact Std.ExtTreeMap.getElem?_erase_self
  · intro why hnone verdict
    exact reconcile_of_refused hs hnone verdict ⟨hs, .refl hs.credits⟩
  · intro track hrow hentry hpath verdict
    exact applyMetadata_again hs hrow (hpath ▸ hentry) tagged verdict stamp addedTime
  · intro hnone verdict
    rw [duplicated_withNewTrack hs hnone] at verdict
    exact applyMetadata_again (hs.withNewTrack entry.key) getElem?_insert_self
      Std.ExtTreeMap.getElem?_insert_self tagged verdict stamp addedTime

/-- To reconcile a file again right away changes nothing but the numbers of the credits of its track
and the time at which it was added: every track is credited to the same artists, in the same order,
and nothing else has become an orphan. -/
theorem Reachable.reconcile_repeated (h : Reachable s) (tagged : OnlyMainTagged m)
    (skipsDuplicates : Bool) (entry : Entry) (stamp : Stamp) (addedTime : Int) :
    Succeeds (reconcile skipsDuplicates entry m stamp) s fun _ t =>
      Succeeds (reconcile skipsDuplicates entry m { stamp with addedTime }) t fun _ u =>
        t.Restates u ∧ (∀ i, u.creditedAs i = t.creditedAs i) ∧
          ∀ limit, u.orphanArtists limit = t.orphanArtists limit ∧
            u.orphanReleases limit = t.orphanReleases limit ∧
            u.orphanClusters limit = t.orphanClusters limit := by
  refine (reconcile_again h.coherent tagged skipsDuplicates entry stamp addedTime).imp ?_
    fun _ _ => id
  intro _ t again
  refine again.imp ?_ fun _ _ => id
  rintro _ u ⟨ht, restates⟩
  obtain ⟨f, renumbers⟩ := restates.credits
  exact ⟨restates, renumbers.creditedAs_eq ht.credits, restates.orphans_eq⟩

def namesakeSong : Metadata :=
  { audioStreams := 1, durationMs := 1000,
    artists := [⟨"B", some someRecording, none⟩, ⟨"B", none, none⟩], composers := [⟨"B", none, none⟩] }

/-- The first of two artists is renamed to the name of the second one; the two are credited again as
before, with other numbers. -/
theorem Reachable.reconcile_repeated_namesakes : ∃ s t u outcome, Reachable s ∧
    OnlyMainTagged namesakeSong ∧
    reconcile true ⟨Path.ofString "a", "a"⟩ namesakeSong ⟨5, 1, 7⟩ s = .ok outcome t ∧
    reconcile true ⟨Path.ofString "a", "a"⟩ namesakeSong ⟨5, 1, 9⟩ t = .ok .updated u ∧
    (u.creditedAs ⟨1⟩).toOption = some [(⟨1⟩, .artist), (⟨2⟩, .artist), (⟨1⟩, .composer)] ∧
    u.nextCredit = 7 ∧ t.Restates u ∧ u.creditedAs ⟨1⟩ = t.creditedAs ⟨1⟩ := by
  obtain ⟨s, hs⟩ : ∃ s, s = [Mutation.createArtist "A" none (some someRecording),
      .createArtist "B" none none].foldl Mutation.after {} := ⟨_, rfl⟩
  have reached : Reachable s := hs ▸ Reachable.empty.after _
  have tagged : OnlyMainTagged namesakeSong := by decide +kernel
  have twice : Succeeds (reconcile true ⟨Path.ofString "a", "a"⟩ namesakeSong ⟨5, 1, 7⟩ >>=
      fun _ => reconcile true ⟨Path.ofString "a", "a"⟩ namesakeSong ⟨5, 1, 9⟩) s fun outcome u =>
        outcome = .updated ∧ u.nextCredit = 7 ∧ (u.creditedAs ⟨1⟩).toOption =
          some [(⟨1⟩, .artist), (⟨2⟩, .artist), (⟨1⟩, .composer)] := by
    rw [hs]
    decide +kernel
  obtain ⟨outcome, t, _, u, hfirst, hsecond, rfl, hnext, credited⟩ := succeeds_bind_iff.mp twice
  have again := reached.reconcile_repeated tagged true ⟨Path.ofString "a", "a"⟩ ⟨5, 1, 7⟩ 9
  rw [Succeeds, Ends, hfirst] at again
  dsimp only at again
  rw [Succeeds, Ends, hsecond] at again
  exact ⟨s, t, u, outcome, reached, tagged, hfirst, hsecond, credited, hnext, again.1, again.2.1 _⟩

end Scan

end AudioCatalog
