import AudioCatalog.Proofs.ClusterNames
import AudioCatalog.Proofs.Repetition

namespace AudioCatalog

theorem Text.mem_of_mem_trim {cs : List Char} {c : Char} (h : c ∈ Text.trim cs) : c ∈ cs := by
  obtain ⟨blanks, hcs⟩ := Text.exists_trimEnd_append (cs.dropWhile Text.isBlank)
  have rest : c ∈ cs.dropWhile Text.isBlank := hcs ▸ List.mem_append_left blanks h
  exact (List.dropWhile_sublist Text.isBlank).mem rest

theorem isPlainName_ofList {cs : List Char} (h : Text.trim cs ≠ []) :
    isPlainName (String.ofList (Text.trim cs)) = true := by
  simp [isPlainName, Text.trimmed, Text.trim_trim, h]

theorem isPlainName_trimmed {text : String} (h : Text.trimmed text ≠ "") :
    isPlainName (Text.trimmed text) = true :=
  isPlainName_ofList fun hnil => h (by rw [Text.trimmed, hnil])

namespace Tag

variable {tag : Tag}

/-- What metadata have to keep to: names, also those to sort by, parts that are played and values
are plain, values are not cut any further, and only artists and release artists have identifiers. -/
structure Metadata.WellFormed (m : Metadata) : Prop where
  names : ∀ credit ∈ Scan.creditLists m, ∀ info ∈ credit.2, isPlainName info.name = true
  sortNames : ∀ credit ∈ Scan.creditLists m, ∀ info ∈ credit.2, ∀ sortName,
    info.sortName = some sortName → isPlainName sortName = true
  mainTagged : Scan.OnlyMainTagged m
  parts : ∀ part, some part ∈ m.performers → isPlainName part = true
  album : ∀ album, m.album = some album → isPlainName album.name = true
  values : ∀ (typeName : String) (names : OrderedSet String), m.clusters[typeName]? = some names →
    names ≠ ∅ ∧ ∀ name ∈ names, isPlainName name = true ∧
      ∀ c ∈ name.toList, isValueSeparator c = false

section Credits

theorem mem_paired {α : Type} {names : List String} {entries : List (Option α)} {a : α}
    (h : some a ∈ paired names entries) : some a ∈ entries := by
  unfold paired at h
  split_ifs at h
  · exact h
  · simp at h

theorem mem_creditedArtists {nameKey : ItemKey} {mbidKey sortNameKey : Option ItemKey}
    {info : ArtistInfo} (h : info ∈ tag.creditedArtists nameKey mbidKey sortNameKey) :
    isPlainName info.name = true ∧
      (∀ sortName, info.sortName = some sortName → isPlainName sortName = true) ∧
        (mbidKey = none → info.mbid = none) := by
  unfold creditedArtists at h
  obtain ⟨⟨name, mbid, sortName⟩, hzip, rfl⟩ := List.mem_map.mp h
  obtain ⟨hname, hrest⟩ := List.of_mem_zip hzip
  obtain ⟨hmbid, hsort⟩ := List.of_mem_zip hrest
  refine ⟨?_, ?_, ?_⟩
  · obtain ⟨htext, hne⟩ := List.mem_filter.mp hname
    obtain ⟨text, -, rfl⟩ := List.mem_map.mp htext
    exact isPlainName_trimmed (by simpa using hne)
  · rintro sortName rfl
    obtain ⟨text, htext, hnonempty⟩ := List.mem_map.mp (mem_paired hsort)
    cases sortNameKey with
    | none => cases htext
    | some key =>
        obtain ⟨given, -, rfl⟩ := List.mem_map.mp htext
        rw [nonempty?, Option.ite_none_left_eq_some] at hnonempty
        obtain ⟨hne, ⟨⟩⟩ := hnonempty
        exact isPlainName_trimmed hne
  · rintro rfl
    cases mbid with
    | none => rfl
    | some mbid => cases mem_paired hmbid

end Credits

section Performers

theorem Performer.splitRole?_eq {text name role : List Char}
    (h : Performer.splitRole? text = some (name, role)) :
    (∃ cs, name = Text.trim cs) ∧ name ≠ [] ∧ ∃ cs, role = Text.trim cs := by
  unfold Performer.splitRole? at h
  simp only [Option.bind_eq_bind, Option.bind_eq_some_iff, Option.guard_eq_some', Option.pure_def,
    Option.some.injEq, Prod.mk.injEq] at h
  obtain ⟨_, _, ⟨before, within⟩, _, _, hne, rfl, rfl⟩ := h
  exact ⟨⟨before, rfl⟩, hne, within, rfl⟩

theorem Performer.ofText_plain (text : String) :
    ((Performer.ofText text).name ≠ "" → isPlainName (Performer.ofText text).name = true) ∧
      ∀ role, (Performer.ofText text).role = some role → isPlainName role = true := by
  unfold Performer.ofText
  dsimp only
  split
  · rename_i h
    obtain ⟨⟨_, rfl⟩, hne, -⟩ := Performer.splitRole?_eq h
    exact ⟨fun _ => isPlainName_ofList hne, by simp⟩
  · rename_i hrole h
    obtain ⟨⟨_, rfl⟩, hne, _, rfl⟩ := Performer.splitRole?_eq h
    refine ⟨fun _ => isPlainName_ofList hne, ?_⟩
    rintro _ ⟨⟩
    exact isPlainName_ofList fun hnil => hrole hnil
  · refine ⟨fun hne => isPlainName_trimmed hne, by simp⟩

/-- Performers of each part are known by their names only. -/
def PlainPerformers (performers : Table (Option String) (List ArtistInfo)) : Prop :=
  ∀ part infos, performers[part]? = some infos →
    (∀ role, part = some role → isPlainName role = true) ∧
      ∀ info ∈ infos, isPlainName info.name = true ∧ info.sortName = none ∧ info.mbid = none

theorem addPerformer_plain {performers : Table (Option String) (List ArtistInfo)}
    (h : PlainPerformers performers) (text : String) :
    PlainPerformers (addPerformer performers (Performer.ofText text)) := by
  obtain ⟨name, role⟩ := Performer.ofText_plain text
  intro part infos hrow
  unfold addPerformer at hrow
  split_ifs at hrow with hname
  · exact h part infos hrow
  · rw [Std.ExtTreeMap.getElem?_alter] at hrow
    split_ifs at hrow with hpart
    · obtain rfl := Std.LawfulEqOrd.eq_of_compare hpart
      cases hrow
      refine ⟨role, List.forall_mem_append.mpr ⟨fun info hinfo => ?_, ?_⟩⟩
      · cases hothers : performers[(Performer.ofText text).role]? with
        | none => simp [hothers] at hinfo
        | some others => exact (h _ others hothers).2 info (by simpa [hothers] using hinfo)
      · exact List.forall_mem_singleton.mpr ⟨name hname, rfl, rfl⟩
    · exact h part infos hrow

theorem performersOf_plain (tag : Tag) : PlainPerformers tag.performersOf := by
  unfold performersOf
  suffices ∀ (texts : List String) (performers : Table (Option String) (List ArtistInfo)),
      PlainPerformers performers →
        PlainPerformers ((texts.map Performer.ofText).foldl addPerformer performers) from
    this _ ∅ fun part infos hrow => by simp at hrow
  intro texts
  induction texts with
  | nil => exact fun _ => id
  | cons text texts ih => exact fun performers h => ih _ (addPerformer_plain h text)

end Performers

theorem albumOf?_plain {album : AlbumInfo} (h : tag.albumOf? = some album) :
    isPlainName album.name = true := by
  simp only [albumOf?, Option.bind_eq_bind, Option.bind_eq_some_iff, Option.map_eq_some_iff,
    Option.guard_eq_some', Option.pure_def, Option.some.injEq] at h
  obtain ⟨_, ⟨text, -, rfl⟩, _, hne, rfl⟩ := h
  exact isPlainName_trimmed hne

section Values

theorem mem_splitValues {text value : String} (h : value ∈ splitValues text) :
    isPlainName value = true ∧ ∀ c ∈ value.toList, isValueSeparator c = false := by
  simp only [splitValues, splitChars, List.mem_map, List.mem_filter] at h
  obtain ⟨_, ⟨⟨part, hpart, rfl⟩, hne⟩, rfl⟩ := h
  refine ⟨isPlainName_ofList (by simpa using hne), fun c hc => ?_⟩
  rw [String.toList_ofList] at hc
  exact not_separator_of_mem_splitOnP hpart c (Text.mem_of_mem_trim hc)

theorem clustersOf_holds {p : OrderedSet String → Prop} (types : List String)
    (h : ∀ typeName, tag.valuesOf typeName ≠ ∅ → p (tag.valuesOf typeName)) :
    ∀ (typeName : String) (names : OrderedSet String),
      (tag.clustersOf types)[typeName]? = some names → p names := by
  suffices ∀ clusters : ClusterValues,
      (∀ (typeName : String) (names : OrderedSet String), clusters[typeName]? = some names → p names) →
        ∀ (typeName : String) (names : OrderedSet String),
          (types.foldl tag.addValues clusters)[typeName]? = some names → p names from
    this ∅ fun typeName names hrow => by simp at hrow
  induction types with
  | nil => exact fun _ => id
  | cons first types ih =>
      intro clusters hclusters
      apply ih
      intro typeName names hrow
      unfold addValues at hrow
      dsimp only at hrow
      split_ifs at hrow with hempty
      · exact hclusters typeName names hrow
      · rw [Std.ExtTreeMap.getElem?_insert] at hrow
        split_ifs at hrow
        · cases hrow
          exact h first fun hnone => hempty (by simp [hnone])
        · exact hclusters typeName names hrow

theorem mem_valuesOf {typeName name : String} (h : name ∈ tag.valuesOf typeName) :
    isPlainName name = true ∧ ∀ c ∈ name.toList, isValueSeparator c = false := by
  rw [valuesOf, Std.ExtTreeSet.mem_ofList, List.contains_iff_mem, List.mem_flatMap] at h
  obtain ⟨text, -, hname⟩ := h
  exact mem_splitValues hname

end Values

/-- Whatever is credited is read by position from the items of one role, or from the performers. -/
theorem mem_creditLists {types : List String} {credit : Role × List ArtistInfo}
    (h : credit ∈ Scan.creditLists (tag.metadata types)) :
    (∃ nameKey mbidKey sortNameKey, credit.2 = tag.creditedArtists nameKey mbidKey sortNameKey ∧
      (Scan.borrows credit.1 = true → mbidKey = none)) ∨
    ∃ part : Option String, tag.performersOf[part]? = some credit.2 := by
  simp only [Scan.creditLists, List.cons_append, List.nil_append, List.mem_cons, List.mem_append,
    List.mem_map, List.not_mem_nil, or_false] at h
  rcases h with rfl | rfl | rfl | rfl | rfl | rfl | ⟨⟨part, infos⟩, hrow, rfl⟩ | rfl | rfl
  · exact .inl ⟨_, _, _, rfl, fun h => by cases h⟩
  · exact .inl ⟨_, _, _, rfl, fun h => by cases h⟩
  · exact .inl ⟨_, _, _, rfl, fun _ => rfl⟩
  · exact .inl ⟨_, _, _, rfl, fun _ => rfl⟩
  · exact .inl ⟨_, _, _, rfl, fun _ => rfl⟩
  · exact .inl ⟨_, _, _, rfl, fun _ => rfl⟩
  · exact .inr ⟨part, Std.ExtTreeMap.mem_toList_iff_getElem?_eq_some.mp hrow⟩
  · exact .inl ⟨_, _, _, rfl, fun _ => rfl⟩
  · exact .inl ⟨_, _, _, rfl, fun _ => rfl⟩

theorem credited_plain {types : List String} {credit : Role × List ArtistInfo}
    (h : credit ∈ Scan.creditLists (tag.metadata types)) {info : ArtistInfo}
    (hinfo : info ∈ credit.2) :
    isPlainName info.name = true ∧
      (∀ sortName, info.sortName = some sortName → isPlainName sortName = true) ∧
        (Scan.borrows credit.1 = true → info.mbid = none) := by
  rcases mem_creditLists h with ⟨nameKey, mbidKey, sortNameKey, heq, hkey⟩ | ⟨part, hrow⟩
  · rw [heq] at hinfo
    obtain ⟨name, sortName, hmbid⟩ := mem_creditedArtists hinfo
    exact ⟨name, sortName, fun hborrows => hmbid (hkey hborrows)⟩
  · obtain ⟨name, sortName, hmbid⟩ := (performersOf_plain tag part _ hrow).2 info hinfo
    exact ⟨name, by simp [sortName], fun _ => hmbid⟩

/-- Whatever a tag holds, what is read from it is well formed. -/
theorem metadata_wellFormed (tag : Tag) (types : List String) :
    (tag.metadata types).WellFormed where
  names := fun _ hcredit _ hinfo => (credited_plain hcredit hinfo).1
  sortNames := fun _ hcredit _ hinfo => (credited_plain hcredit hinfo).2.1
  mainTagged := fun _ hcredit hborrows _ hinfo => (credited_plain hcredit hinfo).2.2 hborrows
  parts := fun part hpart => by
    obtain ⟨infos, hrow⟩ := Option.isSome_iff_exists.mp
      (Std.ExtTreeMap.mem_iff_isSome_getElem?.mp hpart)
    exact (performersOf_plain tag _ infos hrow).1 part rfl
  album := fun _ h => albumOf?_plain h
  values := clustersOf_holds types fun _ hne => ⟨hne, fun _ => mem_valuesOf⟩

end Tag

end AudioCatalog
