import AudioCatalog.Tag.Item
import AudioCatalog.Tag.Metadata
import AudioCatalog.Tag.Number
import AudioCatalog.Tag.Performer
import AudioCatalog.Tag.Values

namespace AudioCatalog.Tag

def trimmedTexts (tag : Tag) (key : ItemKey) : List String := (tag.texts key).map Text.trimmed

def trimmedText (tag : Tag) (key : ItemKey) : String :=
  ((tag.text? key).map Text.trimmed).getD ""

def nonempty? (s : String) : Option String := if s = "" then none else some s

/-- Entries go with names by position only where there are as many of them. -/
def paired {α : Type} (names : List String) (entries : List (Option α)) : List (Option α) :=
  if entries.length = names.length then entries else names.map fun _ => none

def creditedArtists (tag : Tag) (nameKey : ItemKey) (mbidKey sortNameKey : Option ItemKey) :
    List ArtistInfo :=
  let names := (tag.trimmedTexts nameKey).filter (· ≠ "")
  let mbids := (mbidKey.map tag.texts).getD [] |>.map Mbid.parse?
  let sortNames := (sortNameKey.map tag.trimmedTexts).getD [] |>.map nonempty?
  (names.zip ((paired names mbids).zip (paired names sortNames))).map
    fun (name, mbid, sortName) => ⟨name, mbid, sortName⟩

def addPerformer (performers : Table (Option String) (List ArtistInfo)) (p : Performer) :
    Table (Option String) (List ArtistInfo) :=
  if p.name = "" then performers
  else performers.alter p.role fun others => some (others.getD [] ++ [{ name := p.name }])

def performersOf (tag : Tag) : Table (Option String) (List ArtistInfo) :=
  ((tag.texts .performer).map Performer.ofText).foldl addPerformer ∅

def albumOf? (tag : Tag) : Option AlbumInfo := do
  let name ← (tag.text? .albumTitle).map Text.trimmed
  guard (name ≠ "")
  return ⟨name, tag.text? .releaseMbid >>= Mbid.parse?⟩

/-- A number and a total, the total of its own item coming first. -/
def numbering (tag : Tag) (numberKey totalKey : ItemKey) : Option Nat × Option Nat :=
  let (number, total) := ((tag.text? numberKey).map readNumberPair).getD (none, none)
  (number, (tag.text? totalKey >>= readNumber?) <|> total)

def dateOf? (tag : Tag) (key : ItemKey) : Option PartialDate :=
  tag.text? key >>= PartialDate.parse?

def upper (s : String) : String := String.ofList (s.toList.map Char.toUpper)

def clusterKey (typeName : String) : ItemKey :=
  match upper typeName with
  | "GENRE" => .genre
  | "MOOD" => .mood
  | "LANGUAGE" => .language
  | "GROUPING" | "ALBUMGROUPING" => .grouping
  | name => .other name

def valuesOf (tag : Tag) (typeName : String) : OrderedSet String :=
  Std.ExtTreeSet.ofList ((tag.texts (clusterKey typeName)).flatMap splitValues) compare

def addValues (tag : Tag) (clusters : ClusterValues) (typeName : String) : ClusterValues :=
  let values := tag.valuesOf typeName
  if values.isEmpty then clusters else clusters.insert typeName values

def clustersOf (tag : Tag) (typeNames : List String) : ClusterValues :=
  typeNames.foldl tag.addValues ∅

def metadata (tag : Tag) (clusterTypes : List String) : Metadata :=
  let (trackNumber, totalTrack) := tag.numbering .trackNumber .trackTotal
  let (discNumber, totalDisc) := tag.numbering .discNumber .discTotal
  { title := tag.trimmedText .trackTitle
    artists := tag.creditedArtists .trackArtist (some .artistMbid) (some .artistSortName)
    albumArtists :=
      tag.creditedArtists .albumArtist (some .albumArtistMbid) (some .albumArtistSortName)
    conductors := tag.creditedArtists .conductor none none
    composers := tag.creditedArtists .composer none (some .composerSortName)
    lyricists := tag.creditedArtists .lyricist none none
    mixers := tag.creditedArtists .mixEngineer none none
    performers := tag.performersOf
    producers := tag.creditedArtists .producer none none
    remixers := tag.creditedArtists .remixer none none
    album := tag.albumOf?
    trackNumber, totalTrack, discNumber, totalDisc
    discSubtitle := tag.trimmedText .discSubtitle
    date := tag.dateOf? .recordingDate <|> tag.dateOf? .year
    originalDate := tag.dateOf? .originalDate
    trackGain := tag.text? .trackGain >>= readGain?
    albumGain := tag.text? .albumGain >>= readGain?
    recordingMbid := tag.text? .recordingMbid >>= Mbid.parse?
    trackMbid := tag.text? .trackMbid >>= Mbid.parse?
    hasCover := 0 < tag.pictures
    copyright := tag.trimmedText .copyright
    copyrightUrl := tag.trimmedText .copyrightUrl
    clusters := tag.clustersOf clusterTypes }

end AudioCatalog.Tag
