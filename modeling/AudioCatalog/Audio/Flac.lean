import AudioCatalog.Tag.Item
import AudioCatalog.Tag.ParseError
import AudioCatalog.Tag.ReadStyle

namespace AudioCatalog.Audio

structure Flac where
  sampleRate : Nat
  totalSamples : Nat
  comments : Option (List (List UInt8))
  pictures : Nat
deriving DecidableEq

namespace Flac

def durationMs (f : Flac) : Nat := f.totalSamples * 1000 / f.sampleRate

def isFieldName (name : List UInt8) : Bool := name.all fun b => 0x20 ≤ b && b ≤ 0x7D

def knownKey? (name : String) : Option Tag.ItemKey :=
  match name with
  | "TITLE" => some .trackTitle
  | "ARTIST" => some .trackArtist
  | "MUSICBRAINZ_ARTISTID" => some .artistMbid
  | "ARTISTSORT" => some .artistSortName
  | "ALBUMARTIST" => some .albumArtist
  | "MUSICBRAINZ_ALBUMARTISTID" => some .albumArtistMbid
  | "ALBUMARTISTSORT" => some .albumArtistSortName
  | "CONDUCTOR" => some .conductor
  | "COMPOSER" => some .composer
  | "LYRICIST" => some .lyricist
  | "MIXER" => some .mixEngineer
  | "DJMIXER" => some .discJockey
  | "PRODUCER" => some .producer
  | "REMIXER" | "MIXARTIST" => some .remixer
  | "PERFORMER" => some .performer
  | "ALBUM" => some .albumTitle
  | "MUSICBRAINZ_ALBUMID" => some .releaseMbid
  | "TRACKNUMBER" => some .trackNumber
  | "TRACKTOTAL" | "TOTALTRACKS" => some .trackTotal
  | "DISCNUMBER" => some .discNumber
  | "DISCTOTAL" | "TOTALDISCS" => some .discTotal
  | "DISCSUBTITLE" => some .discSubtitle
  | "DATE" => some .recordingDate
  | "YEAR" => some .year
  | "ORIGINALDATE" | "ORIGINALYEAR" => some .originalDate
  | "REPLAYGAIN_TRACK_GAIN" => some .trackGain
  | "REPLAYGAIN_ALBUM_GAIN" => some .albumGain
  | "MUSICBRAINZ_TRACKID" => some .recordingMbid
  | "MUSICBRAINZ_RELEASETRACKID" => some .trackMbid
  | "COPYRIGHT" => some .copyright
  | "GENRE" => some .genre
  | "MOOD" => some .mood
  | "LANGUAGE" => some .language
  | "GROUPING" => some .grouping
  | _ => none

def itemKey (name : List UInt8) : Tag.ItemKey :=
  let text := name.map fun b => Char.ofNat b.toNat
  (knownKey? (String.ofList (text.map Char.toUpper))).getD (.other (String.ofList text))

def withoutZeros (s : String) : String :=
  String.ofList (s.toList.reverse.dropWhile (· == '\x00')).reverse

def readValue (value : List UInt8) : Except Tag.TagFault String :=
  match Text.Utf8.decode? value, Text.Utf8.fault? value with
  | some s, _ => .ok (withoutZeros s)
  | none, some fault => .error (.notText fault)
  | none, none => .error (.notText (.incomplete 0))

def readField (name value : List UInt8) : Except Tag.TagFault Tag.Item := do
  unless isFieldName name do throw .invalidKey
  return ⟨itemKey name, .text (← readValue value)⟩

/-- None for a comment without an equals sign, and for a damaged one where that is forgiven. -/
def readComment? (style : Tag.ReadStyle) (comment : List UInt8) :
    Except Tag.TagFault (Option Tag.Item) :=
  match comment.span (· ≠ '='.toUInt8) with
  | (_, []) => .ok none
  | (name, _ :: value) =>
    match readField name value with
    | .ok item => .ok (some item)
    | .error fault => if style.isStrict then .error fault else .ok none

def tag? (style : Tag.ReadStyle) (f : Flac) : Except Tag.TagFault (Option Tag) := do
  let items ← (f.comments.getD []).filterMapM (readComment? style)
  if f.comments.isNone ∧ f.pictures = 0 then return none
  return some ⟨items, f.pictures⟩

end Flac

end AudioCatalog.Audio
