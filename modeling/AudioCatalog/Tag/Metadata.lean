import AudioCatalog.Catalog.Relation
import AudioCatalog.Decimal.Single
import AudioCatalog.Mbid
import AudioCatalog.PartialDate

namespace AudioCatalog.Tag

structure ArtistInfo where
  name : String := ""
  mbid : Option Mbid := none
  sortName : Option String := none
deriving DecidableEq

structure AlbumInfo where
  name : String := ""
  mbid : Option Mbid := none
deriving DecidableEq

abbrev ClusterValues := Table String (OrderedSet String)

/-- Performers are grouped by the part they play, those without one first. -/
structure Metadata where
  title : String := ""
  artists : List ArtistInfo := []
  albumArtists : List ArtistInfo := []
  conductors : List ArtistInfo := []
  composers : List ArtistInfo := []
  lyricists : List ArtistInfo := []
  mixers : List ArtistInfo := []
  performers : Table (Option String) (List ArtistInfo) := ∅
  producers : List ArtistInfo := []
  remixers : List ArtistInfo := []
  album : Option AlbumInfo := none
  trackNumber : Option Nat := none
  totalTrack : Option Nat := none
  discNumber : Option Nat := none
  totalDisc : Option Nat := none
  discSubtitle : String := ""
  date : Option PartialDate := none
  originalDate : Option PartialDate := none
  trackGain : Option Single := none
  albumGain : Option Single := none
  recordingMbid : Option Mbid := none
  trackMbid : Option Mbid := none
  hasCover : Bool := false
  copyright : String := ""
  copyrightUrl : String := ""
  clusters : ClusterValues := ∅
  audioStreams : Nat := 0
  durationMs : Nat := 0
deriving DecidableEq

end AudioCatalog.Tag
