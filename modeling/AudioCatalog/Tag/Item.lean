namespace AudioCatalog.Tag

inductive ItemKey where
  | trackTitle
  | trackArtist
  | artistMbid
  | artistSortName
  | albumArtist
  | albumArtistMbid
  | albumArtistSortName
  | conductor
  | composer
  | composerSortName
  | lyricist
  | mixEngineer
  | discJockey
  | producer
  | remixer
  | performer
  | albumTitle
  | releaseMbid
  | trackNumber
  | trackTotal
  | discNumber
  | discTotal
  | discSubtitle
  | recordingDate
  | year
  | originalDate
  | trackGain
  | albumGain
  | recordingMbid
  | trackMbid
  | copyright
  | copyrightUrl
  | genre
  | mood
  | language
  | grouping
  | other (name : String)
deriving DecidableEq

inductive ItemValue where
  | text (s : String)
  | locator (s : String)
  | binary (bytes : List UInt8)
deriving DecidableEq

def ItemValue.text? : ItemValue → Option String
  | .text s => some s
  | .locator _ | .binary _ => none

structure Item where
  key : ItemKey
  value : ItemValue
deriving DecidableEq

end AudioCatalog.Tag

namespace AudioCatalog

structure Tag where
  items : List Tag.Item
  pictures : Nat
deriving DecidableEq

namespace Tag

/-- The first value of a key, where it is a text; a later text does not stand in for it. -/
def text? (tag : Tag) (key : ItemKey) : Option String := do
  let item ← tag.items.find? fun item => item.key = key
  item.value.text?

def texts (tag : Tag) (key : ItemKey) : List String :=
  tag.items.filterMap fun item => if item.key = key then item.value.text? else none

end Tag

end AudioCatalog
