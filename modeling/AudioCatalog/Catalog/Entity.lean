import AudioCatalog.Catalog.Relation
import AudioCatalog.Decimal.Single
import AudioCatalog.Mbid
import AudioCatalog.PartialDate

namespace AudioCatalog

inductive Entity where
  | track
  | artist
  | release
  | clusterType
  | cluster
  | credit
deriving DecidableEq

def Entity.label : Entity → String
  | .track => "track"
  | .artist => "artist"
  | .release => "release"
  | .clusterType => "cluster type"
  | .cluster => "cluster"
  | .credit => "artist link"

/-- Numbers of different kinds of entities are told apart by their type. -/
structure EntityId (e : Entity) where
  number : Nat
deriving DecidableEq

namespace EntityId

variable {e : Entity}

instance : Ord (EntityId e) := ⟨compareOn EntityId.number⟩

instance : Std.TransOrd (EntityId e) :=
  inferInstanceAs (Std.TransCmp (compareOn EntityId.number))

instance : Std.LawfulEqOrd (EntityId e) where
  eq_of_compare {a b} h := by
    have number : a.number = b.number := Std.LawfulEqOrd.eq_of_compare h
    cases a
    cases b
    simpa using number

instance : ToString (EntityId e) := ⟨fun id => toString id.number⟩

end EntityId

abbrev TrackId := EntityId .track
abbrev ArtistId := EntityId .artist
abbrev ReleaseId := EntityId .release
abbrev ClusterTypeId := EntityId .clusterType
abbrev ClusterId := EntityId .cluster
abbrev CreditId := EntityId .credit

/-- Times are whole seconds since the epoch. -/
structure Track where
  id : TrackId
  path : String
  name : String := ""
  trackNumber : Option Nat := none
  discNumber : Option Nat := none
  totalTrack : Option Nat := none
  totalDisc : Option Nat := none
  discSubtitle : String := ""
  durationMs : Nat := 0
  date : Option PartialDate := none
  originalDate : Option PartialDate := none
  trackGain : Option Single := none
  releaseGain : Option Single := none
  hasCover : Bool := false
  copyright : String := ""
  copyrightUrl : String := ""
  recordingMbid : Option Mbid := none
  trackMbid : Option Mbid := none
  lastWriteTime : Int := 0
  scanVersion : Nat := 0
  addedTime : Int := 0
  releaseId : Option ReleaseId := none
  clusterIds : OrderedSet ClusterId := ∅
deriving DecidableEq

/-- An entity that is known by its name and, where it has one, by its MusicBrainz identifier; `δ` is
what else is known about it. -/
structure Named (e : Entity) (δ : Type) where
  id : EntityId e
  name : String
  mbid : Option Mbid
  detail : δ
deriving DecidableEq

abbrev Artist := Named .artist (Option String)

abbrev Artist.sortName (a : Artist) : Option String := a.detail

abbrev Release := Named .release Unit

structure ClusterType where
  id : ClusterTypeId
  name : String
deriving DecidableEq

structure ClusterKey where
  typeId : ClusterTypeId
  name : String
deriving DecidableEq

namespace ClusterKey

def separator : Char := '\x1f'

def text (k : ClusterKey) : String :=
  String.ofList (Nat.toDigits 10 k.typeId.number ++ separator :: k.name.toList)

theorem separator_not_mem_toDigits (n : Nat) : separator ∉ Nat.toDigits 10 n := fun h =>
  absurd (Nat.isDigit_of_mem_toDigits (by decide) (by decide) h) (by decide)

theorem text_inj {k l : ClusterKey} (h : k.text = l.text) : k = l := by
  have chars : Nat.toDigits 10 k.typeId.number ++ separator :: k.name.toList =
      Nat.toDigits 10 l.typeId.number ++ separator :: l.name.toList := String.ofList_injective h
  have first (n : Nat) (name : List Char) :
      (Nat.toDigits 10 n ++ separator :: name).takeWhile (· ≠ separator) = Nat.toDigits 10 n := by
    rw [List.takeWhile_append_of_pos]
    · simp
    · intro c hc
      have : c ≠ separator := fun e => separator_not_mem_toDigits n (by rwa [e] at hc)
      simpa using this
  have digits := congrArg (List.takeWhile (· ≠ separator)) chars
  rw [first, first] at digits
  have number := congrArg (Nat.ofDigitChars 10 · 0) digits
  simp only [Nat.ofDigitChars_ten_toDigits] at number
  have name : k.name = l.name := by simpa [digits, String.ext_iff] using chars
  obtain ⟨⟨_⟩, _⟩ := k
  obtain ⟨⟨_⟩, _⟩ := l
  simp_all

end ClusterKey

structure Cluster where
  id : ClusterId
  typeId : ClusterTypeId
  name : String
deriving DecidableEq

def Cluster.key (c : Cluster) : ClusterKey := ⟨c.typeId, c.name⟩

/-- What an artist did on a track; a performer may have played a certain part. -/
inductive Role where
  | artist
  | releaseArtist
  | conductor
  | composer
  | lyricist
  | mixer
  | performer (part : Option String)
  | producer
  | remixer
deriving DecidableEq

structure Credit where
  id : CreditId
  trackId : TrackId
  artistId : ArtistId
  role : Role
deriving DecidableEq

end AudioCatalog
