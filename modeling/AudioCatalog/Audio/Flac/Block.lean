import AudioCatalog.Audio.Flac

namespace AudioCatalog.Audio.Flac

def marker : List UInt8 := Text.Utf8.encode "fLaC"

def bigEndian (bytes : List UInt8) : Nat := bytes.foldl (fun n b => 256 * n + b.toNat) 0

def littleEndian (bytes : List UInt8) : Nat := bigEndian bytes.reverse

inductive BlockKind where
  | streamInfo
  | comments
  | picture
  | other
deriving DecidableEq

structure BlockHeader where
  isLast : Bool
  kind : BlockKind
  size : Nat
deriving DecidableEq

namespace BlockHeader

def length : Nat := 4

def kindOf (number : Nat) : BlockKind :=
  match number with
  | 0 => .streamInfo
  | 4 => .comments
  | 6 => .picture
  | _ => .other

def ofBytes? : List UInt8 → Option BlockHeader
  | first :: size =>
    if size.length + 1 = length then
      some ⟨128 ≤ first.toNat, kindOf (first.toNat % 128), bigEndian size⟩
    else none
  | [] => none

end BlockHeader

/-- The sample rate has twenty bits from the eleventh byte on, the length thirty-six up to the end of
the eighteenth. -/
def readStreamInfo? (body : List UInt8) (f : Flac) : Option Flac :=
  if body.length < 18 then none
  else
    let rate := bigEndian ((body.drop 10).take 3) / 16
    let samples := bigEndian ((body.drop 13).take 5) % (1 <<< 36)
    some { f with sampleRate := rate, totalSamples := samples }

def readCounted? (bytes : List UInt8) : Option (List UInt8 × List UInt8) :=
  let size := littleEndian (bytes.take 4)
  let rest := bytes.drop 4
  if bytes.length < 4 ∨ rest.length < size then none else some (rest.take size, rest.drop size)

def readComments? : Nat → List UInt8 → Option (List (List UInt8))
  | 0, _ => some []
  | count + 1, bytes => do
    let (comment, bytes) ← readCounted? bytes
    return comment :: (← readComments? count bytes)

def readCommentBlock? (body : List UInt8) : Option (List (List UInt8)) := do
  let (_, body) ← readCounted? body
  guard (4 ≤ body.length)
  readComments? (littleEndian (body.take 4)) (body.drop 4)

def withBlock? (kind : BlockKind) (body : List UInt8) (f : Flac) : Option Flac :=
  match kind with
  | .streamInfo => readStreamInfo? body f
  | .comments => (readCommentBlock? body).map fun comments => { f with comments := some comments }
  | .picture => some { f with pictures := f.pictures + 1 }
  | .other => some f

end AudioCatalog.Audio.Flac
