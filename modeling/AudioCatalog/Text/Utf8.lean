namespace AudioCatalog.Text.Utf8

def encode (s : String) : List UInt8 := s.toByteArray.data.toList

def decode? (bytes : List UInt8) : Option String := String.fromUTF8? ⟨bytes.toArray⟩

theorem encode_append (s t : String) : encode (s ++ t) = encode s ++ encode t := by
  simp [encode]

theorem decode?_encode (s : String) : decode? (encode s) = some s := by
  have bytes : (⟨(encode s).toArray⟩ : ByteArray) = s.toByteArray := by simp [encode]
  simp only [decode?, bytes, String.fromUTF8?, dif_pos s.isValidUTF8]
  rfl

/-- One encoded character, or the longest start of one that its next byte contradicts, or that the
end of the text cuts off. -/
inductive Segment where
  | scalar (c : Char) (bytes : List UInt8)
  | broken (bytes : List UInt8)
  | cut (bytes : List UInt8)
deriving DecidableEq

def Segment.bytes : Segment → List UInt8
  | .scalar _ bytes | .broken bytes | .cut bytes => bytes

def isContinuation (b : UInt8) : Bool := 0x80 ≤ b && b ≤ 0xBF

/-- How many bytes follow a lead byte, and the range of the first of them; narrower ranges keep out
overlong forms, surrogates and what lies above the last code point. -/
def following? (lead : UInt8) : Option (Nat × UInt8 × UInt8) :=
  if lead < 0x80 then some (0, 0, 0)
  else if lead < 0xC2 then none
  else if lead < 0xE0 then some (1, 0x80, 0xBF)
  else if lead = 0xE0 then some (2, 0xA0, 0xBF)
  else if lead = 0xED then some (2, 0x80, 0x9F)
  else if lead < 0xF0 then some (2, 0x80, 0xBF)
  else if lead = 0xF0 then some (3, 0x90, 0xBF)
  else if lead < 0xF4 then some (3, 0x80, 0xBF)
  else if lead = 0xF4 then some (3, 0x80, 0x8F)
  else none

/-- The bytes that may continue a character, `count` at most, the first within its range. -/
def tailBytes (count : Nat) (low high : UInt8) : List UInt8 → List UInt8
  | [] => []
  | b :: rest =>
    if 0 < count ∧ low ≤ b ∧ b ≤ high then b :: (rest.take (count - 1)).takeWhile isContinuation
    else []

def codePoint (lead : UInt8) (tail : List UInt8) : Nat :=
  let high := if tail = [] then lead.toNat else lead.toNat % (1 <<< (6 - tail.length))
  tail.foldl (fun n b => 64 * n + b.toNat % 64) high

def firstSegment (lead : UInt8) (rest : List UInt8) : Segment :=
  match following? lead with
  | none => .broken [lead]
  | some (count, low, high) =>
    let tail := tailBytes count low high rest
    if tail.length = count then .scalar (Char.ofNat (codePoint lead tail)) (lead :: tail)
    else if tail.length = rest.length then .cut (lead :: tail)
    else .broken (lead :: tail)

/-- The first bytes are passed over, being part of the segment before. -/
def segmentsAfter : Nat → List UInt8 → List Segment
  | _, [] => []
  | passed + 1, _ :: rest => segmentsAfter passed rest
  | 0, lead :: rest =>
    let segment := firstSegment lead rest
    segment :: segmentsAfter (segment.bytes.length - 1) rest

def segments (bytes : List UInt8) : List Segment := segmentsAfter 0 bytes

def decodeLossy (bytes : List UInt8) : List Char :=
  (segments bytes).map fun
    | .scalar c _ => c
    | .broken _ | .cut _ => '\ufffd'

inductive Fault where
  | invalid (length index : Nat)
  | incomplete (index : Nat)
deriving DecidableEq

def Fault.message : Fault → String
  | .invalid length index => s!"invalid utf-8 sequence of {length} bytes from index {index}"
  | .incomplete index => s!"incomplete utf-8 byte sequence from index {index}"

def firstFault? (index : Nat) : List Segment → Option Fault
  | [] => none
  | .scalar _ bytes :: rest => firstFault? (index + bytes.length) rest
  | .broken bytes :: _ => some (.invalid bytes.length index)
  | .cut _ :: _ => some (.incomplete index)

def fault? (bytes : List UInt8) : Option Fault := firstFault? 0 (segments bytes)

end AudioCatalog.Text.Utf8
