import AudioCatalog.Text.Blank
import AudioCatalog.Text.Digits

namespace AudioCatalog

structure Mbid where
  value : Nat
  value_pos : 0 < value
  value_lt : value < 1 <<< 128
deriving DecidableEq

namespace Mbid

instance : Ord Mbid := ⟨compareOn Mbid.value⟩

instance : Std.TransOrd Mbid := inferInstanceAs (Std.TransCmp (compareOn Mbid.value))

instance : Std.LawfulEqOrd Mbid where
  eq_of_compare {a b} h := by
    have value : a.value = b.value := Std.LawfulEqOrd.eq_of_compare h
    cases a
    cases b
    simpa using value

def ofNat? (value : Nat) : Option Mbid :=
  if h : 0 < value ∧ value < 1 <<< 128 then some ⟨value, h.1, h.2⟩ else none

def hyphenate (digits : List Char) : List Char :=
  let group (start size : Nat) := (digits.drop start).take size
  group 0 8 ++ '-' :: group 8 4 ++ '-' :: group 12 4 ++ '-' :: group 16 4 ++ '-' :: digits.drop 20

def unhyphenate? (text : List Char) : Option (List Char) :=
  let digits := text.take 8 ++ (text.drop 9).take 4 ++ (text.drop 14).take 4 ++
    (text.drop 19).take 4 ++ text.drop 24
  if digits.length = 32 ∧ text = hyphenate digits then some digits else none

def braced? : List Char → Option (List Char)
  | '\x7b' :: inner => if inner.getLast? = some '\x7d' then some inner.dropLast else none
  | _ => none

def urn : List Char := "urn:uuid:".toList

/-- The digits of a text in one of the accepted forms: digits alone, hyphenated, hyphenated in
braces, hyphenated after `urn:uuid:` in either case. -/
def digits? (text : List Char) : Option (List Char) :=
  if text.length = 32 then some text
  else if text.length = 36 then unhyphenate? text
  else if text.length = 38 then braced? text >>= unhyphenate?
  else if text.length = 45 ∧ (text.take urn.length).map Char.toLower = urn then
    unhyphenate? (text.drop urn.length)
  else none

def parse? (text : String) : Option Mbid :=
  digits? (Text.trim text.toList) >>= Text.Digits.number? 16 >>= ofNat?

def hexDigits (value : Nat) : List Char :=
  (List.range 32).map fun place => Nat.digitChar (value >>> (4 * (31 - place)) % 16)

def toChars (m : Mbid) : List Char := hyphenate (hexDigits m.value)

instance : ToString Mbid := ⟨fun m => String.ofList m.toChars⟩

end Mbid

end AudioCatalog
