import AudioCatalog.Text.Printable
import AudioCatalog.Text.Utf8

namespace AudioCatalog.Text.Quoted

def hexDigits (n : Nat) : List Char := Nat.toDigits 16 n

/-- The usual escapes first; a character that would not show is written by its code point. -/
def escapeChar (c : Char) : List Char :=
  if c = '"' then ['\\', '"']
  else if c = '\\' then ['\\', '\\']
  else if c = '\n' then ['\\', 'n']
  else if c = '\r' then ['\\', 'r']
  else if c = '\t' then ['\\', 't']
  else if c = '\x00' then ['\\', '0']
  else if isPrintable c then [c]
  else ['\\', 'u', '\x7b'] ++ hexDigits c.toNat ++ ['\x7d']

def escapeByte (b : UInt8) : List Char :=
  let digits := (hexDigits b.toNat).map Char.toUpper
  ['\\', 'x'] ++ List.replicate (2 - digits.length) '0' ++ digits

def escapeSegment : Utf8.Segment → List Char
  | .scalar c _ => escapeChar c
  | .broken bytes | .cut bytes => bytes.flatMap escapeByte

def quote (bytes : List UInt8) : String :=
  String.ofList ('"' :: (Utf8.segments bytes).flatMap escapeSegment ++ ['"'])

def quoteText (s : String) : String :=
  String.ofList ('"' :: s.toList.flatMap escapeChar ++ ['"'])

end AudioCatalog.Text.Quoted
