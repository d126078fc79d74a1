import AudioCatalog.Yaml.Character
import AudioCatalog.Yaml.Plain

namespace AudioCatalog.Yaml.Written

inductive Style where
  | plain
  | single
  | double
  | literal
deriving DecidableEq

/-- Whether a character would count as an indicator between its neighbours in a plain scalar. At the
start all indicators count, but three of them only before a blank. -/
def isIndicatorAt (before : Option Char) (c : Char) (after : Option Char) : Bool :=
  match before with
  | none =>
    if c == '-' || c == '?' || c == ':' then endsWord after else isIndicator c
  | some _ => (c == ':' && endsWord after) || (c == '#' && endsWord before)

def hasIndicator (before : Option Char) : List Char → Bool
  | [] => false
  | c :: rest => isIndicatorAt before c rest.head? || hasIndicator (some c) rest

def startsAsMark (text : List Char) : Bool :=
  text.take 3 == ['-', '-', '-'] || text.take 3 == ['.', '.', '.']

def isSpace (c : Char) : Bool := c == ' '

def hasNeighbours (p q : Char → Bool) : List Char → Bool
  | a :: b :: rest => (p a && q b) || hasNeighbours p q (b :: rest)
  | _ => false

def startsOrEndsIn (p : Char → Bool) (text : List Char) : Bool :=
  text.head?.any p || text.getLast?.any p

/-- No other style keeps spaces before a line break, or characters that do not show. -/
def needsEscape (text : List Char) : Bool :=
  hasNeighbours isSpace isBreak text || !text.all isWritable

def canBePlain (text : List Char) : Bool :=
  Plain.isText (String.ofList text) && !startsOrEndsIn isSpace text && !text.any isBreak &&
    !startsAsMark text && !hasIndicator none text

def style (text : List Char) : Style :=
  if needsEscape text then .double
  else if '\n' ∈ text then if text.getLast?.any isSpace then .double else .literal
  else if canBePlain text then .plain
  else if hasNeighbours isBreak isSpace text then .double
  else .single

def indentation : List Char := [' ', ' ']

def singleQuoted : List Char → List Char
  | [] => []
  | c :: rest =>
    if c == '\'' then '\'' :: '\'' :: singleQuoted rest
    else if isBreak c && !rest.head?.any isBreak then c :: indentation ++ singleQuoted rest
    else c :: singleQuoted rest

def shortEscape? (c : Char) : Option Char :=
  match c with
  | '\x00' => some '0'
  | '\x07' => some 'a'
  | '\x08' => some 'b'
  | '\t' => some 't'
  | '\n' => some 'n'
  | '\x0b' => some 'v'
  | '\x0c' => some 'f'
  | '\r' => some 'r'
  | '\x1b' => some 'e'
  | '"' => some '"'
  | '\\' => some '\\'
  | '\u0085' => some 'N'
  | '\u2028' => some 'L'
  | '\u2029' => some 'P'
  | _ => none

def codePoint (width : Nat) (c : Char) : List Char :=
  let digits := (Nat.toDigits 16 c.toNat).map Char.toUpper
  List.replicate (width - digits.length) '0' ++ digits

def escaped (c : Char) : List Char :=
  match shortEscape? c with
  | some mark => ['\\', mark]
  | none =>
    if isWritable c then [c]
    else if c.toNat < 0x100 then '\\' :: 'x' :: codePoint 2 c
    else if c.toNat < 0x10000 then '\\' :: 'u' :: codePoint 4 c
    else '\\' :: 'U' :: codePoint 8 c

def indented (isLineStart : Bool) : List Char → List Char
  | [] => if isLineStart then [] else ['\n']
  | c :: rest =>
    if isBreak c then c :: indented true rest
    else if isLineStart then indentation ++ c :: indented false rest
    else c :: indented false rest

def chomping (text : List Char) : List Char :=
  match text.reverse with
  | [] => ['-']
  | [c] => if isBreak c then ['+'] else ['-']
  | c :: d :: _ => if !isBreak c then ['-'] else if isBreak d then ['+'] else []

/-- The indentation is given where the first line does not show it. -/
def blockHeader (text : List Char) : List Char :=
  let hint := if text.head?.any fun c => isSpace c || isBreak c then ['2'] else []
  '|' :: hint ++ chomping text ++ ['\n']

def scalar (text : String) : List Char :=
  let text := text.toList
  match style text with
  | .plain => text ++ ['\n']
  | .single => '\'' :: singleQuoted text ++ ['\'', '\n']
  | .double => '"' :: text.flatMap escaped ++ ['"', '\n']
  | .literal => blockHeader text ++ indented true text

end AudioCatalog.Yaml.Written
