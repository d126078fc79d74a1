import AudioCatalog.Text.Digits
import AudioCatalog.Yaml.Cursor

namespace AudioCatalog.Yaml.ScalarText

def endsPlain (isFlow : Bool) (c : Cursor) (ch : Char) : Bool :=
  (ch == ':' && endsWord (c.peek 1)) || (isFlow && isFlowIndicator ch)

def isBadColon (isFlow : Bool) (c : Cursor) (ch : Char) : Bool :=
  isFlow && ch == ':' && (c.peek 1).any fun d => isFlowIndicator d || d == '?'

def plain (isFlow : Bool) (indent : Int) :
    Nat → Cursor → List Char → Gap → Option (List Char × Gap × Cursor)
  | 0, c, text, gap => some (text, gap, c)
  | fuel + 1, c, text, gap =>
    match c.rest with
    | [] => some (text, gap, c)
    | ch :: _ =>
      if isBlank ch then
        if gap.isBroken && c.column < indent && ch == '\t' then none
        else plain isFlow indent fuel c.next text (gap.addBlank ch)
      else if isBreak ch then plain isFlow indent fuel c.skipBreak text (gap.addBreak c.lineBreak)
      else if gap.isBroken && !isFlow && c.column < indent then some (text, gap, c)
      else if c.atDocumentMark || (!gap.isNone && ch == '#') then some (text, gap, c)
      else if isBadColon isFlow c ch then none
      else if endsPlain isFlow c ch then some (text, gap, c)
      else plain isFlow indent fuel c.next (ch :: gap.fold.reverse ++ text) {}

def shortEscape? (ch : Char) : Option Char :=
  match ch with
  | '0' => some '\x00'
  | 'a' => some '\x07'
  | 'b' => some '\x08'
  | 't' | '\t' => some '\t'
  | 'n' => some '\n'
  | 'v' => some '\x0b'
  | 'f' => some '\x0c'
  | 'r' => some '\r'
  | 'e' => some '\x1b'
  | ' ' => some ' '
  | '"' => some '"'
  | '/' => some '/'
  | '\\' => some '\\'
  | 'N' => some '\u0085'
  | '_' => some '\u00a0'
  | 'L' => some '\u2028'
  | 'P' => some '\u2029'
  | _ => none

def escapeDigits? (ch : Char) : Option Nat :=
  match ch with
  | 'x' => some 2
  | 'u' => some 4
  | 'U' => some 8
  | _ => none

def escape? (c : Cursor) : Option (Char × Nat) := do
  let ch ← c.peek 1
  match shortEscape? ch with
  | some e => return (e, 1)
  | none =>
    let count ← escapeDigits? ch
    let digits := (c.rest.drop 2).take count
    guard (digits.length = count)
    let n ← Text.Digits.number? 16 digits
    guard (n.isValidChar)
    return (Char.ofNat n, count + 1)

def quoted (isSingle : Bool) : Nat → Cursor → List Char → Gap → Option (List Char × Cursor)
  | 0, _, _, _ => none
  | fuel + 1, c, text, gap =>
    let quote := if isSingle then '\'' else '"'
    match c.rest with
    | [] => none
    | ch :: _ =>
      if c.atDocumentMark then none
      else if isBlank ch then quoted isSingle fuel c.next text (gap.addBlank ch)
      else if isBreak ch then
        quoted isSingle fuel c.skipBreak text (gap.addBreak c.lineBreak)
      else
        let text := gap.fold.reverse ++ text
        if ch == quote then
          if isSingle && c.peek 1 == some quote then
            quoted isSingle fuel (Cursor.skip 2 c) (quote :: text) {}
          else some (text, c.next)
        else if !isSingle && ch == '\\' then
          if (c.peek 1).any isBreak then
            quoted isSingle fuel c.next.skipBreak text .escapedBreak
          else
            match escape? c with
            | some (e, length) => quoted isSingle fuel (Cursor.skip (length + 1) c) (e :: text) {}
            | none => none
        else quoted isSingle fuel c.next (ch :: text) {}

structure BlockStyle where
  isLiteral : Bool
  chomp : Option Bool := none
  increment : Option Nat := none

def chompOf? (ch : Option Char) : Option Bool :=
  match ch with
  | some '+' => some true
  | some '-' => some false
  | _ => none

def incrementOf? (ch : Option Char) : Option Nat := do
  let ch ← ch
  guard ch.isDigit
  return ch.toNat - '0'.toNat

def blockStyle (isLiteral : Bool) (c : Cursor) : BlockStyle × Cursor :=
  match chompOf? (c.peek 0), incrementOf? (c.peek 0) with
  | some keeps, _ =>
    match incrementOf? (c.peek 1) with
    | some n => (⟨isLiteral, some keeps, some n⟩, Cursor.skip 2 c)
    | none => (⟨isLiteral, some keeps, none⟩, c.next)
  | none, some n =>
    match chompOf? (c.peek 1) with
    | some keeps => (⟨isLiteral, some keeps, some n⟩, Cursor.skip 2 c)
    | none => (⟨isLiteral, none, some n⟩, c.next)
  | none, none => (⟨isLiteral, none, none⟩, c)

/-- Empty lines: their breaks, the column of the longest, and where they end. While the indentation
is not known, all spaces belong to it; no tab may. -/
def emptyLines (indent : Option Nat) :
    Nat → Cursor → List Char → Nat → Option (List Char × Nat × Cursor)
  | 0, c, breaks, longest => some (breaks, longest, c)
  | fuel + 1, c, breaks, longest =>
    let isIndentation := indent.all (c.column < ·)
    let longest := max longest c.column
    match c.rest with
    | [] => some (breaks, longest, c)
    | ch :: _ =>
      if isIndentation && ch == ' ' then emptyLines indent fuel c.next breaks longest
      else if isIndentation && ch == '\t' then none
      else if isBreak ch then
        emptyLines indent fuel c.skipBreak (breaks ++ [c.lineBreak]) longest
      else some (breaks, longest, c)

structure Block where
  text : List Char := []
  lastBreak : List Char := []
  emptyBreaks : List Char := []
  endsBlank : Bool := false

/-- Between two lines of a folded scalar a break counts as a space, unless one of them is indented
further. -/
def Block.join (b : Block) (isLiteral startsBlank : Bool) : List Char :=
  if !isLiteral && b.lastBreak == ['\n'] && !b.endsBlank && !startsBlank then
    if b.emptyBreaks.isEmpty then [' '] else b.emptyBreaks
  else b.lastBreak ++ b.emptyBreaks

def blockLines (isLiteral : Bool) (indent : Nat) : Nat → Cursor → Block → Option (Block × Cursor)
  | 0, c, b => some (b, c)
  | fuel + 1, c, b =>
    match c.rest with
    | [] => some (b, c)
    | ch :: _ =>
      if c.column != indent then some (b, c)
      else
        let startsBlank := isBlank ch
        let line := c.rest.takeWhile (!isBreak ·)
        let text := line.reverse ++ (b.join isLiteral startsBlank).reverse ++ b.text
        let c := Cursor.skip line.length c
        let lastBreak := if c.rest.isEmpty then [] else [c.lineBreak]
        let c := c.skipBreak
        match emptyLines (some indent) (c.rest.length + 1) c [] 0 with
        | none => none
        | some (breaks, _, c) =>
          blockLines isLiteral indent fuel c ⟨text, lastBreak, breaks, startsBlank⟩

def Block.chomped (b : Block) (chomp : Option Bool) : List Char :=
  match chomp with
  | some false => b.text.reverse
  | none => b.text.reverse ++ b.lastBreak
  | some true => b.text.reverse ++ b.lastBreak ++ b.emptyBreaks

def block (isLiteral : Bool) (outer : Int) (c : Cursor) : Option (List Char × Cursor) := do
  let (style, c) := blockStyle isLiteral c
  guard (style.increment ≠ some 0)
  let c := (c.skipWhile isBlank).skipComment
  guard (c.rest.isEmpty || (c.peek 0).any isBreak)
  let c := c.skipBreak
  let given := style.increment.map fun n => (max outer 0).toNat + n
  let (breaks, longest, c) ← emptyLines given (c.rest.length + 1) c [] 0
  let indent := given.getD (max (max longest (outer + 1).toNat) 1)
  let (b, c) ← blockLines isLiteral indent (c.rest.length + 1) c { emptyBreaks := breaks }
  return (b.chomped style.chomp, c)

end AudioCatalog.Yaml.ScalarText
