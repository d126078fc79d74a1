import AudioCatalog.Yaml.Character

namespace AudioCatalog.Yaml

structure Cursor where
  rest : List Char
  line : Nat := 0
  column : Nat := 0
  index : Nat := 0

namespace Cursor

def peek (c : Cursor) (n : Nat) : Option Char := c.rest[n]?

/-- One character further; a return before a line feed does not end the line yet. -/
def next (c : Cursor) : Cursor :=
  match c.rest with
  | [] => c
  | '\r' :: '\n' :: rest => { c with rest := '\n' :: rest, index := c.index + 1 }
  | ch :: rest =>
    if isBreak ch then ⟨rest, c.line + 1, 0, c.index + 1⟩
    else ⟨rest, c.line, c.column + 1, c.index + 1⟩

def skip : Nat → Cursor → Cursor
  | 0, c => c
  | n + 1, c => skip n c.next

def skipBreak (c : Cursor) : Cursor :=
  match c.rest with
  | '\r' :: '\n' :: _ => c.next.next
  | _ => c.next

def skipWhile (p : Char → Bool) (c : Cursor) : Cursor := skip (c.rest.takeWhile p).length c

def skipComment (c : Cursor) : Cursor :=
  if c.peek 0 = some '#' then c.skipWhile (!isBreak ·) else c

def atMark (c : Cursor) (mark : Char) : Bool :=
  c.column == 0 && c.rest.take 3 == [mark, mark, mark] && endsWord (c.peek 3)

def atDocumentMark (c : Cursor) : Bool := c.atMark '-' || c.atMark '.'

def lineBreak (c : Cursor) : Char :=
  match c.peek 0 with
  | some '\u2028' => '\u2028'
  | some '\u2029' => '\u2029'
  | _ => '\n'

end Cursor

structure Gap where
  blanks : List Char := []
  breaks : List Char := []
  isBroken : Bool := false
  isEscaped : Bool := false

namespace Gap

def isNone (g : Gap) : Bool := g.blanks.isEmpty && !g.isBroken

def addBlank (g : Gap) (c : Char) : Gap :=
  if g.isBroken then g else { g with blanks := c :: g.blanks }

def addBreak (g : Gap) (c : Char) : Gap :=
  { g with blanks := [], breaks := g.breaks ++ [c], isBroken := true }

def escapedBreak : Gap := { isBroken := true, isEscaped := true }

/-- One line break counts as a space, several as all but the first. -/
def fold (g : Gap) : List Char :=
  if g.isEscaped then g.breaks
  else if g.isBroken then
    match g.breaks with
    | ['\n'] => [' ']
    | '\n' :: more => more
    | breaks => breaks
  else g.blanks.reverse

end Gap

end AudioCatalog.Yaml
