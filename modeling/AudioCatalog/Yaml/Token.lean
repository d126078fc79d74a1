import AudioCatalog.Yaml.ScalarText

namespace AudioCatalog.Yaml

inductive Token where
  | directive
  | handle (name : List Char)
  | documentStart
  | documentEnd
  | blockSequence
  | blockMapping
  | blockEnd
  | flowSequence
  | flowSequenceEnd
  | flowMapping
  | flowMappingEnd
  | blockEntry
  | flowEntry
  | key
  | value
  | alias (name : List Char)
  | anchor (name : List Char)
  | tag (handle : List Char)
  | scalar (text : List Char) (isPlain : Bool)
deriving DecidableEq

/-- A place where a key may turn out to start: the number of its token and where it stands. -/
structure KeyMark where
  token : Nat
  isRequired : Bool
  line : Nat
  column : Nat
  index : Nat

structure Lexer where
  cursor : Cursor
  tokens : Array Token := #[]
  indent : Int := -1
  outerIndents : List Int := []
  flowDepth : Nat := 0
  mark : Option KeyMark := none
  outerMarks : List (Option KeyMark) := []
  allowsKey : Bool := true

abbrev Lex := StateT Lexer Option

namespace Lex

def cursor : Lex Cursor := return (← get).cursor

def moveTo (c : Cursor) : Lex Unit := modify fun s => { s with cursor := c }

def emit (t : Token) : Lex Unit := modify fun s => { s with tokens := s.tokens.push t }

def emitAt (n : Nat) (t : Token) : Lex Unit :=
  modify fun s =>
    { s with tokens := s.tokens.extract 0 n ++ #[t] ++ s.tokens.extract n s.tokens.size }

def allowKey (b : Bool) : Lex Unit := modify fun s => { s with allowsKey := b }

def require (b : Bool) : Lex Unit := if b then return else failure

def inFlow : Lex Bool := return 0 < (← get).flowDepth

def maxKeyLength : Nat := 1024

def dropMark : Lex Unit := do
  let s ← get
  require ((s.mark.map KeyMark.isRequired).getD false == false)
  set { s with mark := none }

/-- Gives up the marks from which the text has gone on too far to make them keys. -/
def staleMark (s : Lexer) (m : KeyMark) : Bool :=
  m.line < s.cursor.line || m.index + maxKeyLength < s.cursor.index

def checkMark (m : Option KeyMark) : Lex (Option KeyMark) := do
  match m with
  | some m =>
    if staleMark (← get) m then
      require (!m.isRequired)
      return none
    else return some m
  | none => return none

def dropStaleMarks : Lex Unit := do
  let mark ← checkMark (← get).mark
  let outer ← (← get).outerMarks.mapM checkMark
  modify fun s => { s with mark := mark, outerMarks := outer }

def saveMark : Lex Unit := do
  let s ← get
  if s.allowsKey then
    let isRequired := s.flowDepth == 0 && s.indent == s.cursor.column
    dropMark
    let m : KeyMark := ⟨s.tokens.size, isRequired, s.cursor.line, s.cursor.column, s.cursor.index⟩
    modify fun s => { s with mark := some m }

def roll (column : Nat) (place : Option Nat) (t : Token) : Lex Unit := do
  let s ← get
  if s.flowDepth == 0 && s.indent < column then
    set { s with outerIndents := s.indent :: s.outerIndents, indent := (column : Int) }
    match place with
    | some n => emitAt n t
    | none => emit t

def unrollWithin (column : Int) : List Int → Lex Unit
  | [] => return
  | outer :: rest => do
    if column < (← get).indent then
      emit .blockEnd
      modify fun s => { s with indent := outer, outerIndents := rest }
      unrollWithin column rest

def unroll (column : Int) : Lex Unit := do
  unless ← inFlow do unrollWithin column (← get).outerIndents

/-- Passes over blanks, comments and line breaks. Where a key may start, a tab is no blank. -/
def skipBlanks (isFlow : Bool) : Nat → Lex Unit
  | 0 => return
  | fuel + 1 => do
    let s ← get
    let allowsTab := isFlow || !s.allowsKey
    let c := (s.cursor.skipWhile fun ch => ch == ' ' || (allowsTab && ch == '\t')).skipComment
    moveTo c
    if (c.peek 0).any isBreak then
      moveTo c.skipBreak
      unless isFlow do allowKey true
      skipBlanks isFlow fuel

def startOfLineToken : Lex Unit := do
  unroll (-1)
  dropMark
  allowKey false

def readDocumentMark (t : Token) : Lex Unit := do
  startOfLineToken
  moveTo (Cursor.skip 3 (← cursor))
  emit t

def finishLine : Lex Unit := do
  let c := ((← cursor).skipWhile isBlank).skipComment
  require (c.rest.isEmpty || (c.peek 0).any isBreak)
  moveTo c

def lineWords (c : Cursor) : List (List Char) :=
  let line := c.rest.takeWhile (!isBreak ·)
  let words := (line.splitOnP isBlank).filter (· ≠ [])
  words.takeWhile fun word => word.head? ≠ some '#'

def isVersion (word : List Char) : Bool :=
  word == "1.1".toList || word == "1.2".toList

def isHandle (word : List Char) : Bool :=
  word == ['!'] ||
    (2 ≤ word.length && word.head? == some '!' && word.getLast? == some '!' &&
      ((word.drop 1).dropLast).all isNameChar)

def readDirective : Lex Unit := do
  startOfLineToken
  let c ← cursor
  match lineWords c.next with
  | [name, version] =>
    require (name == "YAML".toList && isVersion version)
    emit .directive
  | [name, handle, _] =>
    require (name == "TAG".toList && isHandle handle)
    emit (.handle handle)
  | _ => failure
  moveTo (c.skipWhile (!isBreak ·))

def openFlow (t : Token) : Lex Unit := do
  saveMark
  modify fun s =>
    { s with outerMarks := s.mark :: s.outerMarks, mark := none, flowDepth := s.flowDepth + 1 }
  allowKey true
  moveTo (← cursor).next
  emit t

def closeFlow (t : Token) : Lex Unit := do
  dropMark
  modify fun s =>
    match s.outerMarks with
    | mark :: outer => { s with mark := mark, outerMarks := outer, flowDepth := s.flowDepth - 1 }
    | [] => s
  allowKey false
  moveTo (← cursor).next
  emit t

def readFlowEntry : Lex Unit := do
  dropMark
  allowKey true
  moveTo (← cursor).next
  emit .flowEntry

def readBlockEntry : Lex Unit := do
  unless ← inFlow do
    require (← get).allowsKey
    roll (← cursor).column none .blockSequence
  dropMark
  allowKey true
  moveTo (← cursor).next
  emit .blockEntry

def readKey : Lex Unit := do
  unless ← inFlow do
    require (← get).allowsKey
    roll (← cursor).column none .blockMapping
  dropMark
  allowKey !(← inFlow)
  moveTo (← cursor).next
  emit .key

def readValue : Lex Unit := do
  match (← get).mark with
  | some m =>
    modify fun s => { s with mark := none }
    emitAt m.token .key
    roll m.column (some m.token) .blockMapping
    allowKey false
  | none =>
    unless ← inFlow do
      require (← get).allowsKey
      roll (← cursor).column none .blockMapping
    allowKey !(← inFlow)
  moveTo (← cursor).next
  emit .value

def readName (make : List Char → Token) : Lex Unit := do
  saveMark
  allowKey false
  let c := (← cursor).next
  let name := c.rest.takeWhile isNameChar
  let c := Cursor.skip name.length c
  require (!name.isEmpty && (endsWord (c.peek 0) ||
    (c.peek 0).any fun ch => "?:,]\x7d%@".toList.contains ch || ch == '\x60'))
  moveTo c
  emit (make name)

def tagHandle (word : List Char) : List Char :=
  let name := (word.drop 1).takeWhile isNameChar
  if (word.drop (name.length + 1)).head? = some '!' then '!' :: name ++ ['!'] else ['!']

def readTag : Lex Unit := do
  saveMark
  allowKey false
  let c ← cursor
  let isFlow ← inFlow
  let word := c.rest.takeWhile fun ch =>
    !isBlank ch && !isBreak ch && !(isFlow && isFlowIndicator ch)
  moveTo (Cursor.skip word.length c)
  emit (.tag (if (c.peek 1) = some '<' then ['!'] else tagHandle word))

def readBlockScalar (isLiteral : Bool) : Lex Unit := do
  dropMark
  allowKey true
  match ScalarText.block isLiteral (← get).indent (← cursor).next with
  | some (text, c) =>
    moveTo c
    emit (.scalar text false)
  | none => failure

def readQuoted (isSingle : Bool) : Lex Unit := do
  saveMark
  allowKey false
  let c := (← cursor).next
  match ScalarText.quoted isSingle (c.rest.length + 1) c [] {} with
  | some (text, c) =>
    moveTo c
    emit (.scalar text.reverse false)
  | none => failure

def readPlain : Lex Unit := do
  saveMark
  allowKey false
  let c ← cursor
  match ScalarText.plain (← inFlow) ((← get).indent + 1) (c.rest.length + 1) c [] {} with
  | some (text, gap, c) =>
    moveTo c
    emit (.scalar text.reverse true)
    if gap.isBroken then allowKey true
  | none => failure

/-- An indicator counts as such before a blank, some of them always within a flow. -/
def startsPlain (isFlow : Bool) (c : Cursor) (ch : Char) : Bool :=
  !(isBlank ch || isIndicator ch) || (ch == '-' && !(c.peek 1).any isBlank) ||
    (!isFlow && (ch == '?' || ch == ':') && !endsWord (c.peek 1))

def readToken (ch : Char) : Lex Unit := do
  let c ← cursor
  let isFlow ← inFlow
  let isApart := endsWord (c.peek 1)
  if c.column == 0 && ch == '%' then readDirective
  else if c.atMark '-' then readDocumentMark .documentStart
  else if c.atMark '.' then readDocumentMark .documentEnd
  else if ch == '[' then openFlow .flowSequence
  else if ch == '\x7b' then openFlow .flowMapping
  else if ch == ']' then closeFlow .flowSequenceEnd
  else if ch == '\x7d' then closeFlow .flowMappingEnd
  else if ch == ',' then readFlowEntry
  else if ch == '-' && isApart then readBlockEntry
  else if ch == '?' && (isFlow || isApart) then readKey
  else if ch == ':' && (isFlow || isApart) then readValue
  else if ch == '*' then readName .alias
  else if ch == '&' then readName .anchor
  else if ch == '!' then readTag
  else if ch == '|' && !isFlow then readBlockScalar true
  else if ch == '>' && !isFlow then readBlockScalar false
  else if ch == '\'' then readQuoted true
  else if ch == '"' then readQuoted false
  else if startsPlain isFlow c ch then readPlain
  else failure

def readAll : Nat → Lex Unit
  | 0 => failure
  | fuel + 1 => do
    skipBlanks (← inFlow) ((← cursor).rest.length + 1)
    dropStaleMarks
    unroll (← cursor).column
    match (← cursor).rest with
    | [] =>
      unroll (-1)
      dropMark
    | ch :: _ =>
      readToken ch
      readAll fuel

end Lex

/-- The tokens of a text; a byte order mark in front of it does not count. -/
def tokens? (text : String) : Option (List Token) := do
  let text := match text.toList with
    | '\ufeff' :: rest => rest
    | text => text
  guard (text.all isAllowed)
  let ((), s) ← (Lex.readAll (text.length + 2)).run { cursor := { rest := text } }
  return s.tokens.toList

end AudioCatalog.Yaml
