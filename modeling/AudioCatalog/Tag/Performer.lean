import AudioCatalog.Text.Blank

namespace AudioCatalog.Tag

structure Performer where
  name : String
  role : Option String
deriving DecidableEq

namespace Performer

def splitOpening? (text : List Char) : Option (List Char × List Char) :=
  match text.reverse.span (· ≠ '(') with
  | (role, _ :: name) => some (name.reverse, role.reverse)
  | (_, []) => none

def splitRole? (text : List Char) : Option (List Char × List Char) := do
  guard (text.getLast? = some ')')
  let (name, role) ← splitOpening? text.dropLast
  guard (Text.trim name ≠ [])
  return (Text.trim name, Text.trim role)

/-- An empty role is none; a text without a name before its role is all name. -/
def ofText (text : String) : Performer :=
  let text := Text.trim text.toList
  match splitRole? text with
  | some (name, []) => ⟨String.ofList name, none⟩
  | some (name, role) => ⟨String.ofList name, some (String.ofList role)⟩
  | none => ⟨String.ofList text, none⟩

end Performer

end AudioCatalog.Tag
