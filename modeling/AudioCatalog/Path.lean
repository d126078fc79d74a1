import AudioCatalog.Text.Quoted
import AudioCatalog.Text.Utf8

namespace AudioCatalog

structure Path where
  bytes : List UInt8
deriving DecidableEq

namespace Path

abbrev Name := List UInt8

def slash : UInt8 := '/'.toUInt8

def dot : UInt8 := '.'.toUInt8

def maxLength : Nat := 4095

def maxNameLength : Nat := 255

/-- What can stand between two slashes and name an entry of a directory. -/
def IsName (name : Name) : Prop :=
  name ≠ [] ∧ name ≠ [dot] ∧ name ≠ [dot, dot] ∧ slash ∉ name

instance : DecidablePred IsName := fun name =>
  inferInstanceAs (Decidable (name ≠ [] ∧ name ≠ [dot] ∧ name ≠ [dot, dot] ∧ slash ∉ name))

instance : Ord Path := ⟨compareOn Path.bytes⟩

def ofString (s : String) : Path := ⟨Text.Utf8.encode s⟩

/-- The text of a path, none where it is not UTF-8. -/
def key? (p : Path) : Option String := Text.Utf8.decode? p.bytes

def display (p : Path) : String := String.ofList (Text.Utf8.decodeLossy p.bytes)

def quoted (p : Path) : String := Text.Quoted.quote p.bytes

inductive Component where
  | root
  | current
  | parent
  | name (name : Name)
deriving DecidableEq

def isAbsolute (p : Path) : Bool := p.bytes.head? == some slash

def pieces (p : Path) : List Name := p.bytes.splitOnP (· == slash)

/-- Empty pieces, and dots after the first piece, change nothing about a path. -/
def isIdle (piece : Name) : Bool := piece == [] || piece == [dot]

def componentOf (piece : Name) : Component :=
  if piece = [dot, dot] then .parent else .name piece

def bodyComponents (pieces : List Name) : List Component :=
  (pieces.filter fun piece => !isIdle piece).map componentOf

/-- The components of a path: two paths with the same ones name the same place. -/
def components (p : Path) : List Component :=
  match p.pieces with
  | [] => []
  | first :: rest =>
    if p.isAbsolute then .root :: bodyComponents rest
    else if first = [dot] then .current :: bodyComponents rest
    else bodyComponents (first :: rest)

def ofPieces (pieces : List Name) : Path := ⟨[slash].intercalate pieces⟩

def parent? (p : Path) : Option Path :=
  match p.pieces with
  | [] => none
  | first :: rest =>
    match rest.reverse.dropWhile isIdle with
    | [] => if first = [] then none else some ⟨[]⟩
    | _ :: above =>
      match above.dropWhile isIdle with
      | [] => if p.isAbsolute then some ⟨[slash]⟩ else some ⟨first⟩
      | kept => some (ofPieces (first :: kept.reverse))

def fileName? (p : Path) : Option Name :=
  match p.components.getLast? with
  | some (.name name) => some name
  | _ => none

/-- What follows the last dot of a name, a leading dot not counting as one. -/
def extensionOf? (name : Name) : Option Name :=
  match name.reverse.span (· ≠ dot) with
  | (extension, _ :: stem) => if stem = [] then none else some extension.reverse
  | (_, []) => none

def extension? (p : Path) : Option Name := p.fileName? >>= extensionOf?

/-- An absolute path replaces the one it is joined to; a slash goes in between where there is none
yet. -/
def join (base p : Path) : Path :=
  if p.isAbsolute then p
  else if base.bytes = [] ∨ base.bytes.getLast? = some slash then ⟨base.bytes ++ p.bytes⟩
  else ⟨base.bytes ++ slash :: p.bytes⟩

/-- Component by component, so that `ab` does not lie under `a`. -/
def liesUnder (p base : Path) : Bool := base.components.isPrefixOf p.components

def isSame (p q : Path) : Bool := p.components == q.components

theorem key?_ofString (s : String) : (ofString s).key? = some s := Text.Utf8.decode?_encode s

theorem ofString_of_key? {p : Path} {s : String} (h : p.key? = some s) : ofString s = p := by
  obtain ⟨bytes⟩ := p
  simp only [key?, Text.Utf8.decode?, String.fromUTF8?, Option.dite_none_right_eq_some] at h
  obtain ⟨_, hs⟩ := h
  cases hs
  simp [ofString, Text.Utf8.encode, String.fromUTF8]

theorem key?_inj {p q : Path} {s : String} (hp : p.key? = some s) (hq : q.key? = some s) :
    p = q :=
  (ofString_of_key? hp).symm.trans (ofString_of_key? hq)

theorem length_lt_length_join {base : Path} {name : Name} (h : name ≠ [])
    (relative : (Path.mk name).isAbsolute = false) :
    base.bytes.length < (base.join ⟨name⟩).bytes.length := by
  have := List.length_pos_iff.mpr h
  simp only [join, relative]
  split
  · rename_i h; cases h
  · split
    · simp only [List.length_append]; omega
    · simp only [List.length_append, List.length_cons]; omega

end Path

end AudioCatalog
