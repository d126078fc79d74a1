namespace AudioCatalog.Tag

inductive ReadStyle where
  | fast
  | average
  | accurate
deriving DecidableEq

namespace ReadStyle

structure Unknown where
  name : String
deriving DecidableEq

def Unknown.message (e : Unknown) : String :=
  s!"invalid parser read style '{e.name}' (expected fast, average or accurate)"

def ofName (name : String) : Except Unknown ReadStyle :=
  match name with
  | "fast" => .ok .fast
  | "average" => .ok .average
  | "accurate" => .ok .accurate
  | _ => .error ⟨name⟩

/-- Only the accurate style refuses a file for a damaged comment; the others leave it out. -/
def isStrict : ReadStyle → Bool
  | .accurate => true
  | .fast | .average => false

end ReadStyle

end AudioCatalog.Tag
