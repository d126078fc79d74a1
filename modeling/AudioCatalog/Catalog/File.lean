import AudioCatalog.Catalog.State

namespace AudioCatalog.Catalog

/-- The version as its file has it: the bytes of a number, the lowest first; none in a file that was
never opened. -/
structure File where
  version : Option (List UInt8) := none
  state : State := {}
deriving DecidableEq

namespace File

def currentVersion : Nat := 1

inductive VersionFault where
  | truncated
  | mismatch (version : Nat)
deriving DecidableEq

def readVersion : List UInt8 → Except VersionFault Nat
  | a :: b :: c :: d :: _ =>
    .ok (a.toNat + 0x100 * b.toNat + 0x10000 * c.toNat + 0x1000000 * d.toNat)
  | _ => .error .truncated

def checkVersion (f : File) : Except VersionFault Unit := do
  if let some bytes := f.version then
    let version ← readVersion bytes
    if version ≠ currentVersion then throw (.mismatch version)

def ofState (s : State) : File := ⟨some [1, 0, 0, 0], s⟩

end File

end AudioCatalog.Catalog
