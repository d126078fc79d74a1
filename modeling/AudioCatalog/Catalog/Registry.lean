import AudioCatalog.Catalog.Error

namespace AudioCatalog.Catalog

structure Registry (e : Entity) (δ : Type) where
  rows : Table (EntityId e) (Named e δ) := ∅
  byMbid : Table Mbid (EntityId e) := ∅
  byName : Relation String (EntityId e) := ∅
  next : Nat := 1
deriving DecidableEq

namespace Registry

variable {e : Entity} {δ : Type}

def find? (r : Registry e δ) (id : EntityId e) : Option (Named e δ) := r.rows[id]?

def indexed (r : Registry e δ) (id : EntityId e) : Except Error (Named e δ) :=
  match r.find? id with
  | some row => .ok row
  | none => .error (missing id)

def findByMbid (r : Registry e δ) (mbid : Mbid) : Except Error (Option (Named e δ)) :=
  match r.byMbid[mbid]? with
  | some id => (r.indexed id).map some
  | none => .ok none

def findByName (r : Registry e δ) (name : String) : Except Error (List (Named e δ)) :=
  (r.byName.image name).mapM r.indexed

def checkMbid (r : Registry e δ) (mbid : Option Mbid) (isOwn : Named e δ → Bool) :
    Except Error Unit := do
  if let some mbid := mbid then
    if let some other ← r.findByMbid mbid then
      unless isOwn other do throw (.conflict (.mbidTaken e mbid))

def indexMbid (r : Registry e δ) (mbid : Option Mbid) (id : EntityId e) : Registry e δ :=
  match mbid with
  | some mbid => { r with byMbid := r.byMbid.insert mbid id }
  | none => r

def unindexMbid (r : Registry e δ) (mbid : Option Mbid) : Registry e δ :=
  match mbid with
  | some mbid => { r with byMbid := r.byMbid.erase mbid }
  | none => r

def put (r : Registry e δ) (row : Named e δ) : Registry e δ :=
  { r with rows := r.rows.insert row.id row }

def create (name : String) (mbid : Option Mbid) (detail : δ) (r : Registry e δ) :
    Except Error (Named e δ × Registry e δ) := do
  r.checkMbid mbid fun _ => false
  let row : Named e δ := ⟨⟨r.next⟩, name, mbid, detail⟩
  let r := { r.put row with next := r.next + 1, byName := r.byName.insert name row.id }
  return (row, r.indexMbid mbid row.id)

def update (row : Named e δ) (r : Registry e δ) : Except Error (Unit × Registry e δ) := do
  let previous ← r.indexed row.id
  let mut r := r
  if previous.mbid ≠ row.mbid then
    r.checkMbid row.mbid fun other => other.id = row.id
    r := (r.unindexMbid previous.mbid).indexMbid row.mbid row.id
  if previous.name ≠ row.name then
    r := { r with byName := (r.byName.erase previous.name row.id).insert row.name row.id }
  return ((), r.put row)

def erase (r : Registry e δ) (row : Named e δ) : Registry e δ :=
  let r := { r with byName := r.byName.erase row.name row.id }
  let r := r.unindexMbid row.mbid
  { r with rows := r.rows.erase row.id }

end Registry

end AudioCatalog.Catalog
