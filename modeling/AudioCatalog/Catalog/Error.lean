import AudioCatalog.Catalog.Entity

namespace AudioCatalog.Catalog

inductive Conflict where
  | pathTaken (path : String)
  | mbidTaken (e : Entity) (mbid : Mbid)
  | clusterTypeTaken (name : String)
  | clusterTypeUnknown (id : ClusterTypeId)
  | clusterTaken (name : String)
deriving DecidableEq

def Conflict.message : Conflict → String
  | .pathTaken path => s!"track already cataloged at {path}"
  | .mbidTaken e mbid => s!"{e.label} MBID {mbid} already cataloged"
  | .clusterTypeTaken name => s!"cluster type '{name}' already exists"
  | .clusterTypeUnknown id => s!"unknown cluster type {id}"
  | .clusterTaken name => s!"cluster '{name}' already exists"

inductive Error where
  | conflict (c : Conflict)
  | missing (e : Entity) (number : Nat)
deriving DecidableEq

def Error.reason : Error → String
  | .conflict c => c.message
  | .missing e number => s!"{e.label} {number} is indexed but missing"

def Error.message (e : Error) : String :=
  match e with
  | .conflict _ => s!"catalog conflict: {e.reason}"
  | .missing .. => s!"corrupt index: {e.reason}"

def missing {e : Entity} (id : EntityId e) : Error := .missing e id.number

end AudioCatalog.Catalog
