namespace AudioCatalog.Scan

inductive Step where
  | countFiles
  | scanFiles
  | removeOrphanTracks
  | removeOrphanEntities
deriving DecidableEq

namespace Step

def name : Step → String
  | .countFiles => "count files"
  | .scanFiles => "scan files"
  | .removeOrphanTracks => "remove orphan tracks"
  | .removeOrphanEntities => "remove orphan entities"

def all : List Step := [.countFiles, .scanFiles, .removeOrphanTracks, .removeOrphanEntities]

end Step

structure Progress where
  step : Step
  total : Nat := 0
  processed : Nat := 0
deriving DecidableEq

namespace Progress

def percent (p : Progress) : Nat := min p.processed p.total * 100 / p.total

end Progress

end AudioCatalog.Scan
