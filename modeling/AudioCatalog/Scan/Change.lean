import AudioCatalog.Catalog.Query

namespace AudioCatalog.Scan

inductive Change where
  | needsScan
  | unchanged
deriving DecidableEq

/-- A file is unchanged only where its track has both its time and the current scan version. -/
def detectChange (s : Catalog.State) (key : String) (lastWriteTime : Int) (scanVersion : Nat)
    (isForced : Bool) : Except Catalog.Error Change := do
  if isForced then return .needsScan
  match ← s.findTrackByPath key with
  | some track =>
    if track.lastWriteTime = lastWriteTime ∧ track.scanVersion = scanVersion then
      return .unchanged
    else return .needsScan
  | none => return .needsScan

end AudioCatalog.Scan
