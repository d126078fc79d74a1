import AudioCatalog.Catalog.Session
import AudioCatalog.Text.Blank

namespace AudioCatalog.Catalog

def currentLogic : Nat := 1

/-- The names without blanks around them, in order, each once; blank ones are left out. -/
def normalizedNames (names : List String) : List String :=
  (Std.ExtTreeSet.ofList ((names.map Text.trimmed).filter (· ≠ "")) compare).toList

/-- The settings for these names, as they are, or under the next scan version. -/
def ScanSettings.adjusted (settings : ScanSettings) (names : List String) : ScanSettings :=
  if settings.clusterTypeNames = names ∧ settings.logicVersion = currentLogic then settings
  else ⟨settings.scanVersion + 1, currentLogic, names⟩

namespace Session

def provideClusterType (name : String) : Session Unit := do
  if (← query (·.findClusterTypeByName name)).isNone then
    let _ ← createClusterType name

def syncSettings (names : List String) : Session ScanSettings := do
  let names := normalizedNames names
  let settings := (← get).settings.adjusted names
  saveSettings settings
  names.forM provideClusterType
  return settings

end Session

end AudioCatalog.Catalog
