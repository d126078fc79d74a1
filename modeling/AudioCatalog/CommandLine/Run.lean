import AudioCatalog.Audio.Reading
import AudioCatalog.Catalog.Opening
import AudioCatalog.Catalog.Settings
import AudioCatalog.CommandLine.Arguments
import AudioCatalog.Config.File
import AudioCatalog.Config.Location
import AudioCatalog.Scan.Scanner

namespace AudioCatalog.CommandLine

inductive Failure where
  | config (e : Config.LoadError)
  | noMusicRoot
  | opening (e : Catalog.OpenError)
  | settings (e : Config.Error)
  | catalog (e : Catalog.Error)
  | capacityOverflow
deriving DecidableEq

namespace Failure

def ofFault : Scan.Fault → Failure
  | .catalog e => .catalog e
  | .capacityOverflow => .capacityOverflow

def configDetails : Config.LoadError → String
  | .file cause => s!"Io({cause.details})"
  | .notConfig => "Yaml"

def openingDetails : Catalog.OpenError → String
  | .place cause => s!"Io({cause.details})"
  | .file cause => s!"Redb(Io({cause.details}))"
  | .notCatalog => "Redb(Io(Kind(InvalidData)))"
  | .version .truncated =>
    "Bincode(Io(Error \x7b kind: UnexpectedEof, message: \"failed to fill whole buffer\" \x7d))"
  | .version (.mismatch found) => s!"VersionMismatch({found})"

def details : Failure → String
  | .config e => configDetails e
  | .noMusicRoot =>
    Text.Quoted.quoteText "music_root not set in configuration and no path argument"
  | .opening e => openingDetails e
  | .settings e => s!"Config({Text.Quoted.quoteText e.reason})"
  | .catalog e@(.conflict _) => s!"Conflict({Text.Quoted.quoteText e.reason})"
  | .catalog e@(.missing ..) => s!"CorruptIndex({Text.Quoted.quoteText e.reason})"
  | .capacityOverflow => "capacity overflow"

def code : Failure → Nat
  | .capacityOverflow => 101
  | _ => 1

end Failure

structure Report where
  stats : Scan.Stats
  isAborted : Bool
  catalog : Catalog.State

def Report.text (r : Report) : String :=
  let s := r.stats
  let c := r.catalog
  let aborted := if r.isAborted then " (aborted)" else ""
  s!"Scanned {s.scans} files: {s.additions} added, {s.updates} updated, {s.deletions} removed, " ++
  s!"{s.skips} unchanged, {s.failures.length} errors{aborted}\n" ++
  s!"Catalog: {c.tracks.size} tracks, {c.artists.rows.size} artists, " ++
  s!"{c.releases.rows.size} releases, {c.clusters.size} clusters\n"

/-- A run on the files of a tree; what it did before it failed stays done. -/
abbrev Run := EStateM Failure (FileTree Content)

def orFail {α ε : Type} (failure : ε → Failure) : Except ε α → Run α
  | .ok a => return a
  | .error e => throw (failure e)

def nanoseconds (now : Int) : Int := now * nanosecondsInSecond

def save (index : Path) (s : Catalog.State) (now : Int) : Run Unit :=
  (Catalog.save index s (nanoseconds now)).adaptExcept .opening

def openCatalog (c : Config) (index : Path) (now : Int) : Run Catalog.State := do
  let s ← (Catalog.openAt index (nanoseconds now)).adaptExcept .opening
  let (_, s) ← orFail .catalog (s.transact (Catalog.Session.syncSettings c.clusterTypes))
  save index s now
  return s

/-- Nothing changes while a run is under way, and nobody aborts it. -/
def surroundings (c : Config) (style : Tag.ReadStyle) (t : FileTree Content) (now : Int) :
    Scan.Surroundings Unit Content where
  wait := id
  tree _ := t
  parse _ := Audio.parse style c.clusterTypes t
  isAborted _ := false
  clearAbort := id
  report _ := id
  now _ := now

/-- The arguments go before the configuration. -/
def musicRoot? (a : Arguments) (c : Config) : Option Path :=
  a.musicRoot? <|> Config.resolveMusicRoot? a.configPath c.musicRoot

def indexPath (a : Arguments) (c : Config) : Path := Config.resolvePath a.configPath c.indexPath

def scan (a : Arguments) (now : Int) : Run Report := do
  let (c, _) ← (Config.load a.configPath (nanoseconds now)).adaptExcept .config
  match musicRoot? a c with
  | none => throw .noMusicRoot
  | some root =>
    let index := indexPath a c
    let s ← openCatalog c index now
    let style ← orFail .settings c.style
    let scanner ← orFail .settings (Scan.Scanner.ofConfig c s)
    let env := surroundings c style (← get) now
    match Scan.scan env (scanner.plan root a.isForced) (.start () s) with
    | .ok () r =>
      save index r.catalog now
      return ⟨r.stats, r.isAborted, r.catalog⟩
    | .error fault r =>
      save index r.catalog now
      throw (.ofFault fault)

structure Ending where
  code : Nat
  output : String := ""
  complaint : String := ""
deriving DecidableEq

def run (environment? : Option Word) (words : List Word) (now : Int) :
    StateM (FileTree Content) Ending := do
  match Arguments.ofWords environment? words with
  | .error .help => return { code := 0, output := help environment? }
  | .error (.usage e) => return { code := 2, complaint := e.message }
  | .ok a =>
    match scan a now (← get) with
    | .ok report t =>
      set t
      return { code := 0, output := report.text }
    | .error failure t =>
      set t
      return { code := failure.code, complaint := s!"Error: {failure.details}\n" }

end AudioCatalog.CommandLine
