import AudioCatalog.Archive
import AudioCatalog.Audio.Flac
import AudioCatalog.Audio.Flac.Block
import AudioCatalog.Audio.Reading
import AudioCatalog.Catalog.Archive
import AudioCatalog.Catalog.Entity
import AudioCatalog.Catalog.Error
import AudioCatalog.Catalog.File
import AudioCatalog.Catalog.Identity
import AudioCatalog.Catalog.Opening
import AudioCatalog.Catalog.Query
import AudioCatalog.Catalog.Registry
import AudioCatalog.Catalog.Relation
import AudioCatalog.Catalog.Session
import AudioCatalog.Catalog.Settings
import AudioCatalog.Catalog.State
import AudioCatalog.Catalog.Store
import AudioCatalog.CommandLine.Arguments
import AudioCatalog.CommandLine.Run
import AudioCatalog.Config.Basic
import AudioCatalog.Config.Document
import AudioCatalog.Config.File
import AudioCatalog.Config.Location
import AudioCatalog.Content
import AudioCatalog.Decimal.Literal
import AudioCatalog.Decimal.Range
import AudioCatalog.Decimal.Single
import AudioCatalog.FileExtension
import AudioCatalog.FileTree.Basic
import AudioCatalog.FileTree.Edit
import AudioCatalog.FileTree.Error
import AudioCatalog.FileTree.Exclusion
import AudioCatalog.FileTree.Walk
import AudioCatalog.Main
import AudioCatalog.Mbid
import AudioCatalog.PartialDate
import AudioCatalog.Path
import AudioCatalog.Scan.Change
import AudioCatalog.Scan.Failure
import AudioCatalog.Scan.Files
import AudioCatalog.Scan.Orphans
import AudioCatalog.Scan.Progress
import AudioCatalog.Scan.Reconciliation
import AudioCatalog.Scan.Run
import AudioCatalog.Scan.Scanner
import AudioCatalog.Tag.Item
import AudioCatalog.Tag.Metadata
import AudioCatalog.Tag.Number
import AudioCatalog.Tag.ParseError
import AudioCatalog.Tag.Performer
import AudioCatalog.Tag.ReadStyle
import AudioCatalog.Tag.Reading
import AudioCatalog.Tag.Values
import AudioCatalog.Text.Blank
import AudioCatalog.Text.Digits
import AudioCatalog.Text.Numeral
import AudioCatalog.Text.Printable
import AudioCatalog.Text.Quoted
import AudioCatalog.Text.Utf8
import AudioCatalog.Yaml.Character
import AudioCatalog.Yaml.Cursor
import AudioCatalog.Yaml.Node
import AudioCatalog.Yaml.Plain
import AudioCatalog.Yaml.ScalarText
import AudioCatalog.Yaml.Token
import AudioCatalog.Yaml.Written
import AudioCatalog.Proofs.Absence
import AudioCatalog.Proofs.Absorption
import AudioCatalog.Proofs.Account
import AudioCatalog.Proofs.Batching
import AudioCatalog.Proofs.Chronicle
import AudioCatalog.Proofs.CleanPrefix
import AudioCatalog.Proofs.Cleanup
import AudioCatalog.Proofs.ClusterNames
import AudioCatalog.Proofs.Coherence
import AudioCatalog.Proofs.Commits
import AudioCatalog.Proofs.Computation
import AudioCatalog.Proofs.Containment
import AudioCatalog.Proofs.Counts
import AudioCatalog.Proofs.CreditChange
import AudioCatalog.Proofs.CreditLists
import AudioCatalog.Proofs.Crediting
import AudioCatalog.Proofs.DateText
import AudioCatalog.Proofs.Dependability
import AudioCatalog.Proofs.Digits
import AudioCatalog.Proofs.EntityChange
import AudioCatalog.Proofs.EntityRemoval
import AudioCatalog.Proofs.Exploration
import AudioCatalog.Proofs.FileView
import AudioCatalog.Proofs.FirstComers
import AudioCatalog.Proofs.Freshness
import AudioCatalog.Proofs.Growth
import AudioCatalog.Proofs.Heirs
import AudioCatalog.Proofs.History
import AudioCatalog.Proofs.Identity
import AudioCatalog.Proofs.Index
import AudioCatalog.Proofs.Integrity
import AudioCatalog.Proofs.Interruption
import AudioCatalog.Proofs.Ledger
import AudioCatalog.Proofs.Lexicographic
import AudioCatalog.Proofs.Locating
import AudioCatalog.Proofs.Lockstep
import AudioCatalog.Proofs.Lookup
import AudioCatalog.Proofs.MbidText
import AudioCatalog.Proofs.Mention
import AudioCatalog.Proofs.Minutes
import AudioCatalog.Proofs.Namesakes
import AudioCatalog.Proofs.Operation
import AudioCatalog.Proofs.OrphanBatches
import AudioCatalog.Proofs.OrphanEntities
import AudioCatalog.Proofs.OrphanTracks
import AudioCatalog.Proofs.Orphans
import AudioCatalog.Proofs.OtherTracks
import AudioCatalog.Proofs.Pace
import AudioCatalog.Proofs.Passes
import AudioCatalog.Proofs.PathParts
import AudioCatalog.Proofs.PathUniqueness
import AudioCatalog.Proofs.PerformerText
import AudioCatalog.Proofs.PlainNames
import AudioCatalog.Proofs.Published
import AudioCatalog.Proofs.Reading
import AudioCatalog.Proofs.Reconciliation
import AudioCatalog.Proofs.Recordings
import AudioCatalog.Proofs.Refusal
import AudioCatalog.Proofs.Registry
import AudioCatalog.Proofs.Removal
import AudioCatalog.Proofs.Repetition
import AudioCatalog.Proofs.Rescan
import AudioCatalog.Proofs.Residue
import AudioCatalog.Proofs.Resolution
import AudioCatalog.Proofs.ScanIntegrity
import AudioCatalog.Proofs.ScanStep
import AudioCatalog.Proofs.Scanned
import AudioCatalog.Proofs.Scanning
import AudioCatalog.Proofs.ShownFiles
import AudioCatalog.Proofs.Stillness
import AudioCatalog.Proofs.StrictResolution
import AudioCatalog.Proofs.Synchronization
import AudioCatalog.Proofs.TagNames
import AudioCatalog.Proofs.TimeOfDay
import AudioCatalog.Proofs.Timeless
import AudioCatalog.Proofs.Timeline
import AudioCatalog.Proofs.TrackChange
import AudioCatalog.Proofs.ValueLists
import AudioCatalog.Proofs.Versions
import AudioCatalog.Proofs.Visits
import AudioCatalog.Proofs.Works
