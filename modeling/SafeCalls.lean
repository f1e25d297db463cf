import SafeCalls.CommandLine.Arguments
import SafeCalls.CommandLine.Basic
import SafeCalls.CommandLine.Help
import SafeCalls.CommandLine.Options
import SafeCalls.Extraction.Classifier
import SafeCalls.Extraction.Extractor
import SafeCalls.Extraction.Marker
import SafeCalls.Extraction.Model
import SafeCalls.Extraction.Registration
import SafeCalls.Extraction.Setup
import SafeCalls.Extraction.Token
import SafeCalls.Files.Error
import SafeCalls.Files.Listing
import SafeCalls.Files.Path
import SafeCalls.Files.Tree
import SafeCalls.Json.Choice
import SafeCalls.Json.Decode
import SafeCalls.Json.Error
import SafeCalls.Json.Numeral
import SafeCalls.Json.Quoted
import SafeCalls.Json.Reader
import SafeCalls.Json.Reading
import SafeCalls.Json.Record
import SafeCalls.Json.Scalar
import SafeCalls.Json.Value
import SafeCalls.Main
import SafeCalls.Number.Binary64
import SafeCalls.Number.Shortest
import SafeCalls.Pass.Basic
import SafeCalls.Pass.Error
import SafeCalls.Problem
import SafeCalls.Project.Basic
import SafeCalls.Project.Error
import SafeCalls.Proofs.Agreement
import SafeCalls.Proofs.Contribution
import SafeCalls.Proofs.FileLookup
import SafeCalls.Proofs.Footprint
import SafeCalls.Proofs.Interleaving
import SafeCalls.Proofs.JsonRecord
import SafeCalls.Proofs.JsonText
import SafeCalls.Proofs.KeySpelling
import SafeCalls.Proofs.Nesting
import SafeCalls.Proofs.Outcome
import SafeCalls.Proofs.PassReport
import SafeCalls.Proofs.ProjectFiles
import SafeCalls.Proofs.Reduction
import SafeCalls.Proofs.Registered
import SafeCalls.Proofs.SnapshotForm
import SafeCalls.Proofs.SourceForm
import SafeCalls.Proofs.SymbolForm
import SafeCalls.Proofs.TextForm
import SafeCalls.Proofs.Walk
import SafeCalls.Proofs.Watched
import SafeCalls.Record
import SafeCalls.Settings.Basic
import SafeCalls.Settings.Error
import SafeCalls.Settings.File
import SafeCalls.Settings.Json
import SafeCalls.Settings.Loading
import SafeCalls.Settings.Validation
import SafeCalls.Settings.Yaml
import SafeCalls.Snapshot.Basic
import SafeCalls.Snapshot.Document
import SafeCalls.Sorted.Map
import SafeCalls.Sorted.Order
import SafeCalls.Sorted.Set
import SafeCalls.Source.Json
import SafeCalls.Source.Node
import SafeCalls.Source.Tree
import SafeCalls.Symbol.Basic
import SafeCalls.Symbol.Json
import SafeCalls.Symbol.Key
import SafeCalls.Symbol.Table
import SafeCalls.Text.Blank
import SafeCalls.Text.Glyph
import SafeCalls.Text.Offset
import SafeCalls.Text.Quoted
import SafeCalls.Text.Split
import SafeCalls.Time.Timestamp
import SafeCalls.Whitelist.Basic
import SafeCalls.Whitelist.Document
import SafeCalls.Whitelist.Error
import SafeCalls.Whitelist.Store
import SafeCalls.Yaml.Decode
import SafeCalls.Yaml.Document
import SafeCalls.Yaml.Error
import SafeCalls.Yaml.Node
import SafeCalls.Yaml.Property
import SafeCalls.Yaml.Scalar.Block
import SafeCalls.Yaml.Scalar.Folding
import SafeCalls.Yaml.Scalar.Plain
import SafeCalls.Yaml.Scalar.Quoted
import SafeCalls.Yaml.Scalar.Style
import SafeCalls.Yaml.Scalar.Writing
import SafeCalls.Yaml.Schema
import SafeCalls.Yaml.Stream
import SafeCalls.Yaml.Token
import SafeCalls.Yaml.Tokens
import SafeCalls.Yaml.Writer
import SafeCalls.Proofs.Information
import SafeCalls.Proofs.SharedDocument
import SafeCalls.Proofs.Regeneration
import SafeCalls.Proofs.SavedFile
import SafeCalls.Proofs.TimestampText
import SafeCalls.Proofs.DocumentForm
import SafeCalls.Proofs.DocumentKeys
import SafeCalls.Proofs.Rerendering
import SafeCalls.Proofs.Respelling
import SafeCalls.Proofs.SettingsForm
import SafeCalls.Proofs.RecursiveWalk
import SafeCalls.Proofs.LineSafety
import SafeCalls.Proofs.DocumentOrder
import SafeCalls.Proofs.FiredToken
import SafeCalls.Proofs.UseSites
import SafeCalls.Proofs.ClassSearch
import SafeCalls.Proofs.DescriptorSearch
import SafeCalls.Proofs.ExtensionOverlap
import SafeCalls.Proofs.LastSegment
import SafeCalls.Proofs.MarkerSpelling
import SafeCalls.Proofs.OtherVersions
