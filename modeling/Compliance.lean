import Compliance.Calendar
import Compliance.CommandLine.Options
import Compliance.CommandLine.Run
import Compliance.CommandLine.Terminal
import Compliance.Config
import Compliance.Confine
import Compliance.Corpus
import Compliance.Diagnostics
import Compliance.Files.Directory
import Compliance.Files.Disk
import Compliance.Files.Path
import Compliance.Hiera.CheckMap
import Compliance.Hiera.Compiler
import Compliance.Hiera.ConfinedMerge
import Compliance.Hiera.Resolve
import Compliance.JUnit
import Compliance.Json.Printer
import Compliance.Json.Reader
import Compliance.Lint
import Compliance.Merge
import Compliance.Number.Binary64
import Compliance.Number.Decimal
import Compliance.Scalar
import Compliance.Schema.Check
import Compliance.Schema.Document
import Compliance.Schema.Fields
import Compliance.Session
import Compliance.Store
import Compliance.Table
import Compliance.Text.Cut
import Compliance.Text.DecimalDigit
import Compliance.Text.Digits
import Compliance.Text.Quoted
import Compliance.Text.Unprintable
import Compliance.Text.Utf8
import Compliance.Tree.Basic
import Compliance.Tree.Equality
import Compliance.Tree.Render
import Compliance.Xml
import Compliance.Yaml.Cursor
import Compliance.Yaml.Node
import Compliance.Yaml.Number
import Compliance.Yaml.Reader
import Compliance.Yaml.Tag
import Compliance.Yaml.Token
import Compliance.Yaml.Token.Block
import Compliance.Yaml.Token.Mark
import Compliance.Yaml.Token.Plain
import Compliance.Yaml.Token.Quoted
import Compliance.Yaml.Token.Stream
import Compliance.Yaml.Value
import Compliance.Main
import Compliance.Proofs.LoggedFacts
import Compliance.Proofs.MergeInvariant
import Compliance.Proofs.ConfinedView
import Compliance.Proofs.CheckIndex
import Compliance.Proofs.Routes
import Compliance.Proofs.ResolveFacts
import Compliance.Proofs.ConfinedEntries
import Compliance.Proofs.KnockoutTrace
import Compliance.Proofs.CheckedTrees
import Compliance.Proofs.Loading
import Compliance.Proofs.CompileMessages
import Compliance.Proofs.Runs
import Compliance.Proofs.SchemaGrammar
import Compliance.Proofs.SchemaVerdicts
import Compliance.Proofs.DocumentVerdicts
import Compliance.Proofs.DistinctKeys
import Compliance.Proofs.LastWriter
import Compliance.Proofs.ViewAgreement
import Compliance.Proofs.ContextCoverage
import Compliance.Proofs.SplitClauses
import Compliance.Proofs.SelfMerge
import Compliance.Proofs.SoleSetter
import Compliance.Proofs.Narrowing
import Compliance.Proofs.ProfileIndependence
import Compliance.Proofs.LintedChecks
import Compliance.Proofs.Parsing
import Compliance.Proofs.StoreHistory
import Compliance.Proofs.Discovery
import Compliance.Proofs.LoadOrder
import Compliance.Proofs.SessionHistory
import Compliance.Proofs.ContextEnumeration
import Compliance.Proofs.TwinClasses
import Compliance.Proofs.LastMention
import Compliance.Proofs.ResolvedRuns
import Compliance.Proofs.WrittenFiles
import Compliance.Proofs.StartedRuns
import Compliance.Proofs.ReportFacts
import Compliance.Proofs.OneVerdict
import Compliance.Proofs.RepeatedMerge
import Compliance.Proofs.FileOrder
import Compliance.Proofs.MessageSources
import Compliance.Proofs.DiscoveredTypes
import Compliance.Proofs.EncodedText
import Compliance.Proofs.ProjectFile
import Compliance.Proofs.FindingTexts
import Compliance.Proofs.StoppedRules
import Compliance.Proofs.Redefinitions
import Compliance.Proofs.ReadElements
import Compliance.Proofs.LosslessReport
import Compliance.Proofs.FirstOccurrences
import Compliance.Proofs.KeptEntries
import Compliance.Proofs.AccountedReport
import Compliance.Proofs.MadeDirectories
import Compliance.Proofs.AdmittedTexts
import Compliance.Proofs.AdmittedReports
import Compliance.Proofs.VisitedNodes
import Compliance.Proofs.DerivedTrees
