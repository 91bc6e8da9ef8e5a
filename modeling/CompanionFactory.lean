import CompanionFactory.Text.Dotted
import CompanionFactory.Text.Quoted
import CompanionFactory.Number.Binary64
import CompanionFactory.Number.Shortest
import CompanionFactory.Number.Literal
import CompanionFactory.OrderedSet
import CompanionFactory.Log
import CompanionFactory.Diagnostic
import CompanionFactory.Annotations.Basic
import CompanionFactory.Annotations.Source
import CompanionFactory.Element.Kind
import CompanionFactory.Element.Basic
import CompanionFactory.File.Fault
import CompanionFactory.File.Sink
import CompanionFactory.File.Store
import CompanionFactory.File.Memory
import CompanionFactory.File.Bounded
import CompanionFactory.File.Path
import CompanionFactory.File.Tree
import CompanionFactory.File.Directory
import CompanionFactory.Source.Layout
import CompanionFactory.Source.Writer
import CompanionFactory.Target.Settings
import CompanionFactory.Target.Fault
import CompanionFactory.Target.Options
import CompanionFactory.Target.Parameter
import CompanionFactory.Target.Analysis
import CompanionFactory.Factory.Declaration
import CompanionFactory.Factory.Source
import CompanionFactory.Round.TypeTable
import CompanionFactory.Round.Host
import CompanionFactory.Round.Discovery
import CompanionFactory.Round.Attempt
import CompanionFactory.Round.Queue
import CompanionFactory.Round.Generator
import CompanionFactory.Proofs.Text.Recovery
import CompanionFactory.Proofs.Text.Lines
import CompanionFactory.Proofs.Text.Quoted
import CompanionFactory.Proofs.Text.Word
import CompanionFactory.Proofs.Text.Scan
import CompanionFactory.Proofs.Annotations.WellFormed
import CompanionFactory.Proofs.Annotations.Unambiguous
import CompanionFactory.Proofs.Source.Members
import CompanionFactory.Proofs.Source.Truncation
import CompanionFactory.Proofs.Source.Brackets
import CompanionFactory.Proofs.Source.ClassBody
import CompanionFactory.Proofs.Source.BlankLines
import CompanionFactory.Proofs.Factory.Template
import CompanionFactory.Proofs.Factory.Forwarding
import CompanionFactory.Proofs.Target.Binding
import CompanionFactory.Proofs.Target.Partition
import CompanionFactory.Proofs.Target.Carried
import CompanionFactory.Proofs.Target.Options
import CompanionFactory.Proofs.Target.Faults
import CompanionFactory.Proofs.File.Path
import CompanionFactory.Proofs.File.Tree
import CompanionFactory.Proofs.File.Memory
import CompanionFactory.Proofs.File.Mirror
import CompanionFactory.Proofs.File.Confinement
import CompanionFactory.Proofs.Annotations.Lexical
import CompanionFactory.Proofs.Factory.FieldNames
import CompanionFactory.Proofs.Factory.Providers
import CompanionFactory.Proofs.Factory.Namespace
import CompanionFactory.Proofs.Factory.Lexical
import CompanionFactory.Proofs.Element.Nested
import CompanionFactory.Proofs.Round.Attempt
import CompanionFactory.Proofs.Round.Sweep
import CompanionFactory.Proofs.Round.Compilation
import CompanionFactory.Proofs.Round.Files
import CompanionFactory.Proofs.Round.Pending
import CompanionFactory.Proofs.Round.Diagnostics
import CompanionFactory.Proofs.Round.Schedule
import CompanionFactory.Proofs.Round.Discovery
import CompanionFactory.Proofs.Round.Queue
import CompanionFactory.Proofs.Round.Verdicts
