import DepClause.Main
import DepClause.Proofs.Label.Runs
import DepClause.Proofs.Label.Spelling
import DepClause.Proofs.Version.WellFormed
import DepClause.Proofs.Label.Encoding
import DepClause.Proofs.Version.Release
import DepClause.Proofs.Label.Embedding
import DepClause.Proofs.Label.LocalParts
import DepClause.Proofs.Label.VersionOrder
import DepClause.Proofs.Specifier.Valid
import DepClause.Proofs.Specifier.Bound
import DepClause.Proofs.Specifier.Clauses
import DepClause.Proofs.Marker.Evaluation
import DepClause.Proofs.Marker.Grouping
import DepClause.Proofs.Marker.ConditionText
import DepClause.Proofs.Marker.Finality
import DepClause.Proofs.Version.Spelling
import DepClause.Proofs.Version.Reading
import DepClause.Proofs.Version.NormalForm
import DepClause.Proofs.Label.Strict
import DepClause.Proofs.Marker.Lexing
import DepClause.Proofs.Marker.Grammar
import DepClause.Proofs.Comparison
import DepClause.Proofs.Version.Keys
import DepClause.Proofs.Label.RunOrder
import DepClause.Proofs.Version.Sorting
import DepClause.Proofs.Command.SortCheck
import DepClause.Proofs.Settings.Layers
import DepClause.Proofs.Disk.Path
import DepClause.Proofs.Disk.Walk
import DepClause.Proofs.Disk.Entry
import DepClause.Proofs.Disk.Growth
import DepClause.Proofs.Settings.Reading
import DepClause.Proofs.Settings.Holding
import DepClause.Proofs.Settings.Session
import DepClause.Proofs.Version.Grade
import DepClause.Proofs.Label.Tokens
import DepClause.Proofs.Label.Canonical
import DepClause.Proofs.Specifier.Interval
import DepClause.Proofs.Version.Equality
import DepClause.Proofs.Specifier.Interchange
import DepClause.Proofs.Specifier.Compatible
import DepClause.Proofs.Marker.Printing
import DepClause.Proofs.Marker.Sides
import DepClause.Proofs.Template
import DepClause.Proofs.Marker.Mention
import DepClause.Proofs.Marker.Capability
import DepClause.Proofs.DependencyTags
import DepClause.Proofs.Requirement
import DepClause.Proofs.Specifier.Printing
import DepClause.Proofs.Clause.Translation
import DepClause.Proofs.Clause.Form
import DepClause.Proofs.Template.Segments
import DepClause.Proofs.Glob
import DepClause.Proofs.Settings.Reload
import DepClause.Proofs.Command.SettingsReset
import DepClause.Proofs.Metadata
import DepClause.Proofs.Version.InputOrder
import DepClause.Proofs.Label.Releases
import DepClause.Proofs.Command.Output
import DepClause.Proofs.Metadata.ExtraNames
