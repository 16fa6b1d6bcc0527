import WireSchema.Artifact
import WireSchema.Json.Config
import WireSchema.Json.Descriptor
import WireSchema.Json.Report
import WireSchema.Proofs.SharedSession
import WireSchema.Session
import WireSchema.Proofs.TypeRegistry
import WireSchema.Proofs.Findings
import WireSchema.Proofs.Description
import WireSchema.Proofs.Imports
import WireSchema.Proofs.References
import WireSchema.Proofs.Unresolved
import WireSchema.Proofs.Scoping
import WireSchema.Proofs.Sources
import WireSchema.Proofs.FieldShape
import WireSchema.Proofs.Converters
import WireSchema.Proofs.HostTypes
import WireSchema.Proofs.PackageOutcome
import WireSchema.Proofs.RegistryUse
import WireSchema.Proofs.StepOrder
import WireSchema.Proofs.Conservativity
import WireSchema.Proofs.Rearrangement
import WireSchema.Proofs.CanonicalOrder
import WireSchema.Proofs.Symbols
import WireSchema.Proofs.DeclaredNames
import WireSchema.Proofs.Lexing
import WireSchema.Proofs.ImportLines
import WireSchema.Proofs.FileReading
import WireSchema.Proofs.ExtensionNumbers
import WireSchema.Proofs.ConversionHosts
import WireSchema.Proofs.ConvertedTypes
import WireSchema.Proofs.HostIdentifiers
import WireSchema.Proofs.TargetKinds
import WireSchema.Proofs.IntegerRules
import WireSchema.Proofs.TextRules
import WireSchema.Proofs.TemporalRules
import WireSchema.Proofs.ExactInstants
import WireSchema.Proofs.CompositeReports
import WireSchema.Proofs.RulePlacement
import WireSchema.Proofs.Drift
import WireSchema.Proofs.IgnoredNames
import WireSchema.Proofs.EnumDeclaration
import WireSchema.Proofs.LiteralReader
import WireSchema.Proofs.ReportReading
import WireSchema.Proofs.Registration
import WireSchema.Proofs.NestedModules
import WireSchema.Proofs.HostInitializers
import WireSchema.Proofs.GeneratedFiles
import WireSchema.Proofs.LiteralOrder
import WireSchema.Proofs.PackageNames
import WireSchema.Proofs.OptionNames
import WireSchema.Proofs.SingleUnderscores
