import LeastContext.Draft.Sketch
import LeastContext.Dump.Encode
import LeastContext.Main
import LeastContext.Tracker
import LeastContext.Proofs.CycleSearch
import LeastContext.Proofs.SyntaxParts
import LeastContext.Proofs.Underlying
import LeastContext.Proofs.WellFormed
import LeastContext.Proofs.SharedRecords
import LeastContext.Proofs.LedgerHistory
import LeastContext.Proofs.LedgerRuns
import LeastContext.Proofs.TrackerRuns
import LeastContext.Proofs.Comparison
import LeastContext.Proofs.AnalysisHistory
import LeastContext.Proofs.UseSites
import LeastContext.Proofs.MarkedUses
import LeastContext.Proofs.EmbedWalks
import LeastContext.Proofs.Requests
import LeastContext.Proofs.Constituents
import LeastContext.Proofs.WrittenInterfaces
import LeastContext.Proofs.Implementations
import LeastContext.Proofs.SiblingPools
import LeastContext.Proofs.Strict.Lookups
import LeastContext.Proofs.Strict.Composition
import LeastContext.Proofs.Strict.MethodSets
import LeastContext.Proofs.Strict.Comparison
import LeastContext.Proofs.Strict.Rendering
import LeastContext.Proofs.Strict.Pooling
import LeastContext.Proofs.Strict.Verdict
import LeastContext.Proofs.Strict.Marking
import LeastContext.Proofs.Strict.Report
import LeastContext.Proofs.Totality
import LeastContext.Proofs.BlankFindings
import LeastContext.Proofs.SearchedPlaces
import LeastContext.Proofs.CollectedVariables
import LeastContext.Proofs.Dump.Fields
import LeastContext.Proofs.Dump.Tables
import LeastContext.Proofs.Dump.RoundTrip
import LeastContext.Proofs.Replacement
import LeastContext.Proofs.WrappedMarks
import LeastContext.Proofs.WrappedAnalysis
import LeastContext.Proofs.ReportedVariables
import LeastContext.Proofs.TrackedRecords
import LeastContext.Proofs.FileOrder
import LeastContext.Proofs.Renumbering.Basic
import LeastContext.Proofs.Draft.Handles
import LeastContext.Proofs.Draft.Soundness
import LeastContext.Proofs.Draft.Trees
import LeastContext.Proofs.Draft.Validity
import LeastContext.Proofs.Renumbering.Types
import LeastContext.Proofs.Renumbering.Methods
import LeastContext.Proofs.Renumbering.Verdicts
import LeastContext.Proofs.Renumbering.Trees
import LeastContext.Proofs.Renumbering.Analysis
import LeastContext.Proofs.Renumbering.Validity
import LeastContext.Proofs.FieldChains
import LeastContext.Proofs.Promotion
import LeastContext.Proofs.PointerForm
import LeastContext.Proofs.FindingCauses
import LeastContext.Proofs.FilePaths
import LeastContext.Proofs.GatheredDumps
import LeastContext.Proofs.DumpBatches
import LeastContext.Proofs.Flattening
import LeastContext.Proofs.CapabilityGroups
import LeastContext.Proofs.TypeIdentity
import LeastContext.Proofs.DeclaredUse
import LeastContext.Proofs.PooledVerdicts
import LeastContext.Proofs.MessageExpansion
import LeastContext.Proofs.VisibleComposition
import LeastContext.Proofs.PlainFlattening
import LeastContext.Proofs.StackSearch
import LeastContext.Proofs.NameChains
