import KernelIsa.Bench.Programs
import KernelIsa.Bench.Rehearsal
import KernelIsa.Main
import KernelIsa.Proofs.Listing.LineForms
import KernelIsa.Proofs.Listing.Coverage
import KernelIsa.Proofs.Listing.ReducedText
import KernelIsa.Proofs.Listing.RegularLine
import KernelIsa.Proofs.Listing.RepeatedReduction
import KernelIsa.Proofs.Listing.Remarks
import KernelIsa.Proofs.Listing.InstructionCount
import KernelIsa.Proofs.Listing.ContiguousCode
import KernelIsa.Proofs.Collection.LookUp
import KernelIsa.Proofs.Text.Spelling
import KernelIsa.Proofs.Device.KnownTargets
import KernelIsa.Proofs.Device.Requests
import KernelIsa.Proofs.Text.Marks
import KernelIsa.Proofs.Listing.Chunks
import KernelIsa.Proofs.Listing.SplitFragments
import KernelIsa.Proofs.Listing.Layout
import KernelIsa.Proofs.Listing.MachineCode
import KernelIsa.Proofs.Build.Ending
import KernelIsa.Proofs.Build.TargetOutcome
import KernelIsa.Proofs.Build.History
import KernelIsa.Proofs.Build.Accounts
import KernelIsa.Proofs.Build.Confined
import KernelIsa.Proofs.Build.TargetFiles
import KernelIsa.Proofs.Build.Isolation
import KernelIsa.Proofs.Build.Deeds
import KernelIsa.Proofs.Build.Route
import KernelIsa.Proofs.Build.Writings
import KernelIsa.Proofs.Build.Recorded
import KernelIsa.Proofs.Artifact.ListingNames
import KernelIsa.Proofs.Bench.DiskChanges
import KernelIsa.Proofs.Build.Filtered
import KernelIsa.Proofs.Artifact.TemporaryFiles
import KernelIsa.Proofs.Build.Leftovers
import KernelIsa.Proofs.Build.CleanUp
import KernelIsa.Proofs.Listing.RegisterLimit
import KernelIsa.Proofs.Artifact.PathParts
import KernelIsa.Proofs.Text.Utf8
import KernelIsa.Proofs.Artifact.RunPaths
import KernelIsa.Proofs.Artifact.SessionViews
import KernelIsa.Proofs.Build.PassAttempts
import KernelIsa.Proofs.Build.ArtifactFiles
import KernelIsa.Proofs.Build.PassFiles
import KernelIsa.Proofs.Build.PassFailures
import KernelIsa.Proofs.CodeObject.KernelSizes
import KernelIsa.Proofs.CodeObject.KernelNames
import KernelIsa.Proofs.Build.IntermediateFiles
import KernelIsa.Proofs.Listing.SeparatedValues
import KernelIsa.Proofs.Listing.LabelRetention
import KernelIsa.Proofs.Json.Tokens
import KernelIsa.Proofs.Text.WellFormed
import KernelIsa.Proofs.Json.Reading
import KernelIsa.Proofs.Artifact.DocumentReading
import KernelIsa.Proofs.Device.SingleDevices
import KernelIsa.Proofs.Build.Respelling
import KernelIsa.Proofs.Build.KernelTrims
import KernelIsa.Proofs.Listing.ReportedChanges
import KernelIsa.Proofs.Listing.LabelMatches
import KernelIsa.Proofs.Listing.AddressLimit
import KernelIsa.Proofs.Listing.SuffixRemoval
import KernelIsa.Proofs.Artifact.DistinctNames
import KernelIsa.Proofs.Listing.RowContents
import KernelIsa.Proofs.Listing.RegisterCounts
import KernelIsa.Proofs.Build.FreshBinary
import KernelIsa.Proofs.Tool.FreshReports
import KernelIsa.Proofs.Listing.KeptHeader
import KernelIsa.Proofs.Listing.InlineLabels
