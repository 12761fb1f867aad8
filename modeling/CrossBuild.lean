import CrossBuild.Main
import CrossBuild.Proofs.Files.Entries
import CrossBuild.Proofs.Files.Spelling
import CrossBuild.Proofs.Files.Trails
import CrossBuild.Proofs.Files.Effects
import CrossBuild.Proofs.Artifacts.LastBackup
import CrossBuild.Proofs.Workflow.Ordering
import CrossBuild.Proofs.Config.Templates
import CrossBuild.Proofs.Compile.Assembly
import CrossBuild.Proofs.Yaml.Keys
import CrossBuild.Proofs.Compile.Success
import CrossBuild.Proofs.Compile.Producers
import CrossBuild.Proofs.Compile.References
import CrossBuild.Proofs.Config.Triggers
import CrossBuild.Proofs.Compile.Versions
import CrossBuild.Proofs.Compile.SideBranch
import CrossBuild.Proofs.Artifacts.ExactBackup
import CrossBuild.Proofs.Artifacts.Containment
import CrossBuild.Proofs.Artifacts.Leftovers
import CrossBuild.Proofs.Artifacts.MergeTree
import CrossBuild.Proofs.Artifacts.SingleFile
import CrossBuild.Proofs.Config.Levels
import CrossBuild.Proofs.Config.Resolution
import CrossBuild.Proofs.Config.Siblings
import CrossBuild.Proofs.Compile.Locality
import CrossBuild.Proofs.Workflow.UserSteps
import CrossBuild.Proofs.Workflow.Decoding
import CrossBuild.Proofs.Compile.LastJobs
import CrossBuild.Proofs.Compile.Commits
import CrossBuild.Proofs.Config.Inheritance
import CrossBuild.Proofs.Compile.Precedence
import CrossBuild.Proofs.CommandLine.Generation
import CrossBuild.Proofs.Compile.ToolCalls
import CrossBuild.Proofs.Artifacts.MergeOutcomes
import CrossBuild.Proofs.Artifacts.LostParts
import CrossBuild.Proofs.Artifacts.SplitAgain
import CrossBuild.Proofs.Artifacts.FreshCopy
import CrossBuild.Proofs.Artifacts.MergingCopy
import CrossBuild.Proofs.Artifacts.ChunkedCopy
import CrossBuild.Proofs.Artifacts.Starting
import CrossBuild.Proofs.Artifacts.Comments
import CrossBuild.Proofs.Compile.CommandLines
import CrossBuild.Proofs.Compile.RepeatedNeeds
import CrossBuild.Proofs.Compile.Sources
import CrossBuild.Proofs.Config.Restating
import CrossBuild.Proofs.Compile.ReportScripts
import CrossBuild.Proofs.Artifacts.Callbacks
import CrossBuild.Proofs.Artifacts.Landing
import CrossBuild.Proofs.Artifacts.LogCollection
import CrossBuild.Proofs.Artifacts.SplitNames
import CrossBuild.Proofs.Layering
