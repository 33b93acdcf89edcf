import QueueRunner.Lib.Map
import QueueRunner.Lib.Run
import QueueRunner.Basic
import QueueRunner.Queue
import QueueRunner.QueueRuns
import QueueRunner.Graph
import QueueRunner.Loading
import QueueRunner.Machines
import QueueRunner.State
import QueueRunner.Calls
import QueueRunner.Dispatch
import QueueRunner.Creation
import QueueRunner.Runner
import QueueRunner.Effects
import QueueRunner.GraphFacts
import QueueRunner.CreateEffects
import QueueRunner.CreateInv
import QueueRunner.GraphEffects
import QueueRunner.Pointers
import QueueRunner.Attempts
import QueueRunner.Registry
import QueueRunner.Invariant
import QueueRunner.Dependents
import QueueRunner.Allocation
import QueueRunner.Completion
import QueueRunner.Ownership
import QueueRunner.Removal
import QueueRunner.Growth
import QueueRunner.JobSteps
import QueueRunner.Verdicts
import QueueRunner.Retries
import QueueRunner.Stranded
import QueueRunner.Release
import QueueRunner.Supply
import QueueRunner.Dependencies
import QueueRunner.BuildCalls
import QueueRunner.Attached
import QueueRunner.FailJob
import QueueRunner.ErrorPaths
import QueueRunner.Builder
import QueueRunner.Registration
import QueueRunner.CallPool
import QueueRunner.Cancellation
import QueueRunner.Uploader
import QueueRunner.UploaderRuns
import QueueRunner.Lib.ReadCommitted
import QueueRunner.BuildRows
import QueueRunner.BusyRows
import QueueRunner.Upload
import QueueRunner.BinaryCache
import QueueRunner.CopyPaths
import QueueRunner.AppConfig
import QueueRunner.CachedSuccess
import QueueRunner.Presigned
import QueueRunner.Priorities
import QueueRunner.StepNumbers
import QueueRunner.Reload
import QueueRunner.Unsupported
import QueueRunner.Making
import QueueRunner.Lifetimes
import QueueRunner.Assertions
import QueueRunner.Sweep
import QueueRunner.Reread
import QueueRunner.JobsetUsage
import QueueRunner.MachineStats
import QueueRunner.StepOrder
import QueueRunner.MachineChoice
import QueueRunner.BuilderEntries
import QueueRunner.Timeouts
import QueueRunner.Scheduled
import QueueRunner.DispatchOrder
import QueueRunner.Lib.Text
import QueueRunner.Lib.Paths
import QueueRunner.StorePaths
import QueueRunner.LogFiles
import QueueRunner.NarInfoText
import QueueRunner.S3Config
import QueueRunner.UploadStats
import QueueRunner.PresignedWire
import QueueRunner.Lib.Fallible
import QueueRunner.PresignedPanics
import QueueRunner.DebugInfo
import QueueRunner.HashingReader
import QueueRunner.ImportRequisites
import QueueRunner.ResolvedDrv
import QueueRunner.InspectableChannel
import QueueRunner.FodChecker
import QueueRunner.NixSupport
import QueueRunner.S3Uri
import QueueRunner.Lib.Refine
import QueueRunner.Lib.Fifo
import QueueRunner.Lib.Handout
import QueueRunner.Messages
import QueueRunner.Cluster
import QueueRunner.ClusterRuns
import QueueRunner.BuildOutput
import QueueRunner.SupportFiles
import QueueRunner.Lib.OrderBy
import QueueRunner.OutputRows
import QueueRunner.OutputRuns
import QueueRunner.Owners
import QueueRunner.Finality
import QueueRunner.Edges
import QueueRunner.KnownFailures
import QueueRunner.Wakeups
import QueueRunner.Suitable
import QueueRunner.Capacity
import QueueRunner.Causes
import QueueRunner.StatusReports
import QueueRunner.FinalRows
import QueueRunner.Progress
