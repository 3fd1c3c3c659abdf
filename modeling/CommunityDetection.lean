import CommunityDetection.Accumulator
import CommunityDetection.Assignment
import CommunityDetection.Buckets
import CommunityDetection.Cells
import CommunityDetection.Coarsening
import CommunityDetection.Config
import CommunityDetection.Decimal.Notation
import CommunityDetection.Decimal.Shortest
import CommunityDetection.Document.Config
import CommunityDetection.Document.Number
import CommunityDetection.Document.Reader
import CommunityDetection.Document.Value
import CommunityDetection.Error
import CommunityDetection.Graph.Basic
import CommunityDetection.Graph.Build
import CommunityDetection.Grouping
import CommunityDetection.Hierarchy
import CommunityDetection.KeyMap
import CommunityDetection.LocalMove
import CommunityDetection.LocalMove.Visit
import CommunityDetection.LocalMove.Worker
import CommunityDetection.Modularity
import CommunityDetection.Progress.Journal
import CommunityDetection.Progress.Text
import CommunityDetection.Proofs.Accumulator
import CommunityDetection.Proofs.Assignment
import CommunityDetection.Proofs.Bounds
import CommunityDetection.Proofs.Buckets
import CommunityDetection.Proofs.Cells
import CommunityDetection.Proofs.Choice
import CommunityDetection.Proofs.Coarsening.Classes
import CommunityDetection.Proofs.Coarsening.Contraction
import CommunityDetection.Proofs.Coarsening.Handover
import CommunityDetection.Proofs.Coarsening.Partition
import CommunityDetection.Proofs.Coarsening.Sums
import CommunityDetection.Proofs.Coarsening.Unmerged
import CommunityDetection.Proofs.Comparison
import CommunityDetection.Proofs.Exact
import CommunityDetection.Proofs.Graph.Build
import CommunityDetection.Proofs.Graph.Condense
import CommunityDetection.Proofs.Graph.Linked
import CommunityDetection.Proofs.Graph.Links
import CommunityDetection.Proofs.Graph.Storage
import CommunityDetection.Proofs.Graph.Translation
import CommunityDetection.Proofs.Graph.Unit
import CommunityDetection.Proofs.Graph.Weight
import CommunityDetection.Proofs.Groups
import CommunityDetection.Proofs.Hierarchy
import CommunityDetection.Proofs.Keyed
import CommunityDetection.Proofs.LocalMove.Ascent
import CommunityDetection.Proofs.LocalMove.Contest
import CommunityDetection.Proofs.LocalMove.Counts
import CommunityDetection.Proofs.LocalMove.Crowd
import CommunityDetection.Proofs.LocalMove.Ending
import CommunityDetection.Proofs.LocalMove.Hub
import CommunityDetection.Proofs.LocalMove.Leaves
import CommunityDetection.Proofs.LocalMove.Ledger
import CommunityDetection.Proofs.LocalMove.Passes
import CommunityDetection.Proofs.LocalMove.Programs
import CommunityDetection.Proofs.LocalMove.Quiet
import CommunityDetection.Proofs.LocalMove.Race
import CommunityDetection.Proofs.LocalMove.Rest
import CommunityDetection.Proofs.LocalMove.Single
import CommunityDetection.Proofs.LocalMove.Sizes
import CommunityDetection.Proofs.LocalMove.Standing
import CommunityDetection.Proofs.LocalMove.Stillness
import CommunityDetection.Proofs.LocalMove.Trail
import CommunityDetection.Proofs.LocalMove.Turns
import CommunityDetection.Proofs.LocalMove.Walks
import CommunityDetection.Proofs.Modularity
import CommunityDetection.Proofs.Naming
import CommunityDetection.Proofs.Numbering
import CommunityDetection.Proofs.Progress.Calm
import CommunityDetection.Proofs.Progress.Events
import CommunityDetection.Proofs.Progress.Matching
import CommunityDetection.Proofs.Progress.Mirroring
import CommunityDetection.Proofs.Progress.Session
import CommunityDetection.Proofs.Progress.Signals
import CommunityDetection.Proofs.Progress.Writing
import CommunityDetection.Proofs.Quality
import CommunityDetection.Proofs.Refinement.Course
import CommunityDetection.Proofs.Refinement.Cuts
import CommunityDetection.Proofs.Refinement.Joining
import CommunityDetection.Proofs.Refinement.Parts
import CommunityDetection.Proofs.Refinement.Visits
import CommunityDetection.Proofs.Relabelling
import CommunityDetection.Proofs.Resolution
import CommunityDetection.Proofs.Sampler
import CommunityDetection.Proofs.Schedule
import CommunityDetection.Proofs.Search.Bookkeeping
import CommunityDetection.Proofs.Search.Cancellation
import CommunityDetection.Proofs.Search.Chronicle
import CommunityDetection.Proofs.Search.Climb
import CommunityDetection.Proofs.Search.Completeness
import CommunityDetection.Proofs.Search.Concurrency
import CommunityDetection.Proofs.Search.Connected
import CommunityDetection.Proofs.Search.Consistency
import CommunityDetection.Proofs.Search.Contest
import CommunityDetection.Proofs.Search.Continuity
import CommunityDetection.Proofs.Search.Crowd
import CommunityDetection.Proofs.Search.Determined
import CommunityDetection.Proofs.Search.Entries
import CommunityDetection.Proofs.Search.Failure
import CommunityDetection.Proofs.Search.FirstRecord
import CommunityDetection.Proofs.Search.Following
import CommunityDetection.Proofs.Search.History
import CommunityDetection.Proofs.Search.Level
import CommunityDetection.Proofs.Search.Levels
import CommunityDetection.Proofs.Search.Likeness
import CommunityDetection.Proofs.Search.Limits
import CommunityDetection.Proofs.Search.Loops
import CommunityDetection.Proofs.Search.Losses
import CommunityDetection.Proofs.Search.Nesting
import CommunityDetection.Proofs.Search.OutputIds
import CommunityDetection.Proofs.Search.Problem
import CommunityDetection.Proofs.Search.Reached
import CommunityDetection.Proofs.Search.Ready
import CommunityDetection.Proofs.Search.Relabelling
import CommunityDetection.Proofs.Search.Related
import CommunityDetection.Proofs.Search.Reported
import CommunityDetection.Proofs.Search.Reseeding
import CommunityDetection.Proofs.Search.Retention
import CommunityDetection.Proofs.Search.RootIds
import CommunityDetection.Proofs.Search.Rooted
import CommunityDetection.Proofs.Search.Run
import CommunityDetection.Proofs.Search.Scale
import CommunityDetection.Proofs.Search.State
import CommunityDetection.Proofs.Search.Stillness
import CommunityDetection.Proofs.Search.Survey
import CommunityDetection.Proofs.Search.Unmoved
import CommunityDetection.Proofs.Search.Unweighted
import CommunityDetection.Proofs.Search.View
import CommunityDetection.Proofs.Search.VolumeSums
import CommunityDetection.Proofs.Search.Workers
import CommunityDetection.Proofs.Seeding
import CommunityDetection.Proofs.Sign
import CommunityDetection.Proofs.Span
import CommunityDetection.Proofs.Tally
import CommunityDetection.Proofs.Volume
import CommunityDetection.Proofs.Whole
import CommunityDetection.Random.Choice
import CommunityDetection.Random.Draw
import CommunityDetection.Random.Generator
import CommunityDetection.Refinement
import CommunityDetection.Result
import CommunityDetection.Sampler
import CommunityDetection.Scalar
import CommunityDetection.Schedule
import CommunityDetection.Search.Iteration
import CommunityDetection.Search.Level
import CommunityDetection.Search.Problem
import CommunityDetection.Seeding
import CommunityDetection.Span
import CommunityDetection.Tally
import CommunityDetection.Termination
import CommunityDetection.Volume
