import Cecs.Foundation.Acyclic
import Cecs.Foundation.BTreeMap
import Cecs.Foundation.Boxes
import Cecs.Foundation.Buckets
import Cecs.Foundation.Chain
import Cecs.Foundation.DepthFirst
import Cecs.Foundation.Float32
import Cecs.Foundation.Footprint
import Cecs.Foundation.Interleaving
import Cecs.Foundation.Lockstep
import Cecs.Foundation.Reaching
import Cecs.Foundation.RowStore
import Cecs.Foundation.Sorting
import Cecs.Foundation.Stages
import Cecs.Foundation.SwapRemove
import Cecs.Foundation.Vectors
import Cecs.Foundation.XorSum
import Cecs.EntityId
import Cecs.EntityIndex
import Cecs.EntityIndex.Sound
import Cecs.EntityIndex.Population
import Cecs.EntityIndex.Generations
import Cecs.EntityIndex.InsertId
import Cecs.EntityIndex.Alike
import Cecs.EntityIndex.Runs
import Cecs.EntityIndex.Pending
import Cecs.Component
import Cecs.Table
import Cecs.Table.Rows
import Cecs.Table.Shape
import Cecs.Table.Bundles
import Cecs.Table.Merge
import Cecs.Table.Effects
import Cecs.Table.RawColumn
import Cecs.Table.Columns
import Cecs.World
import Cecs.World.WellFormed
import Cecs.World.Operations
import Cecs.EntityMap
import Cecs.World.Refinement
import Cecs.World.Effects
import Cecs.World.Evolution
import Cecs.World.Known
import Cecs.World.Destinations
import Cecs.World.Changes
import Cecs.World.Beside
import Cecs.World.Merge
import Cecs.World.MergeTables
import Cecs.Commands
import Cecs.EntityIndex.Capacity
import Cecs.Commands.Sort
import Cecs.Query
import Cecs.Systems
import Cecs.Systems.Order
import Cecs.Systems.PostOrder
import Cecs.Systems.Validation
import Cecs.Commands.Buffers
import Cecs.World.Allocation
import Cecs.Serde
import Cecs.Serde.Entries
import Cecs.Serde.Load
import Cecs.Serde.Visit
import Cecs.Query.Rows
import Cecs.Query.Validation
import Cecs.Query.Batches
import Cecs.Serde.RoundTrip
import Cecs.Serde.Version
import Cecs.World.Housed
import Cecs.World.Clone
import Cecs.World.Copy
import Cecs.World.Accounted
import Cecs.World.RowOrder
import Cecs.World.Occupancy
import Cecs.Commands.Effects
import Cecs.Commands.Accounted
import Cecs.Commands.LaterWins
import Cecs.Commands.Meaning
import Cecs.Commands.Refinement
import Cecs.Commands.Queue
import Cecs.World.Carrying
import Cecs.Calls
import Cecs.Commands.Erased
import Cecs.Commands.Owners
import Cecs.Commands.Storage
import Cecs.Commands.OwnedWorld
import Cecs.Commands.Sorter
import Cecs.Calls.Process
import Cecs.Calls.Ownership
import Cecs.Serde.Housed
import Cecs.Serde.RowOrder
import Cecs.Serde.SaveAgain
import Cecs.Calls.Housed
import Cecs.Calls.Accounted
import Cecs.Calls.Settled
import Cecs.Serde.Ids
import Cecs.JobSystem.Threads
import Cecs.JobSystem.Pool
import Cecs.JobSystem.Effects
import Cecs.JobSystem.RunGraph
import Cecs.JobSystem.Executor
import Cecs.JobSystem.ExecutorSound
import Cecs.JobSystem.Completion
import Cecs.JobSystem.MapReduce
import Cecs.JobSystem.InputOrder
import Cecs.JobSystem.Frames
import Cecs.JobSystem.Held
import Cecs.JobSystem.Waits
import Cecs.JobSystem.Tasks
import Cecs.JobSystem.Scopes
import Cecs.Scheduler
import Cecs.Scheduler.Parents
import Cecs.Systems.Bodies
import Cecs.Systems.Parts
import Cecs.Systems.Queue
import Cecs.Systems.References
import Cecs.Systems.ReadOnly
import Cecs.Systems.Confined
import Cecs.Calls.Buffers
import Cecs.Calls.Refinement
import Cecs.Calls.QueueOrder
import Cecs.Systems.Nesting
import Cecs.Systems.Sessions
import Cecs.Systems.Guards
import Cecs.Scheduler.Orders
import Cecs.Scheduler.Execution
import Cecs.Scheduler.Prefixes
import Cecs.Scheduler.Interleaved
import Cecs.Scheduler.References
import Cecs.Scheduler.Threads
import Cecs.Scheduler.Tick
