import Blueprint.Builder.Setters
import Blueprint.Config.Source
import Blueprint.Node.Debug
import Blueprint.Proofs.Agreement
import Blueprint.Proofs.Cycles
import Blueprint.Proofs.Initialization
import Blueprint.Resolver
import Blueprint.Session
import Blueprint.TypeName.Catalog
import Blueprint.Union
import Blueprint.Version
import Blueprint.Proofs.Machine.Costs
import Blueprint.Proofs.Machine.Spending
import Blueprint.Proofs.System.Alert
import Blueprint.Proofs.System.Flows
import Blueprint.Proofs.System.Standing
import Blueprint.Proofs.System.Weight
import Blueprint.Proofs.Guards
import Blueprint.Proofs.Registration
import Blueprint.Proofs.Machine.Serving
import Blueprint.Proofs.Footprint
import Blueprint.Proofs.Locations
import Blueprint.Proofs.Deadlock
import Blueprint.Proofs.Alone.Ending
import Blueprint.Proofs.Alone.Returning
import Blueprint.Proofs.Extraction
import Blueprint.Proofs.FirstFailure
import Blueprint.Proofs.Guise.Task
import Blueprint.Proofs.Guise.World
import Blueprint.Proofs.Guise.Machine
import Blueprint.Proofs.Guise.Alone
import Blueprint.Proofs.Permutation
import Blueprint.Proofs.Alone.Unstirred
import Blueprint.Proofs.Alone.Alarm
import Blueprint.Proofs.Deadline
import Blueprint.Proofs.Inlining
import Blueprint.Proofs.Carrying
import Blueprint.Proofs.Materialization
import Blueprint.Proofs.Desk
import Blueprint.Proofs.Counters
import Blueprint.Proofs.Machine.Moves
import Blueprint.Proofs.System.Moves
import Blueprint.Proofs.Guise.System
import Blueprint.Proofs.Machine.Spans
import Blueprint.Proofs.Spans
import Blueprint.Proofs.Typed
import Blueprint.Proofs.Readable
import Blueprint.Proofs.Machine.Reading
import Blueprint.Proofs.Rereading
import Blueprint.Proofs.Machine.Collection
import Blueprint.Proofs.Collection
import Blueprint.Proofs.WaitGraph.Decision
import Blueprint.Proofs.Assurance
import Blueprint.Proofs.Folding
import Blueprint.Proofs.Schedule
import Blueprint.Proofs.Task.Timing
import Blueprint.Proofs.Task.Clocks
import Blueprint.Proofs.Task.Running
import Blueprint.Proofs.Machine.Timing
import Blueprint.Proofs.Machine.Running
import Blueprint.Proofs.Machine.Prompt
import Blueprint.Proofs.Alone.Timing
import Blueprint.Proofs.Concurrency
