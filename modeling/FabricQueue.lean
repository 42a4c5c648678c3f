import FabricQueue.Main
import FabricQueue.Proofs.Slots
import FabricQueue.Proofs.Log
import FabricQueue.Proofs.Refinement
import FabricQueue.Proofs.Opening
import FabricQueue.Proofs.Ring
import FabricQueue.Proofs.Counters
import FabricQueue.Proofs.Delivery
import FabricQueue.Proofs.Completion
import FabricQueue.Proofs.Jobs
import FabricQueue.Proofs.Streaming
import FabricQueue.Proofs.Service
import FabricQueue.Proofs.Passes
import FabricQueue.Proofs.Barrier
import FabricQueue.Proofs.Integrity
import FabricQueue.Proofs.Endurance
import FabricQueue.Proofs.Batches
import FabricQueue.Proofs.Channels
import FabricQueue.Proofs.Conduits
import FabricQueue.Proofs.Journeys
import FabricQueue.Proofs.RoundTrip
import FabricQueue.Proofs.Fields
import FabricQueue.Proofs.Locks
import FabricQueue.Proofs.Settling
import FabricQueue.Proofs.Adders
import FabricQueue.Proofs.MatrixSum
import FabricQueue.Proofs.Dues
import FabricQueue.Proofs.Headway
import FabricQueue.Proofs.Orders
import FabricQueue.Proofs.Images
import FabricQueue.Proofs.Freshness
import FabricQueue.Proofs.Handles
import FabricQueue.Proofs.Schedule
import FabricQueue.Proofs.Configuration
import FabricQueue.Proofs.Enqueueing
import FabricQueue.Proofs.Numerals
import FabricQueue.Proofs.Arguments
import FabricQueue.Proofs.Outputs
import FabricQueue.Proofs.Invocations
import FabricQueue.Proofs.Scenarios
import FabricQueue.Proofs.Publishing
import FabricQueue.Proofs.Ports
import FabricQueue.Proofs.Signals
import FabricQueue.Proofs.Submissions
import FabricQueue.Proofs.Odometer
import FabricQueue.Proofs.Writing
import FabricQueue.Proofs.Creation
import FabricQueue.Proofs.Containment
import FabricQueue.Proofs.Reach
import FabricQueue.Proofs.Extents
import FabricQueue.Proofs.Polling
import FabricQueue.Proofs.Finished
import FabricQueue.Proofs.Loopback
import FabricQueue.Proofs.Spellings
import FabricQueue.Proofs.Windows
import FabricQueue.Proofs.Refusals
import FabricQueue.Proofs.Declarations
import FabricQueue.Proofs.Cuts
import FabricQueue.Proofs.Catalogs
import FabricQueue.Proofs.Resolution
