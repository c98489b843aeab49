import Patchbay.Config.File
import Patchbay.Dialogue
import Patchbay.Json.Document
import Patchbay.Main
import Patchbay.Server.Raw
import Patchbay.Session
import Patchbay.Socket.Recorded
import Patchbay.Proofs.Results
import Patchbay.Proofs.Tables
import Patchbay.Proofs.Subscriptions.Interests
import Patchbay.Proofs.Machine.Ledger
import Patchbay.Proofs.Machine.Moves
import Patchbay.Proofs.Machine.History
import Patchbay.Proofs.Machine.ReplyStreams
import Patchbay.Proofs.Machine.Deletion
import Patchbay.Proofs.Bytes
import Patchbay.Proofs.Layouts
import Patchbay.Proofs.Frames.Reading
import Patchbay.Proofs.Broker.Handling
import Patchbay.Proofs.Broker.Traffic
import Patchbay.Proofs.Broker.Transactions
import Patchbay.Proofs.Broker.Leftovers
import Patchbay.Proofs.Broker.Crosstalk
import Patchbay.Proofs.Exchange.Streams
import Patchbay.Proofs.Machine.Lines
import Patchbay.Proofs.Machine.Serving
import Patchbay.Proofs.Broker.Checking
import Patchbay.Proofs.Broker.Runs
import Patchbay.Proofs.Broker.Coherence
import Patchbay.Proofs.Broker.Handshake
import Patchbay.Proofs.Frames.Failures
import Patchbay.Proofs.Frames.RoundTrip
import Patchbay.Proofs.Broker.Removal
import Patchbay.Proofs.Broker.FanOut
import Patchbay.Proofs.Machine.CallLog
import Patchbay.Proofs.Machine.CallRuns
import Patchbay.Proofs.Machine.CallPlaces
import Patchbay.Proofs.Machine.Cancelling
import Patchbay.Proofs.MessagePack.Spelling
import Patchbay.Proofs.MessagePack.Grammar
import Patchbay.Proofs.MessagePack.Boundaries
import Patchbay.Proofs.MessagePack.Readability
import Patchbay.Proofs.Json.Literals
import Patchbay.Proofs.Json.Quoting
import Patchbay.Proofs.Json.Grammar
import Patchbay.Proofs.Json.RoundTrip
import Patchbay.Proofs.Json.Routes
import Patchbay.Proofs.Machine.Endings
import Patchbay.Proofs.Machine.CancelledCalls
import Patchbay.Proofs.Machine.Definitions
import Patchbay.Proofs.Machine.MissingTargets
import Patchbay.Proofs.Machine.ComponentNames
import Patchbay.Proofs.Clients.Arrivals
import Patchbay.Proofs.Clients.Operations
import Patchbay.Proofs.Clients.Consumption
import Patchbay.Proofs.Clients.Answers
import Patchbay.Proofs.Broker.Courses
import Patchbay.Proofs.Layouts.Sections
import Patchbay.Proofs.Machine.Driving
import Patchbay.Proofs.Conduits.Delivery
import Patchbay.Proofs.Exchange.Hearing
import Patchbay.Proofs.Layouts.Boundaries
import Patchbay.Proofs.Clients.Readings
import Patchbay.Proofs.Broker.Outcomes
import Patchbay.Proofs.Broker.CutStreams
import Patchbay.Proofs.Json.Bridge
import Patchbay.Proofs.Tokenizers.Matching
import Patchbay.Proofs.Frames.Buffering
import Patchbay.Proofs.Endpoints
import Patchbay.Proofs.Registries
import Patchbay.Proofs.Targets
import Patchbay.Proofs.Accumulators
import Patchbay.Proofs.MessagePack.Shortest
import Patchbay.Proofs.Hosts
import Patchbay.Proofs.Configs
