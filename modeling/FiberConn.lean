import FiberConn.Lib.Machine
import FiberConn.Lib.ResourcePool
import FiberConn.ReactorRun.Proofs
import FiberConn.DbConnectionType.Proofs
import FiberConn.DbPooler
import FiberConn.DbPooler.Steps
import FiberConn.DbPooler.Proofs
import FiberConn.DbPooler.Routing
import FiberConn.DbPooler.Isolation
import FiberConn.DbPooler.Usable
import FiberConn.Lib.Termination
import FiberConn.DbPooler.Calls
import FiberConn.DbPooler.Calls.Proofs
import FiberConn.DbPooler.Teardown
import FiberConn.WakeUp
import FiberConn.WakeUp.Proofs
import FiberConn.Transmitter
import FiberConn.HttpServerType
import FiberConn.RequestStream
import FiberConn.RequestStream.Proofs
import FiberConn.RequestConnectionType
import FiberConn.Operations
import FiberConn.Operations.Steps
import FiberConn.Operations.Proofs
import FiberConn.Lib.PartialWrite
import FiberConn.Sending
import FiberConn.Sending.Proofs
import FiberConn.Readiness
import FiberConn.Assembly
import FiberConn.Assembly.Proofs
import FiberConn.Upgrade
import FiberConn.ResponseStream
import FiberConn.ResponseStream.Proofs
import FiberConn.Lifetimes
import FiberConn.Lifetimes.Proofs
import FiberConn.Connecting
import FiberConn.Connecting.Proofs
import FiberConn.Lib.UnitStream
import FiberConn.Collecting
import FiberConn.Collecting.Proofs
import FiberConn.Results
import FiberConn.DbPooler.Driver
import FiberConn.DbPooler.Driver.Proofs
import FiberConn.Lib.Ownership
import FiberConn.Descriptors
import FiberConn.Descriptors.Proofs
import FiberConn.Lib.Lanes
import FiberConn.Uuid
import FiberConn.Uuid.Proofs
import FiberConn.DbPooler.Order
import FiberConn.Lib.Fairness
import FiberConn.DbPooler.Progress
import FiberConn.DbPooler.Parents
import FiberConn.Server
import FiberConn.Lib.Refinement
import FiberConn.Server.Steps
import FiberConn.Server.Proofs
import FiberConn.Server.Rest
import FiberConn.Server.Responses
import FiberConn.Server.Answers
import FiberConn.Lib.Quoted
import FiberConn.Server.Statements
import FiberConn.Lib.Framed
import FiberConn.Server.Framing
import FiberConn.Wire
import FiberConn.Client
import FiberConn.Client.Proofs
import FiberConn.Session
import FiberConn.Session.Proofs
import FiberConn.Server.Hosted
import FiberConn.Server.Hosted.Proofs
