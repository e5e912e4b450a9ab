import PipelineTunnel.Lib.StepSystem
import PipelineTunnel.Lib.Rank
import PipelineTunnel.Lib.LockOrder
import PipelineTunnel.Lib.Bits
import PipelineTunnel.Lib.SortedMap
import PipelineTunnel.Lib.FifoLine
import PipelineTunnel.Lib.Stock
import PipelineTunnel.Lib.PortFifo
import PipelineTunnel.Lib.CString
import PipelineTunnel.Lib.Ledger
import PipelineTunnel.Lib.Runs
import PipelineTunnel.Lib.RateBound
import PipelineTunnel.Lib.Deferral
import PipelineTunnel.Core.Protocol
import PipelineTunnel.Core.Kernel
import PipelineTunnel.Core.Workers
import PipelineTunnel.Core.Interest
import PipelineTunnel.Core.PacketLoop
import PipelineTunnel.Core.Segments
import PipelineTunnel.Core.ParseBounds
import PipelineTunnel.Core.Config
import PipelineTunnel.Common.WriteBuffer
import PipelineTunnel.Common.Framing
import PipelineTunnel.Common.Flushing
import PipelineTunnel.Common.Merge
import PipelineTunnel.Control.Delivery
import PipelineTunnel.Server.Session
import PipelineTunnel.Server.Segmentation
import PipelineTunnel.Wire.Reader
import PipelineTunnel.Wire.Heartbeat
import PipelineTunnel.Wire.Recovery
import PipelineTunnel.Wire.Reading
import PipelineTunnel.Wire.ClientReader
import PipelineTunnel.Wire.ServerReader
import PipelineTunnel.Wire.Bounds
import PipelineTunnel.Server.Lifecycle
import PipelineTunnel.Server.Frame
import PipelineTunnel.Server.AuthGate
import PipelineTunnel.Server.Finality
import PipelineTunnel.Server.Losses
import PipelineTunnel.Server.Callbacks
import PipelineTunnel.Server.Replies
import PipelineTunnel.Server.Slots
import PipelineTunnel.Server.Registry
import PipelineTunnel.Server.Takeover
import PipelineTunnel.Server.ConnIds
import PipelineTunnel.Client.Lifecycle
import PipelineTunnel.Client.AuthGate
import PipelineTunnel.Client.External
import PipelineTunnel.Client.Requests
import PipelineTunnel.Client.Deferred
import PipelineTunnel.Setup.Agreement
import PipelineTunnel.Setup.Connects
import PipelineTunnel.Setup.ChainConfig
import PipelineTunnel.Flow.Model
import PipelineTunnel.Flow.EndOfStream
import PipelineTunnel.Flow.Gate
import PipelineTunnel.Flow.ChainPause
import PipelineTunnel.Flow.WriterPause
import PipelineTunnel.Link.Model
import PipelineTunnel.Link.Reliability
import PipelineTunnel.Link.Acks
import PipelineTunnel.Link.Lossless
import PipelineTunnel.Link.Outage
import PipelineTunnel.Link.Progress
import PipelineTunnel.Link.Registration
import PipelineTunnel.Conn.Model
import PipelineTunnel.Conn.Carriage
import PipelineTunnel.Conn.Refinement
import PipelineTunnel.Conn.Delivery
import PipelineTunnel.Control.Channel
import PipelineTunnel.Control.NoLoss
import PipelineTunnel.Split.Model
import PipelineTunnel.Split.Reassembly
import PipelineTunnel.Split.Config
import PipelineTunnel.Split.TokenOrder
import PipelineTunnel.Split.Expansion
import PipelineTunnel.Pipeline.Model
import PipelineTunnel.Core.Locks
import PipelineTunnel.Pipeline.Wiring
import PipelineTunnel.Pipeline.Construction
import PipelineTunnel.Pipeline.Failure
import PipelineTunnel.Pipeline.PortPaths
import PipelineTunnel.Pipeline.Pool
import PipelineTunnel.Pipeline.Mailbox
import PipelineTunnel.Pipeline.Routes
import PipelineTunnel.Pipeline.Topology
import PipelineTunnel.Pipeline.Ordering
import PipelineTunnel.Pipeline.Tunnel
import PipelineTunnel.Pipeline.Transit
import PipelineTunnel.Pipeline.Endpoints
import PipelineTunnel.Pipeline.Exchange
import PipelineTunnel.Pipeline.Fidelity
import PipelineTunnel.Pipeline.Ownership
import PipelineTunnel.Pipeline.Termination
import PipelineTunnel.Pipeline.Drain
import PipelineTunnel.Modules.Model
import PipelineTunnel.Modules.Contract
import PipelineTunnel.Modules.Rle
import PipelineTunnel.Modules.RleBounds
import PipelineTunnel.Modules.Codec
import PipelineTunnel.Modules.Limiter
import PipelineTunnel.Modules.Burst
import PipelineTunnel.Modules.Waiting
import PipelineTunnel.Stack.Model
import PipelineTunnel.Stack.Streams
import PipelineTunnel.Stack.Completion
