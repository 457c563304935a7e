import ResourceAgent.Verified.CText
import ResourceAgent.Verified.Runs
import ResourceAgent.Verified.RankedWait
import ResourceAgent.Verified.Lines
import ResourceAgent.Verified.CBuffer
import ResourceAgent.Verified.ErlangText
import ResourceAgent.Verified.Snapshot
import ResourceAgent.Verified.FiniteMap
import ResourceAgent.Verified.Linked
import ResourceAgent.Ports.HashTable
import ResourceAgent.Ports.Records
import ResourceAgent.Ports.Wire
import ResourceAgent.Ports.Reservation
import ResourceAgent.Ports.ServerRun
import ResourceAgent.Ports.LinkedQueue
import ResourceAgent.Ports.FifoRefinement
import ResourceAgent.Ports.Linearity
import ResourceAgent.Ports.Client
import ResourceAgent.Ports.JobRequest
import ResourceAgent.Ports.ClientMoves
import ResourceAgent.Ports.ClientRun
import ResourceAgent.Ports.Outcomes
import ResourceAgent.Ports.ClientShape
import ResourceAgent.Ports.JobEnds
import ResourceAgent.Ports.JobFate
import ResourceAgent.Ports.SweepEffect
import ResourceAgent.Ports.WholeGrant
import ResourceAgent.Ports.Replacement
import ResourceAgent.Ports.Sweep
import ResourceAgent.Ports.Discovery
import ResourceAgent.Ports.Announcements
import ResourceAgent.Ports.NodesReply
import ResourceAgent.Ports.TableMap
import ResourceAgent.Ports.Release
import ResourceAgent.Ports.Selection
import ResourceAgent.Ports.Framing
import ResourceAgent.Ports.BufferBounds
import ResourceAgent.Ports.WholeLines
import ResourceAgent.Ports.EventLoop
import ResourceAgent.Ports.Ownership
import ResourceAgent.Ports.LineBuffers
import ResourceAgent.Ports.ErlangChannel
import ResourceAgent.Ports.Scheduler
import ResourceAgent.Ports.Coordinator
import ResourceAgent.Ports.Workers
import ResourceAgent.Ports.FifoService
import ResourceAgent.Ports.Network
import ResourceAgent.Ports.NetInvariant
import ResourceAgent.Ports.NetServer
import ResourceAgent.Ports.NetClient
import ResourceAgent.Ports.NamedPool
import ResourceAgent.Ports.Agreement
import ResourceAgent.Ports.Acquisition
import ResourceAgent.Ports.Deadlock
import ResourceAgent.Verified.Potential
import ResourceAgent.Ports.Momentum
import ResourceAgent.Ports.Progress
import ResourceAgent.Ports.Workload
import ResourceAgent.Ports.Completion
import ResourceAgent.Verified.Memory
import ResourceAgent.Ports.JobMemory
import ResourceAgent.Ports.JobRefinement
import ResourceAgent.Ports.JobSafety
import ResourceAgent.Ports.OneShot
import ResourceAgent.Ports.Attention
import ResourceAgent.Ports.SoleService
import ResourceAgent.Ports.Shutdown
import ResourceAgent.Ports.Streams
import ResourceAgent.Ports.StreamRefinement
