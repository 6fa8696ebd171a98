import Relinow.Node
import Relinow.Proof.ErrorAtomic
import Relinow.Proof.ChannelObject
import Relinow.Proof.StateTables
import Relinow.Proof.TxQueue
import Relinow.Proof.AckRelease
import Relinow.Proof.GapBlocks
import Relinow.Proof.NodeFrames
import Relinow.Proof.NodeReceive
import Relinow.Proof.NodePoll
import Relinow.Proof.NodeSend
import Relinow.Proof.NodeStart
import Relinow.Proof.NodeRun
import Relinow.Proof.TransmitSide
import Relinow.Proof.FragmentLock
import Relinow.Proof.TxCache
import Relinow.Proof.ReceiveSide
import Relinow.Proof.RxCache
import Relinow.Proof.Reassembly
import Relinow.Proof.OneChannel
import Relinow.Proof.Network
import Relinow.Proof.Delivery
import Relinow.Proof.AckedDelivered
import Relinow.Proof.NodeState
import Relinow.Proof.Fragments
import Relinow.Proof.FragmentLimit
import Relinow.Proof.RefusedSend
import Relinow.Proof.AnyOrder
import Relinow.Proof.RoundTrip
import Relinow.Proof.WaitingCache
import Relinow.Proof.Bounds
import Relinow.Proof.Copies
import Relinow.Proof.ClockShift
import Relinow.Proof.ClockFree
import Relinow.Proof.NonReliable
import Relinow.Proof.Frontier
import Relinow.Proof.EngineRun
import Relinow.Proof.PendingIds
import Relinow.Proof.RttEstimate
import Relinow.Proof.Retries
import Relinow.Proof.StopAndWait
import Relinow.Proof.SequenceCounter
import Relinow.Proof.DivisionGuard
import Relinow.Proof.SerialOrder
import Relinow.Proof.PingReply
import Relinow.Proof.Heartbeat
import Relinow.Proof.TimeoutReports
import Relinow.Proof.ReassemblyAge
import Relinow.Proof.Scheduler
import Relinow.Proof.Drain
import Relinow.Proof.InflightFlag
import Relinow.Proof.Conservation
import Relinow.Proof.DirectoryRefinement
import Relinow.Proof.SilentPeer
import Relinow.Proof.NodeChannels
import Relinow.Proof.OnAir
import Relinow.Proof.Streams
import Relinow.Proof.Lifetime
import Relinow.Proof.Transparent
import Relinow.Proof.LinkEnds
import Relinow.Proof.EndMoves
import Relinow.Proof.LinkRefinement
import Relinow.Proof.RxWindow
import Relinow.Proof.Traffic
import Relinow.Proof.Settling
