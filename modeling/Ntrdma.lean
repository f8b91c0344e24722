import Ntrdma.Cm.QpRefs
import Ntrdma.Cmd.Access
import Ntrdma.Cmd.MrCreate
import Ntrdma.Cmd.MrTransfer
import Ntrdma.Cmd.Pairing
import Ntrdma.Cmd.QpCreate
import Ntrdma.Cmd.QpMemory
import Ntrdma.Cmd.Session
import Ntrdma.Cq.Notify
import Ntrdma.Cq.Poll
import Ntrdma.Link.HelloBuffers
import Ntrdma.Link.Ping
import Ntrdma.Link.Teardown
import Ntrdma.Ntc.Doorbell
import Ntrdma.Ntc.ExportBuf
import Ntrdma.Ntc.Partial
import Ntrdma.Ntc.Pfn
import Ntrdma.Ntc.Umem
import Ntrdma.Ntc.Version
import Ntrdma.Peer.Fetch
import Ntrdma.Peer.Indices
import Ntrdma.Peer.SetUp
import Ntrdma.Pipe.Match
import Ntrdma.Qp.Carry
import Ntrdma.Qp.Domain
import Ntrdma.Qp.ErrState
import Ntrdma.Qp.Flush
import Ntrdma.Qp.Inline
import Ntrdma.Qp.IoctlPost
import Ntrdma.Qp.IoctlReads
import Ntrdma.Qp.Modify
import Ntrdma.Qp.PostContract
import Ntrdma.Qp.Reconnect
import Ntrdma.Recv.Frame
import Ntrdma.Recv.Order
import Ntrdma.Recv.Shadows
import Ntrdma.Res.Counters
import Ntrdma.Res.Enable
import Ntrdma.Res.KvecMemory
import Ntrdma.Res.Removal
import Ntrdma.Ring.Fifo
import Ntrdma.Vbell.List
import Ntrdma.Vbell.Silence
import Ntrdma.Zip.Paths
import Ntrdma.Zip.Refs
