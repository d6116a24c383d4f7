import Svr4.Kernel.RecordLock.Detection
import Svr4.Kernel.RecordLock.Atomicity
import Svr4.Kernel.Semaphore.Accounting
import Svr4.Kernel.Semaphore.Confinement
import Svr4.Kernel.Message.Service
import Svr4.Kernel.Rmap.Refinement
import Svr4.Kernel.Sleep.Queues
import Svr4.Kernel.Streams.Detach
import Svr4.Kernel.Streams.MuxRuns
import Svr4.Kernel.Ufs.GroupBuffers
import Svr4.Kernel.Ufs.GroupSearch
import Svr4.Kernel.Streams.Writers
import Svr4.Kernel.Ufs.QuotaRuns
import Svr4.Kernel.Ufs.CacheRuns
import Svr4.Kernel.Ufs.DirectoryLookup
import Svr4.Kernel.Pid.Runs
import Svr4.Kernel.Dnlc.Holds
import Svr4.Kernel.S5.FreeBlocksRuns
import Svr4.Kernel.S5.FreeInodesRuns
import Svr4.Kernel.Ufs.LinkRuns
import Svr4.Kernel.Ufs.RenameRuns
import Svr4.Kernel.Bfs.LockRuns
import Svr4.Kernel.Bfs.CompactionRuns
import Svr4.Kernel.AddressSpace.Faults
import Svr4.Kernel.Inpcb.Demultiplex
import Svr4.Kernel.Ip.Coverage
import Svr4.Kernel.Ip.Options
import Svr4.Kernel.Ip.Reports
import Svr4.Kernel.Ip.Checksum
import Svr4.Kernel.Tcp.Tli
import Svr4.Kernel.Tcp.SegmentSize
import Svr4.Kernel.Tcp.SendWindowRuns
import Svr4.Kernel.Tcp.FinRuns
import Svr4.Kernel.Swap.FreeSlots
import Svr4.Library.Xdr.Bounds
import Svr4.Library.Domain.RoundTrip
import Svr4.Library.Clock.Mktime
import Svr4.Library.Record.RoundTrip
import Svr4.Library.Mp.Signs
import Svr4.Kernel.Callout.Expiry
import Svr4.Kernel.Kma.Pools
import Svr4.Kernel.Kma.Reserve
import Svr4.Kernel.Streams.Bufcall
import Svr4.Kernel.Streams.Duplicates
import Svr4.Kernel.Streams.Notify
import Svr4.Kernel.Streams.Flushband
import Svr4.Kernel.Streams.Insq
import Svr4.Kernel.Streams.Pullup
