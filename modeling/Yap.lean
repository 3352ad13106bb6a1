import Yap.AllocPages
import Yap.BlockWrite
import Yap.Bootmem
import Yap.BrkContract
import Yap.Completion
import Yap.Descriptors
import Yap.DeviceBind
import Yap.EthConserve
import Yap.ForkFail
import Yap.InetCheck
import Yap.Inodes
import Yap.IpFragTable
import Yap.NetifRx
import Yap.Rendezvous
import Yap.SlabInvariant
import Yap.SlabLayout
import Yap.SleepTime
import Yap.SockRelease
import Yap.TcpAck
import Yap.TcpBuildOptions
import Yap.TcpOrder
import Yap.TcpRead
import Yap.TxQueue
import Yap.Vfs
import Yap.WaitQueue
