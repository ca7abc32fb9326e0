import FStack.Rss.AdjustExact
import FStack.Rss.ContextsView
import FStack.Pcb.Reply
import FStack.Rx.Owner
import FStack.Rx.FanoutOnce
import FStack.Rx.Wrap
import FStack.Fd.Lifecycle
import FStack.Poll.OneKqueue
import FStack.Poll.Epoll
import FStack.Conf.Mask
import FStack.Conf.Queues
import FStack.Timeout.Answers
import FStack.Ipc.Pool
import FStack.Tx.Pairs
import FStack.Tx.Offload
import FStack.Zc.Owner
import FStack.Adapter.WaitDue
import FStack.Adapter.EpollWait
import FStack.Adapter.Descriptor
import FStack.Adapter.Pool
import FStack.Adapter.Bound
import FStack.Adapter.SelectExact
import FStack.MicroThread.Dispatch
import FStack.MicroThread.LinkSteps
import FStack.MicroThread.LinkFilters
import FStack.MicroThread.FrameSound
import FStack.Adapter.KeventIds
import FStack.Sock.Address
import FStack.Rx.PortList
import FStack.Conf.Mtu
import FStack.Rx.VlanTag
import FStack.MicroThread.PoolCounts
import FStack.Tx.Pages
import FStack.Adapter.Bitmap
import FStack.Rx.Pcap
import FStack.Rx.DeepClone
import FStack.Sock.Scatter
