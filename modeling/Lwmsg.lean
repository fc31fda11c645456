import Lwmsg.Authentication
import Lwmsg.BinaryHeap
import Lwmsg.Bytes
import Lwmsg.Clhandle
import Lwmsg.ClientView
import Lwmsg.Clrecv
import Lwmsg.ClrecvLoop
import Lwmsg.Cltimerheap
import Lwmsg.CltimerheapSlots
import Lwmsg.Crc32
import Lwmsg.DbLocks
import Lwmsg.Dbops
import Lwmsg.Delivery
import Lwmsg.DoublyLinked
import Lwmsg.Epoll
import Lwmsg.FileTransfers
import Lwmsg.Forwarding
import Lwmsg.Htable
import Lwmsg.HtableKeys
import Lwmsg.HtableMap
import Lwmsg.HtableRehash
import Lwmsg.Inbound
import Lwmsg.InboundActs
import Lwmsg.InboundDrain
import Lwmsg.InboundFrames
import Lwmsg.InboundRuns
import Lwmsg.InboundStages
import Lwmsg.IntrusiveList
import Lwmsg.Ipblock
import Lwmsg.IpblockRaces
import Lwmsg.KeyedTable
import Lwmsg.Lwmp
import Lwmsg.ManualBlock
import Lwmsg.Memory
import Lwmsg.MessagePath
import Lwmsg.Netwrap
import Lwmsg.Outbound
import Lwmsg.RefCount
import Lwmsg.Registration
import Lwmsg.RegistrationRuns
import Lwmsg.RwLock
import Lwmsg.SinglyLinked
import Lwmsg.SlotTable
import Lwmsg.ThrdmsgMpscq
import Lwmsg.Traced
import Lwmsg.Transfers
import Lwmsg.UserList
import Lwmsg.Worker
import Lwmsg.WorkerContainers
import Lwmsg.WorkerFlush
import Lwmsg.WorkerHandlers
import Lwmsg.WorkerPlaces
import Lwmsg.WorkerRuns
import Lwmsg.Downlink
import Lwmsg.Upload
import Lwmsg.UploadAnswers
import Lwmsg.UploadFraming
import Lwmsg.HdrValidation
import Lwmsg.HtableFaults
import Lwmsg.HtableLinearizable
import Lwmsg.HtableRaces
import Lwmsg.HtableThreads
import Lwmsg.LoginTimeouts
import Lwmsg.ReceivedFiles
import Lwmsg.ReceivedMessages
import Lwmsg.Recovery
import Lwmsg.RegistrationClients
import Lwmsg.ServCfg
import Lwmsg.BlockExpiry
import Lwmsg.Cmdparse
import Lwmsg.Crc32Bitwise
import Lwmsg.DeadTransfers
import Lwmsg.DisconnectNotices
import Lwmsg.Filenames
import Lwmsg.KeyListing
import Lwmsg.ReassemblyCounters
import Lwmsg.HtableDelete
import Lwmsg.WorkerShutdown
import Lwmsg.Doorbell
import Lwmsg.RegistrationListener
import Lwmsg.Gate
import Lwmsg.ServerMain
import Lwmsg.ServerThreads
