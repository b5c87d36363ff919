import RkNand.Lib.Transition
import RkNand.Lib.OneEntryCache
import RkNand.Lib.Newest
import RkNand.Lib.Words
import RkNand.Lib.Chunks
import RkNand.Errno
import RkNand.Ftl.Format
import RkNand.Ftl.Readsect
import RkNand.Tools.L2pScan
import RkNand.Tools.L2pExtract
import RkNand.Tools.RouteA
import RkNand.Tools.ScanRule
import RkNand.Ftl.SameDisk
import RkNand.Blk.Request
import RkNand.Blk.Access
import RkNand.Lib.Ledger
import RkNand.Driver.Init
import RkNand.Driver.Contexts
import RkNand.Driver.Teardown
import RkNand.Lib.Mutex
import RkNand.Driver.Exclusion
import RkNand.Driver.GcFlush
import RkNand.Lib.Lifecycle
import RkNand.Driver.Queue
import RkNand.Driver.Provision
import RkNand.Driver.Completion
import RkNand.Driver.Irq
import RkNand.Lib.Crc
import RkNand.Tools.RkCrc
import RkNand.Lib.Struct
import RkNand.Lib.Text
import RkNand.Tools.Python
import RkNand.Tools.Rkparam
import RkNand.Tools.CrcBurst
import RkNand.Tools.WriteLoader
import RkNand.Tools.Upload
import RkNand.Lib.StreamCipher
import RkNand.Tools.Idblock
import RkNand.Tools.Rc4
import RkNand.Tools.BootContainer
import RkNand.Tools.MakeIdblock
import RkNand.Tools.WriteTest
import RkNand.Ftl.ExpandL2p
import RkNand.Ftl.Geometry
import RkNand.Lib.ScatterGather
import RkNand.Blk.Bounce
import RkNand.Lib.ByteMemory
import RkNand.Lib.Arm
import RkNand.Lib.LinkedList
import RkNand.Blob.Listing
import RkNand.Blob.Version
import RkNand.Blob.Address
import RkNand.Blob.BadBlocks
import RkNand.Lib.Ring
import RkNand.Blob.SysQueue
import RkNand.Blob.SysQueueCode
import RkNand.Blob.SysQueueRuns
import RkNand.Blob.Superblocks
import RkNand.Blob.FreeList
import RkNand.Blob.ListRemove
import RkNand.Blob.FreeListRuns
