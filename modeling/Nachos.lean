import Nachos.Effects.Program
import Nachos.Effects.Bytes
import Nachos.Effects.Ownership
import Nachos.Effects.Runs
import Nachos.Effects.Chains
import Nachos.Effects.SlotTable
import Nachos.Threads.LockProofs
import Nachos.Threads.SynchList
import Nachos.Threads.Discipline
import Nachos.Threads.Destruction
import Nachos.Threads.Messages
import Nachos.Threads.Barrier
import Nachos.Threads.ThreadTable
import Nachos.Machine.SynchDisk
import Nachos.Machine.InterruptProofs
import Nachos.Machine.MipsSafety
import Nachos.Machine.MipsArithmetic
import Nachos.Machine.MipsDecode
import Nachos.Machine.MipsValues
import Nachos.Machine.Frames
import Nachos.Filesys.FreeMapExact
import Nachos.Filesys.Refinement
import Nachos.Filesys.WriteFrame
import Nachos.Filesys.MakeDirectory
import Nachos.Filesys.SharedFile
import Nachos.Filesys.OpenCounters
import Nachos.Filesys.BadPaths
import Nachos.Filesys.RefusedCreate
import Nachos.Filesys.Extension
import Nachos.Filesys.OutOfSpace
import Nachos.Filesys.FileAccess
import Nachos.Filesys.ReaderWriter
import Nachos.Filesys.DiskTurns
import Nachos.Filesys.DiskLinearizable
import Nachos.Filesys.Growth
import Nachos.Filesys.SharedReads
import Nachos.Network.PostOffice
import Nachos.Network.PostSteps
import Nachos.Network.Delivery
import Nachos.Network.MailTest
import Nachos.Userprog.Families
import Nachos.Userprog.SharedMemory
import Nachos.Userprog.UserCopies
import Nachos.Userprog.UserReads
import Nachos.Userprog.PagingAmongOthers
import Nachos.Userprog.Tlb
import Nachos.Userprog.TlbRecency
import Nachos.Userprog.Console
import Nachos.Userprog.PagedRestart
import Nachos.Userprog.Loading
import Nachos.Userprog.LoadingProofs
import Nachos.Userprog.SegmentLoading
import Nachos.Userprog.FirstTouch
import Nachos.Userprog.Installation
import Nachos.Userprog.Starvation
import Nachos.Userprog.StartProcess
import Nachos.Machine.CachePolicy
import Nachos.Machine.PendingOrder
import Nachos.Threads.LinkedList
import Nachos.Threads.LinkedListProofs
import Nachos.Filesys.BitMapSets
import Nachos.Filesys.DirectoryMap
import Nachos.Machine.DiskTiming
import Nachos.Userprog.Coff2noff
import Nachos.Userprog.Coff2noffProofs
import Nachos.Userprog.Conversion
import Nachos.Filesys.Paths
import Nachos.Filesys.PathLookup
import Nachos.Filesys.PathAgreement
import Nachos.Filesys.Reboot
import Nachos.Effects.HostFile
import Nachos.Machine.DiskFile
import Nachos.Filesys.Persistence
import Nachos.Machine.Timer
import Nachos.Filesys.FileTests
