import Packages.TimerPool.Conservation
import Packages.Ring.Fifo
import Packages.MemDistrict.Translation
import Packages.Ring.Refinement
import Packages.HashTable.Refinement
import Packages.Classifier.Loopback
import Packages.OrderedQueue.Locks
import Packages.CartService.Quantities
import Packages.Barrier.Progress
import Packages.Cores.Ownership
import Packages.HashTable.Runs
import Packages.SharedMemory.Leaks
import Packages.SharedMemory.Separation
import Packages.Packet.Capacity
import Packages.CartService.Isolation
import Packages.OrderService.Coherence
import Packages.HisiTimer.Delivery
import Packages.TicketLock.Order
import Packages.RwLock.Exclusion
import Packages.Classifier.Freshness
import Packages.PlainQueue.Refinement
import Packages.Scheduler.Registration
import Packages.BufferPool.Handles
import Packages.BufferPool.Names
import Packages.HisiTimer.Tick
import Packages.Packet.Segments
import Packages.Parser.Reads
import Packages.Parser.Completeness
import Packages.TimerPool.Expiry
import Packages.TimerPool.Notification
import Packages.TimerPool.Pools
import Packages.OrderedQueue.PacketOut
import Packages.HashTable.Layout
import Packages.Classifier.Terms
import Packages.Classifier.Sets
import Packages.Helper.Udp
import Packages.Helper.LinearTable
import Packages.Cores.NextCore
import Packages.CartService.Lines
import Packages.MemDistrict.HugePages
import Packages.Pktio.MmapRing
